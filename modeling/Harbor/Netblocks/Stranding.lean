import Harbor.Netblocks.Layout

/-!
# Stranded addresses

Remove and Update ask for the live addresses of a block before they write.  An
address that becomes live in between is not seen, and a Remove deletes the
block by its name, whatever its range has become.  When every write still finds
only what its guard saw, no live address loses its block.
-/

namespace Harbor.Netblocks

open Library Library.Service Ipam

def Live (world : World) (ip : Addr) : Prop :=
  ip ∈ world.store.allocations.liveAddrs world.now

def Covered (blocks : Blocks) (ip : Addr) : Prop :=
  ∃ block ∈ blocks.rows, block.range.contains ip = true

def Seen (world : World) (choice : Choice) (selected : Netblock → Bool)
    (old : Prefix) (live : Option (List Addr)) : Prop :=
  choice.base.fault ≠ .failed → ∀ block ∈ world.netblocks.rows, selected block = true →
      ∀ ip ∈ world.store.allocations.liveAddrs (world.tick choice).now,
        block.range.contains ip = true → old.contains ip = true ∧ ∀ addrs ∈ live, ip ∈ addrs

def Guarded (world : World) (choice : Choice) : Statement → Prop
  | .setCIDR name old _ _ _ live =>
    Seen world choice (Blocks.isBlock name old) old live
  | .delete name old live =>
    Seen world choice (fun block => block.name == name) old live
  | _ => True

instance (world : World) (choice : Choice) (selected : Netblock → Bool)
    (old : Prefix) (live : Option (List Addr)) : Decidable (Seen world choice selected old live) :=
  inferInstanceAs (Decidable (_ → ∀ block ∈ _, _ → ∀ ip ∈ _, _ → _))

instance (world : World) (choice : Choice) : DecidablePred (Guarded world choice)
  | .setCIDR name old _ _ _ live =>
    inferInstanceAs (Decidable (Seen world choice (Blocks.isBlock name old) old live))
  | .delete name old live =>
    inferInstanceAs (Decidable (Seen world choice (fun block => block.name == name) old live))
  | .store _ | .clock | .list | .get _ | .create _ _ | .liveAddrs
  | .readCache _ | .publish _ _ _ | .invalidate _ => .isTrue trivial

def guarding : Permit (Nat × Request) Statement World Choice where
  executes := fun world _ _ statement choice => Guarded world choice statement

def KeepsLive (config : Config) (env : Consumer.Env) (ip : Addr)
    (state : State (Nat × Request) Statement Statement.Answer Response World)
    (event : Event (Nat × Request) Choice) : Prop :=
  ∀ after ∈ (system config env).step state event, Live after.world ip

instance (world : World) (request : Nat × Request) : Decidable (guarding.opens world request) :=
  .isTrue trivial

instance (world : World) (active : Nat → Option (Nat × Request)) (call : Nat)
    (statement : Statement) (choice : Choice) :
    Decidable (guarding.executes world active call statement choice) :=
  inferInstanceAs (Decidable (Guarded world choice statement))

instance : Decidable guarding.crashes :=
  .isTrue trivial

instance (world : World) : DecidablePred (Live world) :=
  fun ip => inferInstanceAs (Decidable (ip ∈ _))

instance (blocks : Blocks) : DecidablePred (Covered blocks) :=
  fun _ => inferInstanceAs (Decidable (∃ block ∈ blocks.rows, _))

instance (config : Config) (env : Consumer.Env) (ip : Addr)
    (state : State (Nat × Request) Statement Statement.Answer Response World) :
    DecidablePred (KeepsLive config env ip state) :=
  fun event => inferInstanceAs (Decidable
    (∀ after ∈ (system config env).step state event, Live after.world ip))

section

variable {pool : Prefix} {rsv : List Addr} {env : Consumer.Env}
  {pick : Choice} {w : World} {ip : Addr}

theorem live_of_database {V : Type} {val : V} {new : World}
    (live : Live ((w.tick pick).database pick val new).2 ip)
    (allocs : new.store = w.store) (time : new.now = (w.tick pick).now) :
    ip ∈ w.store.allocations.liveAddrs (w.tick pick).now := by
  rcases database_snd (w.tick pick) pick val new with same | same
  · rw [same] at live
    exact live
  · rw [same.2, Live, allocs, time] at live
    exact live

theorem Covered.setCIDR {n : String} {old new : Prefix} {desc : Option String}
    (cov : Covered w.netblocks ip) (kept : ∀ blk ∈ w.netblocks.rows,
      Blocks.isBlock n old blk = true → blk.range.contains ip = true → new.contains ip = true) :
    Covered (w.netblocks.setCIDR n old new desc) ip := by
  obtain ⟨blk, had, contains⟩ := cov
  refine ⟨_, Blocks.mem_setCIDR.mpr ⟨blk, had, rfl⟩, ?_⟩
  split
  · rename_i hit
    show new.masked.contains ip = true
    rw [Prefix.masked_contains]
    exact kept blk had hit contains
  · exact contains

theorem Covered.execute {s : Statement} (cov : Covered w.netblocks ip)
    (clears : Clears pool rsv true s) (safe : Guarded w pick s)
    (live : Live (execute env pick w s).2 ip) : Covered (execute env pick w s).2.netblocks ip := by
  have rewrites := execute_rewrites env pick w s
  generalize (Netblocks.execute env pick w s).2.netblocks = after at rewrites ⊢
  cases rewrites with
  | same => exact cov
  | created eff made =>
    obtain ⟨blk, had, contains⟩ := cov
    refine ⟨blk, ?_, contains⟩
    rw [(Blocks.rows_create? made).1]
    exact List.mem_append_left _ had
  | @recut n old new desc compared addrs eff =>
    have wrote : Live ((w.tick pick).database pick
        (w.netblocks.table.affected (Blocks.isBlock n old))
        ((w.tick pick).setCIDR n old new desc)).2 ip := live
    have was := live_of_database wrote rfl rfl
    have saw : Seen w pick (Blocks.isBlock n old) old addrs := safe
    refine cov.setCIDR ?_
    intro blk had hit contains
    obtain ⟨ins, seen⟩ := saw eff blk had hit ip was contains
    exact clears.2.2 rfl ip ins seen
  | @deleted n old addrs eff =>
    have wrote : Live ((w.tick pick).database pick () ((w.tick pick).delete n)).2 ip := live
    obtain ⟨blk, had, contains⟩ := cov
    refine ⟨blk, Blocks.mem_delete.mpr ⟨had, ?_⟩, contains⟩
    intro eq
    have saw : Seen w pick (fun blk => blk.name == n) old
        addrs := safe
    obtain ⟨ins, seen⟩ := saw eff blk had
      (by simpa using eq) ip (live_of_database wrote rfl rfl) contains
    exact clears rfl ip ins seen

end

/-- With the stranding guard wired, in every run in which each Remove and each
Update finds at its write only live addresses its guard has seen, an address
that is inside some netblock stays inside some netblock as long as it is
live. -/
theorem live_address_keeps_netblock {config : Config} {env : Consumer.Env}
    {start : World} {ip : Addr}
    {middle finish :
      State (Nat × Request) Statement Statement.Answer Response World}
    (wired : ∀ process, config.allocs process = true)
    (made : Reaches (system config env).step guarding.Allows (State.quiet start) middle)
    (covered : Covered middle.world.netblocks ip) (kept : Reaches (system config env).step
      (fun state event => guarding.Allows state event ∧
        KeepsLive config env ip state event) middle finish) :
    Covered finish.world.netblocks ip := by
  have follows : ∀ job : Nat × Request, ((system config env).procedure job).Follows
        (Discipline.always (Clears config.pool.masked config.reserved true)) () fun _ _ => True :=
    fun job => handle_issues (fun process _ => wired process) job.1 job.2
  obtain ⟨stages, _, staged⟩ := staged_of_reaches follows
    (fun _ _ => True) (fun _ => .idle) trivial (fun _ _ => trivial) made
  refine And.left (kept.invariant (fun state =>
    Covered state.world.netblocks ip ∧
      ∃ stages, ∀ call, Staged (fun _ _ _ => True) (state.calls call)
        (stages call)) ⟨covered, stages, staged⟩ ?_)
  rintro before after event ⟨held, current, currentStaged⟩ ⟨allowed, live⟩ taken
  obtain ⟨next, move, nextStaged⟩ :=
    step_staged follows currentStaged allowed taken
  refine ⟨?_, next, nextStaged⟩
  have stillLive := live after taken
  generalize after.world = world at move stillLive ⊢
  cases move with
  | begin | finish | crash => exact held
  | execute running clears guarded =>
    exact held.execute clears guarded stillLive

namespace Example

def firstAddr : Addr :=
  167772161

def allocating : List (Event (Nat × Request) Choice) :=
  .begin 1 (0, .allocate "host" "a" "token") :: List.replicate 10 (.step 1 {})

def crossedRemove : List (Event (Nat × Request) Choice) :=
  [.begin 0 (0, .remove "a"), .step 0 {}, .step 0 {}] ++ allocating

def widening : List (Event (Nat × Request) Choice) :=
  .begin 0 (0, .update "a" (some first) "") :: List.replicate 5 (.step 0 {})

def after (cidr : Prefix) (events : List (Event (Nat × Request) Choice)) :
    State (Nat × Request) Statement Statement.Answer Response World :=
  (runEvents (system config env).step (State.quiet (carved cidr)) events).getD
    (State.quiet (carved cidr))

end Example

open Example

/-- A Remove deletes the block in which an address has been allocated since its
guard looked. -/
theorem crossed_remove_strands : ∃ middle finish, Reachable (system config env).step
        (State.quiet (carved first)) middle ∧ Live middle.world firstAddr ∧
      Covered middle.world.netblocks firstAddr ∧ Reaches (system config env).step
        (KeepsLive config env firstAddr) middle finish ∧
      ¬Covered finish.world.netblocks firstAddr := by
  have executed : (runEvents (guarded (system config env).step (KeepsLive config env firstAddr))
      (after first crossedRemove) [.step 0 {}]).map
      (fun state => decide (Covered state.world.netblocks firstAddr)) =
      some false := by
    decide
  obtain ⟨finish, ran, uncovered⟩ := Option.map_eq_some_iff.mp executed
  exact ⟨_, finish, reachable_getD crossedRemove _ (by decide), by decide, by decide,
    reaches_of_runEvents ran, of_decide_eq_false uncovered⟩

theorem live_address_keeps_netblock_update : ∃ middle finish, Live middle.world firstAddr ∧
      Reaches (system config env).step (fun state event => guarding.Allows state event ∧
          KeepsLive config env firstAddr state event) middle finish ∧
      (∀ row ∈ finish.world.netblocks.rows, row.cidr = first) ∧
      Covered finish.world.netblocks firstAddr := by
  have before : (runEvents (guarded (system config env).step guarding.Allows)
      (State.quiet (carved firstHalf)) allocating).isSome = true := by
    decide
  obtain ⟨middle, made⟩ := Option.isSome_iff_exists.mp before
  have same : after firstHalf allocating = middle := by
    unfold after
    rw [runEvents_of_guarded made, Option.getD_some]
  have executed : (runEvents (guarded (system config env).step
      (fun state event => guarding.Allows state event ∧ KeepsLive config env firstAddr state event))
      (after firstHalf allocating) widening).map
      (fun state => decide (∀ row ∈ state.world.netblocks.rows, row.cidr = first)) = some true := by
    decide
  obtain ⟨finish, ran, widened⟩ := Option.map_eq_some_iff.mp executed
  have live : Live (after firstHalf allocating).world firstAddr := by
    decide
  have covered : Covered (after firstHalf allocating).world.netblocks firstAddr := by
    decide
  rw [same] at ran live covered
  have kept := reaches_of_runEvents ran
  exact ⟨middle, finish, live, kept, of_decide_eq_true widened,
    live_address_keeps_netblock (fun _ => rfl) (reaches_of_runEvents made) covered kept⟩

end Harbor.Netblocks
