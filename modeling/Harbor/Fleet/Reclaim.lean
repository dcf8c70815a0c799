import Harbor.Fleet.Moves

/-!
# The reaper takes back its own

A pass releases an address because of a heartbeat row.  `Release` is keyed by
the address alone, so the lease it takes is that of the device being reaped
only as long as every heartbeat row names the holder of its address.
-/

namespace Harbor.Fleet

open Function Library Ipam List

def LeasedTo (db : Database) (ip : Addr) (name : String) : Prop :=
  ∀ row ∈ db.allocations.rows, row.ip = ip → db.owner row = some name

instance (db : Database) (ip : Addr) (name : String) : Decidable (LeasedTo db ip name) := by
  unfold LeasedTo
  infer_instance

def Matched (db : Database) : Prop :=
  ∀ beat ∈ db.heartbeats.rows, LeasedTo db beat.overlayIP beat.deviceName

def Pass.awaiting : Pass → List Candidate
  | .select cands => cands
  | .reap .release _ target rest =>
    target.candidate :: rest.map Target.candidate
  | .reap _ _ _ rest => rest.map Target.candidate
  | _ => []

def Call.lessee : Call → Option (String × Int)
  | .beatPurge dev _ id | .beatInsert dev _ id => some (dev.deviceName, id)
  | .enrollPurge joiner id | .enrollPick joiner id => some (joiner.name, id)
  | .enrollInsert joiner id _ => some (joiner.name, id)
  | _ => none

def BetweenPasses (state : State) (event : Event) : Prop :=
  (state.inserts event).isSome = true → state.pass = .idle

instance (state : State) : DecidablePred (BetweenPasses state) := by
  intro event
  unfold BetweenPasses
  infer_instance

/-- An address is leased to a device only when no heartbeat row of another
device is left at it, and no host reports from an address that is leased to
another device. -/
def Vacated (state : State) (event : Event) : Prop :=
  (match state.inserts event with
    | some (ip, name, _) => ∀ beat ∈ state.db.heartbeats.rows,
        beat.overlayIP = ip → beat.deviceName = name
    | none => True) ∧
  match state.records event with
  | some beat => LeasedTo state.db beat.overlayIP beat.deviceName
  | none => True

instance (state : State) : DecidablePred (Vacated state) := by
  intro event
  unfold Vacated
  refine @instDecidableAnd _ _ ?_ ?_
  · split <;> infer_instance
  · split <;> infer_instance

structure Orderly (state : State) : Prop where
  matched : Matched state.db
  awaiting : ∀ c ∈ state.pass.awaiting, LeasedTo state.db c.overlayIP c.deviceName
  named : ∀ me name id, (state.calls me).lessee = some (name, id) →
    (state.db.devices.find id).map Device.name = some name

section

variable {cfg : Config} {now : Int} {db : Database}

theorem candidate_beat {c : Candidate} (mem : c ∈ loadCandidates cfg now db) :
    ∃ b ∈ db.heartbeats.rows, c.overlayIP = b.overlayIP ∧
      c.deviceName = b.deviceName ∧ c.lastSeen = b.lastSeen := by
  obtain ⟨b, had, made⟩ := mem_filterMap.mp (mem_dedupByHost mem)
  refine ⟨b, had, ?_⟩
  unfold candidate? at made
  split at made
  · cases made
  · split_ifs at made
    cases made
    exact ⟨rfl, rfl, rfl⟩

theorem target_reason (mem : tgt ∈ targets cfg now cs) : tgt.candidate ∈ cs ∧
      tgt.candidate.reason now cfg = some tgt.reason := by
  obtain ⟨c, had, made⟩ := mem_filterMap.mp mem
  split at made
  · cases made
  · rename_i reason hit
    split_ifs at made
    cases made
    exact ⟨had, hit⟩

theorem Pass.awaiting_next : (Pass.next now rest).awaiting = rest.map Target.candidate := by
  cases rest with
  | nil => rfl
  | cons => rfl

end

section

variable {config : Config} {state after : State} {event : Event}
variable {row : Allocation} {name : String}

theorem KeepsNames.owner {was after : Database} (ns : KeepsNames was after)
    (own : was.owner row = some name) : after.owner row = some name :=
  ns _ _ own

theorem step_lease (ran : config.step state event = some after)
    (mem : row ∈ after.db.allocations.rows) :
    (∃ old ∈ state.db.allocations.rows, old.ip = row.ip ∧ old.deviceID = row.deviceID) ∨
      ∃ name id, state.inserts event = some (row.ip, name, id) ∧ row.deviceID = id := by
  have move := step_allocations ran
  revert mem
  generalize after.db.allocations = allocs at move
  intro mem
  cases move with
  | same => exact .inl ⟨row, mem, rfl, rfl⟩
  | purged => exact .inl ⟨row, (mem_filter.mp mem).1, rfl, rfl⟩
  | released =>
    simp only [Database.release] at mem
    split_ifs at mem
    · exact .inl ⟨row, (mem_filter.mp mem).1, rfl, rfl⟩
    · obtain ⟨old, had, rfl⟩ := Table.mem_update.mp mem
      refine .inl ⟨old, had, ?_⟩
      split_ifs <;> exact ⟨rfl, rfl⟩
  | @inserted ip name id _ pos ins =>
    rw [(Table.insert?_eq_some ins).1] at mem
    rcases mem_append.mp mem with old | last
    · exact .inl ⟨row, old, rfl, rfl⟩
    · rw [mem_singleton] at last
      subst row
      exact .inr ⟨name, id, pos, rfl⟩

variable {ip : Addr}

theorem LeasedTo.step (lent : LeasedTo state.db ip name)
    (ran : config.step state event = some after)
    (own : ∀ alt id, state.inserts event = some (ip, alt, id) →
      (after.db.devices.find id).map Device.name = some name) : LeasedTo after.db ip name := by
  intro row mem eq
  rcases step_lease ran mem with ⟨old, had, ipEq, sameDevice⟩ | ⟨alt, id, pos, dev⟩
  · have owned := (step_keepsNames ran).owner (lent old had (ipEq.trans eq))
    rwa [Database.owner, ← sameDevice]
  · rw [Database.owner, dev]
    exact own alt id (eq ▸ pos)

theorem advance_lessee {t : Int} {db next : Database} {io : Io} {c goes : Call}
    (ran : (advanceBeat config t db io c).or (advanceEnroll t db config io c) = some (next, goes))
    {id : Int} (who : goes.lessee = some (name, id)) :
    c.lessee = some (name, id) ∨ (next.devices.find id).map Device.name = some name := by
  cases (advance_move ran).2 with
  | ensured dev exp made same | joins glue made same =>
    cases who
    exact .inr same
  | purged | picks | inserts | retries => exact .inl who
  | enrolled | owned | ownerless | leased | unasserted | records | releases
  | returns => cases who

theorem accept_lessee (req : Request) : (config.accept req).lessee = none := by
  cases req with
  | heartbeat => rfl
  | enroll glue =>
    simp only [Config.accept]
    split_ifs <;> rfl

theorem step_named (neat : Orderly state) (did : config.step state event = some after) :
    ∀ me name id, (after.calls me).lessee = some (name, id) →
      (after.db.devices.find id).map Device.name = some name := by
  have ns := step_keepsNames did
  have old : ∀ me name id, (state.calls me).lessee = some (name, id) →
      (after.db.devices.find id).map Device.name = some name :=
    fun me name id who => ns id name (neat.named me name id who)
  intro me name id who
  cases event with
  | request c req =>
    simp only [Config.step] at did
    split_ifs at did
    cases did
    by_cases mine : me = c
    · subst me
      simp only [update_self, accept_lessee] at who
      cases who
    · simp only [update_of_ne mine] at who
      exact old me name id who
  | statement c io =>
    simp only [Config.step] at did
    obtain ⟨⟨db, next⟩, ran, rfl⟩ := Option.map_eq_some_iff.mp did
    by_cases mine : me = c
    · subst me
      simp only [update_self] at who
      rcases advance_lessee ran who with was | made
      · exact old c name id was
      · exact made
    · simp only [update_of_ne mine] at who
      exact old me name id who
  | crash c =>
    cases did
    by_cases mine : me = c
    · subst me
      simp only [update_self] at who
      cases who
    · simp only [update_of_ne mine] at who
      exact old me name id who
  | tick now | startPass =>
    simp only [Config.step] at did
    split_ifs at did
    cases did
    exact old me name id who
  | passStatement f =>
    rw [(passStatement_move did).2.1] at who
    exact old me name id who
  | crashPass =>
    cases did
    exact old me name id who

theorem inserts_lessee {id : Int} (pos : state.inserts event = some (ip, name, id)) :
    ∃ me, (state.calls me).lessee = some (name, id) := by
  cases event with
  | statement me io =>
    refine ⟨me, ?_⟩
    simp only [State.inserts] at pos
    split at pos
    · rename_i c
      cases pos
      rw [c]
      rfl
    · rename_i c
      cases pos
      rw [c]
      rfl
    · cases pos
  | _ => cases pos

theorem advancePass_awaiting {t : Int} {db next : Database}
    {f : Fault} {pass goes : Pass} (ran : advancePass config t db f pass =
      some (next, goes)) {c : Candidate} (mem : c ∈ goes.awaiting) : c ∈ pass.awaiting ∨
      c ∈ loadCandidates config.withDefaults t db := by
  cases advancePass_passes ran with
  | ended => cases mem
  | loaded => exact .inr mem
  | selected cs =>
    rw [Pass.awaiting_next] at mem
    obtain ⟨tgt, io, rfl⟩ := mem_map.mp mem
    exact .inl (target_reason io).1
  | released => exact .inl (mem_cons_of_mem _ mem)
  | forgot => exact .inl mem
  | stamped =>
    rw [Pass.awaiting_next] at mem
    exact .inl mem

theorem step_awaiting (hop : config.step state event = some after)
    {c : Candidate} (mem : c ∈ after.pass.awaiting) : c ∈ state.pass.awaiting ∨
      c ∈ loadCandidates config.withDefaults state.clock state.db := by
  rcases step_pass hop with eq | started | ended | ⟨f, rfl⟩
  · rw [eq] at mem
    exact .inl mem
  · rw [started] at mem
    cases mem
  · rw [ended] at mem
    cases mem
  · exact advancePass_awaiting (passStatement_move hop).2.2.2 mem

theorem mem_record {db : Database} {beat row : Heartbeat}
    (mem : row ∈ (db.record beat).heartbeats.rows) : row = beat ∨ row ∈ db.heartbeats.rows := by
  simp only [Database.record] at mem
  rcases Table.mem_upsert mem with earlier | same | ⟨old, _, key, rfl⟩
  · exact .inr earlier
  · exact .inl same
  · left
    rw [key]

theorem step_beat (ran : config.step state event = some after)
    {row : Heartbeat} (mem : row ∈ after.db.heartbeats.rows) :
    row ∈ state.db.heartbeats.rows ∨ state.records event = some row := by
  have move := step_heartbeats ran
  revert mem
  generalize after.db.heartbeats = bs at move
  intro mem
  cases move with
  | same => exact .inl mem
  | forgotten => exact .inl (mem_filter.mp mem).1
  | recorded pos =>
    rcases mem_record mem with rfl | old
    · exact .inr pos
    · exact .inl old

theorem Orderly.step (neat : Orderly state)
    (between : BetweenPasses state event) (vacated : Vacated state event)
    (ran : config.step state event = some after) : Orderly after := by
  have same := step_named neat ran
  have owns : ∀ ip name id, state.inserts event = some (ip, name, id) →
      (after.db.devices.find id).map Device.name = some name := by
    intro ip name id pos
    obtain ⟨me, who⟩ := inserts_lessee pos
    exact step_keepsNames ran id name (neat.named me name id who)
  have bs : ∀ b ∈ state.db.heartbeats.rows, LeasedTo after.db b.overlayIP b.deviceName := by
    intro b had
    refine (neat.matched b had).step ran ?_
    intro alt id pos
    have free := vacated.1
    rw [pos] at free
    rw [free b had rfl]
    exact owns _ _ _ pos
  refine ⟨?_, ?_, same⟩
  · intro b mem
    rcases step_beat ran mem with old | recorded
    · exact bs b old
    · have said := vacated.2
      rw [recorded] at said
      refine LeasedTo.step said ran ?_
      intro alt id pos
      cases event with
      | statement me io =>
        simp only [State.records] at recorded
        simp only [State.inserts] at pos
        split at recorded
        · rename_i call
          rw [call] at pos
          cases pos
        · cases recorded
      | _ => cases recorded
  · intro c mem
    rcases step_awaiting ran mem with due | loaded
    · refine (neat.awaiting c due).step ran ?_
      intro alt id pos
      have idle := between (by rw [pos]; rfl)
      rw [idle] at due
      cases due
    · obtain ⟨b, had, ipEq, sameName, _⟩ := candidate_beat loaded
      rw [ipEq, sameName]
      exact bs b had

theorem release_changes {db : Database} {t : Int} (had : row ∈ db.allocations.rows)
    (edit : row ∉ (db.release config t ip).allocations.rows) : row.ip = ip := by
  by_contra ne
  apply edit
  simp only [Database.release]
  split_ifs
  · exact mem_filter.mpr ⟨had, by simpa using ne⟩
  · refine Table.mem_update.mpr ⟨row, had, ?_⟩
    simp [ne]

variable {db : Database} {clock : Int} {fault : Fault}

/-- In every run in which addresses are leased between passes and only once
vacated, every allocation row a pass deletes or quarantines belongs to the
device it is reaping. -/
theorem reaper_takes_own (matched : Matched db) (reached : Reaches config.step
      (fun state event => BetweenPasses state event ∧ Vacated state event) (.quiet db clock) state)
    (taken : config.step state (.passStatement fault) = some after) :
    ∀ row ∈ state.db.allocations.rows, row ∉ after.db.allocations.rows →
      ∃ now target rest, state.pass = .reap .release now target rest ∧
        state.db.owner row = some target.candidate.deviceName := by
  have orderly : Orderly state := by
    refine reached.invariant Orderly ?_ ?_
    · refine ⟨matched, ?_, ?_⟩
      · intro c member
        cases member
      · intro me name id lessee
        cases lessee
    · rintro before next event kept ⟨between, vacated⟩ moved
      exact kept.step between vacated moved
  intro row present changed
  rcases (passStatement_move taken).1.allocations with same | ⟨now, target, rest, position, moved⟩
  · rw [same] at changed
    exact (changed present).elim
  · rw [moved] at changed
    refine ⟨now, target, rest, position, ?_⟩
    refine orderly.awaiting target.candidate ?_ row present (release_changes present changed)
    rw [position]
    exact List.mem_cons_self

end

namespace Example

def config : Config where
  pool _ := true
  central _ := false

def statements (call count : Nat) (ip : Addr) : List Event :=
  List.replicate count (.statement call { ip := ip })

def enroll (call : Nat) (name : String) (ip : Addr) : List Event :=
  .request call (.enroll { name := name }) :: statements call 5 ip

def heartbeat (call : Nat) (ip : Addr) : List Event :=
  .request call (.heartbeat ip 1) :: statements call 3 ip

def silence : List Event :=
  enroll 0 "alice" 10 ++ heartbeat 1 10 ++ [.tick (8 * 24 * hour)]

def start : State := .quiet .empty 0

def run (events : List Event) : State :=
  (runEvents config.step start events).getD start

def approach : List Event :=
  .startPass :: List.replicate 2 (.passStatement .ok)

def caught : State :=
  run (silence ++ approach)

def reclaimed : State :=
  run (silence ++ approach ++ [.passStatement .ok])

def handedOn : List Event :=
  silence ++ approach ++ [.passStatement .ok, .crashPass] ++ enroll 2 "bob" 10 ++ approach

end Example

open Example

theorem reaper_takes_own_silent_host : reclaimed.db.allocations.rows = [] ∧
      ∃ row ∈ caught.db.allocations.rows, ∃ now target rest,
        caught.pass = .reap .release now target rest ∧ caught.db.owner row =
            some target.candidate.deviceName := by
  have reached : Reaches config.step
      (fun state event => BetweenPasses state event ∧ Vacated state event)
      start caught :=
    reaches_getD (silence ++ approach) start (by decide)
  have taken : config.step caught (.passStatement .ok) =
      some reclaimed := by
    rfl
  have row : leaseRow 0 10 1 ∈ caught.db.allocations.rows := by
    decide
  have released : reclaimed.db.allocations.rows = [] := by
    decide
  have matched : Matched Database.empty := by
    intro beat member
    cases member
  refine ⟨released, _, row, ?_⟩
  refine reaper_takes_own matched reached taken _ row ?_
  rw [released]
  exact List.not_mem_nil

/-- A pass crashes after the release, the address is leased to another device,
and the next pass takes that lease for the host that is gone. -/
theorem crashed_pass_takes_new_lease :
    ¬ ∀ (config : Config) (db : Database) (clock : Int) (state after : State)
        (fault : Fault), Matched db → Reaches config.step BetweenPasses (.quiet db clock) state →
      config.step state (.passStatement fault) = some after →
      ∀ row ∈ state.db.allocations.rows, row ∉ after.db.allocations.rows →
        ∃ now target rest, state.pass = .reap .release now target rest ∧
          state.db.owner row = some target.candidate.deviceName := by
  intro claim
  let state := run handedOn
  let after := run (handedOn ++ [.passStatement .ok])
  have reached : Reaches Example.config.step BetweenPasses start
      state :=
    reaches_getD handedOn start (by decide)
  have taken : Example.config.step state (.passStatement .ok) =
      some after := by
    rfl
  have rows : state.db.allocations.rows = [leaseRow (8 * 24 * hour) 10 2] := by
    decide
  have released : after.db.allocations.rows = [] := by
    decide
  have matched : Matched Database.empty := by
    intro beat member
    cases member
  obtain ⟨now, target, rest, position, owned⟩ := claim _ _ _ state after .ok
    matched reached taken (leaseRow (8 * 24 * hour) 10 2) (by rw [rows]; exact List.mem_cons_self)
    (by rw [released]; exact List.not_mem_nil)
  have reaping : (state.pass.awaiting.map Candidate.deviceName) = ["alice"] := by
    decide
  rw [position] at reaping
  have holder : state.db.owner (leaseRow (8 * 24 * hour) 10 2) = some "bob" := by
    decide
  rw [holder] at owned
  simp only [Pass.awaiting, List.map_cons, List.cons.injEq] at reaping
  rw [reaping.1] at owned
  revert owned
  decide

end Harbor.Fleet
