import Harbor.Netblocks.Checks

/-!
# Disjointness of the netblocks

A mutation compares its range with the rows it has listed and then writes.  As
long as every write still finds only rows it has compared with, the table keeps
its layout; two calls that list before either writes can break it.
-/

namespace Harbor.Netblocks

open Library Library.Service Ipam

inductive Rewrites (blocks : Blocks) (choice : Choice) : Statement → Blocks → Prop where
  | same (statement : Statement) : Rewrites blocks choice statement blocks
  | created {row : Netblock} {compared : List Prefix} {after : Blocks} :
      choice.base.fault ≠ .failed → blocks.create? row = some after →
      Rewrites blocks choice (.create row compared) after
  | recut {name : String} {old new : Prefix} {description : Option String}
      {compared : List Prefix} {live : Option (List Addr)} : choice.base.fault ≠ .failed →
      Rewrites blocks choice (.setCIDR name old new description compared live)
        (blocks.setCIDR name old new description)
  | deleted {name : String} {old : Prefix} {live : Option (List Addr)} :
      choice.base.fault ≠ .failed →
      Rewrites blocks choice (.delete name old live) (blocks.delete name)

theorem database_snd {V : Type} (w : World) (io : Choice)
    (val : V) (new : World) : (w.database io val new).2 = w ∨
      io.base.fault ≠ .failed ∧ (w.database io val new).2 = new :=
  Fault.settle_snd _ _ _ _

@[simp]
theorem database_read {V : Type} (w : World) (io : Choice)
    (val : V) : (w.database io val w).2 = w := by
  rcases database_snd w io val w with eq | ⟨_, eq⟩ <;>
    exact eq

theorem execute_rewrites (env : Consumer.Env) (io : Choice) (w : World)
    (s : Statement) : Rewrites w.netblocks io s (execute env io w s).2.netblocks := by
  cases s with
  | store s | clock => exact .same _
  | list | get n | liveAddrs =>
    show Rewrites _ _ _ ((w.tick io).database _ _ _).2.netblocks
    rw [database_read]
    exact .same _
  | create row compared =>
    show Rewrites _ _ _ ((w.tick io).create io row).2.netblocks
    unfold World.create
    rcases Fault.settle_snd _ _ _ _ with eq | ⟨eff, edit⟩
    · rw [eq]
      exact .same _
    · rw [edit]
      split
      · rename_i bs made
        exact .created eff made
      · exact .same _
  | setCIDR n old new desc compared live =>
    show Rewrites _ _ _ ((w.tick io).database _ _ _).2.netblocks
    rcases database_snd _ _ _ _ with eq | ⟨eff, edit⟩
    · rw [eq]
      exact .same _
    · rw [edit]
      exact .recut eff
  | delete n old live =>
    show Rewrites _ _ _ ((w.tick io).database _ _ _).2.netblocks
    rcases database_snd _ _ _ _ with eq | ⟨eff, edit⟩
    · rw [eq]
      exact .same _
    · rw [edit]
      exact .deleted eff
  | readCache p =>
    show Rewrites _ _ _ (if io.evicted then _ else _ : World).netblocks
    split <;> exact .same _
  | publish p gen rs =>
    show Rewrites _ _ _ ((w.tick io).publish p gen rs).netblocks
    unfold World.publish
    split <;> exact .same _
  | invalidate p => exact .same _

structure Laid (pool : Prefix) (reserved : List Addr) (blocks : Blocks) : Prop where
  disjoint : ∀ left ∈ blocks.rows, ∀ right ∈ blocks.rows, left ≠ right →
    left.range.overlaps right.range = false
  inside : ∀ row ∈ blocks.rows, prefixInside row.range pool = true
  unreserved : ∀ row ∈ blocks.rows, ∀ ip ∈ reserved, row.range.contains ip = false

section

variable {pool : Prefix} {rsv : List Addr} {bs fin : Blocks}

theorem overlaps_eq_false {l r : Prefix} : l.overlaps r = false ↔
      ∀ ip, l.contains ip = true → r.contains ip = false := by
  rw [← Bool.not_eq_true, Prefix.overlaps_iff]
  simp

theorem Laid.subset (laid : Laid pool rsv bs)
    (less : ∀ row ∈ fin.rows, row ∈ bs.rows) : Laid pool rsv fin where
  disjoint := fun l memL r memR =>
    laid.disjoint l (less l memL) r (less r memR)
  inside := fun row mem => laid.inside row (less row mem)
  unreserved := fun row mem => laid.unreserved row (less row mem)

theorem Laid.replace (laid : Laid pool rsv bs) (edit : Netblock)
    (rs : ∀ row ∈ fin.rows, row = edit ∨ row ∈ bs.rows ∧ row.name ≠ edit.name)
    (lies : prefixInside edit.range pool = true)
    (free : ∀ ip, edit.range.contains ip = true → ip ∉ rsv ∧
      ∀ alt ∈ bs.rows, alt.name ≠ edit.name → alt.range.contains ip = false) :
    Laid pool rsv fin where
  disjoint := by
    intro l memL r memR ne
    rw [overlaps_eq_false]
    intro ip inLeft
    rcases rs l memL with rfl | ⟨leftOld, leftName⟩ <;>
      rcases rs r memR with rfl | ⟨rightOld, rightName⟩
    · exact absurd rfl ne
    · exact (free ip inLeft).2 r rightOld rightName
    · rw [← Bool.not_eq_true]
      intro inRight
      have off := (free ip inRight).2 l leftOld leftName
      rw [off] at inLeft
      cases inLeft
    · exact overlaps_eq_false.mp (laid.disjoint l leftOld r rightOld ne) ip inLeft
  inside := by
    intro row mem
    rcases rs row mem with rfl | ⟨old, _⟩
    · exact lies
    · exact laid.inside row old
  unreserved := by
    intro row mem ip isReserved
    rcases rs row mem with rfl | ⟨old, _⟩
    · rw [← Bool.not_eq_true]
      intro contained
      exact (free ip contained).1 isReserved
    · exact laid.unreserved row old ip isReserved

end

def Compared (blocks : Blocks) (choice : Choice) : Statement → Prop
  | .create row compared =>
    choice.base.fault ≠ .failed → ∀ other ∈ blocks.rows,
      other.name ≠ row.name → other.range ∈ compared
  | .setCIDR name _ _ _ compared _ =>
    choice.base.fault ≠ .failed → ∀ other ∈ blocks.rows, other.name ≠ name → other.range ∈ compared
  | _ => True

instance (blocks : Blocks) (choice : Choice) : DecidablePred (Compared blocks choice)
  | .create _ _ | .setCIDR _ _ _ _ _ _ =>
    inferInstanceAs (Decidable (_ → ∀ other ∈ blocks.rows, _ → _))
  | .store _ | .clock | .list | .get _ | .delete _ _ _ | .liveAddrs
  | .readCache _ | .publish _ _ _ | .invalidate _ => .isTrue trivial

def comparing : Permit (Nat × Request) Statement World Choice where
  executes := fun world _ _ statement choice =>
    Compared world.netblocks choice statement

instance (world : World) (request : Nat × Request) : Decidable (comparing.opens world request) :=
  .isTrue trivial

instance (world : World) (active : Nat → Option (Nat × Request)) (call : Nat)
    (statement : Statement) (choice : Choice) :
    Decidable (comparing.executes world active call statement choice) :=
  inferInstanceAs (Decidable (Compared world.netblocks choice statement))

instance : Decidable comparing.crashes :=
  .isTrue trivial

section

variable {pool : Prefix} {rsv : List Addr} {wired : Bool}
  {bs fin : Blocks} {io : Choice}

theorem Laid.create (laid : Laid pool rsv bs) (eff : io.base.fault ≠ .failed)
    (made : bs.create? row = some fin) (clears : Clears pool rsv wired (.create row compared))
    (full : Compared bs io (.create row compared)) :
    Laid pool rsv fin := by
  obtain ⟨rs, away⟩ := Blocks.rows_create? made
  obtain ⟨lies, vacant⟩ := clears
  refine laid.replace { row with id := bs.lastID + 1 } ?_ lies ?_
  · intro alt mem
    rw [rs, List.mem_append, List.mem_singleton] at mem
    rcases mem with old | new
    · exact .inr ⟨old, Table.find_eq_none_iff.mp away alt old⟩
    · exact .inl new
  · intro ip contained
    obtain ⟨fr, off⟩ := vacant ip contained
    exact ⟨fr, fun alt mem ne =>
      off _ (full eff alt mem ne)⟩

theorem Laid.setCIDR (laid : Laid pool rsv bs) (eff : io.base.fault ≠ .failed)
    (clears : Clears pool rsv wired (.setCIDR name old new desc compared live))
    (full : Compared bs io (.setCIDR name old new desc compared live)) :
    Laid pool rsv (bs.setCIDR name old new desc) := by
  obtain ⟨lies, added, _⟩ := clears
  by_cases hit : ∃ blk ∈ bs.rows, Blocks.isBlock name old blk = true
  · obtain ⟨blk, had, matched⟩ := hit
    have named : blk.name = name ∧ blk.cidr = old := by
      simpa [Blocks.isBlock] using matched
    refine laid.replace (Blocks.recut new desc blk) ?_ lies ?_
    · intro row mem
      obtain ⟨earlier, has, rfl⟩ := Blocks.mem_setCIDR.mp mem
      by_cases same : earlier.name = name
      · left
        have one : earlier = blk := bs.table.row_eq_of_key_eq has had (same.trans named.1.symm)
        rw [one, if_pos matched]
      · right
        have miss : ¬Blocks.isBlock name old earlier = true := by
          simp [Blocks.isBlock, same]
        rw [if_neg miss]
        exact ⟨has, fun equal => same (equal.trans named.1)⟩
    · intro ip contained
      have inNew : new.contains ip = true := (Prefix.masked_contains new ip).symm.trans contained
      rcases added ip inNew with kept | ⟨free, apart⟩
      · have inBlock : blk.range.contains ip = true := by
          rw [Netblock.range, Prefix.masked_contains, named.2]
          exact kept
        refine ⟨?_, ?_⟩
        · intro isReserved
          have outside := laid.unreserved blk had ip isReserved
          rw [outside] at inBlock
          cases inBlock
        · intro alt mem ne
          have uniq : blk ≠ alt := by
            rintro rfl
            exact ne rfl
          exact overlaps_eq_false.mp (laid.disjoint blk had alt mem uniq) ip inBlock
      · refine ⟨free, fun alt mem ne => ?_⟩
        exact apart _ (full eff alt mem fun equal => ne (equal.trans named.1.symm))
  · refine laid.subset ?_
    intro row mem
    obtain ⟨earlier, has, rfl⟩ := Blocks.mem_setCIDR.mp mem
    rw [if_neg fun matched => hit ⟨earlier, has, matched⟩]
    exact has

theorem Laid.execute {env : Consumer.Env} {w : World}
    {s : Statement} (laid : Laid pool rsv w.netblocks)
    (clears : Clears pool rsv wired s) (full : Compared w.netblocks io s) :
    Laid pool rsv (execute env io w s).2.netblocks := by
  have rewrites := execute_rewrites env io w s
  generalize (Netblocks.execute env io w s).2.netblocks = fin at rewrites ⊢
  cases rewrites with
  | same => exact laid
  | created eff made => exact laid.create eff made clears full
  | recut eff => exact laid.setCIDR eff clears full
  | deleted eff => exact laid.subset fun row mem => (Blocks.mem_delete.mp mem).1

end

/-- In every run in which each write of a range finds only blocks it has been
compared with, the netblocks stay pairwise disjoint, inside the pool and free
of reserved addresses. -/
theorem netblocks_stay_disjoint {config : Config} {env : Consumer.Env} {start : World}
    {finish : State (Nat × Request) Statement Statement.Answer Response World}
    (laid : Laid config.pool.masked config.reserved start.netblocks)
    (reached : Reaches (system config env).step comparing.Allows (State.quiet start) finish) :
    Laid config.pool.masked config.reserved finish.world.netblocks := by
  have follows : ∀ job : Nat × Request, ((system config env).procedure job).Follows
        (Discipline.always (Clears config.pool.masked config.reserved false)) () fun _ _ => True :=
    fun job => handle_issues (by rintro _ ⟨⟩) job.1 job.2
  refine Exists.elim (staged_of_reaches follows
    (fun world _ => Laid config.pool.masked config.reserved world.netblocks)
    (fun _ => .idle) laid ?_ reached) fun _ ended => ended.1
  intro world next before after held move
  cases move with
  | begin | finish | crash => exact held
  | execute running clears complete => exact held.execute clears complete

namespace Example

def cidr (offset bits : Nat) : Prefix where
  addr := (167772160 + offset) % 2 ^ 32
  bits := min bits 32
  addr_lt := Nat.mod_lt _ (Nat.two_pow_pos 32)
  bits_le := Nat.min_le_right bits 32

def pool : Prefix :=
  cidr 0 16

def first : Prefix :=
  cidr 0 24

def firstHalf : Prefix :=
  cidr 0 25

def second : Prefix :=
  cidr 256 24

def config : Config where
  pool := pool
  allocator := fun _ => { pool := pool }

def env : Consumer.Env where
  signJWS := fun _ bundle => bundle.certificate
  mac := fun _ => []
  maxAttempts := 5
  replayTTL := 600

def store : Consumer.World where
  enrollments := .empty
  joinKeys := .empty
  nonces := .empty
  devices := .empty
  allocations := .empty
  items := .empty
  results := .empty
  delivered := []
  acked := []

def blank : World where
  store := store
  netblocks := ⟨.empty, 0, .nil, by rintro _ ⟨⟩⟩

/-- One named block. -/
def carved (cidr : Prefix) : World where
  store := store
  netblocks :=
    { table := ⟨[{ id := 1, name := "a", cidr := cidr, kind := .named }],
        List.nodup_singleton _⟩
      lastID := 1
      ascending := List.pairwise_singleton _ _
      bounded := fun row member => by rw [List.mem_singleton.mp member] }

theorem laid_blank : Laid config.pool.masked config.reserved blank.netblocks where
  disjoint := by rintro _ ⟨⟩
  inside := by rintro _ ⟨⟩
  unreserved := by rintro _ ⟨⟩

def adding (process : Nat) (name : String) (cidr : Prefix) : Nat × Request :=
  (process, .add name (some cidr) "" "admin")

def crossedAdds : List (Event (Nat × Request) Choice) :=
  [.begin 0 (adding 0 "a" first), .begin 1 (adding 1 "b" firstHalf), .step 0 {}, .step 1 {}] ++
    List.replicate 2 (.step 0 {}) ++ List.replicate 2 (.step 1 {})

def orderedAdds : List (Event (Nat × Request) Choice) :=
  .begin 0 (adding 0 "a" first) :: List.replicate 5 (.step 0 {}) ++
    .begin 1 (adding 1 "b" second) :: List.replicate 5 (.step 1 {})

end Example

open Example

/-- Two concurrent calls of Add give the same addresses to two blocks. -/
theorem crossed_adds_overlap : ∃ finish, Laid config.pool.masked config.reserved
        blank.netblocks ∧ Reachable (system config env).step
        (State.quiet blank) finish ∧ ∃ left ∈ finish.world.netblocks.rows,
        ∃ right ∈ finish.world.netblocks.rows,
          left ≠ right ∧ left.range.overlaps right.range = true :=
  ⟨_, laid_blank, reachable_getD crossedAdds (State.quiet blank) (by decide), by decide⟩

theorem netblocks_stay_disjoint_ordered_adds : ∃ finish, Reaches (system config env).step
        comparing.Allows (State.quiet blank) finish ∧ finish.world.netblocks.rows.length = 2 ∧
      Laid config.pool.masked config.reserved
        finish.world.netblocks := by
  have executed : (runEvents (guarded (system config env).step comparing.Allows)
      (State.quiet blank) orderedAdds).map
      (fun state => state.world.netblocks.rows.length) = some 2 := by
    decide
  obtain ⟨finish, ran, length⟩ := Option.map_eq_some_iff.mp executed
  have reached := reaches_of_runEvents ran
  exact ⟨finish, reached, length, netblocks_stay_disjoint laid_blank reached⟩

end Harbor.Netblocks
