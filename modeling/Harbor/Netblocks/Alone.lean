import Harbor.Library.Alone
import Harbor.Netblocks.Layout

/-!
# Registry calls that run alone

What the reads of a registry and `Grow` do when no other call's statement comes
in between.  The environment keeps to permitted choices; it is faultless when
these make no statement fail.
-/

namespace Harbor.Netblocks

open Library Library.Procedure Ipam List

def Faultless (permits : Choice → Prop) : Prop :=
  ∀ choice, permits choice → choice.base.fault = .ok

def FreshCache (world : World) (process : Nat) : Prop :=
  ∀ rows ∈ world.caches process, rows = world.netblocks.listed

theorem now_le_tick (w : World) (io : Choice) : w.now ≤ (w.tick io).now :=
  Int.le_add_of_nonneg_right (Int.natCast_nonneg _)

theorem database_now {Value : Type} {world after : World} (choice : Choice)
    (value : Value) (kept : after.now = world.now) :
    (world.database choice value after).2.now = world.now := by
  unfold World.database
  rcases Fault.settle_snd choice.base.fault (Except.error choice.base.text) world
    (Except.ok value, after) with same | ⟨_, changed⟩
  · rw [same]
  · rw [changed, kept]

/-- Only the passing of time between statements moves the clock. -/
theorem perform_now (env : Consumer.Env) (choice : Choice) (world : World)
    (statement : Statement) :
    (perform env choice world statement).2.now = world.now := by
  cases statement with
  | store | clock | invalidate => rfl
  | list | get | setCIDR | delete | liveAddrs =>
    exact database_now choice _ rfl
  | create row =>
    show (world.create choice row).2.now = world.now
    unfold World.create
    cases choice.base.fault <;> simp only [Fault.settle] <;> split <;> rfl
  | readCache process =>
    simp only [perform]
    split <;> rfl
  | publish process generation rows =>
    simp only [perform, World.publish]
    split <;> rfl

theorem now_le_of_outcome {Value : Type} {env : Consumer.Env}
    {permits : Choice → Prop} {run : Run Value} {world after : World}
    {value : Value}
    (outcome : Outcome (execute env) permits run world value after) :
    world.now ≤ after.now := by
  induction outcome with
  | done => exact le_rfl
  | @issue statement _ world _ _ choice _ _ later =>
    refine (now_le_tick world choice).trans ?_
    rw [← perform_now env choice (world.tick choice) statement]
    exact later

structure Quiet (process : Nat) (world after : World) : Prop where
  store : after.store = world.store
  netblocks : after.netblocks = world.netblocks
  later : world.now ≤ after.now
  fresh : FreshCache world process → FreshCache after process

namespace Quiet

variable {process : Nat} {w mid after : World}

theorem trans (fst : Quiet process w mid)
    (snd : Quiet process mid after) : Quiet process w after where
  store := snd.store.trans fst.store
  netblocks := snd.netblocks.trans fst.netblocks
  later := fst.later.trans snd.later
  fresh := fun new => snd.fresh (fst.fresh new)

theorem tick (w : World) (io : Choice) : Quiet process w (w.tick io) where
  store := rfl
  netblocks := rfl
  later := now_le_tick w io
  fresh := fun new => new

theorem invalidate (w : World) : Quiet process w (w.invalidate process) where
  store := rfl
  netblocks := rfl
  later := le_rfl
  fresh := by
    intro _ rs cached
    simp [World.invalidate] at cached

theorem publish (w : World) (gen : Nat) : Quiet process w
      (w.publish process gen w.netblocks.listed) := by
  unfold World.publish
  split
  · refine ⟨rfl, rfl, le_rfl, ?_⟩
    intro _ rs cached
    simp only [Function.update_self, Option.mem_def, Option.some.injEq] at cached
    exact cached.symm
  · exact ⟨rfl, rfl, le_rfl, fun new => new⟩

end Quiet

section

variable {env : Consumer.Env} {lets : Choice → Prop} {w after : World}
  {V : Type} {value : V}
variable {pick : Choice}

theorem not_faultless (may : lets pick) (f : pick.base.fault ≠ .ok) : ¬Faultless lets :=
  fun good => f (good pick may)

theorem database_then {Answered : Type} (w : World) (told : Answered)
    (eff : World) {next : Except String Answered → Run V}
    (may : lets pick) (rest : Outcome (execute env) lets (next (w.database pick told eff).1)
      (w.database pick told eff).2 value after) :
    Outcome (execute env) lets (next (.ok told)) eff value after ∨
      ¬Faultless lets ∧ ∃ t, ∃ left, (left = w ∨ left = eff) ∧
        Outcome (execute env) lets (next (.error t)) left value
          after := by
  unfold World.database at rest
  cases f : pick.base.fault with
  | ok =>
    rw [f] at rest
    exact .inl rest
  | failed =>
    rw [f] at rest
    exact .inr ⟨not_faultless may (by rw [f]; rintro ⟨⟩),
      _, _, .inl rfl, rest⟩
  | lost =>
    rw [f] at rest
    exact .inr ⟨not_faultless may (by rw [f]; rintro ⟨⟩),
      _, _, .inr rfl, rest⟩

theorem read_then {Answered : Type} (w : World) (told : Answered)
    {next : Except String Answered → Run V} (may : lets pick)
    (rest : Outcome (execute env) lets (next (w.database pick told w).1)
      (w.database pick told w).2 value after) :
    Outcome (execute env) lets (next (.ok told)) w value after ∨
      ¬Faultless lets ∧ ∃ t, Outcome (execute env) lets (next (.error t)) w value
          after := by
  rcases database_then w told w may rest with
    success | ⟨bad, t, _, rfl | rfl, fail⟩
  · exact .inl success
  · exact .inr ⟨bad, t, fail⟩
  · exact .inr ⟨bad, t, fail⟩

theorem list_then {next : Except String (List Netblock) → Run V}
    (out : Outcome (execute env) lets (send .list >>= next) w value after) : ∃ pick,
      Outcome (execute env) lets (next (.ok w.netblocks.listed))
          (w.tick pick) value after ∨ ¬Faultless lets ∧ ∃ t,
          Outcome (execute env) lets (next (.error t)) (w.tick pick) value after := by
  obtain ⟨pick, may, rest⟩ := outcome_send.mp out
  exact ⟨pick, read_then (w.tick pick) w.netblocks.listed may rest⟩

theorem get_then {next : Except String (Option Netblock) → Run V}
    (out : Outcome (execute env) lets (send (.get n) >>= next) w value after) :
    ∃ pick, Outcome (execute env) lets
          (next (.ok (w.netblocks.table.find n))) (w.tick pick) value after ∨
        ¬Faultless lets ∧ ∃ t, Outcome (execute env) lets (next (.error t))
            (w.tick pick) value after := by
  obtain ⟨pick, may, rest⟩ := outcome_send.mp out
  exact ⟨pick, read_then (w.tick pick) (w.netblocks.table.find n) may rest⟩

theorem liveAddrs_then {next : Except String (List Addr) → Run V}
    (out : Outcome (execute env) lets (send .liveAddrs >>= next) w value after) :
    ∃ pick, Outcome (execute env) lets (next (.ok (w.store.allocations.liveAddrs
            (w.tick pick).now))) (w.tick pick) value after ∨
        ¬Faultless lets ∧ ∃ t, Outcome (execute env) lets (next (.error t))
            (w.tick pick) value after := by
  obtain ⟨pick, may, rest⟩ := outcome_send.mp out
  exact ⟨pick, read_then (w.tick pick) (w.store.allocations.liveAddrs (w.tick pick).now) may rest⟩

theorem setCIDR_then {next : Except String Nat → Run V} (out : Outcome (execute env) lets
      (send (.setCIDR n old new desc compared live) >>= next) w value after) :
    ∃ pick, Outcome (execute env) lets (next (.ok (w.netblocks.table.affected
            (Blocks.isBlock n old)))) ((w.tick pick).setCIDR n old new desc) value after ∨
        ¬Faultless lets ∧ ∃ t left, Outcome (execute env) lets (next (.error t)) left value
            after := by
  obtain ⟨pick, may, rest⟩ := outcome_send.mp out
  refine ⟨pick, ?_⟩
  rcases database_then (w.tick pick) (w.netblocks.table.affected (Blocks.isBlock n old))
    ((w.tick pick).setCIDR n old new desc) may rest
    with success | ⟨bad, t, left, _, fail⟩
  · exact .inl success
  · exact .inr ⟨bad, t, left, fail⟩

end

section

variable {env : Consumer.Env} {may : Choice → Prop} {r : Registry} {w after : World}

theorem list_outcome (out : Outcome (execute env) may Registry.list w ans after) :
    ∃ io, after = w.tick io ∧ (ans = .ok w.netblocks.listed ∨
        ¬Faultless may ∧ ∃ err, ans = .error err) := by
  obtain ⟨io, success | ⟨bad, t, fail⟩⟩ := list_then out
  · obtain ⟨rfl, rfl⟩ := outcome_done.mp success
    exact ⟨io, rfl, .inl rfl⟩
  · obtain ⟨rfl, rfl⟩ := outcome_done.mp fail
    exact ⟨io, rfl, .inr ⟨bad, _, rfl⟩⟩

theorem readCache_quiet (io : Choice) : Quiet r.process w
        (execute env io w (.readCache r.process)).2 ∧
      (execute env io w (.readCache r.process)).1.1 =
        (execute env io w (.readCache r.process)).2.caches
          r.process := by
  refine ⟨?_, rfl⟩
  show Quiet r.process w (if io.evicted then (w.tick io).invalidate r.process
      else w.tick io)
  split
  · exact (Quiet.tick w io).trans (.invalidate _)
  · exact .tick w io

theorem snapshot_outcome (out : Outcome (execute env) may r.snapshot w ans after) :
    Quiet r.process w after ∧ (FreshCache w r.process → ans = .ok w.netblocks.listed ∨
          ¬Faultless may ∧ ∃ err, ans = .error err) := by
  obtain ⟨io, _, rest⟩ := outcome_send.mp out
  obtain ⟨calm, cached⟩ := readCache_quiet io
  generalize Netblocks.execute env io w (.readCache r.process) = read at calm cached rest
  obtain ⟨⟨cache, gen⟩, cur⟩ := read
  dsimp only at calm cached rest
  cases cache with
  | some rs =>
    obtain ⟨rfl, rfl⟩ := outcome_done.mp rest
    refine ⟨calm, fun new => .inl ?_⟩
    rw [calm.fresh new rs cached.symm, calm.netblocks]
  | none =>
    obtain ⟨has, mid, fst, snd⟩ := outcome_then.mp rest
    obtain ⟨late, rfl, rfl | ⟨bad, err, rfl⟩⟩ := list_outcome fst
    · obtain ⟨last, _, done⟩ := outcome_send.mp snd
      obtain ⟨rfl, rfl⟩ := outcome_done.mp done
      refine ⟨(calm.trans (.tick cur late)).trans ((Quiet.tick _ last).trans (.publish _ gen)), ?_⟩
      exact fun _ => .inl (by rw [calm.netblocks])
    · obtain ⟨rfl, rfl⟩ := outcome_done.mp snd
      exact ⟨calm.trans (.tick cur late), fun _ => .inr ⟨bad, err, rfl⟩⟩

structure Reads (permits : Choice → Prop) (process : Nat) {Value : Type}
    (expected : Except RegistryError Value) (world : World)
    (answer : Except String Value) (after : World) : Prop where
  quiet : Quiet process world after
  answered : FreshCache world process →
    answer = told expected ∨ ¬Faultless permits ∧ ∃ text, answer = .error text

theorem reads_of_snapshot {V : Type} {read : List Netblock → Except RegistryError V}
    {p : Run (Except RegistryError V)} (reading : p = r.snapshot >>= fun
      | .error err => pure (.error err)
      | .ok rs => pure (read rs))
    {ans : Except String V}
    (out : Outcome (execute env) may (p >>= fun val => pure (told val)) w ans after) :
    Reads may r.process (read w.netblocks.listed) w ans
      after := by
  subst reading
  obtain ⟨val, mid, fst, snd⟩ := outcome_then.mp out
  obtain ⟨rfl, rfl⟩ := outcome_done.mp snd
  obtain ⟨rs, cur, snap, rest⟩ := outcome_then.mp fst
  obtain ⟨calm, said⟩ := snapshot_outcome snap
  cases rs with
  | error err =>
    obtain ⟨rfl, rfl⟩ := outcome_done.mp rest
    refine ⟨calm, fun new => ?_⟩
    rcases said new with success | ⟨bad, _⟩
    · cases success
    · exact .inr ⟨bad, _, rfl⟩
  | ok rs =>
    obtain ⟨rfl, rfl⟩ := outcome_done.mp rest
    refine ⟨calm, fun new => ?_⟩
    rcases said new with success | ⟨_, _, fail⟩
    · cases success
      exact .inl rfl
    · cases fail

theorem resolveFull_reads {ans : Except String Resolved}
    (out : Outcome (execute env) may (r.expand (.resolveFull n)) w ans after) :
    Reads may r.process ((Registry.lookup w.netblocks.listed n).map (·.resolved)) w
      ans after :=
  reads_of_snapshot rfl out

theorem carves_reads {ans : Except String (List Prefix)}
    (out : Outcome (execute env) may (r.expand .carves) w ans after) :
    Reads may r.process (.ok (Registry.carved w.netblocks.listed))
      w ans after :=
  reads_of_snapshot rfl out

end

structure RangeFree (r : Registry) (blocks : Blocks) (live : List Addr)
    (rng : Prefix) (name : String) : Prop where
  vacant : ∀ ip, rng.contains ip = true → ip ∉ r.reserved ∧
    ∀ other ∈ blocks.rows, other.name ≠ name → other.range.contains ip = false
  unused : r.allocs = true → ∀ ip ∈ live, rng.contains ip = false

structure Doubles (r : Registry) (blocks : Blocks) (live : List Addr)
    (block : Netblock) : Prop where
  named : block.kind = .named
  stored : block.cidr = block.range
  lower : (parentOf block.range).addr = block.range.addr
  inPool : r.pool.bits ≤ (parentOf block.range).bits ∧
    prefixInside (parentOf block.range) r.pool = true
  free : ∃ buddy, buddyOf block.range = some buddy ∧ RangeFree r blocks live buddy block.name

section

variable {env : Consumer.Env} {may : Choice → Prop} {r : Registry} {w after : World}

theorem mem_others : row ∈ Registry.others rs n ↔ row ∈ rs ∧ row.name ≠ n := by
  simp [Registry.others]

section

variable {bs : Blocks} {live : List Addr} {rng : Prefix} {name : String}

theorem not_rangeFree_of_reserved (hit : r.reserved.any rng.contains = true) :
    ¬RangeFree r bs live rng name := by
  intro fr
  obtain ⟨ip, mem, lies⟩ := any_eq_true.mp hit
  exact (fr.vacant ip lies).1 mem

theorem not_rangeFree_of_overlap (hit : ((Registry.others bs.listed name).any fun row =>
      rng.overlaps row.range) = true) :
    ¬RangeFree r bs live rng name := by
  intro fr
  obtain ⟨row, mem, overlap⟩ := any_eq_true.mp hit
  obtain ⟨has, ne⟩ := mem_others.mp mem
  obtain ⟨ip, inRange, inRow⟩ := Prefix.overlaps_iff.mp overlap
  have off := (fr.vacant ip inRange).2 row ((Blocks.mem_listed _).mp has) ne
  rw [off] at inRow
  cases inRow

theorem not_rangeFree_of_used (wired : r.allocs = true) (hit : live.any rng.contains = true) :
    ¬RangeFree r bs live rng name := by
  intro fr
  obtain ⟨ip, mem, lies⟩ := any_eq_true.mp hit
  have outside := fr.unused wired ip mem
  rw [outside] at lies
  cases lies

theorem rangeFree_of_clear (held : ¬r.reserved.any rng.contains = true)
    (off : ¬((Registry.others bs.listed name).any fun row =>
      rng.overlaps row.range) = true)
    (unused : r.allocs = true → ¬live.any rng.contains = true) :
    RangeFree r bs live rng name where
  vacant := by
    intro ip lies
    obtain ⟨fr, free⟩ := vacant_of_clear held off ip lies
    refine ⟨fr, fun alt mem ne => ?_⟩
    exact free _ (mem_map.mpr ⟨alt, mem_others.mpr ⟨(Blocks.mem_listed _).mpr mem, ne⟩, rfl⟩)
  unused := by
    intro wired ip mem
    rw [← Bool.not_eq_true]
    intro lies
    exact unused wired (any_eq_true.mpr ⟨ip, mem, lies⟩)

end

inductive RangeEnd (permits : Choice → Prop) (r : Registry) (rng : Prefix)
    (name : String) (world after : World) : Except RegistryError (Option (List Prefix)) → Prop where
  | free {time : Int} {compared : List Prefix} : world.now ≤ time → time ≤ after.now →
      RangeFree r world.netblocks (world.store.allocations.liveAddrs time) rng name →
      RangeEnd permits r rng name world after (.ok (some compared))
  | taken {time : Int} : world.now ≤ time → time ≤ after.now →
      ¬RangeFree r world.netblocks (world.store.allocations.liveAddrs time) rng name →
      RangeEnd permits r rng name world after (.ok none)
  | broken {error : RegistryError} : ¬Faultless permits →
      RangeEnd permits r rng name world after (.error error)

theorem rangeFree_outcome (out : Outcome (execute env) may (r.rangeFree rng n) w ans after) :
    Quiet r.process w after ∧
      RangeEnd may r rng n w after ans := by
  unfold Registry.rangeFree at out
  split at out
  · rename_i held
    obtain ⟨rfl, rfl⟩ := outcome_done.mp out
    exact ⟨⟨rfl, rfl, le_rfl, fun new => new⟩,
      .taken le_rfl le_rfl (not_rangeFree_of_reserved held)⟩
  · rename_i held
    obtain ⟨rs, mid, fst, snd⟩ := outcome_then.mp out
    obtain ⟨io, rfl, rfl | ⟨bad, err, rfl⟩⟩ := list_outcome fst
    · have calm : Quiet r.process w (w.tick io) :=
        .tick w io
      dsimp only at snd
      split at snd
      · rename_i overlap
        obtain ⟨rfl, rfl⟩ := outcome_done.mp snd
        exact ⟨calm, .taken calm.later le_rfl (not_rangeFree_of_overlap overlap)⟩
      · rename_i ne
        split at snd
        · rename_i wired
          obtain ⟨late, success | ⟨bad, t, fail⟩⟩ := liveAddrs_then snd
          · have both : Quiet r.process w ((w.tick io).tick late) :=
              calm.trans (.tick _ late)
            dsimp only at success
            split at success
            · rename_i used
              obtain ⟨rfl, rfl⟩ := outcome_done.mp success
              exact ⟨both, .taken both.later le_rfl (not_rangeFree_of_used wired used)⟩
            · rename_i unused
              obtain ⟨rfl, rfl⟩ := outcome_done.mp success
              exact ⟨both, .free both.later le_rfl (rangeFree_of_clear held ne fun _ => unused)⟩
          · obtain ⟨rfl, rfl⟩ := outcome_done.mp fail
            exact ⟨calm.trans (.tick _ late), .broken bad⟩
        · rename_i unwired
          obtain ⟨rfl, rfl⟩ := outcome_done.mp snd
          exact ⟨calm, .free calm.later le_rfl (rangeFree_of_clear held
            ne fun wired => absurd wired unwired)⟩
    · obtain ⟨rfl, rfl⟩ := outcome_done.mp snd
      exact ⟨.tick w io, .broken bad⟩

variable {blk : Netblock}

theorem setCIDR_affected (hit : w.netblocks.table.find n = some blk) :
    w.netblocks.table.affected (Blocks.isBlock n blk.range) = 0 ↔ blk.cidr ≠ blk.range := by
  obtain ⟨mem, same⟩ := Table.find_eq_some_iff.mp hit
  unfold Table.affected
  rw [countP_eq_zero]
  constructor
  · intro none kept
    exact none blk mem (by simp [Blocks.isBlock, same, ← kept])
  · intro stale row had matched
    simp only [Blocks.isBlock, Bool.and_eq_true, beq_iff_eq] at matched
    have eq : row = blk := w.netblocks.table.row_eq_of_key_eq had mem (matched.1.trans same.symm)
    exact stale (eq ▸ matched.2)

inductive GrowEnd (permits : Choice → Prop) (r : Registry) (block : Netblock)
    (world after : World) : Except RegistryError Prefix → Prop where
  | grown {time : Int} : world.now ≤ time → time ≤ after.now →
      Doubles r world.netblocks (world.store.allocations.liveAddrs time) block →
      after.store = world.store → after.netblocks = world.netblocks.setCIDR block.name block.range
        (parentOf block.range) none → FreshCache after r.process →
      GrowEnd permits r block world after (.ok (parentOf block.range))
  | refused {time : Int} {error : RegistryError} : world.now ≤ time → time ≤ after.now →
      ¬Doubles r world.netblocks (world.store.allocations.liveAddrs time) block →
      after.store = world.store → after.netblocks = world.netblocks →
      GrowEnd permits r block world after (.error error)
  | broken {error : RegistryError} : ¬Faultless permits →
      GrowEnd permits r block world after (.error error)

variable {answer : Except RegistryError Prefix} {mid : World}

theorem GrowEnd.refuse (calm : Quiet r.process w mid) (late : w.now ≤ t)
    (old : t ≤ mid.now)
    (cannot : ¬Doubles r w.netblocks (w.store.allocations.liveAddrs t) blk)
    (past : Outcome (execute env) may (pure (.error err)) mid answer after) :
    GrowEnd may r blk w after answer := by
  obtain ⟨rfl, rfl⟩ := outcome_done.mp past
  exact .refused late old cannot calm.store calm.netblocks

theorem GrowEnd.break (bad : ¬Faultless may)
    (past : Outcome (execute env) may (pure (.error err)) mid answer after) :
    GrowEnd may r blk w after answer := by
  obtain ⟨rfl, rfl⟩ := outcome_done.mp past
  exact .broken bad

theorem GrowEnd.write {next : Except String Nat → Run (Except RegistryError Prefix)}
    (found : w.netblocks.table.find blk.name = some blk)
    (calm : Quiet r.process w mid) (late : w.now ≤ time) (old : time ≤ mid.now)
    (dup : blk.cidr = blk.range → Doubles r w.netblocks (w.store.allocations.liveAddrs time) blk)
    (past : Outcome (execute env) may (send (.setCIDR blk.name blk.range (parentOf blk.range) none
        compared none) >>= next) mid answer after) (failed : ∀ t, next (.error t) =
      pure (.error (.database "grow" t)))
    (miss : next (.ok 0) = pure (.error .poolFull))
    (hit : ∀ count, next (.ok (count + 1)) =
      r.invalidate >>= fun _ => pure (.ok (parentOf blk.range))) :
    GrowEnd may r blk w after answer := by
  obtain ⟨io, success | ⟨bad, t, left, fail⟩⟩ :=
    setCIDR_then past
  · rw [calm.netblocks] at success
    cases rs : w.netblocks.table.affected (Blocks.isBlock blk.name blk.range) with
    | zero =>
      rw [rs, miss] at success
      obtain ⟨rfl, rfl⟩ := outcome_done.mp success
      have stale := (setCIDR_affected found).mp rs
      refine .refused late (old.trans (now_le_tick mid io))
        (fun able => stale able.stored) calm.store ?_
      show mid.netblocks.setCIDR _ _ _ _ = _
      rw [calm.netblocks]
      exact Blocks.setCIDR_of_affected_eq_zero rs
    | succ count =>
      rw [rs, hit] at success
      obtain ⟨last, _, rest⟩ := outcome_send.mp success
      obtain ⟨rfl, rfl⟩ := outcome_done.mp rest
      have kept : blk.cidr = blk.range := by
        by_contra stale
        rw [(setCIDR_affected found).mpr stale] at rs
        cases rs
      have ticked := (now_le_tick mid io).trans (now_le_tick (World.setCIDR (mid.tick io) blk.name
          blk.range (parentOf blk.range) none) last)
      refine .grown late (old.trans ticked) (dup kept) calm.store ?_ ?_
      · show mid.netblocks.setCIDR _ _ _ _ = _
        rw [calm.netblocks]
      · intro rs cached
        simp [execute, perform, World.invalidate] at cached
  · rw [failed] at fail
    exact .break bad fail

theorem grow_outcome (had : w.netblocks.table.find blk.name = some blk)
    (out : Outcome (execute env) may (r.grow blk.name) w answer after) :
    GrowEnd may r blk w after answer := by
  unfold Registry.grow at out
  obtain ⟨row, mid, fst, snd⟩ := outcome_then.mp out
  obtain ⟨io, success | ⟨bad, t, fail⟩⟩ := get_then fst
  · rw [had] at success
    obtain ⟨rfl, rfl⟩ := outcome_done.mp success
    have quiet : Quiet r.process w (w.tick io) := .tick w io
    dsimp only at snd
    split at snd
    · rename_i unnamed
      exact .refuse quiet le_rfl quiet.later (fun able => unnamed able.named) snd
    · rename_i named
      split at snd
      · rename_i alone
        refine .refuse quiet le_rfl quiet.later ?_ snd
        intro able
        obtain ⟨buddy, sib, _⟩ := able.free
        rw [alone] at sib
        cases sib
      · rename_i buddy sib
        split at snd
        · rename_i upper
          exact .refuse quiet le_rfl quiet.later (fun able => upper able.lower) snd
        · rename_i lower
          split at snd
          · rename_i outside
            refine .refuse quiet le_rfl quiet.later ?_ snd
            intro able
            obtain ⟨fits, lies⟩ := able.inPool
            rcases outside with short | apart
            · omega
            · rw [lies] at apart
              cases apart
          · rename_i lies
            simp only [not_or, not_lt, Bool.not_eq_false] at lies
            obtain ⟨fr, cur, third, fourth⟩ := outcome_then.mp snd
            obtain ⟨quietFree, fin⟩ := rangeFree_outcome third
            have both := quiet.trans quietFree
            cases fin with
            | free late old able =>
              dsimp only at fourth
              refine .write had both (quiet.later.trans late) old ?_
                fourth (fun _ => rfl) rfl fun _ => rfl
              intro kept
              exact ⟨not_not.mp named, kept, not_not.mp lower, lies, buddy, sib, able⟩
            | taken late old did =>
              refine .refuse both (quiet.later.trans late) old ?_ fourth
              intro able
              obtain ⟨o, eq, fr⟩ := able.free
              rw [sib, Option.some.injEq] at eq
              exact did (eq ▸ fr)
            | broken bad => exact .break bad fourth
  · obtain ⟨rfl, rfl⟩ := outcome_done.mp fail
    exact .break bad snd

end

end Harbor.Netblocks
