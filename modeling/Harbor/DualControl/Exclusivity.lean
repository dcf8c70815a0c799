import Harbor.DualControl.Sound

/-!
# Exclusivity of the commit

The claim of the commit is a compare-and-set on the pending state, so at most
one call ever runs the committer of a change.  This holds in every run, however
vetoes interleave.
-/

namespace Harbor.DualControl

open Function Library List

variable {Site Payload World : Type}

def Call.Holds (id : Int) : Call Site Payload → Prop
  | .approveRun _ ch | .approveFinalize ch _ => ch.id = id
  | _ => False

theorem Call.Plain.not_holds {c : Call Site Payload} (bare : c.Plain)
    {id : Int} : ¬ c.Holds id := by
  cases c <;> first | exact fun held => held | exact bare.elim

def Unapplied (db : Database Payload World) (id : Int) : Prop :=
  ∀ ch ∈ db.applied, ch.id ≠ id

def CallExclusive (db : Database Payload World) : Call Site Payload → Prop
  | .approveRun _ ch =>
    db.stateOf ch.id ≠ some .pending ∧ Unapplied db ch.id
  | .approveFinalize ch outcome =>
    db.stateOf ch.id ≠ some .pending ∧
      (outcome = .committed ∨ outcome = .failed ∧ Unapplied db ch.id)
  | _ => True

structure Exclusive (state : State Site Payload World) : Prop where
  calls : ∀ me, CallExclusive state.db (state.calls me)
  oneHolder : ∀ left right id, (state.calls left).Holds id →
    (state.calls right).Holds id → left = right
  claimed : ∀ ch ∈ state.db.applied, state.db.stateOf ch.id ≠ some .pending
  once : (state.db.applied.map Change.id).Nodup

theorem Call.Plain.exclusive {c : Call Site Payload} (bare : c.Plain)
    {db : Database Payload World} : CallExclusive db c := by
  cases c <;> trivial

theorem CallExclusive.keep {db new : Database Payload World}
    {c : Call Site Payload} (sole : CallExclusive db c)
    (due : ∀ id, new.stateOf id = some .pending → db.stateOf id = some .pending)
    (unapplied : ∀ id, c.Holds id → Unapplied db id → Unapplied new id) :
    CallExclusive new c := by
  cases c with
  | approveRun s ch =>
    obtain ⟨took, fresh⟩ := sole
    exact ⟨fun waits => took (due _ waits), unapplied ch.id rfl fresh⟩
  | approveFinalize ch out =>
    obtain ⟨took, res⟩ := sole
    refine ⟨fun waits => took (due _ waits), ?_⟩
    rcases res with shut | ⟨fail, fresh⟩
    · exact .inl shut
    · exact .inr ⟨fail, unapplied ch.id rfl fresh⟩
  | _ => trivial

section

variable {prog : Program Site Payload World} {me : Nat}
  {db fin : Database Payload World} {call next : Call Site Payload}

theorem Effect.pending_of (eff : Effect prog me db call fin next)
    (own : CallExclusive db call) {id : Int} (waits : fin.stateOf id = some .pending) :
    db.stateOf id = some .pending := by
  cases eff with
  | quiet chs => rwa [Database.stateOf, chs] at waits
  | claimed _ _ due =>
    rw [Database.stateOf_claim due] at waits
    split_ifs at waits
    · cases waits
    · exact waits
  | finalized pos =>
    rw [pos] at own
    rw [Database.stateOf_decide] at waits
    split_ifs at waits
    · obtain ⟨_, _, rfl⟩ := Option.map_eq_some_iff.mp waits
      rcases own.2 with impossible | ⟨impossible, _⟩ <;> cases impossible
    · exact waits
  | @denied ch now =>
    have law : (db.decide ch.id .denied now).stateOf id = some .pending := waits
    rw [Database.stateOf_decide] at law
    split_ifs at law
    · simp at law
    · exact law
  | _ => exact waits

theorem Effect.run_pending (eff : Effect prog me db call fin next)
    (runs : next = .approveRun s ch) : db.stateOf ch.id = some .pending := by
  subst next
  cases eff with
  | quiet _ _ _ _ _ _ _ plain => exact plain.elim
  | claimed _ _ due goes =>
    rcases goes with eq | plain
    · cases eq
      exact due
    · exact plain.elim
  | finalized _ _ plain => exact plain.elim
  | denied _ goes =>
    rcases goes with eq | plain
    · cases eq
    · exact plain.elim
  | vetoed _ plain => exact plain.elim

theorem Effect.world_cases (eff : Effect prog me db call fin next) :
    fin.world = db.world ∨ ∃ s ch w, call = .approveRun s ch ∧
        prog.commit ch.kind ch db.world = some w ∧ fin.world = w ∧ fin.changes = db.changes ∧
        ∃ out, next = .approveFinalize ch out := by
  cases eff with
  | quiet _ w => exact .inl w
  | applied pos _ took | appliedUnreported pos _ took =>
    exact .inr ⟨_, _, _, pos, took, rfl, rfl, _, rfl⟩
  | _ => exact .inl rfl

end

namespace Exclusive

variable {prog : Program Site Payload World} {s : State Site Payload World} {me : Nat}
  {db : Database Payload World} {next : Call Site Payload}

theorem of_quiet (calm : Quiet s) : Exclusive s := by
  refine ⟨?_, ?_, ?_, ?_⟩
  · intro me
    rw [calm.calls me]
    trivial
  · intro l r id held
    rw [calm.calls l] at held
    exact held.elim
  · intro ch mem
    rw [calm.applied] at mem
    cases mem
  · rw [calm.applied]
    exact nodup_nil

theorem not_pending (sole : Exclusive s) {id : Int} (held : (s.calls me).Holds id) :
    s.db.stateOf id ≠ some .pending := by
  intro due
  have took := sole.calls me
  cases pos : s.calls me with
  | approveRun site ch | approveFinalize ch out =>
    rw [pos] at took held
    exact took.1 (held.symm ▸ due)
  | _ =>
    rw [pos] at held
    exact held

theorem oneHolder_update (sole : Exclusive s)
    (notHeld : ∀ alt id, alt ≠ me → next.Holds id → ¬ (s.calls alt).Holds id)
    {l r : Nat} {id : Int} (lHeld : (update s.calls me next l).Holds id)
    (rHeld : (update s.calls me next r).Holds id) : l = r := by
  by_cases leftMe : l = me
  · by_cases rightMe : r = me
    · rw [leftMe, rightMe]
    · subst l
      simp only [update_self] at lHeld
      simp only [update_of_ne rightMe] at rHeld
      exact (notHeld r id rightMe lHeld rHeld).elim
  · simp only [update_of_ne leftMe] at lHeld
    by_cases rightMe : r = me
    · subst r
      simp only [update_self] at rHeld
      exact (notHeld l id leftMe rHeld lHeld).elim
    · simp only [update_of_ne rightMe] at rHeld
      exact sole.oneHolder l r id lHeld rHeld

theorem mem_applied (used : db.applied = s.db.applied ∨
      ∃ site ch, s.calls me = .approveRun site ch ∧ db.applied = s.db.applied ++ [ch])
    {ch : Change Payload} (mem : ch ∈ db.applied) : ch ∈ s.db.applied ∨
      ∃ site, s.calls me = .approveRun site ch := by
  rcases used with eq | ⟨site, ran, pos, ins⟩
  · exact .inl (eq ▸ mem)
  · rw [ins] at mem
    rcases mem_append.mp mem with old | last
    · exact .inl old
    · simp only [mem_singleton] at last
      subst ran
      exact .inr ⟨site, pos⟩

theorem once_applied (sole : Exclusive s) (used : db.applied = s.db.applied ∨
      ∃ site ch, s.calls me = .approveRun site ch ∧ db.applied = s.db.applied ++ [ch]) :
    (db.applied.map (·.id)).Nodup := by
  rcases used with eq | ⟨site, ran, pos, ins⟩
  · rw [eq]
    exact sole.once
  · have new := sole.calls me
    rw [pos] at new
    simp only [ins, map_append, map_cons, map_nil]
    refine List.Nodup.append sole.once (nodup_singleton _) ?_
    intro id mem last
    simp only [mem_singleton] at last
    obtain ⟨alt, memO, rfl⟩ := mem_map.mp mem
    exact new.2 alt memO last

theorem move (sole : Exclusive s) (due : ∀ id, db.stateOf id = some .pending →
      s.db.stateOf id = some .pending) (used : db.applied = s.db.applied ∨
      ∃ site ch, s.calls me = .approveRun site ch ∧ db.applied = s.db.applied ++ [ch])
    (own : CallExclusive db next) (has : ∀ id, next.Holds id → (s.calls me).Holds id ∨
      s.db.stateOf id = some .pending) : Exclusive
      { db := db, calls := update s.calls me next } := by
  have live : ∀ site ch, s.calls me = .approveRun site ch → (s.calls me).Holds ch.id := by
    intro site ch pos
    rw [pos]
    rfl
  have notHeld : ∀ alt id, alt ≠ me → next.Holds id → ¬ (s.calls alt).Holds id := by
    intro alt id ne held otherHeld
    rcases has id held with mine | isPending
    · exact ne (sole.oneHolder alt me id otherHeld mine)
    · exact sole.not_pending otherHeld isPending
  refine ⟨?_, ?_, ?_, sole.once_applied used⟩
  · apply Function.forall_update_iff s.calls (p := fun _ c =>
      CallExclusive db c) |>.mpr
    refine ⟨own, ?_⟩
    intro alt ne
    refine (sole.calls alt).keep due ?_
    intro id held new ch mem
    rcases mem_applied used mem with old | ⟨site, pos⟩
    · exact new ch old
    · intro eq
      have mine := live site ch pos
      rw [eq] at mine
      exact ne (sole.oneHolder alt me id held mine)
  · intro l r id lHeld rHeld
    exact sole.oneHolder_update notHeld lHeld rHeld
  · intro ch mem isPending
    rcases mem_applied used mem with old | ⟨site, pos⟩
    · exact sole.claimed ch old (due _ isPending)
    · exact sole.not_pending (live site ch pos) (due _ isPending)

theorem ran (sole : Exclusive s) {site : Site} {ch : Change Payload}
    {out : ChangeState} (pos : s.calls me = .approveRun site ch)
    (due : ∀ id, db.stateOf id = some .pending → s.db.stateOf id = some .pending)
    (used : db.applied = s.db.applied ∨ ∃ site ch, s.calls me = .approveRun site ch ∧
        db.applied = s.db.applied ++ [ch]) (own : CallExclusive db
      (.approveFinalize ch out : Call Site Payload)) : Exclusive
      { db := db
        calls := update s.calls me
          (.approveFinalize ch out) } := by
  refine sole.move due used own ?_
  intro id held
  rw [pos]
  exact .inl held

theorem moved (sole : Exclusive s) (effect : Effect prog me s.db (s.calls me) db next) : Exclusive
      { db := db, calls := update s.calls me next } := by
  have log := effect.applied_cases
  have own := sole.calls me
  have idle : ∀ id, db.stateOf id = some .pending → s.db.stateOf id = some .pending :=
    fun _ => effect.pending_of own
  cases effect with
  | quiet _ _ _ _ _ _ _ plain =>
    exact sole.move idle log plain.exclusive (fun _ held => (plain.not_holds held).elim)
  | @claimed site ch next pos free due goes =>
    refine sole.move idle log ?_ ?_
    · rcases goes with rfl | plain
      · refine ⟨?_, ?_⟩
        · rw [Database.stateOf_claim due]
          simp
        · intro other mem same
          exact sole.claimed other mem (same ▸ due)
      · exact plain.exclusive
    · intro id held
      rcases goes with rfl | plain
      · exact .inr (held ▸ due)
      · exact (plain.not_holds held).elim
  | applied pos =>
    rw [pos] at own
    exact sole.ran pos idle log ⟨own.1, .inl rfl⟩
  | appliedUnreported pos | rejected pos =>
    rw [pos] at own
    exact sole.ran pos idle log ⟨own.1, .inr ⟨rfl, own.2⟩⟩
  | skipped pos =>
    rw [pos] at own
    exact sole.ran pos idle log ⟨own.1, .inl rfl⟩
  | finalized _ _ plain =>
    exact sole.move idle log plain.exclusive (fun _ held => (plain.not_holds held).elim)
  | locked => exact sole.move idle log trivial (fun _ held => held.elim)
  | @denied ch now next pos goes =>
    have free : ∀ id, ¬ next.Holds id := by
      intro id
      rcases goes with rfl | plain
      · exact fun held => held
      · exact plain.not_holds
    refine sole.move idle log ?_ (fun id held => (free id held).elim)
    rcases goes with rfl | plain
    · trivial
    · exact plain.exclusive
  | vetoed _ plain =>
    exact sole.move idle log plain.exclusive (fun _ held => (plain.not_holds held).elim)

theorem proposed (sole : Exclusive s) (inv : Sound s)
    {ch : Change Payload} (plan : Proposed prog s.db db ch) :
    Exclusive { db := db, calls := s.calls } := by
  have used := (propose_rows plan.added).2.2.2.2.1
  have ss : ∀ alt : Change Payload, Recorded s.db alt →
      db.stateOf alt.id = s.db.stateOf alt.id := by
    intro alt note
    obtain ⟨row, hit, _⟩ := note
    have seen : s.db.stateOf alt.id = some row.state := by
      rw [Database.stateOf, hit]
      rfl
    rw [seen, plan.stateOf_known seen]
  refine ⟨?_, sole.oneHolder, ?_, used ▸ sole.once⟩
  · intro me
    have own := sole.calls me
    have note := inv.recorded me
    cases pos : s.calls me with
    | approveRun site held =>
      rw [pos] at own note
      refine ⟨?_, ?_⟩
      · rw [ss held (note held rfl)]
        exact own.1
      · intro alt mem
        exact own.2 alt (used ▸ mem)
    | approveFinalize held out =>
      rw [pos] at own note
      refine ⟨?_, ?_⟩
      · rw [ss held (note held rfl)]
        exact own.1
      · rcases own.2 with shut | ⟨fail, new⟩
        · exact .inl shut
        · exact .inr ⟨fail, fun alt mem =>
            new alt (used ▸ mem)⟩
    | _ => trivial
  · intro alt mem
    simp only [used] at mem
    rw [ss alt (inv.applied alt mem).1]
    exact sole.claimed alt mem

end Exclusive

end Harbor.DualControl
