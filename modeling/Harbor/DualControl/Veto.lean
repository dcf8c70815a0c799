import Harbor.DualControl.Exclusivity

/-!
# Commit against veto

`Deny` is not a compare-and-set: it reads the pending state and later writes
`denied` whatever the state has become.  As long as no `Deny` writes over a
change that is being committed or is committed, a veto and a commit exclude
each other; without that condition they do not.
-/

namespace Harbor.DualControl

open Function Library List

variable {Site Payload World : Type}

def CallVeto (db : Database Payload World) (me : Nat) : Call Site Payload → Prop
  | .approveRun _ ch | .approveFinalize ch _ => db.stateOf ch.id = some .committing
  | .denyCommit ch _ => db.locks ch.id = some me
  | .denyReload id => db.stateOf id = some .denied
  | _ => True

def Committing (state : Option ChangeState) : Prop :=
  state = some .committing ∨ state = some .committed

instance (state : Option ChangeState) : Decidable (Committing state) :=
  inferInstanceAs (Decidable (_ ∨ _))

structure VetoRespected (state : State Site Payload World) : Prop where
  calls : ∀ me, CallVeto state.db me (state.calls me)
  applied : ∀ ch ∈ state.db.applied, Committing (state.db.stateOf ch.id)
  locks : ∀ id me, state.db.locks id = some me →
    (state.calls me).vetoing = some id ∧ ¬ Committing (state.db.stateOf id)
  vetoed : ∀ id ∈ state.db.vetoed, state.db.stateOf id = some .denied

variable {call : Call Site Payload}

theorem CallVeto.keep {db new : Database Payload World} {me : Nat} (veto : CallVeto db me call)
    (ss : ∀ id, db.stateOf id = some .denied ∨ call.Holds id → new.stateOf id = db.stateOf id)
    (locks : ∀ id, db.locks id = some me → new.locks id = some me) :
    CallVeto new me call := by
  cases call with
  | approveRun s ch | approveFinalize ch out => exact (ss ch.id (.inr rfl)).trans veto
  | denyCommit ch now => exact locks ch.id veto
  | denyReload id => exact (ss id (.inl veto)).trans veto
  | _ => trivial

theorem CallVeto.of_plain (bare : call.Plain) : CallVeto db me call := by
  cases call <;> trivial

theorem CallVeto.committing {db : Database Payload World} {me : Nat}
    (veto : CallVeto db me call) {id : Int}
    (held : call.Holds id) : db.stateOf id = some .committing := by
  cases call with
  | approveRun s ch | approveFinalize ch out => exact held ▸ veto
  | _ => exact held.elim

theorem Database.locks_of_free {db : Database Payload World} {me alt : Nat}
    {id : Int} (fr : db.lockedByOther me id = false)
    (held : db.locks id = some alt) : alt = me := by
  simp only [Database.lockedByOther, held] at fr
  simpa using fr

namespace VetoRespected

variable {prog : Program Site Payload World} {s : State Site Payload World} {me : Nat}
  {db : Database Payload World} {next : Call Site Payload}

theorem of_quiet (calm : Quiet s) : VetoRespected s := by
  refine ⟨?_, ?_, ?_, ?_⟩
  · intro me
    rw [calm.calls me]
    trivial
  · intro ch mem
    rw [calm.applied] at mem
    cases mem
  · intro id me held
    rw [calm.locks id] at held
    cases held
  · intro id mem
    rw [calm.vetoed] at mem
    cases mem

theorem move (ok : VetoRespected s) (denied : ∀ id, s.db.stateOf id = some .denied →
      db.stateOf id = some .denied) (held : ∀ id alt, alt ≠ me → (s.calls alt).Holds id →
      db.stateOf id = s.db.stateOf id) (locks : ∀ id alt, alt ≠ me →
      (db.locks id = some alt ↔ s.db.locks id = some alt))
    (othersStates : ∀ id alt, alt ≠ me → s.db.locks id = some alt →
      db.stateOf id = s.db.stateOf id) (mine : ∀ id, db.locks id = some me →
      next.vetoing = some id ∧ ¬ Committing (db.stateOf id)) (own : CallVeto db me next)
    (used : ∀ ch ∈ db.applied, Committing (db.stateOf ch.id))
    (vetoed : ∀ id ∈ db.vetoed, db.stateOf id = some .denied) : VetoRespected
      { db := db, calls := update s.calls me next } := by
  refine ⟨?_, used, ?_, vetoed⟩
  · apply Function.forall_update_iff s.calls (p := fun alt call =>
      CallVeto db alt call) |>.mpr
    refine ⟨own, ?_⟩
    intro alt ne
    apply (ok.calls alt).keep
    · intro id interest
      rcases interest with isDenied | otherHolds
      · rw [denied id isDenied, isDenied]
      · exact held id alt ne otherHolds
    · intro id locked
      exact (locks id alt ne).mpr locked
  · intro id alt locked
    by_cases eq : alt = me
    · subst alt
      simp only [update_self]
      exact mine id locked
    · have was := (locks id alt eq).mp locked
      simp only [update_of_ne eq]
      rw [othersStates id alt eq was]
      exact ok.locks id alt was

theorem keep (ok : VetoRespected s) (chs : db.changes = s.db.changes)
    (locks : ∀ id alt, alt ≠ me → (db.locks id = some alt ↔ s.db.locks id = some alt))
    (mine : ∀ id, db.locks id = some me →
      next.vetoing = some id ∧ ¬ Committing (s.db.stateOf id)) (own : CallVeto db me next)
    (used : ∀ ch ∈ db.applied, Committing (s.db.stateOf ch.id))
    (vetoed : ∀ id ∈ db.vetoed, s.db.stateOf id = some .denied) : VetoRespected
      { db := db, calls := update s.calls me next } := by
  have ss : ∀ id, db.stateOf id = s.db.stateOf id := by
    intro id
    rw [Database.stateOf, chs, Database.stateOf]
  refine ok.move ?_ ?_ locks ?_ ?_ own ?_ ?_
  · intro id isDenied
    rw [ss, isDenied]
  · intro id _ _ _
    exact ss id
  · intro id _ _ _
    exact ss id
  · intro id locked
    rw [ss]
    exact mine id locked
  · intro ch mem
    rw [ss]
    exact used ch mem
  · intro id mem
    rw [ss]
    exact vetoed id mem

theorem unlocked (ok : VetoRespected s)
    (calm : (s.calls me).vetoing = none) (id : Int) : s.db.locks id ≠ some me := by
  intro locked
  have vetoing := (ok.locks id me locked).1
  rw [calm] at vetoing
  cases vetoing

theorem ran (ok : VetoRespected s) (pos : s.calls me = .approveRun site ch)
    (chs : db.changes = s.db.changes) (locks : db.locks = s.db.locks)
    (used : ∀ alt ∈ db.applied, alt ∈ s.db.applied ∨ alt = ch)
    (vetoed : ∀ id ∈ db.vetoed, s.db.stateOf id = some .denied) : VetoRespected
      { db := db
        calls := update s.calls me
          (.approveFinalize ch out) } := by
  have calm : (s.calls me).vetoing = none := by
    rw [pos]
    rfl
  have veto := ok.calls me
  rw [pos] at veto
  have ends : s.db.stateOf ch.id = some .committing := veto
  refine ok.keep chs ?_ ?_ ?_ ?_ vetoed
  · intro id alt _
    rw [locks]
  · intro id locked
    rw [locks] at locked
    exact (ok.unlocked calm id locked).elim
  · have same : db.stateOf ch.id = some .committing := by
      rw [← ends, Database.stateOf, chs, Database.stateOf]
    exact same
  · intro alt mem
    rcases used alt mem with old | rfl
    · exact ok.applied alt old
    · exact .inl ends

theorem rewritten (ok : VetoRespected s) (tgt : Int)
    (off : ∀ id, id ≠ tgt → db.stateOf id = s.db.stateOf id)
    (unheld : ∀ alt, alt ≠ me → ¬ (s.calls alt).Holds tgt)
    (fr : ∀ alt, alt ≠ me → s.db.locks tgt ≠ some alt)
    (stays : s.db.stateOf tgt = some .denied → db.stateOf tgt = some .denied)
    (locks : ∀ id alt, alt ≠ me → (db.locks id = some alt ↔ s.db.locks id = some alt))
    (mine : ∀ id, db.locks id ≠ some me) (own : CallVeto db me next)
    (sameApplied : db.applied = s.db.applied) (here : ∀ ch ∈ s.db.applied, ch.id = tgt →
      Committing (db.stateOf tgt)) (sameVetoed : db.vetoed = s.db.vetoed) : VetoRespected
      { db := db, calls := update s.calls me next } := by
  have denied : ∀ id, s.db.stateOf id = some .denied → db.stateOf id = some .denied := by
    intro id isDenied
    by_cases eq : id = tgt
    · subst eq
      exact stays isDenied
    · rw [off id eq, isDenied]
  refine ok.move denied ?_ locks ?_ ?_ own ?_ ?_
  · intro id alt ne otherHolds
    apply off
    rintro rfl
    exact unheld alt ne otherHolds
  · intro id alt ne locked
    apply off
    rintro rfl
    exact fr alt ne locked
  · intro id locked
    exact (mine id locked).elim
  · intro ch mem
    rw [sameApplied] at mem
    by_cases eq : ch.id = tgt
    · rw [eq]
      exact here ch mem eq
    · rw [off ch.id eq]
      exact ok.applied ch mem
  · intro id mem
    rw [sameVetoed] at mem
    exact denied id (ok.vetoed id mem)

theorem claimed (obeys : VetoRespected s) {site : Site}
    {ch : Change Payload} (pos : s.calls me = .approveClaim site ch)
    (free : s.db.lockedByOther me ch.id = false) (due : s.db.stateOf ch.id = some .pending)
    (goes : next = .approveRun site ch ∨ next.Plain) : VetoRespected
      { db := s.db.claim ch.id
        calls := update s.calls me next } := by
  have calm : (s.calls me).vetoing = none := by
    rw [pos]
    rfl
  have claims : (s.db.claim ch.id).stateOf ch.id = some .committing := by
    rw [Database.stateOf_claim due, if_pos rfl]
  refine obeys.rewritten ch.id ?_ ?_ ?_ ?_
    (fun _ _ _ => Iff.rfl) (obeys.unlocked calm) ?_ rfl ?_ rfl
  · intro id ne
    rw [Database.stateOf_claim due, if_neg ne]
  · intro alt _ otherHolds
    have ends := (obeys.calls alt).committing otherHolds
    rw [due] at ends
    cases ends
  · intro alt ne locked
    exact ne (Database.locks_of_free free locked)
  · intro isDenied
    rw [due] at isDenied
    cases isDenied
  · rcases goes with rfl | plain
    · exact claims
    · exact .of_plain plain
  · intro _ _ _
    exact .inl claims

theorem finalized (obeys : VetoRespected s)
    (sole : Exclusive s) {ch : Change Payload} {out : ChangeState} {now : Int}
    (pos : s.calls me = .approveFinalize ch out)
    (free : s.db.lockedByOther me ch.id = false) (bare : next.Plain) : VetoRespected
      { db := s.db.decide ch.id out now
        calls := update s.calls me next } := by
  have calm : (s.calls me).vetoing = none := by
    rw [pos]
    rfl
  have mine : (s.calls me).Holds ch.id := by
    rw [pos]
    rfl
  have veto := obeys.calls me
  have res := sole.calls me
  rw [pos] at veto res
  have ends : s.db.stateOf ch.id = some .committing := veto
  refine obeys.rewritten ch.id ?_ ?_ ?_ ?_
    (fun _ _ _ => Iff.rfl) (obeys.unlocked calm) (.of_plain bare)
    rfl ?_ rfl
  · intro id ne
    rw [Database.stateOf_decide, if_neg ne]
  · intro alt ne otherHolds
    exact ne (sole.oneHolder alt me ch.id otherHolds mine)
  · intro alt ne locked
    exact ne (Database.locks_of_free free locked)
  · intro isDenied
    rw [ends] at isDenied
    cases isDenied
  · intro alt mem same
    rcases res.2 with rfl | ⟨_, new⟩
    · right
      rw [Database.stateOf_decide, if_pos rfl, ends]
      rfl
    · exact (new alt mem same).elim

theorem locked (ok : VetoRespected s) {ch : Change Payload}
    {now : Int} (pos : s.calls me = .denyUpdate ch) (fr : s.db.lockedByOther me ch.id = false)
    (notCommitting : ¬ Committing (s.db.stateOf ch.id)) : VetoRespected
      { db := { s.db with
          locks := update s.db.locks ch.id (some me) }
        calls := update s.calls me (.denyCommit ch now) } := by
  have calm : (s.calls me).vetoing = none := by
    rw [pos]
    rfl
  refine ok.keep rfl ?_ ?_ ?_ ok.applied ok.vetoed
  · intro id alt ne
    by_cases eq : id = ch.id
    · subst id
      simp only [update_self]
      constructor
      · intro locked
        exact (ne (Option.some.inj locked).symm).elim
      · intro locked
        exact (ne (Database.locks_of_free fr locked)).elim
    · simp only [update_of_ne eq]
  · intro id locked
    by_cases eq : id = ch.id
    · subst id
      exact ⟨rfl, notCommitting⟩
    · simp only [update_of_ne eq] at locked
      exact (ok.unlocked calm id locked).elim
  · simp [CallVeto]

theorem denied (obeys : VetoRespected s) (inv : Sound s)
    {ch : Change Payload} {now : Int} (pos : s.calls me = .denyCommit ch now)
    (goes : next = .denyReload ch.id ∨ next.Plain) : VetoRespected
      { db := (s.db.decide ch.id .denied now).publish me
        calls := update s.calls me next } := by
  have veto := obeys.calls me
  rw [pos] at veto
  have lockedMe : s.db.locks ch.id = some me := veto
  have calm := (obeys.locks ch.id me lockedMe).2
  have loaded : (s.calls me).change = some ch := by
    rw [pos]
    rfl
  obtain ⟨row, hit, _⟩ := inv.recorded me ch loaded
  have here : (s.db.decide ch.id .denied now).stateOf ch.id = some .denied := by
    have seen : s.db.stateOf ch.id = some row.state := by
      rw [Database.stateOf, hit]
      rfl
    rw [Database.stateOf_decide, if_pos rfl, seen]
    rfl
  refine obeys.rewritten ch.id ?_ ?_ ?_ (fun _ => here) ?_ ?_ ?_ rfl ?_ rfl
  · intro id ne
    have ruled : (s.db.decide ch.id .denied now).stateOf id =
        s.db.stateOf id := by
      rw [Database.stateOf_decide, if_neg ne]
    exact ruled
  · intro alt _ otherHolds
    exact calm (.inl ((obeys.calls alt).committing otherHolds))
  · intro alt ne locked
    rw [lockedMe, Option.some.injEq] at locked
    exact ne locked.symm
  · intro id alt ne
    constructor
    · intro locked
      exact (Database.releaseLocks_eq_some.mp locked).2
    · intro locked
      exact Database.releaseLocks_eq_some.mpr ⟨ne, locked⟩
  · intro id locked
    exact (Database.releaseLocks_eq_some.mp locked).1 rfl
  · rcases goes with rfl | plain
    · exact here
    · exact .of_plain plain
  · intro alt mem same
    exact (calm (same ▸ obeys.applied alt mem)).elim

theorem vetoes (ok : VetoRespected s) {id : Int}
    (pos : s.calls me = .denyReload id) (bare : next.Plain) : VetoRespected
      { db := { s.db with vetoed := s.db.vetoed ++ [id] }
        calls := update s.calls me next } := by
  have calm : (s.calls me).vetoing = none := by
    rw [pos]
    rfl
  have veto := ok.calls me
  rw [pos] at veto
  refine ok.keep rfl (fun _ _ _ => Iff.rfl) ?_ (.of_plain bare) ok.applied ?_
  · intro alt locked
    exact (ok.unlocked calm alt locked).elim
  · intro alt mem
    rcases mem_append.mp mem with old | last
    · exact ok.vetoed alt old
    · simp only [mem_singleton] at last
      subst alt
      exact veto

theorem moved (ok : VetoRespected s) (sole : Exclusive s) (inv : Sound s)
    (eff : Effect prog me s.db (s.calls me) db next)
    (inTime : ∀ ch now, s.calls me = .denyUpdate ch →
      next = .denyCommit ch now → ¬ Committing (s.db.stateOf ch.id)) :
    VetoRespected { db := db, calls := update s.calls me next } := by
  cases eff with
  | quiet chs _ used vetoed locks othersLocks released bare =>
    refine ok.keep chs ?_ ?_ (.of_plain bare) ?_ ?_
    · intro id alt ne
      exact ⟨locks id alt, othersLocks id alt ne⟩
    · intro id locked
      exact (ok.unlocked (released id locked) id (locks id me locked)).elim
    · rw [used]
      exact ok.applied
    · rw [vetoed]
      exact ok.vetoed
  | claimed pos free due goes => exact ok.claimed pos free due goes
  | applied pos =>
    refine ok.ran pos rfl rfl ?_ ok.vetoed
    intro alt mem
    rcases mem_append.mp mem with old | last
    · exact .inl old
    · exact .inr (mem_singleton.mp last)
  | appliedUnreported pos | rejected pos | skipped pos =>
    exact ok.ran pos rfl rfl (fun _ => .inl) ok.vetoed
  | finalized pos free bare => exact ok.finalized sole pos free bare
  | locked pos free => exact ok.locked pos free (inTime _ _ pos rfl)
  | denied pos goes => exact ok.denied inv pos goes
  | vetoed pos bare => exact ok.vetoes pos bare

theorem proposed (ok : VetoRespected s) {ch : Change Payload}
    (plan : Proposed prog s.db db ch) : VetoRespected { db := db, calls := s.calls } := by
  obtain ⟨_, _, locks, _, applied, vetoed⟩ := propose_rows plan.added
  refine ⟨?_, ?_, ?_, ?_⟩
  · intro me
    have veto := ok.calls me
    cases pos : s.calls me with
    | approveRun site held | approveFinalize held out =>
      rw [pos] at veto
      exact plan.stateOf_known veto
    | denyCommit held now =>
      rw [pos] at veto
      exact (congrFun locks held.id).trans veto
    | denyReload id =>
      rw [pos] at veto
      exact plan.stateOf_known veto
    | _ => trivial
  · intro alt mem
    simp only [applied] at mem
    rcases ok.applied alt mem with ends | committed
    · exact .inl (plan.stateOf_known ends)
    · exact .inr (plan.stateOf_known committed)
  · intro id me locked
    simp only [locks] at locked
    obtain ⟨vetoing, calm⟩ := ok.locks id me locked
    refine ⟨vetoing, ?_⟩
    rw [plan.stateOf]
    split_ifs
    · rintro (impossible | impossible) <;> cases impossible
    · exact calm
  · intro id mem
    simp only [vetoed] at mem
    exact plan.stateOf_known (ok.vetoed id mem)

end VetoRespected

def Call.vetoTarget : Call Site Payload → Option Int
  | .denyUpdate ch => some ch.id
  | _ => none

def VetoInTime (state : State Site Payload World) : Event Site Payload → Prop
  | .statement me _ => ∀ id ∈ (state.calls me).vetoTarget, ¬ Committing (state.db.stateOf id)
  | _ => True

instance (state : State Site Payload World) : DecidablePred (VetoInTime state)
  | .statement me _ => inferInstanceAs (Decidable (∀ id ∈ (state.calls me).vetoTarget,
        ¬ Committing (state.db.stateOf id)))
  | .request _ _ | .crash _ | .propose _ _ _ _ _ _ _ => inferInstanceAs (Decidable True)

/-- A committer succeeds at most once per change and over a quorum of distinct
approvers, and no change is both vetoed and committed. -/
structure CommitVetoExclusion (db : Database Payload World) : Prop where
  once : (db.applied.map Change.id).Nodup
  quorum : ∀ ch ∈ db.applied, ∃ row, db.changes.find ch.id = some row ∧
    row.quorum ≤ (db.approvers ch.id).card
  vetoed : ∀ id ∈ db.vetoed, Unapplied db id ∧ db.stateOf id ≠ some .committed
  applied : ∀ ch ∈ db.applied, db.stateOf ch.id ≠ some .denied

section

variable {program : Program Site Payload World} {start finish : State Site Payload World}

theorem exclusive_of_reaches {may : State Site Payload World →
      Event Site Payload → Prop} (calm : Quiet start)
    (met : Reaches (step program) may start finish) : Sound finish ∧ Exclusive finish := by
  apply met.invariant (fun st => Sound st ∧ Exclusive st)
  · exact ⟨.of_quiet calm, .of_quiet calm⟩
  · intro was new ev both _ ran
    obtain ⟨inv, sole⟩ := both
    refine ⟨inv.step ran, ?_⟩
    cases step_cases ran with
    | moved eff _ _ => exact sole.moved eff
    | proposed plan => exact sole.proposed inv plan

theorem vetoRespected_of_reaches (calm : Quiet start)
    (met : Reaches (step program) VetoInTime start finish) :
    VetoRespected finish := by
  induction met with
  | refl => exact .of_quiet calm
  | @tail was fin e old inTime ran ih =>
    obtain ⟨inv, sole⟩ := exclusive_of_reaches calm old
    cases step_cases ran with
    | moved eff _ origin =>
      refine ih.moved sole inv eff ?_
      intro ch now pos goes
      rcases origin with bare | ⟨io, rfl⟩
      · rw [goes] at bare
        exact bare.elim
      · apply inTime ch.id
        rw [pos]
        rfl
    | proposed plan => exact ih.proposed plan

/-- In every interleaving of `Propose`, `Approve` and `Deny` calls, crashes and
failing statements in which each veto is written while its change is not past
the commit claim, commits and vetoes exclude each other. -/
theorem commit_and_veto_exclusive (quiet : Quiet start)
    (reached : Reaches (step program) VetoInTime start finish) : CommitVetoExclusion finish.db := by
  obtain ⟨sound, exclusive⟩ := exclusive_of_reaches quiet reached
  have respected := vetoRespected_of_reaches quiet reached
  have apart : ∀ id, finish.db.stateOf id = some .denied → ¬ Committing (finish.db.stateOf id) := by
    intro id isDenied committing
    rw [isDenied] at committing
    rcases committing with impossible | impossible <;> cases impossible
  refine ⟨exclusive.once, ?_, ?_, ?_⟩
  · intro ch member
    obtain ⟨⟨row, found, same⟩, met⟩ := sound.applied ch member
    refine ⟨row, found, ?_⟩
    rw [same.quorum]
    exact met
  · intro id member
    have isDenied := respected.vetoed id member
    refine ⟨?_, ?_⟩
    · intro ch applied same
      exact apart id isDenied (same ▸ respected.applied ch applied)
    · rw [isDenied]
      simp
  · intro ch member isDenied
    exact apart ch.id isDenied (respected.applied ch member)

theorem two_le_quorum {w : World} (met : Reachable (step program) (.initial w) finish) :
    ∀ id row, finish.db.changes.find id = some row → 2 ≤ row.quorum := by
  refine met.invariant (fun s => ∀ id row, s.db.changes.find id = some row → 2 ≤ row.quorum) ?_ ?_
  · intro id row hit
    cases hit
  · intro was new ev two _ ran id row hit
    cases step_cases ran with
    | moved eff =>
      obtain ⟨rewrite, eq, same⟩ := eff.find_change id
      rw [eq] at hit
      obtain ⟨old, had, rfl⟩ := Option.map_eq_some_iff.mp hit
      exact (same old).quorum ▸ two id old had
    | proposed plan =>
      rw [plan.find_change] at hit
      split_ifs at hit
      · cases hit
        obtain ⟨site, eq⟩ := plan.quorum
        rw [eq, Program.clampedQuorum]
        split_ifs <;> omega
      · exact two id row hit

/-- In every interleaving each change is applied at most once, as it was
proposed, and only with the approval of someone other than its proposer. -/
theorem applied_with_second_person {w : World}
    (reached : Reachable (step program) (.initial w) finish) :
    (finish.db.applied.map Change.id).Nodup ∧ ∀ ch ∈ finish.db.applied, Recorded finish.db ch ∧
      ∃ second ∈ finish.db.approvers ch.id, second ≠ ch.proposer := by
  obtain ⟨inv, exclusive⟩ := exclusive_of_reaches (State.initial_quiet w) reached
  refine ⟨exclusive.once, fun ch member => ?_⟩
  obtain ⟨⟨row, hit, same⟩, met⟩ := inv.applied ch member
  have quorum : 2 ≤ ch.quorum := same.quorum ▸ two_le_quorum reached _ row hit
  have two : 1 < (finish.db.approvers ch.id).card := by
    unfold QuorumMet at met
    omega
  exact ⟨⟨row, hit, same⟩, Finset.exists_mem_ne two ch.proposer⟩

end

namespace Example

def program : Program Unit String (List String) where
  quorum _ := 2
  registered _ := ["policy.publish"]
  commit _ ch world := some (world ++ [ch.payload])

def start : State Unit String (List String) := .initial []

/-- The next `count` statements of a call. -/
def statements (call count : Nat) : List (Event Unit String) :=
  List.replicate count (.statement call {})

def propose : Event Unit String :=
  .propose () 1 "policy.publish" "" "p" "alice" 0

end Example

open Example

theorem commit_and_veto_exclusive_two_admins :
    ∃ finish, Reaches (step program) VetoInTime start finish ∧
      finish.db.world = ["p"] ∧ CommitVetoExclusion finish.db := by
  have executed : (runEvents (guarded (step program) VetoInTime) start
        ([propose, .request 0 (.approve () 1 "bob"),
          .request 1 (.deny 1 "carol")] ++ statements 0 9 ++
          statements 1 1)).map (fun state => state.db.world) = some ["p"] := by
    decide
  obtain ⟨finish, ran, world⟩ := Option.map_eq_some_iff.mp executed
  have reached := reaches_of_runEvents ran
  exact ⟨finish, reached, world, commit_and_veto_exclusive (State.initial_quiet []) reached⟩

/-- `Deny` reads the pending state, `Approve` commits the change, and `Deny`
then marks the applied change denied and reports success. -/
theorem veto_of_applied_change : ¬ ∀ (start finish : State Unit String (List String)), Quiet start →
      Reachable (step program) start finish → CommitVetoExclusion finish.db := by
  intro claim
  have executed : (runEvents (step program) Example.start ([propose, .request 0 (.deny 1 "carol"),
          .statement 0 {}, .request 1 (.approve () 1 "bob")] ++
          statements 1 9 ++ statements 0 5)).map
        (fun state => (state.db.applied.map Change.id, state.db.vetoed, state.db.stateOf 1)) =
      some ([1], [1], some .denied) := by
    decide
  obtain ⟨finish, ran, outcome⟩ := Option.map_eq_some_iff.mp executed
  have exclusion := claim Example.start finish (State.initial_quiet []) (reachable_of_runEvents ran)
  simp only [Prod.mk.injEq] at outcome
  obtain ⟨applied, vetoed, _⟩ := outcome
  have member : (1 : Int) ∈ finish.db.vetoed := by simp [vetoed]
  have unapplied := (exclusion.vetoed 1 member).1
  have ran : (1 : Int) ∈ finish.db.applied.map Change.id := by simp [applied]
  obtain ⟨ch, chMember, same⟩ := List.mem_map.mp ran
  exact unapplied ch chMember same

theorem applied_with_second_person_bob : ∃ finish, Reachable (step program) start finish ∧
      finish.db.world = ["p"] ∧ (finish.db.applied.map Change.id).Nodup ∧
      ∀ ch ∈ finish.db.applied, Recorded finish.db ch ∧
        ∃ second ∈ finish.db.approvers ch.id, second ≠ ch.proposer := by
  have executed : (runEvents (step program) start ([propose, .request 0 (.approve () 1 "bob")] ++
      statements 0 9)).map (fun s => s.db.world) = some ["p"] := by
    decide
  obtain ⟨finish, ran, w⟩ := Option.map_eq_some_iff.mp executed
  have reached := reachable_of_runEvents ran
  exact ⟨finish, reached, w, applied_with_second_person reached⟩

end Harbor.DualControl
