import Harbor.DualControl.Quorum

/-!
# Invariant of the dual-control system

Every change a call works on is recorded with the same content, and every
committer that ran did so over a met quorum.  The step inversion `step_cases`
says what an event can do; the results about exclusivity, committers and trust
start from it.
-/

namespace Harbor.DualControl

open Library List Option

variable {Site Payload World : Type}

structure Change.SameContent (left right : Change Payload) : Prop where
  kind : left.kind = right.kind
  payload : left.payload = right.payload
  quorum : left.quorum = right.quorum
  proposer : left.proposer = right.proposer

def Recorded (db : Database Payload World) (ch : Change Payload) : Prop :=
  ∃ row, db.changes.find ch.id = some row ∧ row.SameContent ch

/-- What `Propose` adds. -/
structure Proposed (program : Program Site Payload World)
    (db after : Database Payload World) (ch : Change Payload) : Prop where
  pending : ch.state = .pending
  quorum : ∃ site, ch.quorum = program.clampedQuorum site
  added : db.propose ch = some after

inductive Stepped (program : Program Site Payload World)
    (state : State Site Payload World) (event : Event Site Payload) :
    State Site Payload World → Prop where
  | moved {me : Nat} {db : Database Payload World} {next : Call Site Payload}
      (effect : Effect program me state.db (state.calls me) db next)
      (progress : Progress me state.db (state.calls me) db next)
      (origin : next.Plain ∨ ∃ io, event = .statement me io) : Stepped program state event
        { db := db, calls := Function.update state.calls me next }
  | proposed {db : Database Payload World} {ch : Change Payload}
      (proposal : Proposed program state.db db ch) :
      Stepped program state event { db := db, calls := state.calls }

section

variable {prog : Program Site Payload World}
  {s new : State Site Payload World} {ev : Event Site Payload}

theorem accept_plain (req : Request Site) : (accept req : Call Site Payload).Plain ∧
      (accept req : Call Site Payload).change = none := by
  cases req with
  | approve site id who | deny id who =>
    simp only [accept]
    split_ifs
    · exact ⟨trivial, rfl⟩
    · exact ⟨trivial, rfl⟩

theorem step_cases (did : step prog s ev = some new) :
    Stepped prog s ev new := by
  cases ev with
  | request c req =>
    simp only [step] at did
    split at did <;> cases did
    rename_i idle
    obtain ⟨bare, unloaded⟩ := @accept_plain Site Payload req
    exact .moved (.same (by rw [idle]; rfl) bare) (.unloaded .same unloaded) (.inl bare)
  | statement c io =>
    simp only [step] at did
    obtain ⟨⟨db, next⟩, ran, rfl⟩ := map_eq_some_iff.mp did
    obtain ⟨eff, fore⟩ := advance_moved ran
    exact .moved eff fore (.inr ⟨io, rfl⟩)
  | crash c =>
    simp only [step, Option.some.injEq] at did
    subst new
    exact .moved (.abort _) (.abort _) (.inl trivial)
  | propose site id k tgt body proposer now =>
    simp only [step] at did
    split_ifs at did
    obtain ⟨db, ins, rfl⟩ := map_eq_some_iff.mp did
    exact .proposed ⟨rfl, ⟨site, rfl⟩, ins⟩

end

section

variable {prog : Program Site Payload World} {me : Nat}
  {db new : Database Payload World} {call next : Call Site Payload} {ch : Change Payload}

theorem Change.SameContent.refl (change : Change Payload) :
    change.SameContent change :=
  ⟨rfl, rfl, rfl, rfl⟩

theorem Change.SameContent.trans {l mid r : Change Payload}
    (fst : l.SameContent mid) (snd : mid.SameContent r) :
    l.SameContent r :=
  ⟨fst.kind.trans snd.kind, fst.payload.trans snd.payload,
    fst.quorum.trans snd.quorum, fst.proposer.trans snd.proposer⟩

theorem Effect.find_change (eff : Effect prog me db call new next) (id : Int) :
    ∃ rewrite : Change Payload → Change Payload,
      new.changes.find id = (db.changes.find id).map rewrite ∧
        ∀ row, (rewrite row).SameContent row := by
  have ident : new.changes = db.changes → ∃ rewrite : Change Payload → Change Payload,
        new.changes.find id = (db.changes.find id).map rewrite ∧
          ∀ row, (rewrite row).SameContent row := by
    intro eq
    exact ⟨fun row => row, by simp [eq], .refl⟩
  cases eff with
  | quiet chs => exact ident chs
  | claimed =>
    refine ⟨_, Database.find_claim, ?_⟩
    intro row
    split_ifs
    · exact ⟨rfl, rfl, rfl, rfl⟩
    · exact .refl row
  | applied | appliedUnreported | rejected | skipped => exact ident rfl
  | finalized =>
    refine ⟨_, Database.find_decide, ?_⟩
    intro row
    split_ifs
    · exact ⟨rfl, rfl, rfl, rfl⟩
    · exact .refl row
  | locked => exact ident rfl
  | denied =>
    refine ⟨_, Database.find_decide, ?_⟩
    intro row
    split_ifs
    · exact ⟨rfl, rfl, rfl, rfl⟩
    · exact .refl row
  | vetoed => exact ident rfl

theorem Effect.recorded (eff : Effect prog me db call new next)
    (note : Recorded db ch) : Recorded new ch := by
  obtain ⟨row, hit, eq⟩ := note
  obtain ⟨rewrite, rewritten, keep⟩ := eff.find_change ch.id
  refine ⟨rewrite row, ?_, (keep row).trans eq⟩
  rw [rewritten, hit]
  rfl

theorem Effect.applied_cases (eff : Effect prog me db call new next) :
    new.applied = db.applied ∨ ∃ s ch, call = .approveRun s ch ∧
        new.applied = db.applied ++ [ch] := by
  cases eff with
  | quiet _ _ used => exact .inl used
  | applied pos => exact .inr ⟨_, _, pos, rfl⟩
  | _ => exact .inl rfl

theorem propose_rows (ins : db.propose ch = some new) : db.changes.insert? ch = some new.changes ∧
      db.signoffs.insert? ⟨ch.id, ch.proposer, .approve, ch.createdAt, none⟩ = some new.signoffs ∧
      new.locks = db.locks ∧ new.world = db.world ∧
      new.applied = db.applied ∧ new.vetoed = db.vetoed := by
  unfold Database.propose at ins
  split at ins
  · rename_i chs ss insertedChange insertedSignoff
    cases ins
    exact ⟨insertedChange, insertedSignoff, rfl, rfl, rfl, rfl⟩
  · cases ins

theorem Proposed.find_change (plan : Proposed prog db new ch) (id : Int) : new.changes.find id =
      if id = ch.id then some ch else db.changes.find id :=
  Table.find_insert? (propose_rows plan.added).1

theorem Proposed.fresh (plan : Proposed prog db new ch) : db.changes.find ch.id = none :=
  (Table.insert?_eq_some (propose_rows plan.added).1).2

theorem Proposed.stateOf (plan : Proposed prog db new ch) (id : Int) : new.stateOf id =
      if id = ch.id then some .pending else db.stateOf id := by
  rw [Database.stateOf, plan.find_change]
  split_ifs
  · rw [map_some, plan.pending]
  · rfl

theorem Proposed.stateOf_known {id : Int} {seen : ChangeState} (plan : Proposed prog db new ch)
    (was : db.stateOf id = some seen) : new.stateOf id = some seen := by
  have ne : id ≠ ch.id := by
    rintro rfl
    rw [Database.stateOf, plan.fresh] at was
    cases was
  rw [plan.stateOf, if_neg ne, was]

theorem Proposed.recorded {alt : Change Payload} (plan : Proposed prog db new ch)
    (note : Recorded db alt) : Recorded new alt := by
  obtain ⟨row, hit, eq⟩ := note
  refine ⟨row, ?_, eq⟩
  have ne : alt.id ≠ ch.id := by
    intro collides
    rw [collides, plan.fresh] at hit
    cases hit
  rw [plan.find_change, if_neg ne, hit]

theorem Proposed.seen {sees : Option Nat → Bool} {id : Int} {who : String}
    (plan : Proposed prog db new ch) (seen : SeenApproving db.signoffs sees id who) :
    SeenApproving new.signoffs sees id who := by
  obtain ⟨sign, mem, rest⟩ := seen
  have rs := (Table.insert?_eq_some (propose_rows plan.added).2.1).1
  exact ⟨sign, by rw [rs]; exact mem_append_left _ mem, rest⟩

end

theorem QuorumMet.mono {was new : Database Payload World} {ch : Change Payload}
    (shut : ∀ who, SeenApproving was.signoffs Option.isNone ch.id who →
      SeenApproving new.signoffs Option.isNone ch.id who)
    (met : QuorumMet was ch) : QuorumMet new ch := by
  have cards := card_approvers_le shut
  unfold QuorumMet at met ⊢
  omega

theorem CallReady.mono {was new : Database Payload World} {me : Nat} {c : Call Site Payload}
    (shown : ∀ id who, SeenApproving was.signoffs (visibleTo me) id who →
      SeenApproving new.signoffs (visibleTo me) id who) (shut : ∀ id who,
      SeenApproving was.signoffs Option.isNone id who →
      SeenApproving new.signoffs Option.isNone id who)
    (due : CallReady was me c) : CallReady new me c := by
  cases c with
  | approveCommit s ch quorumReached =>
    cases quorumReached with
    | false => trivial
    | true =>
      obtain ⟨sum, bd, seen⟩ := due
      exact ⟨sum, bd, fun who mem => shown _ _ (seen who mem)⟩
  | approveClaim s ch | approveRun s ch => exact QuorumMet.mono (shut ch.id) due
  | approveFinalize ch out => exact QuorumMet.mono (shut ch.id) due
  | _ => trivial

structure Sound (state : State Site Payload World) : Prop where
  recorded : ∀ me ch, (state.calls me).change = some ch → Recorded state.db ch
  ready : ∀ me, CallReady state.db me (state.calls me)
  applied : ∀ ch ∈ state.db.applied, Recorded state.db ch ∧ QuorumMet state.db ch

namespace Sound

variable {prog : Program Site Payload World}
  {s new : State Site Payload World} {ev : Event Site Payload}

theorem of_quiet (calm : Quiet s) : Sound s := by
  refine ⟨?_, ?_, ?_⟩
  · intro me ch got
    rw [calm.calls me] at got
    cases got
  · intro me
    rw [calm.calls me]
    trivial
  · intro ch mem
    rw [calm.applied] at mem
    cases mem

theorem moved (inv : Sound s) {me : Nat} {db : Database Payload World}
    {next : Call Site Payload} (eff : Effect prog me s.db (s.calls me) db next)
    (fore : Progress me s.db (s.calls me) db next) :
    Sound { db := db, calls := Function.update s.calls me next } := by
  have shut : ∀ id who, SeenApproving s.db.signoffs Option.isNone id who →
      SeenApproving db.signoffs Option.isNone id who :=
    fun _ _ => fore.signoffs.committed_mono
  refine ⟨?_, ?_, ?_⟩
  · apply Function.forall_update_iff s.calls (p := fun _ c =>
      ∀ ch, c.change = some ch → Recorded db ch) |>.mpr
    constructor
    · intro ch got
      rcases fore.change ch got with had | hit
      · exact eff.recorded (inv.recorded me ch had)
      · exact eff.recorded ⟨ch, hit, .refl ch⟩
    · intro alt _ ch got
      exact eff.recorded (inv.recorded alt ch got)
  · apply Function.forall_update_iff s.calls (p := fun alt c =>
      CallReady db alt c) |>.mpr
    constructor
    · exact fore.ready (inv.ready me)
    · intro alt ne
      exact (inv.ready alt).mono (fun _ _ => fore.signoffs.visible_mono ne) shut
  · intro ch mem
    have old : ch ∈ s.db.applied → Recorded db ch ∧ QuorumMet db ch := by
      intro used
      obtain ⟨note, met⟩ := inv.applied ch used
      exact ⟨eff.recorded note, met.mono (shut ch.id)⟩
    rcases eff.applied_cases with eq | ⟨site, ran, pos, ins⟩
    · exact old (eq ▸ mem)
    · simp only [ins] at mem
      rcases mem_append.mp mem with used | last
      · exact old used
      · simp only [mem_singleton] at last
        subst ran
        have got : (s.calls me).change = some ch := by
          rw [pos]
          rfl
        have met := inv.ready me
        rw [pos] at met
        exact ⟨eff.recorded (inv.recorded me ch got), QuorumMet.mono (shut ch.id) met⟩

theorem proposed (inv : Sound s) {db : Database Payload World}
    {ch : Change Payload} (plan : Proposed prog s.db db ch) :
    Sound { db := db, calls := s.calls } := by
  refine ⟨?_, ?_, ?_⟩
  · intro me alt got
    exact plan.recorded (inv.recorded me alt got)
  · intro me
    exact (inv.ready me).mono (fun _ _ => plan.seen) (fun _ _ => plan.seen)
  · intro alt mem
    rw [(propose_rows plan.added).2.2.2.2.1] at mem
    obtain ⟨note, met⟩ := inv.applied alt mem
    exact ⟨plan.recorded note, met.mono (fun _ => plan.seen)⟩

theorem step (inv : Sound s) (ran : DualControl.step prog s ev = some new) :
    Sound new := by
  cases step_cases ran with
  | moved eff fore _ => exact inv.moved eff fore
  | proposed plan => exact inv.proposed plan

end Sound

end Harbor.DualControl
