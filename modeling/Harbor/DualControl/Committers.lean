import Harbor.DualControl.Sound
import Mathlib.Data.Fintype.Basic

/-!
# Committed means applied

Three construction sites build a controller over the same tables, each with
its own committers, and every controller approves any pending change.  Where
the winning approver's controller has no committer for the kind, the change is
marked committed and nothing happens.
-/

namespace Harbor.DualControl

open Library List Option Table

inductive Site where
  | adminAPI
  | policyCLI
  | bulkRevokeCLI
deriving DecidableEq, Repr

instance : Fintype Site where
  elems := {.adminAPI, .policyCLI, .bulkRevokeCLI}
  complete site := by cases site <;> simp

def policyPublish : String := "policy.publish"

def cloudtrustPublish : String := "cloudtrust.publish"

def usertrustPublish : String := "usertrust.publish"

def regroupKind : String := "device.groups"

def bulkRevokeKind : String := "revocation.bulk-revoke"

def Site.registered : Site → List String
  | .adminAPI =>
    [policyPublish, cloudtrustPublish, usertrustPublish, regroupKind]
  | .policyCLI => [policyPublish, cloudtrustPublish, usertrustPublish]
  | .bulkRevokeCLI => [bulkRevokeKind]

def controllers {Payload World : Type} (commit : String → Change Payload → World → Option World) :
    Program Site Payload World where
  quorum _ := 0
  registered := Site.registered
  commit := commit

section

variable {Site Payload World : Type} (program : Program Site Payload World)

def AppliedTo (db : Database Payload World) (ch : Change Payload) : Prop :=
  ∃ done ∈ db.applied, done.id = ch.id ∧ done.kind = ch.kind ∧ done.payload = ch.payload

def AppliedIfRegistered (db : Database Payload World) (ch : Change Payload) : Prop :=
  (∃ site, ch.kind ∈ program.registered site) → AppliedTo db ch

def CommitterPresent (state : State Site Payload World) : Event Site Payload → Prop
  | .statement me _ =>
    match state.calls me with
    | .approveRun site ch =>
      (∃ other, ch.kind ∈ program.registered other) → ch.kind ∈ program.registered site
    | _ => True
  | _ => True

instance [Fintype Site] (state : State Site Payload World) :
    DecidablePred (CommitterPresent program state) := by
  intro event
  unfold CommitterPresent
  split
  · split <;> infer_instance
  · infer_instance

def CallApplied (db : Database Payload World) : Call Site Payload → Prop
  | .approveFinalize ch .committed => AppliedIfRegistered program db ch
  | _ => True

structure CommitsApplied (state : State Site Payload World) : Prop where
  calls : ∀ me, CallApplied program state.db (state.calls me)
  rows : ∀ id row, state.db.changes.find id = some row →
    row.state = .committed → AppliedIfRegistered program state.db row

variable {program} {me : Nat} {db fin : Database Payload World} {call next : Call Site Payload}

theorem AppliedIfRegistered.mono (used : AppliedIfRegistered program db ch)
    (logged : ∀ done ∈ db.applied, done ∈ fin.applied)
    (id : ch.id = alt.id) (k : ch.kind = alt.kind) (body : ch.payload = alt.payload) :
    AppliedIfRegistered program fin alt := by
  intro seen
  rw [← k] at seen
  obtain ⟨done, mem, idEq, ks, bodyEq⟩ := used seen
  exact ⟨done, logged done mem, idEq.trans id, ks.trans k, bodyEq.trans body⟩

theorem Effect.logged (eff : Effect program me db call fin next) :
    ∀ done ∈ db.applied, done ∈ fin.applied := by
  intro done mem
  rcases eff.applied_cases with eq | ⟨_, _, _, ins⟩
  · rw [eq]
    exact mem
  · rw [ins]
    exact mem_append_left _ mem

theorem Effect.committed_cases (eff : Effect program me db call fin next) {id : Int}
    {row : Change Payload} (hit : fin.changes.find id = some row) (shut : row.state = .committed) :
    ∃ old, db.changes.find id = some old ∧ old.SameContent row ∧ (old.state = .committed ∨
        ∃ ch, call = .approveFinalize ch .committed ∧ ch.id = id) := by
  have stay : fin.changes = db.changes →
      ∃ old, db.changes.find id = some old ∧ old.SameContent row ∧ (old.state = .committed ∨
          ∃ ch, call = .approveFinalize ch .committed ∧ ch.id = id) := by
    intro eq
    rw [eq] at hit
    exact ⟨row, hit, .refl row, .inl shut⟩
  cases eff with
  | quiet chs => exact stay chs
  | claimed =>
    rw [Database.find_claim] at hit
    obtain ⟨old, oldHit, rfl⟩ := map_eq_some_iff.mp hit
    refine ⟨old, oldHit, ?_⟩
    split_ifs at shut ⊢
    exact ⟨.refl old, .inl shut⟩
  | applied | appliedUnreported | rejected | skipped => exact stay rfl
  | @finalized ch out now _ pos _ _ =>
    rw [Database.find_decide] at hit
    obtain ⟨old, oldHit, rfl⟩ := map_eq_some_iff.mp hit
    refine ⟨old, oldHit, ?_⟩
    have idEq := (find_eq_some_iff.mp oldHit).2
    split_ifs at shut ⊢ with here
    · simp only at shut
      subst out
      refine ⟨⟨rfl, rfl, rfl, rfl⟩, .inr ⟨ch, pos, ?_⟩⟩
      rw [beq_iff_eq] at here
      rw [← here, idEq]
    · exact ⟨.refl old, .inl shut⟩
  | locked => exact stay rfl
  | @denied ch now _ pos _ =>
    have law : (db.decide ch.id .denied now).changes.find id =
        some row := hit
    rw [Database.find_decide] at law
    obtain ⟨old, oldHit, rfl⟩ := map_eq_some_iff.mp law
    refine ⟨old, oldHit, ?_⟩
    split_ifs at shut ⊢
    exact ⟨.refl old, .inl shut⟩
  | vetoed => exact stay rfl

theorem Effect.callApplied (eff : Effect program me db call fin next)
    (had : ¬ next.Plain → ∀ s ch, call = .approveRun s ch →
      (∃ alt, ch.kind ∈ program.registered alt) → ch.kind ∈ program.registered s) :
    CallApplied program fin next := by
  have ofPlain : next.Plain → CallApplied program fin next := by
    intro plain
    cases next <;> trivial
  cases eff with
  | quiet _ _ _ _ _ _ _ plain => exact ofPlain plain
  | claimed _ _ _ goes =>
    rcases goes with rfl | plain
    · trivial
    · exact ofPlain plain
  | @applied s ch w pos known took =>
    intro _
    exact ⟨ch, mem_append_right _ (mem_singleton_self ch), rfl,
      rfl, rfl⟩
  | appliedUnreported | rejected => trivial
  | @skipped s ch pos lacks =>
    intro known
    exact (lacks (had (fun plain => plain) s ch pos known)).elim
  | finalized _ _ plain => exact ofPlain plain
  | locked => trivial
  | denied _ goes =>
    rcases goes with rfl | plain
    · trivial
    · exact ofPlain plain
  | vetoed _ plain => exact ofPlain plain

theorem CommitsApplied.moved {s : State Site Payload World}
    (used : CommitsApplied program s) (inv : Sound s)
    (eff : Effect program me s.db (s.calls me) fin next)
    (had : ¬ next.Plain → ∀ site ch, s.calls me = .approveRun site ch →
      (∃ alt, ch.kind ∈ program.registered alt) → ch.kind ∈ program.registered site) :
    CommitsApplied program { db := fin, calls := Function.update s.calls me next } := by
  constructor
  · apply Function.forall_update_iff s.calls (p := fun _ call =>
      CallApplied program fin call) |>.mpr
    refine ⟨eff.callApplied had, ?_⟩
    intro alt _
    have was := used.calls alt
    cases pos : s.calls alt with
    | approveFinalize ch out =>
      rw [pos] at was
      cases out with
      | committed => exact was.mono eff.logged rfl rfl rfl
      | _ => trivial
    | _ => trivial
  · intro id row hit shut
    obtain ⟨old, oldHit, eq, origin⟩ := eff.committed_cases hit shut
    have oldId := (find_eq_some_iff.mp oldHit).2
    have rowId := (find_eq_some_iff.mp hit).2
    rcases origin with wasCommitted | ⟨ch, pos, chId⟩
    · exact (used.rows id old oldHit wasCommitted).mono eff.logged
        (oldId.trans rowId.symm) eq.kind eq.payload
    · have was := used.calls me
      have note := inv.recorded me ch
      rw [pos] at was note
      obtain ⟨got, foundLoaded, t⟩ := note rfl
      rw [chId, oldHit, Option.some.injEq] at foundLoaded
      subst got
      exact AppliedIfRegistered.mono was eff.logged
        (chId.trans rowId.symm) (t.kind.symm.trans eq.kind) (t.payload.symm.trans eq.payload)

theorem CommitsApplied.proposed {s : State Site Payload World}
    (used : CommitsApplied program s) {ch : Change Payload} (plan : Proposed program s.db fin ch) :
    CommitsApplied program { db := fin, calls := s.calls } := by
  have logged : ∀ done ∈ s.db.applied, done ∈ fin.applied := by
    intro done mem
    rw [(propose_rows plan.added).2.2.2.2.1]
    exact mem
  constructor
  · intro me
    have was := used.calls me
    cases pos : s.calls me with
    | approveFinalize alt out =>
      rw [pos] at was
      cases out with
      | committed => exact was.mono logged rfl rfl rfl
      | _ => trivial
    | _ => trivial
  · intro id row hit shut
    rw [plan.find_change] at hit
    split_ifs at hit
    · cases hit
      rw [plan.pending] at shut
      cases shut
    · exact (used.rows id row hit shut).mono logged rfl rfl rfl

end

section

variable {Payload W : Type} {commit : String → Change Payload → W → Option W}
  {start finish : State Site Payload W}

/-- In every run in which each winning approver's controller has the committer
of the change's kind, a committed change of a kind that some controller
applies has been applied. -/
theorem committed_means_applied (quiet : Quiet start) (empty : start.db.changes.rows = [])
    (reached : Reaches (step (controllers commit))
      (CommitterPresent (controllers commit)) start finish)
    {row : Change Payload} (member : row ∈ finish.db.changes.rows)
    (committed : row.state = .committed) (registered : ∃ site : Site, row.kind ∈ site.registered) :
    AppliedTo finish.db row := by
  have both : Sound finish ∧ CommitsApplied (controllers commit) finish := by
    apply reached.invariant (fun state => Sound state ∧ CommitsApplied (controllers commit) state)
    · refine ⟨.of_quiet quiet, ?_, ?_⟩
      · intro me
        rw [quiet.calls me]
        trivial
      · intro id row found
        have present := (find_eq_some_iff.mp found).1
        rw [empty] at present
        cases present
    · intro before after event both present taken
      obtain ⟨sound, applied⟩ := both
      refine ⟨sound.step taken, ?_⟩
      cases step_cases taken with
      | @moved me db next effect _ origin =>
        apply applied.moved sound effect
        intro notPlain
        rcases origin with plain | ⟨io, rfl⟩
        · exact (notPlain plain).elim
        · intro site ch position
          simpa only [CommitterPresent, position] using present
      | proposed proposal => exact applied.proposed proposal
  exact both.2.rows row.id row (find_eq_some_iff.mpr ⟨member, rfl⟩) committed registered

end

namespace Example

def harbor : Program Site String (List String) :=
  controllers fun _ ch world => some (world ++ [ch.payload])

def empty : State Site String (List String) := .initial []

/-- A bulk revocation proposed on the CLI and approved at `site`. -/
def bulkRevoke (site : Site) : List (Event Site String) :=
  [.propose .bulkRevokeCLI 1 bulkRevokeKind "" "fp" "alice" 0,
    .request 0 (.approve site 1 "bob")] ++ List.replicate 8 (.statement 0 {})

end Example

open Example

theorem committed_means_applied_bulk_revoke : ∃ finish row, Reaches (step harbor)
        (CommitterPresent harbor) empty finish ∧
      row.state = .committed ∧ AppliedTo finish.db row := by
  let row : Change String :=
    { id := 1, kind := bulkRevokeKind, payload := "fp", state := .committed,
      quorum := 2, proposer := "alice" }
  have executed : (runEvents (guarded (step harbor)
        (CommitterPresent harbor)) empty (bulkRevoke .bulkRevokeCLI)).map
        (fun state => state.db.changes.rows) = some [row] := by
    decide
  obtain ⟨finish, ran, rows⟩ := Option.map_eq_some_iff.mp executed
  have reached := reaches_of_runEvents ran
  exact ⟨finish, row, reached, rfl, committed_means_applied (State.initial_quiet []) rfl reached
      (rows ▸ List.mem_singleton_self _) rfl ⟨.bulkRevokeCLI, by decide⟩⟩

/-- A bulk revocation proposed on the CLI and approved through the admin API is
committed with nothing revoked. -/
theorem committed_without_effect :
    ¬ ∀ (start finish : State Site String (List String)) (row : Change String),
      Quiet start → start.db.changes.rows = [] → Reachable (step harbor) start finish →
      row ∈ finish.db.changes.rows → row.state = .committed →
      (∃ site : Site, row.kind ∈ site.registered) → AppliedTo finish.db row := by
  intro claim
  have executed : (runEvents (step harbor) empty (bulkRevoke .adminAPI)).map
        (fun state => (state.db.changes.rows, state.db.applied)) = some
        ([{ id := 1, kind := bulkRevokeKind, payload := "fp",
            state := .committed, quorum := 2, proposer := "alice" }], []) := by
    decide
  obtain ⟨finish, ran, outcome⟩ := Option.map_eq_some_iff.mp executed
  simp only [Prod.mk.injEq] at outcome
  obtain ⟨rows, applied⟩ := outcome
  obtain ⟨done, member, _⟩ := claim empty finish _
    (State.initial_quiet []) rfl (reachable_of_runEvents ran)
    (rows ▸ List.mem_singleton_self _) rfl ⟨.bulkRevokeCLI, by decide⟩
  rw [applied] at member
  cases member

end Harbor.DualControl
