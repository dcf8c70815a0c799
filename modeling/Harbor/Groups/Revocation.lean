import Harbor.Groups.Moves
import Harbor.Revocation.Registry

/-!
# Revocation and renewal

A renewal reads the device's row, checks that its fingerprint is not on the
blocklist, signs and only then records the new fingerprint.  A revocation that
commits before the check, or after the new fingerprint is recorded and aims at
it, holds for good; one that commits in between blocks a certificate that is
about to be replaced.
-/

namespace Harbor.Groups

open Library Revocation

/-- The events `revoke` and `lift` are the commits of the blocklist's own
transactions. -/
def BlocklistOf (rows : Rows) (db : Database) : Prop :=
  ∀ fingerprint, fingerprint ∈ db.revoked ↔ fingerprint ∈ activeFingerprints rows

section

variable {dual : Bool} {state next : State} {rows : Rows} {fp : String}

theorem blocklistOf_revoke (blocklist : BlocklistOf rows state.db)
    (ins : addTx rows fp reason who bulk now = .ok new)
    (ran : step dual state (.revoke fp) = some next) : BlocklistOf new next.db := by
  cases ran
  intro alt
  rw [mem_active_addTx ins, List.mem_cons, blocklist]

theorem blocklistOf_lift (blocklist : BlocklistOf rows state.db)
    (ran : step dual state (.lift fp) = some next) : BlocklistOf (lift rows fp now) next.db := by
  cases ran
  intro alt
  rw [mem_active_lift, List.mem_filter, blocklist]
  simp [and_comm]

end

/-- A renewal of the device that cannot escape a revocation of the fingerprint:
it has yet to read the row, or it holds this fingerprint and has yet to check
it, or it has recorded this fingerprint. -/
def CallSettled (id : Int) (fingerprint : String) : Call → Prop
  | .renewRevocation dev => dev.id = id → dev.fingerprint = fingerprint
  | .renewSign dev | .renewStamp dev _ _ => dev.id ≠ id
  | .renewOldExpiry dev _ leaf => dev.id = id → leaf.fingerprint = fingerprint
  | .renewWriteBack dev _ leaf _ => dev.id = id → leaf.fingerprint = fingerprint
  | .renewHeartbeat dev leaf => dev.id = id → leaf.fingerprint = fingerprint
  | _ => True

structure Blocked (id : Int) (fingerprint : String) (db : Database) : Prop where
  row : ∃ row, db.enrollments.find id = some row ∧ row.fingerprint = fingerprint
  listed : fingerprint ∈ db.revoked

section

variable {id : Int} {fp : String} {db fin : Database} {call next : Call}

theorem Blocked.of_same (stop : Blocked id fp db) (eq : SameTables db fin) : Blocked id fp fin := by
  obtain ⟨table, revoked⟩ := eq
  exact ⟨by rw [table]; exact stop.row, by rw [revoked]; exact stop.listed⟩

theorem Blocked.update (stop : Blocked id fp db)
    {sel : Enrollment → Bool} {ch : Enrollment → Enrollment}
    (keepsId : ∀ row, (ch row).id = row.id) (keep : ∀ row, row.id = id → sel row = true →
      (ch row).fingerprint = row.fingerprint) : Blocked id fp
      { db with
        enrollments := db.enrollments.update sel ch keepsId } := by
  obtain ⟨row, found, eq⟩ := stop.row
  refine ⟨⟨_, by rw [Table.find_update, found]; rfl, ?_⟩, stop.listed⟩
  dsimp only
  split
  · rename_i hit
    rw [keep row (Table.find_eq_some_iff.mp found).2 hit, eq]
  · exact eq

theorem Blocked.of_latest (stop : Blocked id fp db)
    (hit : db.enrollments.latest sel = some dev) (eq : dev.id = id) : dev.fingerprint = fp := by
  obtain ⟨row, had, note⟩ := stop.row
  obtain ⟨rowMember, rowID⟩ := Table.find_eq_some_iff.mp had
  obtain ⟨mem, _⟩ := Table.latest_eq_some_iff.mp hit
  rw [db.enrollments.row_eq_of_key_eq mem rowMember (eq.trans rowID.symm), note]

theorem Blocked.moves (note : fp ≠ "") (stop : Blocked id fp db)
    (fix : CallSettled id fp call) (move : Moves db fin call next) :
    Blocked id fp fin ∧ CallSettled id fp next := by
  cases move with
  | ended _ eq | patchRead eq _ => exact ⟨stop.of_same eq, trivial⟩
  | patchWritten _ put =>
    subst put
    exact ⟨stop.update _ fun _ _ _ => rfl, trivial⟩
  | regroupLooked _ _ eq | regroupRead eq => exact ⟨stop.of_same eq, trivial⟩
  | regroupWritten put =>
    subst put
    exact ⟨stop.update _ fun _ _ _ => rfl, trivial⟩
  | renewRead eq found =>
    exact ⟨stop.of_same eq, stop.of_latest found⟩
  | renewCleared eq unlisted =>
    refine ⟨stop.of_same eq, ?_⟩
    intro ours
    have held : _ = fp := fix ours
    rw [held] at unlisted
    exact unlisted ⟨note, stop.listed⟩
  | renewSigned eq => exact ⟨stop.of_same eq, fix⟩
  | renewStamped put move =>
    subst put
    refine ⟨stop.update _ ?_, ?_⟩
    · intro row ours hit
      simp only [beq_iff_eq] at hit
      exact absurd (hit.symm.trans ours) fix
    · rcases move with rfl | rfl <;>
        exact fun ours => absurd ours fix
  | renewAged eq => exact ⟨stop.of_same eq, fix⟩
  | renewRecorded put =>
    rcases put with eq | rfl
    · exact ⟨stop.of_same eq, fix⟩
    · exact ⟨stop.update _ fun _ _ _ => rfl, fix⟩

theorem step_blocked {dual : Bool} {was fin : State}
    {ev : Event} (note : fp ≠ "") (has : Blocked id fp was.db ∧
      ∀ num, CallSettled id fp (was.calls num))
    (may : ev ≠ .lift fp) (did : step dual was ev = some fin) : Blocked id fp fin.db ∧
      ∀ num, CallSettled id fp (fin.calls num) := by
  refine step_preserves (Blocked id fp) (fun _ => CallSettled id fp)
    (fun _ ev => ev ≠ .lift fp) ?_ ?_ ?_ has may did
  · intro db call new
    cases call <;> trivial
  · intro st num io call next fin _ _ stop fix ran
    obtain ⟨kept, tidy⟩ :=
      stop.moves note fix (advance_moves ran)
    exact ⟨kept, tidy, fun _ idle => idle⟩
  · rintro st ev revoked may (⟨alt, _, rfl⟩ | ⟨alt, lifted, rfl⟩) stop
    · exact ⟨⟨stop.row, List.mem_cons_of_mem _ stop.listed⟩, fun _ idle => idle⟩
    · refine ⟨⟨stop.row, List.mem_filter.mpr ⟨stop.listed, ?_⟩⟩, fun _ idle => idle⟩
      simp only [ne_eq, decide_not, Bool.not_eq_true', decide_eq_false_iff_not]
      rintro rfl
      exact may lifted

end

/-- A revocation of the device's recorded fingerprint that commits while every
renewal in flight has yet to check that fingerprint, or has recorded it, holds:
in every later state the recorded certificate is on the blocklist, and so is
the certificate of every renewal that returns. -/
theorem revocation_survives_renewal {dualControl : Bool}
    {start revoked finish : State} {id : Int} {row : Enrollment}
    (found : start.db.enrollments.find id = some row) (recorded : row.fingerprint ≠ "")
    (settled : ∀ number, CallSettled id row.fingerprint (start.calls number))
    (committed : step dualControl start (.revoke row.fingerprint) = some revoked)
    (reached : Reaches (step dualControl)
      (fun _ event => event ≠ .lift row.fingerprint) revoked finish) :
    (∃ current, finish.db.enrollments.find id = some current ∧
      current.fingerprint ∈ finish.db.revoked) ∧ ∀ number io after dev leaf,
      finish.calls number = .renewHeartbeat dev leaf → dev.id = id →
      step dualControl finish (.statement number io) = some after →
      leaf.fingerprint ∈ after.db.revoked := by
  have initially : Blocked id row.fingerprint revoked.db ∧
      ∀ number, CallSettled id row.fingerprint (revoked.calls number) := by
    cases committed
    exact ⟨⟨⟨row, found, rfl⟩, List.mem_cons_self⟩, settled⟩
  obtain ⟨blocked, running⟩ := reached.invariant (fun state => Blocked id row.fingerprint state.db ∧
      ∀ number, CallSettled id row.fingerprint (state.calls number))
    initially (step_blocked recorded)
  constructor
  · obtain ⟨current, present, same⟩ := blocked.row
    exact ⟨current, present, same ▸ blocked.listed⟩
  · intro number io after dev leaf returning ours taken
    obtain ⟨still, _⟩ := step_blocked recorded ⟨blocked, running⟩ (by nofun) taken
    have handed := running number
    rw [returning] at handed
    rw [handed ours]
    exact still.listed

namespace Example

def oldFingerprint : String :=
  "00000000000000000000000000000000000000000000000000000000000000aa"

def newFingerprint : String :=
  "00000000000000000000000000000000000000000000000000000000000000bb"

def certified : Enrollment :=
  { host with fingerprint := oldFingerprint }

def renewing (call : Call) : State :=
  { db := holding certified
    calls := fun number => if number = 0 then call else .idle }

def upToCheck : List Event :=
  [.request 0 (.renew "100.64.0.9"), .statement 0 {}, .statement 0 {}]

def fromSigning : List Event :=
  [.statement 0 { leaf := some ⟨newFingerprint, "ca", 0⟩ }, .statement 0 {},
    .statement 0 {}, .statement 0 {}]

end Example

open Example

/-- The renewal is about to check when the revocation commits. -/
theorem revocation_survives_waiting_renewal : ∃ revoked finish,
      step false (renewing (.renewRevocation certified)) (.revoke oldFingerprint) = some revoked ∧
      step false revoked (.statement 0 {}) = some finish ∧ finish.calls 0 =
        .done (.wireError "account_not_allowed" "certificate revoked") ∧
      ∃ current, finish.db.enrollments.find 7 = some current ∧
        current.fingerprint ∈ finish.db.revoked := by
  have settled : ∀ number, CallSettled 7 certified.fingerprint
      ((renewing (.renewRevocation certified)).calls number) := by
    intro number
    unfold renewing
    dsimp only
    split
    · exact fun _ => rfl
    · trivial
  have permitted : Event.statement 0 {} ≠ .lift certified.fingerprint := by
    nofun
  obtain ⟨revoked, committed⟩ : ∃ revoked, step false (renewing (.renewRevocation certified))
        (.revoke certified.fingerprint) = some revoked := ⟨_, rfl⟩
  obtain ⟨finish, checked, refused⟩ : ∃ finish, step false revoked (.statement 0 {}) = some finish ∧
      finish.calls 0 = .done (.wireError "account_not_allowed" "certificate revoked") := by
    cases committed
    exact ⟨_, rfl, by decide⟩
  exact ⟨revoked, finish, committed, checked, refused,
    (revocation_survives_renewal (show _ = some certified from rfl)
      (by decide) settled committed (.tail .refl permitted checked)).1⟩

/-- The revocation commits between the check of a renewal and its write of the
new fingerprint: it blocks the old certificate only. -/
theorem revocation_orphaned_by_renewal : (runEvents (step false) (renewing .idle) upToCheck).map
        (fun state => (state.db.enrollments.find 7).map (·.fingerprint)) =
      some (some oldFingerprint) ∧ (runEvents (step false) (renewing .idle)
        (upToCheck ++ .revoke oldFingerprint :: fromSigning)).map
        (fun state => (state.calls 0, (state.db.enrollments.find 7).map (·.fingerprint),
          state.db.revoked)) = some (.done .renewed, some newFingerprint,
        [oldFingerprint]) ∧ newFingerprint ∉ [oldFingerprint] := by
  decide

end Harbor.Groups
