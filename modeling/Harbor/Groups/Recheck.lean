import Harbor.Groups.System

/-!
# What a bulk re-group checks again

An entry of a bulk re-group is resolved by one statement and written by a
second one, long after the dry run that produced it.  The tables of the two
statements and of the dry run are arbitrary here, and so are the devices
marked reaped at each of the moments.
-/

namespace Harbor.Groups

open Library Policy

/-- Why the dry run leaves a device out. -/
inductive SkipReason where
  | reserved
  | reaped
  | ephemeral
  | stale
deriving DecidableEq, Repr

/-- What the dry run reads beside the enrollments: the devices marked reaped, the
ephemeral enrollments and the last heartbeat of an address (0 for none). -/
structure Survey where
  reaped : String → Bool
  ephemeral : Int → Bool := fun _ => false
  lastSeen : String → Int := fun _ => 0
  now : Int := 0
  staleAfter : Int := 0
  includeStale : Bool := false

/-- The switch in `classifyRegroup`, for one candidate. -/
def classifyRegroup (survey : Survey) (row : Enrollment) : Option SkipReason :=
  let seen := survey.lastSeen row.overlayIP
  if grantsReservedGroup row.desiredGroups then some .reserved
  else if survey.reaped row.deviceName then some .reaped
  else if survey.ephemeral row.id then some .ephemeral
  else if (seen = 0 ∨ (0 < survey.staleAfter ∧ seen < survey.now - survey.staleAfter)) ∧
      survey.includeStale = false then some .stale
  else none

/-- The dry run reports the entry for a row it does not leave out. -/
def Reported (survey : Survey) (preview : Database) (entry : ApplyEntry)
    (row : Enrollment) : Prop :=
  preview.enrollments.latest (Enrollment.issuedAt entry.overlayIP) = some row ∧
    row.id = entry.enrollmentID ∧
    row.groupsGeneration = entry.baseGeneration ∧
    classifyRegroup survey row = none

/-- All that the changed row should satisfy when it is changed. -/
structure Rechecked (reaped : String → Bool) (db : Database) (entry : ApplyEntry)
    (row : Enrollment) : Prop where
  latest : db.enrollments.latest (Enrollment.issuedAt row.overlayIP) = some row
  previewed : row.id = entry.enrollmentID ∧ row.groupsGeneration = entry.baseGeneration
  issued : grantsReservedGroup row.groups = false
  desired : grantsReservedGroup row.desiredGroups = false
  present : reaped row.deviceName = false

section

variable {dual : Bool} {db fin : Database} {io : Io} {listed : ApplyEntry}
  {remaining : List ApplyEntry} {results : List (String × String)} {next : Call} {row : Enrollment}

theorem resolved_of_lookup
    (saw : advance dual db io (.regroupLookup (listed :: remaining) results) =
      some (fin, .regroupWrite listed remaining results)) :
    ∃ cur, db.enrollments.latest (Enrollment.issuedAt listed.overlayIP) = some cur ∧
      cur.id = listed.enrollmentID ∧ cur.groupsGeneration = listed.baseGeneration ∧
      grantsReservedGroup cur.groups = false := by
  simp only [advance, advanceRegroup, Option.some.injEq, Prod.mk.injEq] at saw
  obtain ⟨-, resolved⟩ := saw
  split at resolved
  · cases resolved
  · split at resolved
    · cases resolved
    · rename_i cur hit
      split at resolved
      · cases resolved
      · rename_i unmoved
        split at resolved
        · cases resolved
        · rename_i spare
          simp only [Bool.or_eq_true, not_or, Bool.not_eq_true] at spare
          exact ⟨cur, hit, by omega, by omega, spare.1⟩

theorem selected_of_write (put : advance dual db io (.regroupWrite listed remaining results) =
      some (fin, next)) (kept : row ∈ db.enrollments.rows) (edit : row ∉ fin.enrollments.rows) :
    row.id = listed.enrollmentID ∧ row.groupsGeneration = listed.baseGeneration := by
  have unsel (still : fin = db) : False := edit (still ▸ kept)
  simp only [advance, advanceRegroup] at put
  split at put
  · cases put
    exact (unsel rfl).elim
  · split at put
    · cases put
      exact (unsel rfl).elim
    · cases put
      by_contra alt
      apply edit
      simp only [Database.setDesired, Table.mem_update]
      exact ⟨row, kept, if_neg (by simpa using alt)⟩

end

theorem kept_of_classifyRegroup {survey : Survey} {row : Enrollment}
    (eligible : classifyRegroup survey row = none) :
    grantsReservedGroup row.desiredGroups = false ∧ survey.reaped row.deviceName = false := by
  simp only [classifyRegroup] at eligible
  split_ifs at eligible with reserved reaped
  exact ⟨by simpa using reserved, by simpa using reaped⟩

namespace Example

def managed : Enrollment :=
  { id := 3, deviceName := "host-3", overlayIP := "100.64.0.3", status := .issued
    groups := ["web"], desiredGroups := ["web"] }

def single : Database :=
  holding managed

def confirmed : ApplyEntry where
  overlayIP := "100.64.0.3"
  enrollmentID := 3
  baseGeneration := 0
  target := ["db"]

def regrouped : Database :=
  single.setDesired 3 (fun row => row.groupsGeneration == 0) (normGroups ["db"]) 1

theorem lookup : advance false single {} (.regroupLookup [confirmed] []) =
    some (single, .regroupWrite confirmed [] []) := by
  rfl

theorem write : advance false single {} (.regroupWrite confirmed [] []) =
    some (regrouped, .regroupLookup [] [("100.64.0.3", "applied")]) := by
  rfl

end Example

open Example

end Harbor.Groups
