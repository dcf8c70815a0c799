import Harbor.Data.Enrollment
import Harbor.Library.Text
import Harbor.Policy.Reserved

/-!
# The certificate blocklist

The `revocations` table: one row per fingerprint, active or lifted.  `Add`
refuses texts that are not fingerprints and hosts that hold a reserved group;
its transaction inserts a row or activates a lifted one.
-/

namespace Harbor.Revocation

open Library Library.Text Policy Table

inductive Phase where
  | active
  | lifted
deriving DecidableEq, Repr

/-- A row of `revocations`. -/
structure Row where
  fingerprint : String
  reason : String := ""
  bulk : Bool := false
  state : Phase
  createdBy : String := ""
  createdAt : Int := 0
  updatedAt : Int := 0
deriving DecidableEq, Repr

/-- `fingerprint … NOT NULL UNIQUE`. -/
abbrev Rows := Table Row.fingerprint

inductive Error where
  | noFingerprint
  | invalidFingerprint (fingerprint : String)
  | controlPlaneProtected
  | alreadyActive
  | database
deriving DecidableEq, Repr

def normFingerprint (fold : CaseMap) (fingerprint : String) : String :=
  fold.lower (trimSpace fingerprint)

def validFingerprint (fingerprint : String) : Bool :=
  fingerprint.toList.length == 64 && fingerprint.toList.all fun c =>
      (decide ('0' ≤ c) && decide (c ≤ '9')) || (decide ('a' ≤ c) && decide (c ≤ 'f'))

/-- The guard of `Add`: the latest issued enrollment with the fingerprint holds
no reserved group and no address of the central block. -/
def protectControlPlane (enrollments : Enrollments) (central : String → Bool)
    (fingerprint : String) : Option Error :=
  match enrollments.latest fun row =>
      row.fingerprint == fingerprint && row.status == .issued with
  | none => none
  | some row =>
    if grantsReservedGroup row.groups then some .controlPlaneProtected
    else if central row.overlayIP then some .controlPlaneProtected
    else none

/-- The transaction of `Add`. -/
def addTx (rows : Rows) (fingerprint reason actor : String) (bulk : Bool)
    (now : Int) : Except Error Rows :=
  match rows.find fingerprint with
  | none =>
    match rows.insert?
        { fingerprint := fingerprint
          reason := reason
          bulk := bulk
          state := .active
          createdBy := actor
          createdAt := now
          updatedAt := now } with
    | some after => .ok after
    | none => .error .database
  | some row =>
    if row.state = .active then .error .alreadyActive
    else
      .ok (rows.update (fun row => row.fingerprint == fingerprint) (fun row =>
          { row with
            state := .active
            reason := reason
            bulk := bulk
            createdBy := actor
            updatedAt := now }) fun _ => rfl)

def add (fold : CaseMap) (enrollments : Enrollments) (central : String → Bool)
    (rows : Rows) (fingerprint reason actor : String) (now : Int) :
    Except Error Rows :=
  let fp := normFingerprint fold fingerprint
  if fp = "" then .error .noFingerprint
  else if !validFingerprint fp then .error (.invalidFingerprint fingerprint)
  else
    match protectControlPlane enrollments central fp with
    | some error => .error error
    | none => addTx rows fp reason actor false now

/-- The transaction of `Lift`. -/
def lift (rows : Rows) (fingerprint : String) (now : Int) : Rows :=
  rows.update (fun row => row.fingerprint == fingerprint && row.state == .active)
    (fun row => { row with state := .lifted, updatedAt := now }) fun _ => rfl

def activeFingerprints (rows : Rows) : List String :=
  ((rows.rows.filter fun row => row.state == .active).map (·.fingerprint)).mergeSort

section

variable {rows fin : Rows} {fp alt : String}

theorem mem_activeFingerprints : alt ∈ activeFingerprints rows ↔
      (rows.find alt).map (·.state) = some .active := by
  unfold activeFingerprints
  rw [List.mem_mergeSort, Option.map_eq_some_iff]
  simp only [List.mem_map, List.mem_filter, beq_iff_eq, find_eq_some_iff]
  constructor
  · rintro ⟨row, ⟨mem, active⟩, eq⟩
    exact ⟨row, ⟨mem, eq⟩, active⟩
  · rintro ⟨row, ⟨mem, eq⟩, active⟩
    exact ⟨row, ⟨mem, active⟩, eq⟩

theorem mem_active_addTx (ins : addTx rows fp reason actor bulk now = .ok fin) :
    alt ∈ activeFingerprints fin ↔ alt = fp ∨ alt ∈ activeFingerprints rows := by
  rw [mem_activeFingerprints, mem_activeFingerprints]
  unfold addTx at ins
  split at ins
  · split at ins
    · rename_i put
      cases ins
      rw [find_insert? put]
      by_cases eq : alt = fp <;> simp [eq]
    · cases ins
  · rename_i row hit
    split at ins
    · cases ins
    · cases ins
      rw [find_update, Option.map_map]
      by_cases eq : alt = fp
      · subst alt
        obtain ⟨_, key⟩ := find_eq_some_iff.mp hit
        simp [hit, key]
      · cases sought : rows.find alt with
        | none => simp [eq]
        | some row =>
          obtain ⟨_, key⟩ := find_eq_some_iff.mp sought
          simp [eq, key]

theorem mem_active_lift : alt ∈ activeFingerprints (lift rows fp now) ↔
      alt ≠ fp ∧ alt ∈ activeFingerprints rows := by
  rw [mem_activeFingerprints, mem_activeFingerprints]
  unfold lift
  rw [find_update, Option.map_map]
  cases sought : rows.find alt with
  | none => simp
  | some row =>
    obtain ⟨_, key⟩ := find_eq_some_iff.mp sought
    subst key
    by_cases eq : row.fingerprint = fp <;>
      cases s : row.state <;> simp [eq, s]

end

end Harbor.Revocation
