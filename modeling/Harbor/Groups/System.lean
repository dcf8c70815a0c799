import Harbor.Data.Enrollment
import Harbor.Groups.Assign

/-!
# Group changes and renewals, one statement at a time

The admin handlers (`handleDeviceGroupSet`, `regroupApply`, `applyRegroup`,
`commitDeviceRegroup`) and Core's `handleRenew` over the enrollments table.
Every call is cut at its SQL statements: a `Call` is the point a running call
has reached together with the values it read before, and `advance` runs its
next statement.  `Io` holds what the outside answers to that statement, so
any statement can fail and any request can be refused.
-/

namespace Harbor.Groups

open Library Policy

structure ApplyEntry where
  overlayIP : String
  enrollmentID : Int
  baseGeneration : Int
  target : List String
  deriving DecidableEq, Repr

def regroupMaxSet : Nat := 100

def regroupDCThreshold : Nat := 25

structure SignedLeaf where
  enrollment : Int
  deviceName : String
  overlayIP : String
  groups : List String
  deriving DecidableEq, Repr

structure Leaf where
  fingerprint : String
  caFingerprint : String
  notAfter : Int
  deriving DecidableEq, Repr

inductive Response where
  | problem (status : Nat) (title detail : String)
  | deviceGroups (ip : String) (groups : List String) (generation : Int) (pending : Bool)
  | regrouped (results : List (String × String))
  | accepted
  | wireError (code message : String)
  | renewed
  deriving DecidableEq, Repr

inductive Request where
  | patchGroups (ip : String) (groups : List String)
  | regroup (entries : List ApplyEntry)
  | renew (ip : String)

inductive Call where
  | idle
  | patchLookup (ip : String) (groups : List String)
  | patchWrite (ip : String) (dev : Enrollment) (groups : List String)
  | regroupRoute (entries : List ApplyEntry)
  | regroupLookup (remaining : List ApplyEntry) (results : List (String × String))
  | regroupWrite (entry : ApplyEntry) (remaining : List ApplyEntry)
      (results : List (String × String))
  | renewLookup (ip : String)
  | renewRevocation (dev : Enrollment)
  | renewSign (dev : Enrollment)
  | renewStamp (dev : Enrollment) (groups : List String) (leaf : Leaf)
  | renewOldExpiry (dev : Enrollment) (groups : List String) (leaf : Leaf)
  | renewWriteBack (dev : Enrollment) (groups : List String) (leaf : Leaf)
      (oldNotAfter : Option Int)
  | renewHeartbeat (dev : Enrollment) (leaf : Leaf)
  | done (response : Response)
  deriving DecidableEq, Repr

structure Database where
  enrollments : Enrollments
  revoked : List String
  certNotAfter : String → Option Int
  proposals : List (List ApplyEntry)
  signed : List SignedLeaf

structure Io where
  dbError : Option String := none
  refusal : Option (String × String) := none
  overlayOk : Bool := true
  leaf : Option Leaf := none
  bundleOk : Bool := true

def accept : Request → Call
  | .patchGroups ip body =>
    let groups := normGroups body
    if grantsReservedGroup groups then
      .done (.problem 400 "reserved group"
        "control-plane/lighthouse are baseline-owned and cannot be assigned to a device")
    else .patchLookup ip groups
  | .regroup entries =>
    if entries.length = 0 then
      .done (.problem 400 "no entries" "apply requires the dry-run entries")
    else if regroupMaxSet < entries.length then
      .done (.problem 400 "too many" "at most 100 devices per op — narrow the pattern")
    else if entries.any fun entry => grantsReservedGroup entry.target then
      .done (.problem 400 "reserved group" "control-plane/lighthouse cannot be assigned")
    else .regroupRoute entries
  | .renew ip => .renewLookup ip

def applyNeedsDualControl (enrollments : Enrollments) (entries : List ApplyEntry) : Bool :=
  decide (regroupDCThreshold < entries.length) || entries.any fun entry =>
      match enrollments.latest (Enrollment.issuedAt entry.overlayIP) with
      | none => false
      | some cur => groupsDropped entry.target cur.desiredGroups

namespace Database

/-- `SET desired_groups = ?, groups_generation = ?` on the rows with this id
that satisfy `guard`. -/
def setDesired (db : Database) (id : Int) (guard : Enrollment → Bool)
    (groups : List String) (generation : Int) : Database :=
  { db with
    enrollments := db.enrollments.update
      (fun row => row.id == id && guard row)
      (fun row =>
        { row with desiredGroups := groups, groupsGeneration := generation })
      (fun _ => rfl) }

/-- `SET fingerprint = ?, ca_fingerprint = ? WHERE id = ?`. -/
def setFingerprint (db : Database) (id : Int) (leaf : Leaf) : Database :=
  { db with
    enrollments := db.enrollments.update
      (fun row => row.id == id)
      (fun row =>
        { row with
          fingerprint := leaf.fingerprint
          caFingerprint := leaf.caFingerprint })
      (fun _ => rfl) }

/-- The guarded write-back of a renewal: `WHERE id = ? AND
issued_generation < ?`, with the reduction columns when `oldNotAfter` is
set. -/
def setIssued (db : Database) (id generation : Int) (groups : List String)
    (oldNotAfter : Option Int) : Database :=
  { db with
    enrollments := db.enrollments.update
      (fun row => row.id == id && decide (row.issuedGeneration < generation))
      (fun row =>
        { row with
          groups := groups
          issuedGeneration := generation
          reductionPendingEnforcement :=
            row.reductionPendingEnforcement || oldNotAfter.isSome
          reductionOldNotAfter :=
            oldNotAfter.getD row.reductionOldNotAfter })
      (fun _ => rfl) }

end Database

/-- The statements of `handleDeviceGroupSet`. -/
def advancePatch (db : Database) (io : Io) : Call → Option (Database × Call)
  | .patchLookup ip groups =>
    some (db,
      match io.dbError with
      | some _ => .done (.problem 500 "internal error" "device lookup failed")
      | none =>
        match db.enrollments.latest (Enrollment.issuedAt ip) with
        | none =>
          .done (.problem 404 "no device" "no issued device at this overlay address")
        | some dev =>
          if grantsReservedGroup dev.groups then
            .done (.problem 400 "reserved device"
              "this device holds a reserved (control-plane/lighthouse) group and cannot be re-grouped")
          else if sameGroupSet dev.desiredGroups groups then
            .done (.deviceGroups ip groups dev.groupsGeneration
              (decide (dev.issuedGeneration < dev.groupsGeneration)))
          else .patchWrite ip dev groups)
  | .patchWrite ip dev groups =>
    match io.dbError with
    | some _ =>
      some (db, .done (.problem 500 "internal error" "set desired groups failed"))
    | none =>
      some (db.setDesired dev.id (fun _ => true) groups (dev.groupsGeneration + 1),
        .done (.deviceGroups ip groups (dev.groupsGeneration + 1) true))
  | _ => none

/-- The statements of `regroupApply` and, for a committed change, of
`commitDeviceRegroup`: each entry is re-resolved and written under its
identity tokens. -/
def advanceRegroup (dualControl : Bool) (db : Database) (io : Io) : Call → Option (Database × Call)
  | .regroupRoute entries =>
    if dualControl && applyNeedsDualControl db.enrollments entries then
      match io.dbError with
      | some _ =>
        some (db, .done (.problem 500 "internal error" "propose regroup failed"))
      | none =>
        some ({ db with proposals := db.proposals ++ [entries] }, .done .accepted)
    else some (db, .regroupLookup entries [])
  | .regroupLookup [] results => some (db, .done (.regrouped results))
  | .regroupLookup (entry :: remaining) results =>
    let skip (reason : String) : Call :=
      .regroupLookup remaining (results ++ [(entry.overlayIP, reason)])
    some (db,
      match io.dbError with
      | some _ => skip "skipped:not_found"
      | none =>
        match db.enrollments.latest (Enrollment.issuedAt entry.overlayIP) with
        | none => skip "skipped:not_found"
        | some cur =>
          if cur.id ≠ entry.enrollmentID ∨ cur.groupsGeneration ≠ entry.baseGeneration then
            skip "skipped:changed_since_preview"
          else if grantsReservedGroup cur.groups || grantsReservedGroup entry.target then
            skip "skipped:reserved"
          else .regroupWrite entry remaining results)
  | .regroupWrite entry remaining results =>
    let next (status : String) : Call :=
      .regroupLookup remaining (results ++ [(entry.overlayIP, status)])
    match io.dbError with
    | some error => some (db, next ("failed:" ++ error))
    | none =>
      if db.enrollments.affected (fun row =>
          row.id == entry.enrollmentID && row.groupsGeneration == entry.baseGeneration) = 0 then
        some (db, next "skipped:changed_since_preview")
      else
        some (db.setDesired entry.enrollmentID
            (fun row => row.groupsGeneration == entry.baseGeneration)
            (normGroups entry.target) (entry.baseGeneration + 1),
          next "applied")
  | _ => none

/-- The statements of `handleRenew`. -/
def advanceRenew (db : Database) (io : Io) : Call → Option (Database × Call)
  | .renewLookup ip =>
    some (db,
      match io.dbError, db.enrollments.latest (Enrollment.issuedAt ip) with
      | none, some dev => .renewRevocation dev
      | _, _ =>
        .done (.wireError "account_not_allowed" "no enrolled device at this overlay address"))
  | .renewRevocation dev =>
    some (db,
      match io.dbError with
      | some _ =>
        .done (.wireError "signing_unavailable" "revocation status unavailable; retry")
      | none =>
        if dev.fingerprint ≠ "" ∧ dev.fingerprint ∈ db.revoked then
          .done (.wireError "account_not_allowed" "certificate revoked")
        else .renewSign dev)
  | .renewSign dev =>
    match io.refusal with
    | some (code, message) => some (db, .done (.wireError code message))
    | none =>
      if !io.overlayOk then
        some (db, .done (.wireError "internal" "bad device record"))
      else
        let groups := (keepReservedGroups dev.groups dev.desiredGroups).1
        let handed := { db with
          signed := db.signed ++
            [⟨dev.id, dev.deviceName, dev.overlayIP, groups⟩] }
        some (handed,
          match io.leaf with
          | none => .done (.wireError "internal" "re-sign failed")
          | some leaf =>
            if io.bundleOk then .renewStamp dev groups leaf
            else .done (.wireError "internal" "bundle sign failed"))
  | .renewStamp dev groups leaf =>
    match io.dbError with
    | some _ =>
      some (db, .done (.wireError "internal" "renew bookkeeping failed"))
    | none =>
      some (db.setFingerprint dev.id leaf,
        if groupsReduced dev.groups groups then
          .renewOldExpiry dev groups leaf
        else .renewWriteBack dev groups leaf none)
  | .renewOldExpiry dev groups leaf =>
    let oldNotAfter :=
      match io.dbError with
      | some _ => 0
      | none => (db.certNotAfter dev.overlayIP).getD 0
    some (db, .renewWriteBack dev groups leaf (some oldNotAfter))
  | .renewWriteBack dev groups leaf oldNotAfter =>
    some (match io.dbError with
      | some _ => db
      | none =>
        db.setIssued dev.id dev.groupsGeneration groups oldNotAfter,
      .renewHeartbeat dev leaf)
  | .renewHeartbeat dev leaf =>
    some (match io.dbError with
      | some _ => db
      | none =>
        { db with
          certNotAfter := fun ip =>
            if ip = dev.overlayIP then
              (db.certNotAfter ip).map fun _ => leaf.notAfter
            else db.certNotAfter ip },
      .done .renewed)
  | _ => none

def advance (dualControl : Bool) (db : Database) (io : Io) (call : Call) :
    Option (Database × Call) :=
  match call with
  | .idle | .done _ => none
  | .patchLookup .. | .patchWrite .. => advancePatch db io call
  | .regroupRoute .. | .regroupLookup .. | .regroupWrite .. =>
    advanceRegroup dualControl db io call
  | _ => advanceRenew db io call

structure State where
  db : Database
  calls : Nat → Call

inductive Event where
  | request (call : Nat) (request : Request)
  | commitRegroup (call change : Nat)
  | statement (call : Nat) (io : Io)
  | revoke (fingerprint : String)
  | lift (fingerprint : String)

def step (dualControl : Bool) (state : State) : Event → Option State
  | .request call request =>
    if state.calls call = .idle then
      some { state with
        calls := Function.update state.calls call (accept request) }
    else none
  | .commitRegroup call change =>
    if state.calls call = .idle then
      (state.db.proposals[change]?).map fun entries =>
        { state with
          calls := Function.update state.calls call
            (.regroupLookup entries []) }
    else none
  | .statement call io =>
    (advance dualControl state.db io (state.calls call)).map fun (db, next) =>
        { db := db, calls := Function.update state.calls call next }
  | .revoke fingerprint =>
    some { state with
      db := { state.db with revoked := fingerprint :: state.db.revoked } }
  | .lift fingerprint =>
    some { state with
      db := { state.db with
        revoked := state.db.revoked.filter (· ≠ fingerprint) } }

namespace Example

/-- One host in group `web`. -/
def host : Enrollment :=
  { id := 7, deviceName := "host-9", overlayIP := "100.64.0.9",
    status := .issued, groups := ["web"], desiredGroups := ["web"] }

/-- The tables of a single device. -/
def holding (row : Enrollment) : Database where
  enrollments := ⟨[row], by simp⟩
  revoked := []
  certNotAfter _ := none
  proposals := []
  signed := []

end Example

end Harbor.Groups
