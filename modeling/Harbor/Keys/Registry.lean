import Harbor.Library.Procedure
import Harbor.Library.Table
import Harbor.Library.Text
import Mathlib.Data.List.Sort

/-!
# Registries of rotating keys

The CA registry and the registry of config-signing keys keep one table each
and share their lifecycle: a key is staged, activated, drained and retired.
They differ in what they parse a fingerprint from and in the count that gates
`Retire`; both are parameters here, the gate as an answer of the environment.

The calls are cut at their SQL statements.  Isolation is READ COMMITTED: a
statement sees committed rows and those of its own transaction, an update
waits for the row lock, and a write that makes a row active waits for the open
transactions that have entered or are leaving the partial unique index on the
active state.  Only `Activate` keeps a transaction open over several
statements, so what it has written is part of its position.
-/

namespace Harbor.Keys

open Library Library.Text

inductive KeyState where
  | staged
  | active
  | draining
  | retired
deriving DecidableEq, Repr

/-- A row of `ca_certs` or `config_signing_keys`. -/
structure Key where
  id : Int := 0
  name : String
  fingerprint : String
  pem : String
  kmsKeyID : String := ""
  state : KeyState
  createdBy : String := ""
  createdAt : Int := 0
  updatedAt : Int := 0
  keyDeletionScheduledAt : Int := 0
  keyDeletionDate : Int := 0
deriving DecidableEq, Repr

abbrev Keyring := Table Key.id

structure Registry where
  parse : String → Except String String

inductive Error where
  | notFound
  | invalid (detail : String)
  | duplicate (name : String)
  | emptyName
  | illegalTransition
  | dependents (count : Nat)
  | gate
  | pendingWindow (days : Int)
  | noBackend
  | alreadyScheduled
  | notScheduled
  | backend
  | database
  | crashed
deriving DecidableEq, Repr

/-- The guardrails of `ScheduleKeyDeletion` on the row it has read. -/
def Key.refusal (key : Key) : Option Error :=
  if key.state ≠ .retired then some .illegalTransition
  else if trimSpace key.kmsKeyID = "" then some .noBackend
  else if key.keyDeletionScheduledAt ≠ 0 then some .alreadyScheduled
  else none

theorem Key.retired_of_refusal {key : Key} (passed : key.refusal = none) :
    key.state = .retired := by
  unfold refusal at passed
  split_ifs at passed with retired
  exact not_not.mp retired

/-- The condition of the UPDATE of `ScheduleKeyDeletion`. -/
def Key.deletable (key : Key) : Bool :=
  key.state == .retired && key.keyDeletionScheduledAt == 0

def Key.marked (key : Key) (scheduledAt date now : Int) : Key :=
  { key with
    keyDeletionScheduledAt := scheduledAt
    keyDeletionDate := date
    updatedAt := now }

theorem Key.id_marked (key : Key) : (key.marked scheduledAt date now).id = key.id :=
  rfl

inductive Response where
  | key (row : Key)
  | seeded (row : Option Key) (seeded : Bool)
  | deletion (date : Int)
  | done
deriving DecidableEq, Repr

/-- What the environment answers to a statement: how it ends, the clock, the
`id` an insert is given, the count behind the gate of `Retire`, and the date
and success of the key backend. -/
structure Io where
  fault : Fault := .ok
  now : Int := 0
  id : Int := 0
  gate : Option Nat := none
  date : Int := 0
  backend : Bool := true

inductive Request where
  | stage (name pem kmsKeyID actor : String) (now : Int)
  | activate (id now : Int)
  | retire (id : Int)
  | abandon (id now : Int)
  | seedActive (name pem kmsKeyID actor : String)
  | scheduleKeyDeletion (id days : Int)
  | cancelKeyDeletion (id : Int)

/-- Where a call stands.  `demoted` is the row an open transaction of `Activate`
has moved to draining; at `activateCommit` it has also made `id` active. -/
inductive Call where
  | idle
  | stageInsert (row : Key)
  | activateTarget (id now : Int)
  | activateCurrent (id now : Int)
  | activateDemote (id now current : Int)
  | activatePromote (id now : Int) (demoted : Option Int)
  | activateCommit (id now : Int) (demoted : Option Int)
  | retireGet (id : Int)
  | retireGate (id : Int)
  | retireUpdate (id now : Int)
  | abandonUpdate (id now : Int)
  | abandonGet (id : Int)
  | seedCount (row : Key)
  | seedInsert (row : Key)
  | seedRead
  | scheduleGet (id days : Int)
  | scheduleBackend (id : Int)
  | scheduleUpdate (id now date : Int)
  | scheduleRollback (error : Error)
  | cancelGet (id : Int)
  | cancelBackend (id : Int)
  | cancelUpdate (id now : Int)
  | returned (result : Except Error Response)
deriving DecidableEq, Repr

namespace Keyring

def stateOf (keys : Keyring) (id : Int) : Option KeyState :=
  (keys.find id).map Key.state

/-- `First(&row, "state = 'active'")`. -/
def current (keys : Keyring) : Option Key :=
  keys.rows.find? fun row => row.state == .active

/-- `UPDATE … SET state, updated_at WHERE id = ?`. -/
def move (keys : Keyring) (id : Int) (state : KeyState) (now : Int) : Keyring :=
  keys.update (fun row => row.id == id)
    (fun row => { row with state := state, updatedAt := now }) fun _ => rfl

/-- `UPDATE … SET key_deletion_scheduled_at, key_deletion_date, updated_at`. -/
def mark (keys : Keyring) (id scheduledAt date now : Int) : Keyring :=
  keys.update (fun row => row.id == id)
    (·.marked scheduledAt date now) fun row => row.id_marked

/-- The unique columns `name` and `fingerprint`. -/
def taken (keys : Keyring) (row : Key) : Bool :=
  keys.rows.any fun other =>
    other.name == row.name || other.fingerprint == row.fingerprint

/-- `TrustBundle` and `TrustedKeys`: the texts of every key that is not
retired. -/
def trusted (keys : Keyring) : List String :=
  ((keys.rows.filter fun row => row.state != .retired).map Key.pem).insertionSort (· ≤ ·)

/-- `Generation`: the latest `updated_at`, 0 for an empty registry. -/
def generation (keys : Keyring) : Int :=
  match keys.rows.map Key.updatedAt with
  | [] => 0
  | first :: rest => rest.foldl max first

end Keyring

/-- The table, the row locks of open transactions and the call whose open
transaction has entered the index on the active state. -/
structure Database where
  keys : Keyring
  locks : Int → Option Nat
  entry : Option Nat

namespace Database

def lockedByOther (db : Database) (me : Nat) (id : Int) : Bool :=
  db.locks id != none && db.locks id != some me

def entryOfOther (db : Database) (me : Nat) : Bool :=
  db.entry != none && db.entry != some me

def lock (db : Database) (me : Nat) (id : Int) : Database :=
  { db with locks := Function.update db.locks id (some me) }

def release (db : Database) (me : Nat) : Database :=
  { db with
    locks := fun id => if db.locks id = some me then none else db.locks id
    entry := if db.entry = some me then none else db.entry }

/-- What the index says to a write that makes a row active next to the rows
not in `leaving`: `none` waits for another transaction, `some true` is a
violation. -/
def indexCheck (db : Database) (me : Nat) (leaving : List Int) : Option Bool :=
  match db.keys.rows.find? fun row =>
      row.state == .active && !leaving.contains row.id with
  | some row => if db.lockedByOther me row.id then none else some true
  | none => if db.entryOfOther me then none else some false

end Database

abbrev Outcome := Option (Database × Call)

def fail (me : Nat) (db : Database) (error : Error) : Database × Call :=
  (db.release me, .returned (.error error))

/-- A single update of one row in its own transaction: `selected` is its
condition, `missed` what follows when no row matches. -/
def updateOne (me : Nat) (db : Database) (io : Io) (id : Int)
    (selected : Key → Bool) (apply : Keyring → Keyring) (missed : Call)
    (success : Response) (failure : Error → Call) : Outcome :=
  if io.fault = .failed then some (db, failure .database)
  else
    match db.keys.find id with
    | none => some (db, if io.fault = .ok then missed else failure .database)
    | some row =>
      if selected row then
        if db.lockedByOther me id then none
        else
          some ({ db with keys := apply db.keys },
            if io.fault = .ok then .returned (.ok success)
            else failure .database)
      else some (db, if io.fault = .ok then missed else failure .database)

def failed (error : Error) : Call :=
  .returned (.error error)

/-- One statement of `Activate`. -/
def advanceActivate (me : Nat) (db : Database) (io : Io) : Call → Outcome
  | .activateTarget id now =>
    if io.fault ≠ .ok then some (fail me db .database)
    else
      match db.keys.find id with
      | none => some (fail me db .notFound)
      | some target =>
        if target.state ≠ .staged then some (fail me db .illegalTransition)
        else some (db, .activateCurrent id now)
  | .activateCurrent id now =>
    if io.fault ≠ .ok then some (fail me db .database)
    else
      match db.keys.current with
      | none => some (db, .activatePromote id now none)
      | some cur => some (db, .activateDemote id now cur.id)
  | .activateDemote id now current =>
    if io.fault ≠ .ok then some (fail me db .database)
    else if db.keys.stateOf current ≠ some .active then
      some (db, .activatePromote id now none)
    else if db.lockedByOther me current then none
    else some (db.lock me current, .activatePromote id now (some current))
  | .activatePromote id now demoted =>
    if io.fault ≠ .ok then some (fail me db .database)
    else if db.keys.stateOf id ≠ some .staged then
      some (fail me db .illegalTransition)
    else if db.lockedByOther me id then none
    else
      match db.indexCheck me demoted.toList with
      | none => none
      | some true => some (fail me db .database)
      | some false =>
        some ({ db.lock me id with entry := some me }, .activateCommit id now demoted)
  | .activateCommit id now demoted =>
    if io.fault = .failed then some (fail me db .database)
    else
      let drained := demoted.elim db.keys fun current =>
        db.keys.move current .draining now
      some ({ db.release me with keys := drained.move id .active now },
        if io.fault = .ok then .returned (.ok .done) else failed .database)
  | _ => none

/-- One statement of `Retire` and `Abandon`. -/
def advanceRetire (me : Nat) (db : Database) (io : Io) : Call → Outcome
  | .retireGet id =>
    if io.fault ≠ .ok then some (db, failed .database)
    else
      match db.keys.find id with
      | none => some (db, failed .notFound)
      | some target =>
        if target.state ≠ .draining then
          some (db, failed .illegalTransition)
        else some (db, .retireGate id)
  | .retireGate id =>
    match io.gate with
    | none => some (db, failed .gate)
    | some count =>
      if count > 0 then some (db, failed (.dependents count))
      else some (db, .retireUpdate id io.now)
  | .retireUpdate id now =>
    updateOne me db io id (fun row => row.state == .draining)
      (·.move id .retired now) (failed .illegalTransition) .done failed
  | .abandonUpdate id now =>
    updateOne me db io id (fun row => row.state == .staged)
      (·.move id .retired now) (.abandonGet id) .done failed
  | .abandonGet id =>
    if io.fault = .ok ∧ db.keys.find id = none then
      some (db, failed .notFound)
    else some (db, failed .illegalTransition)
  | _ => none

/-- One statement of `Stage` and `SeedActive`. -/
def advanceInsert (me : Nat) (db : Database) (io : Io) : Call → Outcome
  | .stageInsert row =>
    if io.fault = .failed then some (db, failed .database)
    else if db.keys.taken row then some (db, failed (.duplicate row.name))
    else
      match db.keys.insert? { row with id := io.id } with
      | none => some (db, failed .database)
      | some keys =>
        some ({ db with keys := keys },
          if io.fault = .ok then
            .returned (.ok (.key { row with id := io.id }))
          else failed .database)
  | .seedCount row =>
    if io.fault ≠ .ok then some (db, failed .database)
    else if db.keys.rows.isEmpty then
      some (db, .seedInsert { row with createdAt := io.now, updatedAt := io.now })
    else some (db, .seedRead)
  | .seedInsert row =>
    if io.fault = .failed then some (db, failed .database)
    else if db.keys.taken row then some (db, .seedRead)
    else
      match db.indexCheck me [] with
      | none => none
      | some true => some (db, .seedRead)
      | some false =>
        match db.keys.insert? { row with id := io.id } with
        | none => some (db, failed .database)
        | some keys =>
          some ({ db with keys := keys },
            if io.fault = .ok then
              .returned (.ok (.seeded (some { row with id := io.id }) true))
            else failed .database)
  | .seedRead =>
    some (db, .returned (.ok (.seeded (if io.fault = .ok then db.keys.current else none) false)))
  | _ => none

/-- One statement of `ScheduleKeyDeletion` and `CancelKeyDeletion`. -/
def advanceDeletion (me : Nat) (db : Database) (io : Io) : Call → Outcome
  | .scheduleGet id days =>
    if days < 7 ∨ days > 30 then some (db, failed (.pendingWindow days))
    else if io.fault ≠ .ok then some (db, failed .database)
    else
      match db.keys.find id with
      | none => some (db, failed .notFound)
      | some target =>
        match target.refusal with
        | some error => some (db, failed error)
        | none => some (db, .scheduleBackend id)
  | .scheduleBackend id =>
    if io.backend then some (db, .scheduleUpdate id io.now io.date)
    else some (db, failed .backend)
  | .scheduleUpdate id now date =>
    updateOne me db io id Key.deletable
      (·.mark id now date now) (.scheduleRollback .illegalTransition)
      (.deletion date) .scheduleRollback
  | .scheduleRollback error => some (db, failed error)
  | .cancelGet id =>
    if io.fault ≠ .ok then some (db, failed .database)
    else
      match db.keys.find id with
      | none => some (db, failed .notFound)
      | some target =>
        if target.keyDeletionScheduledAt = 0 then
          some (db, failed .notScheduled)
        else some (db, .cancelBackend id)
  | .cancelBackend id =>
    if io.backend then some (db, .cancelUpdate id io.now)
    else some (db, failed .backend)
  | .cancelUpdate id now =>
    updateOne me db io id (fun _ => true) (·.mark id 0 0 now) (failed .notFound) .done failed
  | _ => none

def advance (me : Nat) (db : Database) (io : Io) (call : Call) : Outcome :=
  (advanceActivate me db io call).or <| (advanceRetire me db io call).or <|
    (advanceInsert me db io call).or (advanceDeletion me db io call)

def Registry.accept (registry : Registry) : Request → Call
  | .stage name pem kmsKeyID actor now =>
    if name = "" then failed .emptyName
    else
      match registry.parse pem with
      | .error detail => failed (.invalid detail)
      | .ok fingerprint =>
        .stageInsert
          { name := name, fingerprint := fingerprint, pem := pem
            kmsKeyID := kmsKeyID, state := .staged, createdBy := actor
            createdAt := now, updatedAt := now }
  | .activate id now => .activateTarget id now
  | .retire id => .retireGet id
  | .abandon id now => .abandonUpdate id now
  | .seedActive name pem kmsKeyID actor =>
    match registry.parse pem with
    | .error detail => failed (.invalid detail)
    | .ok fingerprint =>
      .seedCount
        { name := name, fingerprint := fingerprint, pem := pem
          kmsKeyID := kmsKeyID, state := .active, createdBy := actor }
  | .scheduleKeyDeletion id days => .scheduleGet id days
  | .cancelKeyDeletion id => .cancelGet id

inductive Event where
  | request (call : Nat) (request : Request)
  | statement (call : Nat) (io : Io)
  | crash (call : Nat)

structure State where
  db : Database
  calls : Nat → Call

def State.initial : State where
  db := { keys := .empty, locks := fun _ => none, entry := none }
  calls _ := .idle

def Registry.step (registry : Registry) (state : State) : Event → Option State
  | .request call request =>
    match state.calls call with
    | .idle =>
      some { state with
        calls := Function.update state.calls call
          (registry.accept request) }
    | _ => none
  | .statement call io =>
    (advance call state.db io (state.calls call)).map fun (db, next) =>
      { db := db, calls := Function.update state.calls call next }
  | .crash call =>
    some
      { db := state.db.release call
        calls := Function.update state.calls call (failed .crashed) }

end Harbor.Keys
