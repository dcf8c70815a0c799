import Harbor.DualControl.Committers
import Harbor.DualControl.Exclusivity
import Harbor.Trust.Document

/-!
# The config store

One row per config kind.  A PUT prepares its body and writes the store, or
proposes a change when the config is privileged; the committers of the config
kinds write the payload of an approved change; and at boot an empty kind is
seeded with the latest committed change of the ledger.
-/

namespace Harbor.Trust

open Library DualControl

variable {Bytes : Type}

inductive Kind where
  | policy
  | cloudtrust
  | usertrust
deriving DecidableEq, Repr

def Kind.name : Kind → String
  | .policy => "policy"
  | .cloudtrust => "cloudtrust"
  | .usertrust => "usertrust"

def Kind.publishKind : Kind → String
  | .policy => policyPublish
  | .cloudtrust => cloudtrustPublish
  | .usertrust => usertrustPublish

/-- A row of `config`. -/
structure Stored (Bytes : Type) where
  kind : String
  payload : Bytes
  version : Int
  updatedBy : String

abbrev Store (Bytes : Type) := Table (@Stored.kind Bytes)

/-- The transaction of `Set`. -/
def set (store : Store Bytes) (kind : String) (payload : Bytes) (actor : String) : Store Bytes :=
  store.upsert { kind := kind, payload := payload, version := 1, updatedBy := actor }
    (fun current => { current with
      payload := payload
      version := current.version + 1
      updatedBy := actor }) fun _ => rfl

/-- The transaction of `SeedIfEmpty`. -/
def seedIfEmpty (store : Store Bytes) (kind : String) (payload : Bytes)
    (actor : String) : Store Bytes :=
  match store.insert? { kind := kind, payload := payload, version := 1, updatedBy := actor }
    with
  | some seeded => seeded
  | none => store

namespace Codec

variable (codec : Codec Bytes)

/-- `cloudtrust.Parse`. -/
def parseCloud (payload : Bytes) : Except String CloudTrust.Config :=
  match codec.decodeCloud payload with
  | .error error => .error ("cloudtrust: parse: " ++ error)
  | .ok config =>
    match CloudTrust.validate config with
    | .error error => .error error.message
    | .ok _ => .ok config

/-- `usertrust.Parse`. -/
def parseUser (payload : Bytes) : Except String UserTrust.Config :=
  match codec.decodeUser payload with
  | .error error => .error ("usertrust: parse: " ++ error)
  | .ok config =>
    match UserTrust.validate config with
    | .error error => .error error.message
    | .ok _ => .ok config

/-- `prepare`: the canonical payload, and whether the config is privileged. -/
def prepare : Kind → Bytes → Except String (Bytes × Bool)
  | .policy, body => codec.preparePolicy body
  | .cloudtrust, body =>
    match codec.parseCloud body with
    | .error error => .error error
    | .ok config =>
      .ok (codec.marshal config.document, CloudTrust.containsPrivileged config)
  | .usertrust, body =>
    match codec.parseUser body with
    | .error error => .error error
    | .ok config =>
      .ok (codec.marshal config.document, UserTrust.containsPrivileged config)

def valid : Kind → Bytes → Bool
  | .policy, payload => codec.validPolicy payload
  | .cloudtrust, payload => (codec.parseCloud payload).toBool
  | .usertrust, payload => (codec.parseUser payload).toBool

def privileged : Kind → Bytes → Bool
  | .policy, _ => false
  | .cloudtrust, payload =>
    match codec.parseCloud payload with
    | .ok config => CloudTrust.containsPrivileged config
    | .error _ => false
  | .usertrust, payload =>
    match codec.parseUser payload with
    | .ok config => UserTrust.containsPrivileged config
    | .error _ => false

def commit (kind : String) (ch : Change Bytes) (store : Store Bytes) : Option (Store Bytes) :=
  match [Kind.policy, .cloudtrust, .usertrust].find? fun known =>
      known.publishKind == kind with
  | some known =>
    if codec.valid known ch.payload then
      some (set store kind ch.payload ch.proposer)
    else none
  | none => some store

def program : Program Site Bytes (Store Bytes) :=
  controllers codec.commit

end Codec

/-- Where the loop of `seedConfigStore` is in one process: between two kinds,
after `Get` has found no row, or with a payload that is about to be written. -/
inductive Seeding (Bytes : Type) where
  | idle
  | absent (kind : Kind)
  | loaded (kind : Kind) (payload : Bytes)

structure State (Bytes : Type) where
  ledger : DualControl.State Site Bytes (Store Bytes)
  seeds : Nat → Seeding Bytes

def State.store (state : State Bytes) : Store Bytes :=
  state.ledger.db.world

inductive Event (Bytes : Type) where
  | ledger (event : DualControl.Event Site Bytes)
  | put (kind : Kind) (body : Bytes) (actor : String) (id now : Int)
  | seedGet (boot : Nat) (kind : Kind)
  | seedRead (boot : Nat)
  | seedWrite (boot : Nat)

/-- `LatestCommitted`. -/
def latestCommitted (db : Database Bytes (Store Bytes)) (kind : String) : Option (Change Bytes) :=
  db.changes.latest fun ch => ch.kind == kind && ch.state == .committed

def Kind.target (kind : Kind) : String :=
  kind.name ++ " config (privileged — needs a distinct second approver)"

def State.write (state : State Bytes) (store : Store Bytes) : State Bytes :=
  { state with
    ledger := { state.ledger with
      db := { state.ledger.db with world := store } } }

def State.seeding (state : State Bytes) (boot : Nat) (position : Seeding Bytes) : State Bytes :=
  { state with seeds := Function.update state.seeds boot position }

/-- One event; `seedGet`, `seedRead` and `seedWrite` are the statements of
`seedConfigStore`, which goes on with another kind after any error. -/
def step (codec : Codec Bytes) (state : State Bytes) : Event Bytes → Option (State Bytes)
  | .ledger event =>
    (DualControl.step codec.program state.ledger event).map fun ledger =>
      { state with ledger := ledger }
  | .put kind body actor id now =>
    if codec.isEmpty body then none
    else
      match codec.prepare kind body with
      | .error _ => none
      | .ok (payload, true) =>
        (DualControl.step codec.program state.ledger
          (.propose .adminAPI id kind.publishKind kind.target payload actor now)).map fun ledger =>
          { state with ledger := ledger }
      | .ok (payload, false) =>
        some (state.write (set state.store kind.publishKind payload actor))
  | .seedGet boot kind =>
    match state.store.find kind.publishKind with
    | some _ => none
    | none => some (state.seeding boot (.absent kind))
  | .seedRead boot =>
    match state.seeds boot with
    | .absent kind =>
      match latestCommitted state.ledger.db kind.publishKind with
      | none => none
      | some ch =>
        if codec.valid kind ch.payload then
          some (state.seeding boot (.loaded kind ch.payload))
        else none
    | _ => none
  | .seedWrite boot =>
    match state.seeds boot with
    | .loaded kind payload =>
      some ((state.write (seedIfEmpty state.store kind.publishKind payload
        "migration")).seeding boot .idle)
    | _ => none

def State.initial : State Bytes where
  ledger := .initial .empty
  seeds _ := .idle

end Harbor.Trust
