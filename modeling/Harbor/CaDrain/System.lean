import Harbor.Keys.Provenance

/-!
# Draining a certificate authority

`Retire` of a CA is gated by a count of the leaves that chain to it, taken
from the enrollment and heartbeat rows.  Leaves are issued by the signers of
several Core processes, each of which changes to the active CA at its next
poll; an issue signs, records the leaf in the enrollment row and answers the
host, which installs the leaf.

The count reads both tables in one step.  An expiry is after the epoch.
-/

namespace Harbor.CaDrain

open Library Keys

structure Leaf where
  ca : String
  notAfter : Int
deriving DecidableEq, Repr

/-- An issued row of `enrollments`.  `certIssuer` and `certNotAfter` are read
from `cert_pem`, which a renewal does not rewrite. -/
structure Issued where
  id : Int
  overlayIP : Nat
  caFingerprint : String
  certIssuer : String
  certNotAfter : Int
deriving DecidableEq, Repr

structure Heartbeat where
  overlayIP : Nat
  certNotAfter : Int
deriving DecidableEq, Repr

inductive Stage where
  | signed
  | recorded
  | answered
deriving DecidableEq, Repr

/-- An issue under way; `renews` is the row of a renewal. -/
structure Flight where
  host : Nat
  leaf : Leaf
  renews : Option Int
  stage : Stage
deriving DecidableEq, Repr

structure State where
  clock : Int
  registry : Keys.State
  enrollments : Table Issued.id
  heartbeats : Table Heartbeat.overlayIP
  hosts : Nat → Option Leaf
  /-- The fingerprint of the CA each process signs with. -/
  signers : List String
  flights : List Flight

inductive Event where
  | tick (now : Int)
  | registry (event : Keys.Event)
  | poll (signer : Nat)
  | issue (host signer : Nat) (notAfter : Int) (renewal : Bool)
  | record (flight : Flight) (fault : Fault)
  | stamp (flight : Flight) (fault : Fault)
  | deliver (flight : Flight)
  | lose (flight : Flight)
  | heartbeat (host : Nat)

namespace State

def chainsTo (row : Issued) : String :=
  if row.caFingerprint = "" then row.certIssuer else row.caFingerprint

def expiry (state : State) (row : Issued) : Int :=
  match state.heartbeats.find row.overlayIP with
  | some beat =>
    if 0 < beat.certNotAfter then beat.certNotAfter else row.certNotAfter
  | none => row.certNotAfter

def liveDependents (state : State) (fingerprint : String) : Nat :=
  (state.enrollments.rows.filter fun row =>
    chainsTo row == fingerprint &&
      decide (state.clock < state.expiry row)).length

/-- The gate of `Retire` is the count for the CA it asks about. -/
def gated (state : State) : Keys.Event → Keys.Event
  | .statement call io =>
    match state.registry.calls call with
    | .retireGate id =>
      .statement call { io with
        gate := io.gate.bind fun _ =>
          (state.registry.db.keys.find id).map fun row =>
            state.liveDependents row.fingerprint }
    | _ => .statement call io
  | event => event

def proceed (flights : List Flight) (flight : Flight) (stage : Stage) :
    List Flight :=
  { flight with stage := stage } :: flights.erase flight

def recordLeaf (state : State) (flight : Flight) : Option (Table Issued.id) :=
  match flight.renews with
  | some id =>
    some (state.enrollments.update (fun row => row.id == id)
      (fun row => { row with caFingerprint := flight.leaf.ca }) fun _ => rfl)
  | none =>
    state.enrollments.insert?
      { id := nextID (state.enrollments.rows.map Issued.id)
        overlayIP := flight.host, caFingerprint := flight.leaf.ca
        certIssuer := flight.leaf.ca
        certNotAfter := flight.leaf.notAfter }

end State

open State in
def step (registry : Registry) (state : State) : Event → Option State
  | .tick now =>
    if state.clock ≤ now then some { state with clock := now } else none
  | .registry event =>
    (registry.step state.registry (state.gated event)).map fun moved =>
      { state with registry := moved }
  | .poll signer =>
    match state.registry.db.keys.current with
    | none => none
    | some active =>
      some { state with
        signers := state.signers.set signer active.fingerprint }
  | .issue host signer notAfter renewal =>
    match state.signers[signer]? with
    | none => none
    | some ca =>
      if notAfter ≤ 0 then none
      else if renewal then
        (state.enrollments.latest fun row => row.overlayIP == host).map fun dev =>
            { state with
              flights := ⟨host, ⟨ca, notAfter⟩, some dev.id, .signed⟩ ::
                state.flights }
      else
        some { state with
          flights := ⟨host, ⟨ca, notAfter⟩, none, .signed⟩ ::
            state.flights }
  | .record flight fault =>
    if flight ∈ state.flights ∧ flight.stage = .signed then
      if fault = .failed then
        some { state with flights := state.flights.erase flight }
      else
        (state.recordLeaf flight).map fun enrollments =>
          { state with
            enrollments := enrollments
            flights := proceed state.flights flight .recorded }
    else none
  | .stamp flight fault =>
    if flight ∈ state.flights ∧ flight.stage = .recorded then
      some { state with
        heartbeats :=
          if fault = .failed ∨ flight.renews = none then state.heartbeats
          else
            state.heartbeats.update
              (fun row => row.overlayIP == flight.host)
              (fun row => { row with
                certNotAfter := flight.leaf.notAfter }) fun _ => rfl
        flights := proceed state.flights flight .answered }
    else none
  | .deliver flight =>
    if flight ∈ state.flights ∧ flight.stage = .answered then
      some { state with
        hosts := Function.update state.hosts flight.host (some flight.leaf)
        flights := state.flights.erase flight }
    else none
  | .lose flight =>
    if flight ∈ state.flights then
      some { state with flights := state.flights.erase flight }
    else none
  | .heartbeat host =>
    (state.hosts host).map fun leaf =>
      { state with
        heartbeats := state.heartbeats.upsert
          { overlayIP := host, certNotAfter := leaf.notAfter }
          (fun row => { row with certNotAfter := leaf.notAfter })
          fun _ => rfl }

def State.initial (signers : List String) : State where
  clock := 0
  registry := .initial
  enrollments := .empty
  heartbeats := .empty
  hosts _ := none
  signers := signers
  flights := []

def Described (state : State) (host : Nat) (leaf : Leaf) : Prop :=
  ∃ row ∈ state.enrollments.rows, row.overlayIP = host ∧
    State.chainsTo row = leaf.ca ∧ state.expiry row = leaf.notAfter

instance (state : State) (host : Nat) (leaf : Leaf) : Decidable (Described state host leaf) := by
  unfold Described
  infer_instance

/-- When `Retire` counts, no process signs with the CA, no leaf of it is under
way and no recorded leaf is; a host installs a leaf that the rows describe;
and no answer is lost once the leaf is recorded. -/
def Settled (state : State) : Event → Prop
  | .registry (.statement call _) =>
    match state.registry.calls call with
    | .retireGate id => ∀ row ∈ state.registry.db.keys.rows, row.id = id →
        (∀ signer ∈ state.signers, signer ≠ row.fingerprint) ∧
        ∀ flight ∈ state.flights, flight.leaf.ca ≠ row.fingerprint ∧ flight.stage = .signed
    | _ => True
  | .deliver flight => Described state flight.host flight.leaf
  | .lose flight => flight.stage = .signed
  | _ => True

instance (state : State) : DecidablePred (Settled state) := by
  intro event
  unfold Settled
  split
  · split <;> infer_instance
  · infer_instance
  · infer_instance
  · infer_instance

end Harbor.CaDrain
