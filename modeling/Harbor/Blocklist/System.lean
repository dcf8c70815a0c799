import Harbor.Library.Procedure
import Harbor.Revocation.Registry
import Harbor.Rollouts.Effects
import Mathlib.Data.List.Sort

/-!
# The blocklist and its versions

A change of the blocklist commits its row, and then reads the fleet, reads the
highest version of the lane and starts a rollout of the next one, each with a
statement of its own.  Core assembles a bundle from the version and, later, the
active fingerprints; a version that cannot be read is 0, and a list that cannot
be read is empty.  A host applies what it fetches unless the version is below
its own, and what it renews to in any case, and reports the version of the
bundle it has.
-/

namespace Harbor.Blocklist

open Library Library.Text

structure Bundle where
  blocklistVersion : Int
  blocklist : List String
deriving DecidableEq, Repr

structure Attempt where
  description : String
  canarySize : Int
  waveSize : Int
  observe : Int
  missingAfter : Int
deriving DecidableEq, Repr

/-- The attempt of `blocklist add` and `blocklist remove`. -/
def blocklistChange (canary waveSize observe missingAfter : Int) : Attempt where
  description := "blocklist change"
  canarySize := canary
  waveSize := waveSize
  observe := observe
  missingAfter := missingAfter

/-- The attempt of `startLighthouseConvergence`, on the same lane. -/
def lighthouseChange (description : String) : Attempt where
  description := "lighthouse: " ++ description
  canarySize := 1
  waveSize := 0
  observe := 300000000000
  missingAfter := 180000000000

def Attempt.config (attempt : Attempt) (hosts : List String) (target : Int) :
    Rollouts.StartConfig where
  lane := some .blocklist
  description := attempt.description
  targetVersion := target
  prevVersion := target - 1
  hosts := hosts
  canarySize := attempt.canarySize
  waveSize := attempt.waveSize
  observe := attempt.observe
  missingAfter := attempt.missingAfter

inductive Outcome where
  | refused (error : Revocation.Error)
  | unchanged
  | fatal
  | noHosts
  | inFlight
  | staged (version : Int)
deriving DecidableEq, Repr

def Outcome.attempted : Outcome → Bool
  | .noHosts | .inFlight | .staged _ => true
  | .refused _ | .unchanged | .fatal => false

inductive Change where
  | idle
  | lift (attempt : Attempt) (fingerprint : String) (active : Nat)
  | fleet (attempt : Attempt)
  | version (attempt : Attempt) (hosts : List String)
  | start (attempt : Attempt) (hosts : List String) (target : Int)
  | ended (outcome : Outcome)
deriving DecidableEq, Repr

inductive Assembly where
  | idle
  | list (host : String) (version : Int)
  | assembled (host : String) (bundle : Bundle)
deriving DecidableEq, Repr

/-- What `blocklist add` is called with, and the enrollments its guard reads. -/
structure Addition where
  fingerprint : String
  reason : String
  actor : String
  enrollments : Enrollments
  now : Int

structure Config where
  fold : CaseMap
  central : String → Bool

structure State where
  rollouts : Rollouts.Database
  revocations : Revocation.Rows
  changes : Nat → Change
  assemblies : Nat → Assembly
  hosts : String → Option Bundle

inductive Event where
  | add (me : Nat) (addition : Addition) (attempt : Attempt) (fault : Fault)
  | remove (me : Nat) (fingerprint : String) (attempt : Attempt) (fault : Fault)
  | lift (me : Nat) (now : Int) (fault : Fault)
  | lighthouse (me : Nat) (description : String)
  | fleet (me : Nat) (fault : Fault)
  | version (me : Nat) (fault : Fault)
  | start (me : Nat) (now : Int) (fault : Fault)
  | engine (event : Rollouts.Event)
  | enroll (assembly : Nat) (host : String)
  | readVersion (assembly : Nat) (host : String) (fault : Fault)
  | readList (assembly : Nat) (fault : Fault)
  | fetch (assembly : Nat)
  | renew (assembly : Nat)
  | heartbeat (beat : Rollouts.Beat)

namespace State

variable (state : State)

def comes (me : Nat) (change : Change) : State :=
  { state with changes := Function.update state.changes me change }

def puts (me : Nat) (assembly : Assembly) : State :=
  { state with assemblies := Function.update state.assemblies me assembly }

def apply (host : String) (bundle : Bundle) : State :=
  { state with hosts := Function.update state.hosts host (some bundle) }

def reported (host : String) : Int :=
  ((state.hosts host).map (·.blocklistVersion)).getD 0

def fleet : List String :=
  (state.rollouts.heartbeats.rows.map (·.overlayIP)).insertionSort (· ≤ ·)

def Listed (fingerprint : String) : Prop :=
  (state.revocations.find fingerprint).map (·.state) = some .active

instance (fingerprint : String) : Decidable (state.Listed fingerprint) := by
  unfold Listed
  infer_instance

end State

def foreign : Rollouts.Event → Bool
  | .heartbeat _ => false
  | .start cfg _ => cfg.lane != some .blocklist
  | .evaluate _ _ _ | .abort _ _ | .command _ _ _ _ => true

/-- `blocklist add`. -/
def add (config : Config) (state : State) (me : Nat) (addition : Addition)
    (attempt : Attempt) (fault : Fault) : State :=
  match Revocation.add config.fold addition.enrollments config.central
      state.revocations addition.fingerprint addition.reason addition.actor addition.now with
  | .error .alreadyActive => state.comes me (.ended .unchanged)
  | .error error => state.comes me (.ended (.refused error))
  | .ok rows =>
    match fault with
    | .ok => { state with revocations := rows }.comes me (.fleet attempt)
    | .failed => state.comes me (.ended .fatal)
    | .lost => { state with revocations := rows }.comes me (.ended .fatal)

/-- `Lift`, and what `blocklist remove` makes of the count it took before. -/
def remove (config : Config) (state : State) (me : Nat) (attempt : Attempt)
    (fingerprint : String) (active : Nat) (now : Int) (fault : Fault) :
    State :=
  let fp := Revocation.normFingerprint config.fold fingerprint
  let lifted := { state with
    revocations := Revocation.lift state.revocations fp now }
  if fp = "" then state.comes me (.ended (.refused .noFingerprint))
  else
    match fault with
    | .ok =>
      lifted.comes me (if active = 0 then .ended .unchanged
        else .fleet attempt)
    | .failed => state.comes me (.ended .fatal)
    | .lost => lifted.comes me (.ended .fatal)

/-- The `Start` of `startRollout`. -/
def startRollout (state : State) (me : Nat) (attempt : Attempt)
    (hosts : List String) (target now : Int) (fault : Fault) : State :=
  if fault = .failed then state.comes me (.ended .fatal)
  else
    match state.rollouts.start (attempt.config hosts target) now with
    | .ok (_, after) =>
      { state with rollouts := after }.comes me
        (.ended (if fault = Fault.ok then .staged target else .fatal))
    | .error .noHosts => state.comes me (.ended .noHosts)
    | .error .activeExists => state.comes me (.ended .inFlight)
    | .error _ => state.comes me (.ended .fatal)

/-- `FetchConfig` refuses a version below the applied one. -/
def fetchConfig (state : State) (host : String) (bundle : Bundle) : State :=
  match state.hosts host with
  | some applied =>
    if bundle.blocklistVersion < applied.blocklistVersion then state
    else state.apply host bundle
  | none => state.apply host bundle

def step (config : Config) (state : State) : Event → Option State
  | .add me addition attempt fault =>
    match state.changes me with
    | .idle => some (add config state me addition attempt fault)
    | _ => none
  | .remove me fingerprint attempt fault =>
    match state.changes me with
    | .idle =>
      some (state.comes me (.lift attempt fingerprint (if fault = .ok then
          state.revocations.affected fun row =>
            row.fingerprint == fingerprint && row.state == .active
        else 0)))
    | _ => none
  | .lift me now fault =>
    match state.changes me with
    | .lift attempt fingerprint active =>
      some (remove config state me attempt fingerprint active now fault)
    | _ => none
  | .lighthouse me description =>
    match state.changes me with
    | .idle => some (state.comes me (.fleet (lighthouseChange description)))
    | _ => none
  | .fleet me fault =>
    match state.changes me with
    | .fleet attempt =>
      some (state.comes me (if fault = .ok then .version attempt state.fleet
        else .ended .fatal))
    | _ => none
  | .version me fault =>
    match state.changes me with
    | .version attempt hosts =>
      some (state.comes me (.start attempt hosts
        ((if fault = .ok then state.rollouts.blocklistVersion else 0) + 1)))
    | _ => none
  | .start me now fault =>
    match state.changes me with
    | .start attempt hosts target =>
      some (startRollout state me attempt hosts target now fault)
    | _ => none
  | .engine event =>
    if foreign event then
      (Rollouts.step state.rollouts event).map fun after =>
        { state with rollouts := after }
    else none
  | .enroll assembly host => some (state.puts assembly (.list host 0))
  | .readVersion assembly host fault =>
    some (state.puts assembly (.list host
      (if fault = .ok then state.rollouts.blocklistVersion else 0)))
  | .readList assembly fault =>
    match state.assemblies assembly with
    | .list host version =>
      some (state.puts assembly (.assembled host
        { blocklistVersion := version
          blocklist :=
            if fault = .ok then
              Revocation.activeFingerprints state.revocations
            else [] }))
    | _ => none
  | .fetch assembly =>
    match state.assemblies assembly with
    | .assembled host bundle => some (fetchConfig state host bundle)
    | _ => none
  | .renew assembly =>
    match state.assemblies assembly with
    | .assembled host bundle => some (state.apply host bundle)
    | _ => none
  | .heartbeat beat =>
    if beat.appliedBlocklistVersion = state.reported beat.overlayIP then
      (Rollouts.step state.rollouts (.heartbeat beat)).map fun after =>
        { state with rollouts := after }
    else none

def State.initial : State where
  rollouts := .empty
  revocations := .empty
  changes _ := .idle
  assemblies _ := .idle
  hosts _ := none

/-- A list is read once its version is, and an attempt starts a version of its
own: the lane is free, and what it takes for the highest version still is. -/
def Whole (state : State) : Event → Prop
  | .readList assembly fault =>
    match state.assemblies assembly with
    | .list _ version => fault = .ok ∨ version = 0
    | _ => True
  | .start me now fault =>
    match state.changes me with
    | .start attempt hosts target =>
      fault ≠ .failed ∧ state.rollouts.blocklistVersion < target ∧
        (state.rollouts.start (attempt.config hosts target) now).isOk = true
    | _ => True
  | _ => True

instance (state : State) : DecidablePred (Whole state) := by
  intro event
  unfold Whole
  split
  · split <;> infer_instance
  · split <;> infer_instance
  · infer_instance

end Harbor.Blocklist
