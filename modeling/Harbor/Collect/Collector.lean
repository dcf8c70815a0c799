import Harbor.Consumer.Enroll
import Harbor.Library.Interleaving

/-!
# The outbound collector

Harbor pulls candidates from a gateway, processes them, ships the results back
and then acks.  A call to the gateway is a request that may be lost, the
handler's statements on the gateway's queue, and an answer that may be lost.
The consumer behind the collector writes its results to a buffer in memory;
administrators decide enrollments in another process, whose results do not
reach the gateway, so a decision travels on the reconcile lane.
-/

namespace Harbor.Collect

open Library Queue

/-- What the collector, the administrators and the gateway's public side do:
statements of the consumer, the two operations of the capture sink, transfers
and writes outside the model that only succeed or fail, the counter of
processed candidates and the queue's `Publish`. -/
inductive Statement where
  | consumer (statement : Consumer.Statement)
  | capture (delivery : Delivery)
  | drain
  | outside
  | processed (outcome : String)
  | publish (id : Int) (candidate : Candidate)

def Statement.Answer : Statement → Type
  | .consumer statement => statement.Answer
  | .capture _ => Except String Unit
  | .drain => List Delivery
  | .outside => Except String Unit
  | .processed _ => Unit
  | .publish _ _ => Except String Unit

structure World where
  /-- Harbor's tables and the gateway's queue with its results. -/
  base : Consumer.World
  /-- The buffer of the capture sink. -/
  sink : List Delivery

structure Env where
  consumer : Consumer.Env
  maxDepth : Nat

/-- `Publish` on the gateway's queue. -/
def World.publish (world : World) (env : Env) (id : Int)
    (candidate : Candidate) : Except String Unit × World :=
  match Queue.publish world.base.items env.consumer.mac env.maxDepth id candidate with
  | .error error => (.error error.message, world)
  | .ok items =>
    (.ok (), { world with base := { world.base with items := items } })

def execute (env : Env) (choice : Consumer.Choice) (world : World) :
    (statement : Statement) → statement.Answer × World
  | .consumer statement =>
    let outcome := Consumer.execute env.consumer choice world.base statement
    (outcome.1, { world with base := outcome.2 })
  | .capture delivery =>
    (.ok (), { world with sink := world.sink ++ [delivery] })
  | .drain => (world.sink, { world with sink := [] })
  | .outside =>
    choice.fault.settle (.error choice.text) world (.ok (), world)
  | .processed _ => ((), world)
  | .publish id candidate =>
    choice.fault.settle (.error choice.text) world (world.publish env id candidate)

abbrev Run := Procedure Statement Statement.Answer

abbrev send (statement : Statement) : Run statement.Answer :=
  Procedure.request statement

abbrev clock : Run Int :=
  send (.consumer .clock)

def captured : (statement : Consumer.Statement) → Run statement.Answer
  | .putResult delivery => send (.capture delivery)
  | statement => send (.consumer statement)

def elsewhere : (statement : Consumer.Statement) → Run statement.Answer
  | .putResult _ => send .outside
  | statement => send (.consumer statement)

def defaultClaim : Nat := 64

def maxClaim : Nat := 512

def millisecond : Int := 1000000

def defaultLeaseTTL : Int := 60 * 1000 * millisecond

def claimLimit (limit : Int) : Nat :=
  if limit ≤ 0 ∨ maxClaim < limit then defaultClaim else limit.toNat

def claimLease (leaseMs : Int) : Int :=
  if leaseMs * millisecond ≤ 0 then defaultLeaseTTL else leaseMs * millisecond

/-- `handleClaim`; a failed handler answers with status 500 and this text. -/
def handleClaim (limit leaseMs : Int) : Run (Except String (List Leased)) := do
  match ← send (.consumer (.claim (claimLimit limit) (claimLease leaseMs))) with
  | .error _ => return .error "claim failed\n"
  | .ok leased => return .ok leased

def handleResults : List Delivery → Run (Except String Unit)
  | [] => return .ok ()
  | res :: rest => do
    match ← send (.consumer (.putResult res)) with
    | .error _ => return .error "put result failed\n"
    | .ok () => handleResults rest

def handlePending : Run (Except String (List String)) := do
  match ← send (.consumer .pendingResultIDs) with
  | .error _ => return .error "pending lookup failed\n"
  | .ok ids => return .ok ids

def handleNacks : List Int → Run (Except String Unit)
  | [] => return .ok ()
  | id :: rest => do
    match ← send (.consumer (.nackItem id)) with
    | .error _ => return .error "nack failed\n"
    | .ok () => handleNacks rest

def handleAck : List Int → List Int → Run (Except String Unit)
  | [], nack => handleNacks nack
  | id :: rest, nack => do
    match ← send (.consumer (.ackItem id)) with
    | .error _ => return .error "ack failed\n"
    | .ok () => handleAck rest nack

def call {Reply : Type} (path : String)
    (handler : Run (Except String Reply)) : Run (Except String Reply) := do
  match ← send .outside with
  | .error text => return .error text
  | .ok () =>
    let reply ← handler
    match ← send .outside with
    | .error text => return .error text
    | .ok () =>
      return reply.mapError fun body => path ++ " -> 500: " ++ body

inductive CollectError where
  | claim (text : String)
  | ship (text : String)
  | ack (text : String)
  | pending (text : String)
  | deliver (text : String)
deriving DecidableEq, Repr

inductive ResolveError where
  | database (text : String)
  | parseCert (enrollmentID : String)
  | bundle (error : Consumer.Error)
deriving DecidableEq, Repr

/-- What `BuildDeliverable` returns for a decided enrollment. -/
structure Deliverable where
  status : Enrollment.Status
  bundle : Bytes := []
  reason : String := ""
deriving DecidableEq, Repr

/-- The collector after `New`; `notAfter` reads the end of validity from a
certificate. -/
structure Collector where
  config : Consumer.Config
  batch : Int := defaultClaim
  leaseTTL : Int := defaultLeaseTTL
  resolver : Bool := true
  deliveryTTL : Int := 24 * Consumer.hour
  notAfter : Bytes → Option Int

def outcomeLabel : Except Consumer.Error Consumer.Result → String
  | .ok result =>
    match result.status with
    | .denied => "denied"
    | .pending => "pending"
    | .issued => "issued"
  | .error error =>
    if Consumer.terminal error then "terminal_error" else "transient_error"

def settled : Except Consumer.Error Consumer.Result → Bool
  | .ok _ => true
  | .error error => Consumer.terminal error

namespace Collector

variable (k : Collector)

def consumer : Consumer.Config :=
  { k.config with results := true }

def process (cand : Candidate) : Run (Except Consumer.Error Consumer.Result) :=
  (k.consumer.process cand).translate captured

def processAll : List Leased → List Int → List Int → Run (List Int × List Int)
  | [], ackIDs, nackIDs => return (ackIDs, nackIDs)
  | cand :: rest, ackIDs, nackIDs => do
    let outcome ← k.process cand.candidate
    let _ ← send (.processed (outcomeLabel outcome))
    if settled outcome then processAll rest (ackIDs ++ [cand.id]) nackIDs
    else processAll rest ackIDs (nackIDs ++ [cand.id])

def ship (results : List Delivery) : Run (Except String Unit) :=
  if results = [] then return .ok ()
  else call "/collect/v1/results" (handleResults results)

/-- `CollectOnce`: the number of claimed candidates and the error. -/
def collectOnce : Run (Nat × Option CollectError) := do
  match ← call "/collect/v1/claim" (handleClaim k.batch (k.leaseTTL / millisecond)) with
  | .error text => return (0, some (.claim text))
  | .ok [] => return (0, none)
  | .ok (cand :: rest) =>
    let _ ← send .drain
    let (ackIDs, nackIDs) ← k.processAll (cand :: rest) [] []
    let results ← send .drain
    match ← ship results with
    | .error text => return (rest.length + 1, some (.ship text))
    | .ok () =>
      match ← call "/collect/v1/ack" (handleAck ackIDs nackIDs) with
      | .error text => return (rest.length + 1, some (.ack text))
      | .ok () => return (rest.length + 1, none)

/-- The switch of `BuildDeliverable` on the status of the row. -/
def deliverable (enrollmentID : String) (e : Enrollment) :
    Consumer.Run (Except ResolveError (Option Deliverable)) :=
  match e.status with
  | .issued =>
    match k.notAfter e.certPEM with
    | none => return .error (.parseCert enrollmentID)
    | some notAfter => do
      match ← k.consumer.buildBundle e.deviceName e.overlayIP e.groups
          e.certPEM notAfter e.goos e.goarch with
      | .error error => return .error (.bundle error)
      | .ok b => return .ok (some { status := .issued, bundle := b })
  | .denied =>
    return .ok (some
      { status := .denied
        reason := "enrollment denied by an administrator" })
  | .pending => return .ok none

def buildDeliverable (enrollmentID : String) :
    Consumer.Run (Except ResolveError (Option Deliverable)) := do
  match ← Consumer.send (.findEnrollment enrollmentID) with
  | .error text => return .error (.database text)
  | .ok none => return .ok none
  | .ok (some e) => k.deliverable enrollmentID e

def resolveAll : List String → List Delivery → Run (List Delivery)
  | [], results => return results
  | id :: rest, results => do
    match ← (k.buildDeliverable id).translate captured with
    | .error _ => resolveAll rest results
    | .ok none => resolveAll rest results
    | .ok (some deliverable) =>
      let now ← clock
      resolveAll rest (results ++
        [{ enrollmentID := id
           status := deliverable.status
           bundle := deliverable.bundle
           reason := deliverable.reason
           expiresAt := now + k.deliveryTTL }])

/-- `ReconcileOnce`: the number of delivered results and the error. -/
def reconcileOnce : Run (Nat × Option CollectError) :=
  if k.resolver = false then return (0, none)
  else do
    match ← call "/collect/v1/pending" handlePending with
    | .error text => return (0, some (.pending text))
    | .ok ids =>
      let results ← k.resolveAll ids []
      if results = [] then return (0, none)
      else
        match ← call "/collect/v1/results" (handleResults results) with
        | .error text => return (0, some (.deliver text))
        | .ok () => return (results.length, none)

end Collector

inductive Request where
  | collectOnce
  | reconcileOnce
  | approve (enrollmentID approver : String)
  | deny (enrollmentID approver reason : String)
  | publish (id : Int) (candidate : Candidate)
deriving DecidableEq, Repr

inductive Response where
  | cycle (count : Nat) (error : Option CollectError)
  | decided (answer : Except Consumer.Error Consumer.Result)
  | published (answer : Except String Unit)

def Collector.handle (k : Collector) : Request → Run Response
  | .collectOnce => do
    let (count, error) ← k.collectOnce
    return .cycle count error
  | .reconcileOnce => do
    let (count, error) ← k.reconcileOnce
    return .cycle count error
  | .approve enrollmentID approver => do
    return .decided (← (k.config.approve enrollmentID approver).translate elsewhere)
  | .deny enrollmentID approver reason => do
    return .decided (← (k.config.denyPending enrollmentID approver reason).translate elsewhere)
  | .publish id candidate => do
    return .published (← send (.publish id candidate))

def system (k : Collector) (env : Env) : Service Request Statement Statement.Answer Response World
      Consumer.Choice where
  procedure := k.handle
  execute := execute env

def Request.isCycle : Request → Bool
  | .collectOnce | .reconcileOnce => true
  | _ => false

def Sequential (active : Nat → Option Request) (call : Nat) : Prop :=
  ∀ request, active call = some request → request.isCycle = true →
    ∀ other rival, active other = some rival → rival.isCycle = true → other = call

/-- `Run` makes its cycles one after the other; a restarted process makes its
first one when those of the old process are over. -/
def sequential : Service.Permit Request Statement World Consumer.Choice where
  executes := fun _ active call _ _ => Sequential active call

namespace World

def Delivered (world : World) (enrollmentID : String) (status : Enrollment.Status) : Prop :=
  (∃ result, world.base.results.find enrollmentID = some result ∧ result.status = status) ∨
    enrollmentID ∈ pendingResultIDs world.base.results

def Queued (world : World) (enrollmentID : String) : Prop :=
  ∃ item ∈ world.base.items.rows, item.candidate.enrollmentID = enrollmentID

def Acked (world : World) (enrollmentID : String) : Prop :=
  enrollmentID ∈ world.base.acked ∧ ¬world.Queued enrollmentID

end World

end Harbor.Collect
