import Harbor.Data.Enrollment
import Mathlib.Data.List.Sort

/-!
# The durable queue

`queue_items` holds the candidates a gateway has published, `queue_results` the
outcomes hosts poll for.  Writing a result is an upsert on the enrollment id:
a later write replaces status, bundle, reason and expiry and keeps the secret
hash and the read counter of the row that is there.
-/

namespace Harbor.Queue

open Library

structure Candidate where
  enrollmentID : String
  pubkeyHash : String := ""
  requestJWS : Bytes := []
  retrievalSecretHash : Bytes := []
  receivedAt : Int := 0
deriving DecidableEq, Repr

inductive ItemStatus where
  | ready
  | inflight
  | dead
deriving DecidableEq, Repr

/-- A row of `queue_items`. -/
structure Item where
  id : Int
  candidate : Candidate
  mac : Bytes := []
  status : ItemStatus := .ready
  attempts : Nat := 0
  leaseUntil : Int := 0
deriving DecidableEq, Repr

abbrev Items := Table Item.id

/-- A row of `queue_results`. -/
structure Result where
  enrollmentID : String
  status : Enrollment.Status
  bundle : Bytes := []
  secretHash : Bytes := []
  reason : String := ""
  expiresAt : Int := 0
  readCount : Nat := 0
deriving DecidableEq, Repr

abbrev Results := Table Result.enrollmentID

/-- The arguments of `PutResult`. -/
structure Delivery where
  enrollmentID : String
  status : Enrollment.Status
  secretHash : Bytes := []
  bundle : Bytes := []
  reason : String := ""
  expiresAt : Int := 0
deriving DecidableEq, Repr

def Delivery.row (delivery : Delivery) : Result where
  enrollmentID := delivery.enrollmentID
  status := delivery.status
  bundle := delivery.bundle
  secretHash := delivery.secretHash
  reason := delivery.reason
  expiresAt := delivery.expiresAt

/-- The columns listed in `DoUpdates`. -/
def Delivery.overwrite (delivery : Delivery) (row : Result) : Result :=
  { row with
    status := delivery.status
    bundle := delivery.bundle
    reason := delivery.reason
    expiresAt := delivery.expiresAt }

def putResult (results : Results) (delivery : Delivery) : Results :=
  results.upsert delivery.row delivery.overwrite fun _ => rfl

theorem find_putResult (res : Results) (sent : Delivery) (eid : String) :
    (putResult res sent).find eid =
      if eid = sent.enrollmentID then
        some (((res.find eid).map sent.overwrite).getD sent.row)
      else res.find eid :=
  Table.find_upsert _ eid

/-- The ids of `PendingResultIDs`. -/
def pendingResultIDs (results : Results) : List String :=
  (results.rows.filter fun row => row.status == .pending).map (·.enrollmentID)

inductive ResultError where
  | notFound
  | gone
deriving DecidableEq, Repr

structure PollResult where
  status : Enrollment.Status
  bundle : Bytes
  reason : String
deriving DecidableEq, Repr

/-- The read of `GetResult` and the checks on the row it finds; `sha256` is the
hash of the presented secret. -/
def readResult (results : Results) (sha256 : String → Bytes)
    (enrollmentID secret : String) (now : Int) : Except ResultError Result :=
  match results.find enrollmentID with
  | none => .error .notFound
  | some row =>
    if sha256 secret ≠ row.secretHash then .error .notFound
    else if row.expiresAt ≠ 0 ∧ row.expiresAt ≤ now then .error .gone
    else .ok row

def consumeResult (results : Results) (enrollmentID : String) : Nat × Results :=
  let unread := fun row : Result =>
    row.enrollmentID == enrollmentID && row.status == .issued && row.readCount == 0
  (results.affected unread, results.update unread
      (fun row => { row with readCount := row.readCount + 1 }) fun _ => rfl)

def getResult (results : Results) (sha256 : String → Bytes)
    (enrollmentID secret : String) (now : Int) : Except ResultError PollResult × Results :=
  match readResult results sha256 enrollmentID secret now with
  | .error error => (.error error, results)
  | .ok row =>
    let answer : PollResult :=
      { status := row.status, bundle := row.bundle, reason := row.reason }
    if row.status = .issued then
      let consumed := consumeResult results enrollmentID
      if consumed.1 = 0 then (.error .gone, consumed.2)
      else (.ok answer, consumed.2)
    else (.ok answer, results)

theorem getResult_of_row {res : Results} {row : Result}
    {sha : String → Bytes} {id secret : String} {now : Int}
    (hit : res.find id = some row) (secretMatches : row.secretHash = sha secret)
    (unexpired : row.expiresAt = 0 ∨ now < row.expiresAt) (left : row.readCount = 0) :
    (getResult res sha id secret now).1 =
      .ok { status := row.status, bundle := row.bundle, reason := row.reason } := by
  have valid : ¬(row.expiresAt ≠ 0 ∧ row.expiresAt ≤ now) := by omega
  have readable : readResult res sha id secret now = .ok row := by
    simp [readResult, hit, secretMatches, valid]
  unfold getResult
  rw [readable]
  by_cases out : row.status = .issued
  · obtain ⟨mem, eq⟩ := Table.find_eq_some_iff.mp hit
    have one : (consumeResult res id).1 ≠ 0 := by
      simp only [consumeResult, Table.affected, ne_eq, List.countP_eq_zero, not_forall]
      exact ⟨row, mem, by simp [eq, out, left]⟩
    simp [out, one]
  · simp [out]

inductive PublishError where
  | duplicate
  | backpressure
deriving DecidableEq, Repr

def PublishError.message : PublishError → String
  | .duplicate => "queue: duplicate enrollment_id (idempotent no-op)"
  | .backpressure => "queue: at capacity"

def depth (items : Items) : Nat :=
  items.affected fun item => item.status == .ready || item.status == .inflight

/-- The INSERT of `Publish`; the key of the new row is chosen by the database. -/
def insertCandidate (items : Items) (mac : Candidate → Bytes) (id : Int)
    (candidate : Candidate) : Except PublishError Items :=
  if candidate.enrollmentID ∈ items.rows.map (·.candidate.enrollmentID) then .error .duplicate
  else
    match items.insert? { id := id, candidate := candidate, mac := mac candidate } with
    | some after => .ok after
    | none => .error .duplicate

theorem insertCandidate_ok {items after : Items} {mac : Candidate → Bytes}
    {id : Int} {candidate : Candidate}
    (inserted : insertCandidate items mac id candidate = .ok after) :
    candidate.enrollmentID ∉ items.rows.map (·.candidate.enrollmentID) ∧
      items.insert? { id := id, candidate := candidate, mac := mac candidate } = some after := by
  unfold insertCandidate at inserted
  split_ifs at inserted with known
  refine ⟨known, ?_⟩
  split at inserted <;> cases inserted
  assumption

def publish (items : Items) (mac : Candidate → Bytes) (maxDepth : Nat)
    (id : Int) (candidate : Candidate) : Except PublishError Items :=
  if maxDepth ≤ depth items then .error .backpressure
  else insertCandidate items mac id candidate

def Item.isReady (id : Int) (row : Item) : Bool :=
  row.id == id && row.status == .ready

def Item.leased (expires : Int) (row : Item) : Item :=
  { row with
    status := .inflight
    leaseUntil := expires
    attempts := row.attempts + 1 }

def Item.buried (row : Item) : Item :=
  { row with status := .dead }

def Item.returned (row : Item) : Item :=
  { row with status := .ready, leaseUntil := 0 }

def takeLease (items : Items) (id expires : Int) : Items :=
  items.update (Item.isReady id) (Item.leased expires) fun _ => rfl

def bury (items : Items) (id : Int) : Items :=
  items.update (fun row => row.id == id) Item.buried fun _ => rfl

/-- The update of a `Nack` that returns a message. -/
def putBack (items : Items) (id : Int) : Items :=
  items.update (fun row => row.id == id) Item.returned fun _ => rfl

structure Leased where
  id : Int
  candidate : Candidate
  attempts : Nat
deriving DecidableEq, Repr

/-- The first statement of `Claim`: leases that have run out are taken back. -/
def reclaim (items : Items) (now : Int) : Items :=
  items.update (fun item => item.status == .inflight && decide (item.leaseUntil ≤ now))
    (fun item => { item with status := .ready }) fun _ => rfl

/-- One pass of the loop of `Claim` over the selected rows: a row whose
authentication code is wrong is set aside, any other is leased. -/
def lease (mac : Candidate → Bytes) (leaseUntil : Int) (item : Item)
    (items : Items) (leased : List Leased) : Items × List Leased :=
  if item.mac ≠ mac item.candidate then (bury items item.id, leased)
  else if items.affected (Item.isReady item.id) = 0 then (items, leased)
  else
    (takeLease items item.id leaseUntil,
      leased ++ [{
        id := item.id
        candidate := item.candidate
        attempts := item.attempts + 1 }])

/-- The ready rows a `Claim` selects, in the order of their ids. -/
def readyItems (items : Items) (limit : Nat) : List Item :=
  ((items.rows.filter fun item => item.status == .ready).insertionSort
    fun left right => left.id ≤ right.id).take limit

def claim (items : Items) (mac : Candidate → Bytes) (limit : Nat)
    (leaseTTL now : Int) : List Leased × Items :=
  let reclaimed := reclaim items now
  let outcome := (readyItems reclaimed limit).foldl
    (fun state item => lease mac (now + leaseTTL) item state.1 state.2) (reclaimed, [])
  (outcome.2, outcome.1)

def ack (items : Items) (id : Int) : Items :=
  items.keep fun item => item.id != id

/-- The update of `Nack`, by the attempts it has read. -/
def nackItem (items : Items) (maxAttempts attempts : Nat) (id : Int) : Items :=
  if maxAttempts ≤ attempts then bury items id else putBack items id

/-- `Nack`; `none` when the item is gone. -/
def nack (items : Items) (maxAttempts : Nat) (id : Int) : Option Items :=
  (items.find id).map fun item => nackItem items maxAttempts item.attempts id

end Harbor.Queue
