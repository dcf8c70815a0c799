import Harbor.Library.Pool
import Harbor.Library.Procedure
import Harbor.Queue.Durable

/-!
# Consumers of the durable queue

Any number of gateways publish and any number of consumers claim, ack and nack,
one SQL statement at a time and with equal clocks.  A `Claim` takes back the
leases that have run out, selects ready messages and leases them one by one; a
`Nack` reads the message and then updates it.  Both `Ack` and `Nack` name the
message alone, so a consumer whose lease has run out can still send them.

Beside the table the model keeps which lease each consumer was given and has
not given back, and the log of all deliveries.
-/

namespace Harbor.Queue

open Library List Table

/-- A message that a `Claim` of a consumer has leased. -/
structure Lease where
  consumer : Nat
  message : Int
  expires : Int
deriving DecidableEq, Repr

/-- The settings of `OpenDurable`, and the authentication code. -/
structure Settings where
  mac : Candidate → Bytes
  maxDepth : Nat
  maxAttempts : Nat
  positive : 0 < maxAttempts

structure Broker where
  items : Items
  clock : Int
  /-- The last key the database has given out. -/
  lastID : Int
  /-- The leases that were delivered and neither acked nor nacked. -/
  held : List Lease
  /-- All leases that were delivered, oldest first. -/
  deliveries : List Lease

structure BrokerIo where
  fault : Fault := .ok
  text : String := ""

inductive BrokerRequest where
  | tick (now : Int)
  | publish (candidate : Candidate)
  | claim (consumer limit : Nat) (leaseTTL : Int)
  | ack (consumer : Nat) (id : Int)
  | nack (consumer : Nat) (id : Int)

inductive BrokerCall where
  | tick (now : Int)
  | publishDepth (candidate : Candidate)
  | publishInsert (candidate : Candidate)
  | claimReclaim (consumer limit : Nat) (leaseTTL now : Int)
  | claimSelect (consumer limit : Nat) (leaseTTL : Int)
  | claimLoop (consumer : Nat) (leaseTTL : Int) (rows : List Item) (out : List Leased)
  | ackDelete (consumer : Nat) (id : Int)
  | nackFirst (consumer : Nat) (id : Int)
  | nackUpdate (consumer : Nat) (id : Int) (attempts : Nat)
  | claimed (out : List Leased)
  | refused (error : PublishError)
  | done
  | failed (text : String)
deriving DecidableEq, Repr

namespace Broker

variable (settings : Settings) (broker : Broker) (io : BrokerIo)

def giveBack (consumer : Nat) (id : Int) : Broker :=
  { broker with
    held := broker.held.filter fun lease =>
      !(lease.consumer == consumer && lease.message == id) }

def ended (text : String) (next : BrokerCall) : BrokerCall :=
  if io.fault = .ok then next else .failed (text ++ io.text)

def publishDepth (candidate : Candidate) : BrokerCall :=
  if io.fault ≠ .ok then .failed ("queue: depth: " ++ io.text)
  else if settings.maxDepth ≤ depth broker.items then .refused .backpressure
  else .publishInsert candidate

def publishInsert (candidate : Candidate) : Broker × BrokerCall :=
  if io.fault = .failed then
    (broker, .failed ("queue: publish: " ++ io.text))
  else
    match insertCandidate broker.items settings.mac (broker.lastID + 1) candidate with
    | .error error => (broker, .refused error)
    | .ok items =>
      ({ broker with items := items, lastID := broker.lastID + 1 },
        ended io "queue: publish: " .done)

/-- One pass of the loop of `Claim`.  Its errors are not looked at: a lease
whose answer is lost is not delivered. -/
def leaseRow (consumer : Nat) (leaseTTL : Int) (item : Item) : Broker × List Leased :=
  if io.fault = .failed then (broker, [])
  else
    let expires := broker.clock + leaseTTL
    let outcome := lease settings.mac expires item broker.items []
    let leased := if io.fault = .ok then outcome.2 else []
    let given := leased.map fun one =>
      { consumer := consumer, message := one.id, expires := expires : Lease }
    ({ broker with
      items := outcome.1
      held := broker.held ++ given
      deliveries := broker.deliveries ++ given }, leased)

def ackDelete (consumer : Nat) (id : Int) : Broker × BrokerCall :=
  if io.fault = .failed then (broker, .failed io.text)
  else
    ({ broker with items := ack broker.items id }.giveBack consumer id, ended io "" .done)

def nackUpdate (consumer : Nat) (id : Int) (attempts : Nat) : Broker × BrokerCall :=
  if io.fault = .failed then (broker, .failed io.text)
  else
    let items := nackItem broker.items settings.maxAttempts attempts id
    ({ broker with items := items }.giveBack consumer id, ended io "" .done)

def advance : BrokerCall → Option (Broker × BrokerCall)
  | .tick now =>
    if broker.clock ≤ now then some ({ broker with clock := now }, .done)
    else none
  | .publishDepth candidate =>
    some (broker, broker.publishDepth settings io candidate)
  | .publishInsert candidate =>
    some (broker.publishInsert settings io candidate)
  | .claimReclaim consumer limit leaseTTL now =>
    if io.fault = .failed then
      some (broker, .failed ("queue: reclaim: " ++ io.text))
    else
      some ({ broker with items := reclaim broker.items now },
        ended io "queue: reclaim: " (.claimSelect consumer limit leaseTTL))
  | .claimSelect consumer limit leaseTTL =>
    if io.fault ≠ .ok then
      some (broker, .failed ("queue: claim select: " ++ io.text))
    else some (broker, .claimLoop consumer leaseTTL (readyItems broker.items limit) [])
  | .claimLoop consumer leaseTTL (item :: rest) out =>
    let outcome := broker.leaseRow settings io consumer leaseTTL item
    some (outcome.1, .claimLoop consumer leaseTTL rest (out ++ outcome.2))
  | .claimLoop _ _ [] out => some (broker, .claimed out)
  | .ackDelete consumer id => some (broker.ackDelete io consumer id)
  | .nackFirst consumer id =>
    if io.fault ≠ .ok then some (broker, .failed io.text)
    else
      match broker.items.find id with
      | none => some (broker, .failed "record not found")
      | some item => some (broker, .nackUpdate consumer id item.attempts)
  | .nackUpdate consumer id attempts =>
    some (broker.nackUpdate settings io consumer id attempts)
  | _ => none

end Broker

/-- `Claim` reads the clock before its first statement. -/
def acceptBroker (broker : Broker) : BrokerRequest → BrokerCall
  | .tick now => .tick now
  | .publish candidate => .publishDepth candidate
  | .claim consumer limit leaseTTL =>
    .claimReclaim consumer limit leaseTTL broker.clock
  | .ack consumer id => .ackDelete consumer id
  | .nack consumer id => .nackFirst consumer id

def Settings.machine (settings : Settings) : Machine Broker BrokerRequest BrokerIo BrokerCall where
  accept := acceptBroker
  advance _ broker io call := broker.advance settings io call

def Broker.empty : Broker where
  items := .empty
  clock := 0
  lastID := 0
  held := []
  deliveries := []

section

/-- The clock reading a `Claim` carries to its first statement. -/
def BrokerCall.reading : BrokerCall → Option Int
  | .claimReclaim _ _ _ now => some now
  | _ => none

variable {opts : Settings} {b fin : Broker} {io : BrokerIo} {call next : BrokerCall}
variable {xs : Items} {id : Int} {row : Item}

theorem mem_takeLease (due : ∃ row ∈ xs.rows, row.isReady id = true)
    (mem : row ∈ (takeLease xs id ends).rows) : row ∈ xs.rows ∧ row.id ≠ id ∨
      ∃ old ∈ xs.rows, old.id = id ∧ old.status = .ready ∧ row = old.leased ends := by
  unfold takeLease at mem
  obtain ⟨old, had, rfl⟩ := mem_update.mp mem
  split_ifs with pick
  · simp only [Item.isReady, Bool.and_eq_true, beq_iff_eq] at pick
    exact .inr ⟨old, had, pick.1, pick.2, rfl⟩
  · refine .inl ⟨had, ?_⟩
    intro eq
    obtain ⟨alt, here, fr⟩ := due
    have same : alt.id = id := by
      simp only [Item.isReady, Bool.and_eq_true, beq_iff_eq] at fr
      exact fr.1
    have one := xs.row_eq_of_key_eq had here (eq.trans same.symm)
    subst one
    exact pick fr

theorem mem_bury (mem : row ∈ (bury xs id).rows) :
    row ∈ xs.rows ∨ ∃ old ∈ xs.rows, old.id = id ∧ row = old.buried := by
  unfold bury at mem
  obtain ⟨old, had, rfl⟩ := mem_update.mp mem
  split_ifs with pick
  · exact .inr ⟨old, had, beq_iff_eq.mp pick, rfl⟩
  · exact .inl had

theorem mem_putBack (mem : row ∈ (putBack xs id).rows) :
    row ∈ xs.rows ∧ row.id ≠ id ∨ ∃ old ∈ xs.rows, old.id = id ∧ row = old.returned := by
  unfold putBack at mem
  obtain ⟨old, had, rfl⟩ := mem_update.mp mem
  split_ifs with pick
  · exact .inr ⟨old, had, beq_iff_eq.mp pick, rfl⟩
  · exact .inl ⟨had, by simpa using pick⟩

theorem mem_reclaim (mem : row ∈ (reclaim xs now).rows) :
    row ∈ xs.rows ∨ ∃ old ∈ xs.rows, old.status = .inflight ∧
      old.leaseUntil ≤ now ∧ row = { old with status := .ready } := by
  unfold reclaim at mem
  obtain ⟨old, had, rfl⟩ := mem_update.mp mem
  split_ifs with pick
  · simp only [Bool.and_eq_true, beq_iff_eq, decide_eq_true_eq] at pick
    exact .inr ⟨old, had, pick.1, pick.2, rfl⟩
  · exact .inl had

inductive Motion (settings : Settings) (broker : Broker) (call : BrokerCall) : Broker → Prop where
  | still : Motion settings broker call broker
  | ticked {now : Int} (later : broker.clock ≤ now) :
      Motion settings broker call { broker with clock := now }
  | published {item : Item} {items : Items} (inserted : broker.items.insert? item = some items)
      (id : item.id = broker.lastID + 1) (unclaimed : item.attempts = 0) :
      Motion settings broker call { broker with items := items, lastID := broker.lastID + 1 }
  | reclaimed {now : Int} (reading : call.reading = some now) : Motion settings broker call
        { broker with items := reclaim broker.items now }
  | buried {id : Int} : Motion settings broker call { broker with items := bury broker.items id }
  | leased {consumer : Nat} {id expires : Int} {given : List Lease}
      (own : ∀ lease ∈ given, lease = ⟨consumer, id, expires⟩) (single : given.length ≤ 1)
      (ready : ∃ row ∈ broker.items.rows, row.isReady id = true) : Motion settings broker call
        { broker with
          items := takeLease broker.items id expires
          held := broker.held ++ given
          deliveries := broker.deliveries ++ given }
  | acked {consumer : Nat} {id : Int} : Motion settings broker call
        ({ broker with items := ack broker.items id }.giveBack consumer id)
  | dropped {consumer : Nat} {id : Int} : Motion settings broker call
        ({ broker with items := bury broker.items id }.giveBack consumer id)
  | nacked {consumer attempts : Nat} {id : Int} (position : call = .nackUpdate consumer id attempts)
      (again : attempts < settings.maxAttempts) : Motion settings broker call
        ({ broker with
          items := putBack broker.items id }.giveBack consumer id)

theorem publishInsert_motion (c : Candidate) : Motion opts b call
      (b.publishInsert opts io c).1 := by
  unfold Broker.publishInsert
  split
  · exact .still
  · split
    · exact .still
    · rename_i put
      exact .published (insertCandidate_ok put).2 rfl rfl

theorem leaseRow_motion (who : Nat) (leaseTTL : Int) (item : Item) :
    Motion opts b call (b.leaseRow opts io who leaseTTL item).1 := by
  unfold Broker.leaseRow
  split
  · exact .still
  · simp only [lease]
    split
    · have nothing : (if io.fault = .ok then ([] : List Leased) else []) = [] := by split <;> rfl
      simp only [nothing, map_nil, append_nil]
      exact .buried
    · split
      · have nothing : (if io.fault = .ok then ([] : List Leased) else []) = [] := by split <;> rfl
        simp only [nothing, map_nil, append_nil]
        exact .still
      · rename_i sel
        have due : ∃ row ∈ b.items.rows, row.isReady item.id = true := by
          simp only [Table.affected, countP_eq_zero, not_forall] at sel
          obtain ⟨row, mem, pick⟩ := sel
          exact ⟨row, mem, not_not.mp pick⟩
        split
        · refine @Motion.leased _ _ _ who _ _ _ ?_ (le_refl 1) due
          intro lease mem
          exact mem_singleton.mp mem
        · simp only [map_nil]
          refine @Motion.leased _ _ _ who _ _ [] ?_ (Nat.zero_le 1) due
          intro lease mem
          cases mem

theorem nackUpdate_motion (who : Nat) (id : Int) (n : Nat) :
    Motion opts b (.nackUpdate who id n) (b.nackUpdate opts io who id n).1 := by
  unfold Broker.nackUpdate
  split
  · exact .still
  · by_cases poison : opts.maxAttempts ≤ n
    · simp only [nackItem, poison, if_true]
      exact .dropped
    · simp only [nackItem, poison, if_false]
      exact .nacked rfl (Nat.lt_of_not_le poison)

theorem ended_reading (left : next.reading = none) : (Broker.ended io t next).reading = none := by
  unfold Broker.ended
  split
  · exact left
  · rfl

theorem advance_motion (ran : b.advance opts io call = some (fin, next)) :
    Motion opts b call fin ∧ next.reading = none := by
  cases call with
  | tick now =>
    simp only [Broker.advance] at ran
    split_ifs at ran with late
    cases ran
    exact ⟨.ticked late, rfl⟩
  | publishDepth c =>
    cases ran
    refine ⟨.still, ?_⟩
    unfold Broker.publishDepth
    split_ifs <;> rfl
  | publishInsert c =>
    simp only [Broker.advance, Option.some.injEq] at ran
    have move := @publishInsert_motion opts b io (.publishInsert c) c
    have silent : (b.publishInsert opts io c).2.reading =
        none := by
      unfold Broker.publishInsert
      split
      · rfl
      · split
        · rfl
        · exact ended_reading rfl
    rw [ran] at move silent
    exact ⟨move, silent⟩
  | claimReclaim who m ttl now =>
    simp only [Broker.advance] at ran
    split_ifs at ran
    · cases ran
      exact ⟨.still, rfl⟩
    · cases ran
      exact ⟨.reclaimed rfl, ended_reading rfl⟩
  | claimSelect who m ttl =>
    simp only [Broker.advance] at ran
    split_ifs at ran <;> cases ran <;> exact ⟨.still, rfl⟩
  | claimLoop who ttl rs out =>
    cases rs with
    | nil =>
      cases ran
      exact ⟨.still, rfl⟩
    | cons i rest =>
      cases ran
      exact ⟨leaseRow_motion who ttl i, rfl⟩
  | ackDelete who id =>
    simp only [Broker.advance, Broker.ackDelete, Option.some.injEq] at ran
    split_ifs at ran
    · cases ran
      exact ⟨.still, rfl⟩
    · cases ran
      exact ⟨.acked, ended_reading rfl⟩
  | nackFirst who id =>
    simp only [Broker.advance] at ran
    split_ifs at ran
    · cases ran
      exact ⟨.still, rfl⟩
    · split at ran <;> cases ran <;> exact ⟨.still, rfl⟩
  | nackUpdate who id n =>
    simp only [Broker.advance, Option.some.injEq] at ran
    have move := @nackUpdate_motion opts b io who id n
    have silent : (b.nackUpdate opts io who id n).2.reading = none := by
      unfold Broker.nackUpdate
      split
      · rfl
      · exact ended_reading rfl
    rw [ran] at move silent
    exact ⟨move, silent⟩
  | _ => cases ran

end

section

variable (settings : Settings) {broker : Broker} {call : BrokerCall}
  {next finish : Broker × BrokerCall} {who : Nat} {leaseTTL : Int}

/-- A call whose statements run without faults and with no other in between. -/
def Alone : Broker × BrokerCall → Broker × BrokerCall → Prop :=
  Reaches (fun state io => state.1.advance settings io state.2)
    fun _ io => io.fault = .ok

variable {settings} in
theorem Alone.step (ran : broker.advance settings {} call = some next)
    (rest : Alone settings next finish) : Alone settings (broker, call) finish :=
  Reaches.head (show ({} : BrokerIo).fault = .ok from rfl) ran rest

theorem lease_append (mac : Candidate → Bytes) (expires : Int) (item : Item)
    (items : Items) (out : List Leased) :
    lease mac expires item items out =
      ((lease mac expires item items []).1, out ++ (lease mac expires item items []).2) := by
  unfold lease
  split_ifs <;> simp

theorem claimLoop_alone (rows : List Item) (broker : Broker) (out : List Leased) :
    let outcome := rows.foldl
      (fun state item => lease settings.mac (broker.clock + leaseTTL) item state.1 state.2)
      (broker.items, out)
    ∃ after,
      Alone settings (broker, .claimLoop who leaseTTL rows out) (after, .claimed outcome.2) ∧
      after.items = outcome.1 := by
  induction rows generalizing broker out with
  | nil => exact ⟨broker, .step rfl .refl, rfl⟩
  | cons item rest ih =>
    rw [foldl_cons, lease_append]
    obtain ⟨after, ended, items⟩ := ih (broker.leaseRow settings {} who leaseTTL item).1
      (out ++ (broker.leaseRow settings {} who leaseTTL item).2)
    exact ⟨after, .step rfl ended, items⟩

/-- `Claim`, `Publish` and `Nack` as one function each are what their statements
do when nothing comes in between. -/
theorem alone_claim (limit : Nat) :
    let outcome := claim broker.items settings.mac limit leaseTTL broker.clock
    ∃ after,
      Alone settings (broker, acceptBroker broker (.claim who limit leaseTTL))
        (after, .claimed outcome.1) ∧
      after.items = outcome.2 := by
  obtain ⟨after, ended, items⟩ := claimLoop_alone settings
    (readyItems (reclaim broker.items broker.clock) limit)
    { broker with items := reclaim broker.items broker.clock } []
  exact ⟨after, .step rfl (.step rfl ended), items⟩

theorem alone_publish {items : Items} {candidate : Candidate}
    (published : publish broker.items settings.mac settings.maxDepth
      (broker.lastID + 1) candidate = .ok items) :
    Alone settings (broker, acceptBroker broker (.publish candidate))
      ({ broker with items := items, lastID := broker.lastID + 1 }, .done) := by
  unfold publish at published
  split_ifs at published with full
  have admitted : broker.advance settings {} (.publishDepth candidate) =
      some (broker, .publishInsert candidate) := by
    simp [Broker.advance, Broker.publishDepth, full]
  refine .step admitted (.step ?_ .refl)
  simp [Broker.advance, Broker.publishInsert, published, Broker.ended]

theorem alone_nack {items : Items} {id : Int}
    (nacked : nack broker.items settings.maxAttempts id = some items) :
    Alone settings (broker, acceptBroker broker (.nack who id))
      ({ broker with items := items }.giveBack who id, .done) := by
  obtain ⟨item, found, rfl⟩ := Option.map_eq_some_iff.mp nacked
  have read : broker.advance settings {} (.nackFirst who id) =
      some (broker, .nackUpdate who id item.attempts) := by
    simp [Broker.advance, found]
  exact .step read (.step rfl .refl)

end

end Harbor.Queue
