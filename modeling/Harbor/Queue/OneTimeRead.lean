import Harbor.Library.Pool
import Harbor.Library.Procedure
import Harbor.Queue.Durable

/-!
# The one read of a bundle

Workers write results while hosts poll for them, one SQL statement at a time.
A `GetResult` reads the row and checks the secret and the expiry; for an issued
row a second statement raises the read counter from zero, and only the call
whose statement did so gets the bundle.

Beside the table the model keeps all writes, so that the first hash of a row
can be named, and which call raised the counter of which row.
-/

namespace Harbor.Queue

open Library Option

structure Inbox where
  results : Results
  /-- The writes that took effect, oldest first. -/
  puts : List Delivery
  /-- The rows whose counter was raised, with the number of the call. -/
  reads : List (String × Nat)

structure InboxIo where
  fault : Fault := .ok
  now : Int := 0
  text : String := ""

inductive InboxRequest where
  | put (delivery : Delivery)
  | get (enrollmentID secret : String)

inductive PollError where
  | result (error : ResultError)
  | database (text : String)
deriving DecidableEq, Repr

inductive InboxCall where
  | put (delivery : Delivery)
  | getRead (enrollmentID secret : String)
  | getConsume (enrollmentID secret : String) (row : Result)
  | stored (error : Option String)
  | answered (enrollmentID secret : String) (answer : Except PollError PollResult)

def Result.answer (row : Result) : PollResult where
  status := row.status
  bundle := row.bundle
  reason := row.reason

namespace Inbox

variable (sha256 : String → Bytes) (inbox : Inbox)

def empty : Inbox where
  results := .empty
  puts := []
  reads := []

def first (enrollmentID : String) : Option Delivery :=
  inbox.puts.find? fun delivery => delivery.enrollmentID == enrollmentID

def put (io : InboxIo) (delivery : Delivery) : Inbox × InboxCall :=
  if io.fault = .failed then
    (inbox, .stored (some ("queue: put result: " ++ io.text)))
  else
    ({ inbox with
      results := putResult inbox.results delivery
      puts := inbox.puts ++ [delivery] },
      .stored (if io.fault = .ok then none
        else some ("queue: put result: " ++ io.text)))

def getRead (io : InboxIo) (enrollmentID secret : String) : InboxCall :=
  if io.fault ≠ .ok then
    .answered enrollmentID secret (.error (.database ("queue: get result: " ++ io.text)))
  else
    match readResult inbox.results sha256 enrollmentID secret io.now with
    | .error error => .answered enrollmentID secret (.error (.result error))
    | .ok row =>
      if row.status = .issued then .getConsume enrollmentID secret row
      else .answered enrollmentID secret (.ok row.answer)

def getConsume (index : Nat) (io : InboxIo) (enrollmentID secret : String)
    (row : Result) : Inbox × InboxCall :=
  if io.fault = .failed then
    (inbox, .answered enrollmentID secret
      (.error (.database ("queue: consume result: " ++ io.text))))
  else
    let consumed := consumeResult inbox.results enrollmentID
    if consumed.1 = 0 then
      ({ inbox with results := consumed.2 }, .answered enrollmentID secret
        (.error (if io.fault = .ok then .result .gone
          else .database ("queue: consume result: " ++ io.text))))
    else
      ({ inbox with
        results := consumed.2
        reads := inbox.reads ++ [(enrollmentID, index)] },
        .answered enrollmentID secret (if io.fault = .ok then .ok row.answer
            else .error (.database ("queue: consume result: " ++ io.text))))

def advance (index : Nat) (io : InboxIo) : InboxCall → Option (Inbox × InboxCall)
  | .put delivery => some (inbox.put io delivery)
  | .getRead enrollmentID secret =>
    some (inbox, inbox.getRead sha256 io enrollmentID secret)
  | .getConsume enrollmentID secret row =>
    some (inbox.getConsume index io enrollmentID secret row)
  | _ => none

end Inbox

def inboxMachine (sha256 : String → Bytes) : Machine Inbox InboxRequest InboxIo InboxCall where
  accept _
    | .put delivery => .put delivery
    | .get enrollmentID secret => .getRead enrollmentID secret
  advance index inbox io call := inbox.advance sha256 index io call

def Inbox.Opens (sha256 : String → Bytes) (inbox : Inbox) (enrollmentID secret : String) : Prop :=
  ∃ delivery, inbox.first enrollmentID = some delivery ∧ sha256 secret = delivery.secretHash

def ReadBundle (pool : Pool Inbox InboxCall) (index : Nat) (enrollmentID secret : String) : Prop :=
  ∃ answer : PollResult, answer.status = .issued ∧
    pool.calls[index]? = some (.answered enrollmentID secret (.ok answer))

/-- The counter of a row that was read is up, each row was read by one call, and
a row keeps the hash it was inserted with. -/
structure Inbox.Sealed (inbox : Inbox) : Prop where
  raised : ∀ enrollmentID index, (enrollmentID, index) ∈ inbox.reads →
    ∃ row, inbox.results.find enrollmentID = some row ∧ row.readCount ≠ 0
  once : ∀ enrollmentID left right, (enrollmentID, left) ∈ inbox.reads →
    (enrollmentID, right) ∈ inbox.reads → left = right
  hashes : ∀ enrollmentID, (inbox.results.find enrollmentID).map (·.secretHash) =
      (inbox.first enrollmentID).map (·.secretHash)

def InboxCall.Justified (sha256 : String → Bytes) (inbox : Inbox) (index : Nat) : InboxCall → Prop
  | .getConsume enrollmentID secret _ =>
    inbox.Opens sha256 enrollmentID secret
  | .answered enrollmentID secret (.ok answer) =>
    inbox.Opens sha256 enrollmentID secret ∧
      (answer.status = .issued → (enrollmentID, index) ∈ inbox.reads)
  | _ => True

section

variable {sha : String → Bytes} {box fin : Inbox} {idx : Nat}
  {io : InboxIo} {call next : InboxCall} {eid secret : String}

theorem first_append (sent : Delivery) :
    ({ box with
      results := putResult box.results sent
      puts := box.puts ++ [sent] } : Inbox).first eid =
      (box.first eid).or (if sent.enrollmentID = eid then some sent
          else none) := by
  simp only [Inbox.first, List.find?_append, List.find?_singleton, beq_iff_eq]

theorem Inbox.Sealed.put (safe : box.Sealed) (sent : Delivery) :
    ({ box with
      results := putResult box.results sent
      puts := box.puts ++ [sent] } : Inbox).Sealed := by
  refine ⟨?_, safe.once, ?_⟩
  · intro eid idx read
    obtain ⟨row, hit, sum⟩ := safe.raised eid idx read
    simp only [find_putResult]
    split_ifs
    · refine ⟨sent.overwrite row, ?_, sum⟩
      rw [hit]
      rfl
    · exact ⟨row, hit, sum⟩
  · intro eid
    have hs := safe.hashes eid
    rw [first_append, find_putResult]
    cases hit : box.results.find eid with
    | none =>
      rw [hit, map_none, eq_comm, map_eq_none_iff] at hs
      rw [hs]
      by_cases eq : eid = sent.enrollmentID
      · simp [eq, Delivery.row]
      · simp [eq, Ne.symm eq]
    | some row =>
      rw [hit, map_some, eq_comm, map_eq_some_iff] at hs
      obtain ⟨old, put, eq⟩ := hs
      rw [put]
      split_ifs <;> simp [Delivery.overwrite, eq]

theorem find_consumeResult (res : Results) (ran want : String) :
    (consumeResult res ran).2.find want = (res.find want).map fun row =>
        if row.enrollmentID == ran && row.status == .issued && row.readCount == 0 then
          { row with readCount := row.readCount + 1 }
        else row := by
  refine Table.find_update ?_
  intro row
  rfl

variable {taken : String}

theorem raised_consumeResult (hit : res.find want = some row) (sum : row.readCount ≠ 0) :
    ∃ row, (consumeResult res taken).2.find want = some row ∧ row.readCount ≠ 0 := by
  rw [find_consumeResult, hit]
  refine ⟨row, ?_, sum⟩
  simp [sum]

theorem hashes_consumeResult (res : Results) (taken want : String) :
    ((consumeResult res taken).2.find want).map (·.secretHash) =
      (res.find want).map (·.secretHash) := by
  rw [find_consumeResult, map_map]
  congr 1
  funext row
  simp only [Function.comp]
  split_ifs <;> rfl

theorem consumed_of_affected (affected : (consumeResult res taken).1 ≠ 0) :
    (∃ row, res.find taken = some row ∧ row.readCount = 0) ∧
      ∃ row, (consumeResult res taken).2.find taken = some row ∧ row.readCount ≠ 0 := by
  simp only [consumeResult, Table.affected, ne_eq, List.countP_eq_zero,
    not_forall, not_not] at affected
  obtain ⟨row, mem, left⟩ := affected
  have same : row.enrollmentID = taken ∧ row.readCount = 0 := by
    simp only [Bool.and_eq_true, beq_iff_eq] at left
    exact ⟨left.1.1, left.2⟩
  have hit : res.find taken = some row := Table.find_eq_some_iff.mpr ⟨mem, same.1⟩
  refine ⟨⟨row, hit, same.2⟩, { row with readCount := row.readCount + 1 }, ?_, Nat.succ_ne_zero _⟩
  rw [find_consumeResult, hit, map_some, if_pos left]

theorem Inbox.Sealed.unread (safe : box.Sealed) (taken : String) :
    ({ box with
      results := (consumeResult box.results taken).2 } : Inbox).Sealed := by
  refine ⟨?_, safe.once, ?_⟩
  · intro eid idx read
    obtain ⟨row, hit, sum⟩ := safe.raised eid idx read
    exact raised_consumeResult hit sum
  · intro eid
    rw [hashes_consumeResult]
    exact safe.hashes eid

theorem Inbox.Sealed.read (safe : box.Sealed)
    (affected : (consumeResult box.results taken).1 ≠ 0) (reader : Nat) :
    ({ box with
      results := (consumeResult box.results taken).2
      reads := box.reads ++ [(taken, reader)] } : Inbox).Sealed := by
  obtain ⟨⟨old, was, new⟩, now⟩ := consumed_of_affected affected
  have left : ∀ idx, (taken, idx) ∉ box.reads := by
    intro idx read
    obtain ⟨row, hit, sum⟩ := safe.raised taken idx read
    rw [was, Option.some.injEq] at hit
    subst hit
    exact sum new
  refine ⟨?_, ?_, (safe.unread taken).hashes⟩
  · intro eid idx read
    rcases List.mem_append.mp read with earlier | last
    · exact (safe.unread taken).raised eid idx earlier
    · rw [List.mem_singleton, Prod.mk.injEq] at last
      rw [last.1]
      exact now
  · intro eid l r one two
    rw [List.mem_append, List.mem_singleton, Prod.mk.injEq] at one two
    rcases one with one | ⟨rfl, rfl⟩
    · rcases two with two | ⟨rfl, rfl⟩
      · exact safe.once eid l r one two
      · exact absurd one (left l)
    · rcases two with two | ⟨_, rfl⟩
      · exact absurd two (left r)
      · rfl

theorem Inbox.Opens.append (new : box.Opens sha eid secret) (sent : Delivery) :
    ({ box with
      results := putResult box.results sent
      puts := box.puts ++ [sent] } : Inbox).Opens sha eid
        secret := by
  obtain ⟨old, put, eq⟩ := new
  refine ⟨old, ?_, eq⟩
  rw [first_append, put]
  rfl

theorem InboxCall.Justified.mono (just : call.Justified sha box idx)
    (new : ∀ {eid secret : String}, box.Opens sha eid secret →
        fin.Opens sha eid secret) (reads : ∀ read ∈ box.reads, read ∈ fin.reads) :
    call.Justified sha fin idx := by
  cases call with
  | getConsume eid secret row => exact new just
  | answered eid secret ans =>
    cases ans with
    | error => trivial
    | ok ans => exact ⟨new just.1, fun out => reads _ (just.2 out)⟩
  | _ => trivial

theorem Inbox.Sealed.opens (safe : box.Sealed)
    (read : readResult box.results sha eid secret io.now =
      .ok row) : box.Opens sha eid secret := by
  unfold readResult at read
  have hs := safe.hashes eid
  split at read
  · cases read
  · rename_i row hit
    split_ifs at read with wrong
    rw [hit, map_some, eq_comm, map_eq_some_iff] at hs
    obtain ⟨sent, put, eq⟩ := hs
    exact ⟨sent, put, (not_not.mp wrong).trans eq.symm⟩

theorem Inbox.Sealed.getRead_justified (safe : box.Sealed) :
    (box.getRead sha io eid secret).Justified sha box
      idx := by
  unfold Inbox.getRead
  split
  · trivial
  · split
    · trivial
    · rename_i row read
      have new := safe.opens read
      split_ifs with out
      · exact new
      · exact ⟨new, fun told => absurd told out⟩

def InboxIo.refusal (io : InboxIo) : PollError :=
  if io.fault = .ok then .result .notFound
  else .database ("queue: get result: " ++ io.text)

theorem Inbox.Sealed.advance_stranger (safe : box.Sealed)
    (stranger : ¬box.Opens sha eid secret) : box.advance sha idx io (.getRead eid secret) =
      some (box, .answered eid secret (.error io.refusal)) := by
  have bad : readResult box.results sha eid secret io.now = .error .notFound := by
    have hs := safe.hashes eid
    unfold readResult
    cases hit : box.results.find eid with
    | none => rfl
    | some row =>
      rw [hit, map_some, eq_comm, map_eq_some_iff] at hs
      obtain ⟨sent, put, eq⟩ := hs
      have wrong : sha secret ≠ row.secretHash := by
        intro r
        exact stranger ⟨sent, put, r.trans eq.symm⟩
      exact if_pos wrong
  simp only [Inbox.advance, Inbox.getRead, bad, InboxIo.refusal]
  by_cases worked : io.fault = .ok
  · simp [worked]
  · simp [worked]

theorem advance_sealed (safe : box.Sealed) (just : call.Justified sha box idx)
    (ran : box.advance sha idx io call = some (fin, next)) :
    fin.Sealed ∧ next.Justified sha fin idx ∧ ∀ alt here, InboxCall.Justified sha box alt here →
        here.Justified sha fin alt := by
  cases call with
  | put sent =>
    simp only [Inbox.advance, Inbox.put, Option.some.injEq] at ran
    split_ifs at ran <;> cases ran
    · exact ⟨safe, trivial, fun _ _ held => held⟩
    all_goals
      refine ⟨safe.put sent, trivial, ?_⟩
      intro alt here held
      exact held.mono (fun new => new.append sent) fun _ read => read
  | getRead eid secret =>
    cases ran
    exact ⟨safe, safe.getRead_justified, fun _ _ held => held⟩
  | getConsume eid secret row =>
    simp only [Inbox.advance, Inbox.getConsume, Option.some.injEq] at ran
    by_cases fail : io.fault = .failed
    · rw [if_pos fail] at ran
      cases ran
      exact ⟨safe, trivial, fun _ _ held => held⟩
    · rw [if_neg fail] at ran
      by_cases same : (consumeResult box.results eid).1 = 0
      · rw [if_pos same] at ran
        cases ran
        refine ⟨safe.unread eid, trivial, ?_⟩
        intro alt here held
        exact held.mono (fun new => new) fun _ read => read
      · rw [if_neg same] at ran
        cases ran
        refine ⟨safe.read same idx, ?_, ?_⟩
        · split_ifs
          · exact ⟨just, fun _ =>
              List.mem_append_right _ (List.mem_singleton_self _)⟩
          · trivial
        · intro alt here held
          exact held.mono (fun new => new) fun _ read =>
            List.mem_append_left _ read
  | _ => cases ran

end

section

variable {sha256 : String → Bytes} {pool : Pool Inbox InboxCall}

theorem sealed_of_reachable (met : Reachable (inboxMachine sha256).step (.quiet .empty) pool) :
    pool.shared.Sealed ∧ pool.All fun idx c => c.Justified sha256 pool.shared idx := by
  refine met.rely Inbox.Sealed (fun box idx c => c.Justified sha256 box idx) ?_ ?_ ?_
  · refine ⟨⟨?_, ?_, ?_⟩, ?_⟩
    · intro eid idx read
      cases read
    · intro eid l r read
      cases read
    · intro eid
      rfl
    · intro idx c there
      cases there
  · intro box idx req _
    cases req <;> trivial
  · intro pool idx io c next box _ here safe just ran
    obtain ⟨kept, own, rest⟩ := advance_sealed safe just ran
    exact ⟨kept, own, fun alt there _ _ held => rest alt there held⟩

/-- In every run at most one `GetResult` of an enrollment is given an issued
bundle, the secret it presented hashes to what the row was inserted with, and
callers without that secret are answered alike in any two states that can be
reached, in particular when there is no row, and leave no trace. -/
theorem one_time_read (reached : Reachable (inboxMachine sha256).step (.quiet .empty) pool) :
    (∀ left right enrollmentID secret secret',
      ReadBundle pool left enrollmentID secret →
      ReadBundle pool right enrollmentID secret' → left = right) ∧
    (∀ index enrollmentID secret,
      ReadBundle pool index enrollmentID secret →
      pool.shared.Opens sha256 enrollmentID secret) ∧
    ∀ other, Reachable (inboxMachine sha256).step (.quiet .empty) other →
      ∀ enrollmentID secret,
        ¬pool.shared.Opens sha256 enrollmentID secret →
        ¬other.shared.Opens sha256 enrollmentID secret →
        ∀ index io, ∃ answer,
          pool.shared.advance sha256 index io (.getRead enrollmentID secret) =
            some (pool.shared, .answered enrollmentID secret answer) ∧
          other.shared.advance sha256 index io (.getRead enrollmentID secret) =
            some (other.shared, .answered enrollmentID secret answer) := by
  obtain ⟨safe, justified⟩ := sealed_of_reachable reached
  refine ⟨?_, ?_, ?_⟩
  · rintro left right enrollmentID secret secret' ⟨one, issued, here⟩ ⟨two, given, there⟩
    exact safe.once enrollmentID left right
      ((justified left _ here).2 issued) ((justified right _ there).2 given)
  · rintro index enrollmentID secret ⟨answer, _, here⟩
    exact (justified index _ here).1
  · intro other visited enrollmentID secret stranger unknown index io
    have twin := (sealed_of_reachable visited).1
    exact ⟨.error io.refusal, safe.advance_stranger stranger, twin.advance_stranger unknown⟩

end

namespace Example

def digest (secret : String) : Bytes :=
  secret.toList.map fun char => UInt8.ofNat char.toNat

def polled : List (Pool.Event InboxRequest InboxIo) :=
  [.request (.put { enrollmentID := "e1", status := .issued, secretHash := digest "s" }),
    .statement 0 {}, .request (.get "e1" "s"), .request (.get "e1" "s"),
    .statement 1 {}, .statement 2 {}, .statement 2 {}, .statement 1 {}]

end Example

open Example

/-- Two readers race: the one that raised the counter has the bundle, and for a
caller with another secret the row might as well not exist. -/
theorem one_time_read_raced : ∃ pool, Reachable (inboxMachine digest).step (.quiet .empty) pool ∧
      ReadBundle pool 2 "e1" "s" ∧ (∀ index secret, ReadBundle pool index "e1" secret → index = 2) ∧
      ∃ answer, pool.shared.advance digest 3 {} (.getRead "e1" "t") =
          some (pool.shared, .answered "e1" "t" answer) ∧
        Inbox.empty.advance digest 3 {} (.getRead "e1" "t") =
          some (Inbox.empty, .answered "e1" "t" answer) := by
  have reached := @reachable_getD _ _ (inboxMachine digest).step
    (.quiet .empty) polled (.quiet .empty) (by decide)
  have winner : ReadBundle ((runEvents (inboxMachine digest).step (.quiet .empty)
        polled).getD (.quiet .empty)) 2 "e1" "s" :=
    ⟨⟨.issued, [], ""⟩, rfl, rfl⟩
  obtain ⟨once, _, alike⟩ := one_time_read reached
  refine ⟨_, reached, winner, ?_, ?_⟩
  · intro index secret bundle
    exact once index 2 "e1" secret "s" bundle winner
  · refine alike (.quiet .empty) .refl "e1" "t" ?_ ?_ 3 {}
    · rintro ⟨delivery, inserted, same⟩
      cases inserted
      revert same
      decide
    · rintro ⟨delivery, inserted, _⟩
      cases inserted

end Harbor.Queue
