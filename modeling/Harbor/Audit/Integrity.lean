import Harbor.Audit.Log

/-!
# Integrity of the audit chain

Appends take turns under the advisory lock, so each one extends the chain it
has read.  `VerifyAudit` accepts exactly the chains, and a chain is determined
by the number and the hash of its last row as long as the hash does not collide
on the rows in question.
-/

namespace Harbor.Audit

open Library List Option

variable {sha256 : Bytes → Octets}

def view (sha256 : Bytes → Octets) : ChainView Entry Octets where
  number := Entry.seq
  previous := Entry.prevHash
  hash := Entry.hash
  stamp := auditHash sha256

theorem writeUint_append_inj {l r : UInt64} {rest o : Bytes}
    (eq : writeUint l ++ rest = writeUint r ++ o) : l = r ∧ rest = o := by
  obtain ⟨vals, rests⟩ := bigEndian_append_inj (Nat.lt_of_lt_of_eq l.toNat_lt (by decide))
    (Nat.lt_of_lt_of_eq r.toNat_lt (by decide)) eq
  exact ⟨UInt64.toNat_inj.mp vals, rests⟩

theorem Entry.eq_of_encoding_eq {l r : Entry} (numbers : l.seq = r.seq) (hashes : l.hash = r.hash)
    (eq : l.encoding = r.encoding) : l = r := by
  unfold Entry.encoding at eq
  obtain ⟨_, eq⟩ := writeUint_append_inj eq
  obtain ⟨times, eq⟩ := writeUint_append_inj eq
  obtain ⟨actors, eq⟩ := framed_append_inj eq
  obtain ⟨actions, eq⟩ := framed_append_inj eq
  obtain ⟨targets, eq⟩ := framed_append_inj eq
  obtain ⟨details, eq⟩ := framed_append_inj eq
  have links : l.prevHash = r.prevHash := by
    have padded : framed l.prevHash ++ [] = framed r.prevHash ++ [] := by
      rw [eq]
    exact (framed_append_inj padded).1
  have stamps : l.ts = r.ts := Int64.toBitVec_inj.mp (UInt64.toBitVec_inj.mpr times)
  cases l
  cases r
  simp_all

section

variable {prev : Octets} {want : Int} {rows : List Entry}

theorem verifyRows_of_linked (linked : (view sha256).Linked prev want rows) :
    verifyRows sha256 prev want rows = (want - 1 + rows.length, none) := by
  induction rows generalizing prev want with
  | nil => simp [verifyRows]
  | cons row tl induction =>
    obtain ⟨nums, points, mark, rest⟩ := linked
    have num : row.seq = want := nums
    have link : row.prevHash = prev := points
    have hash : row.hash = auditHash sha256 row := mark
    have tail := induction rest
    simp only [verifyRows, num, link, hash, ne_eq, not_true_eq_false, if_false]
    rw [← hash]
    refine tail.trans ?_
    rw [length_cons, Prod.mk.injEq]
    refine ⟨?_, rfl⟩
    omega

theorem linked_of_verifyRows (took : (verifyRows sha256 prev want rows).2 = none) :
    (view sha256).Linked prev want rows := by
  induction rows generalizing prev want with
  | nil => trivial
  | cons row rest induction =>
    simp only [verifyRows] at took
    split_ifs at took with num link hash
    exact ⟨not_not.mp num, not_not.mp link, not_not.mp hash,
      induction took⟩

theorem rowsBySeq_of_linked {log : Log} (linked : (view sha256).Linked prev want log.rows) :
    rowsBySeq log = log.rows := by
  apply List.Pairwise.insertionSort_eq
  refine linked.pairwise_lt.imp ?_
  intro l r lower
  exact le_of_lt lower

end

section

variable {ledger fin : Ledger} {io : AppendIo} {idx : Nat} {call next : AppendCall}

def Ledger.Chained (sha256 : Bytes → Octets) (ledger : Ledger) : Prop :=
  (view sha256).Linked genesisPrev 1 ledger.log.rows

structure Entry.Continues (sha256 : Bytes → Octets) (ledger : Ledger) (entry : Entry) : Prop where
  number : entry.seq = 1 + ledger.log.rows.length
  link : entry.prevHash = (view sha256).tip genesisPrev ledger.log.rows
  stamped : entry.hash = auditHash sha256 entry

def AppendCall.Turn (sha256 : Bytes → Octets) (ledger : Ledger) (index : Nat) : AppendCall → Prop
  | .readLast _ => ledger.holder = some index
  | .create entry | .commit entry => ledger.holder = some index ∧ entry.Continues sha256 ledger
  | _ => True

theorem AppendCall.Turn.of_outside (turn : call.Turn sha256 ledger idx)
    (out : ledger.holder ≠ some idx) :
    call.Turn sha256 fin idx := by
  cases call with
  | readLast rep => exact absurd turn out
  | create entry | commit entry => exact absurd turn.1 out
  | _ => trivial

theorem Ledger.Chained.last_seq (links : ledger.Chained sha256) :
    (ledger.log.rows.getLast?.map (·.seq + 1)).getD 1 = 1 + (ledger.log.rows.length : Int) := by
  unfold Ledger.Chained at links
  rcases eq_nil_or_concat' ledger.log.rows with nil | ⟨front, last, ends⟩
  · rw [nil]
    rfl
  · rw [ends] at links ⊢
    have num : last.seq = 1 + (front.length : Int) := (ChainView.linked_concat.mp links).2.1
    rw [List.getLast?_concat, length_append]
    simp only [map_some, getD_some, length_singleton]
    omega

theorem nextEntry_continues (links : ledger.Chained sha256) (rep : Report) (ts : Int64) :
    (nextEntry sha256 ledger.log rep ts).Continues sha256 ledger := by
  have ord := rowsBySeq_of_linked links
  refine ⟨?_, ?_, rfl⟩
  · simp only [nextEntry, ord]
    exact Ledger.Chained.last_seq links
  · simp only [nextEntry, ord]
    rfl

theorem Ledger.Chained.insert? (links : ledger.Chained sha256)
    {entry : Entry} (goes : entry.Continues sha256 ledger) {log : Log} {holder : Option Nat}
    (put : ledger.log.insert? entry = some log) :
    Ledger.Chained sha256 { log := log, holder := holder } := by
  unfold Ledger.Chained
  rw [(Table.insert?_eq_some put).1, ChainView.linked_concat]
  exact ⟨links, goes.number, goes.link, goes.stamped⟩

structure Kept (sha256 : Bytes → Octets) (ledger : Ledger) (index : Nat)
    (after : Ledger) (next : AppendCall) : Prop where
  chained : after.Chained sha256
  own : next.Turn sha256 after index
  others : ∀ other there, other ≠ index →
    AppendCall.Turn sha256 ledger other there → there.Turn sha256 after other

theorem Kept.still (links : ledger.Chained sha256) (own : next.Turn sha256 ledger idx) :
    Kept sha256 ledger idx ledger next where
  chained := links
  own := own
  others _ _ _ turn := turn

theorem Kept.under (holder : ledger.holder = some idx)
    (links : fin.Chained sha256) (own : next.Turn sha256 fin idx) :
    Kept sha256 ledger idx fin next where
  chained := links
  own := own
  others alt here ne turn := by
    refine turn.of_outside ?_
    rw [holder]
    intro same
    exact ne (Option.some.inj same).symm

theorem held_kept (links : ledger.Chained sha256) (holder : ledger.holder = some idx)
    (own : next.Turn sha256 ledger idx) : Kept sha256 ledger idx (ledger.held io next).1
      (ledger.held io next).2 := by
  unfold Ledger.held
  split
  · exact .still links own
  · exact .under holder links trivial

theorem commit_kept (links : ledger.Chained sha256)
    (holder : ledger.holder = some idx) {entry : Entry} (goes : entry.Continues sha256 ledger) :
    Kept sha256 ledger idx (ledger.commit io entry).1 (ledger.commit io entry).2 := by
  unfold Ledger.commit
  split
  · exact .under holder links trivial
  · split
    · exact .under holder links trivial
    · rename_i log put
      exact .under holder (links.insert? goes put) trivial

theorem advance_kept (links : ledger.Chained sha256) (turn : call.Turn sha256 ledger idx)
    (ran : ledger.advance sha256 io idx call = some (fin, next)) :
    Kept sha256 ledger idx fin next := by
  cases call with
  | lock rep =>
    simp only [Ledger.advance] at ran
    split at ran
    · cases ran
      exact .still links trivial
    · split_ifs at ran with fr
      cases ran
      refine ⟨links, rfl, ?_⟩
      intro alt here _ idle
      refine idle.of_outside ?_
      rw [fr]
      exact (some_ne_none alt).symm
  | readLast rep =>
    have kept := @held_kept sha256 ledger io idx
      (.create (nextEntry sha256 ledger.log rep io.ts)) links turn
      ⟨turn, nextEntry_continues links rep io.ts⟩
    simp only [Ledger.advance, Option.some.injEq] at ran
    rw [ran] at kept
    exact kept
  | create entry =>
    have kept := @held_kept sha256 ledger io idx (.commit entry) links turn.1 turn
    simp only [Ledger.advance, Option.some.injEq] at ran
    rw [ran] at kept
    exact kept
  | commit entry =>
    have kept := @commit_kept sha256 ledger io idx links turn.1 entry turn.2
    simp only [Ledger.advance, Option.some.injEq] at ran
    rw [ran] at kept
    exact kept
  | _ => cases ran

def AppendCall.success : AppendCall → Int
  | .appended _ => 1
  | _ => 0

theorem held_length (due : next.success = 0) : ((ledger.held io next).1.log.rows.length : Int) =
      ledger.log.rows.length + (ledger.held io next).2.success := by
  unfold Ledger.held
  split
  · rw [due, Int.add_zero]
  · exact (Int.add_zero _).symm

theorem advance_length (ran : ledger.advance sha256 io idx call = some (fin, next)) :
    (fin.log.rows.length : Int) = ledger.log.rows.length - call.success + next.success := by
  cases call with
  | lock rep =>
    simp only [Ledger.advance] at ran
    split at ran
    · cases ran
      simp [AppendCall.success]
    · split_ifs at ran
      cases ran
      simp [AppendCall.success]
  | readLast rep =>
    have grew := @held_length ledger io (.create (nextEntry sha256 ledger.log rep io.ts)) rfl
    simp only [Ledger.advance, Option.some.injEq] at ran
    rw [ran] at grew
    simpa [AppendCall.success] using grew
  | create entry =>
    have grew := @held_length ledger io (.commit entry) rfl
    simp only [Ledger.advance, Option.some.injEq] at ran
    rw [ran] at grew
    simpa [AppendCall.success] using grew
  | commit entry =>
    simp only [Ledger.advance, Ledger.commit, Option.some.injEq] at ran
    split at ran
    · cases ran
      simp [AppendCall.success, Ledger.release]
    · split at ran
      · cases ran
        simp [AppendCall.success, Ledger.release]
      · rename_i log put
        cases ran
        rw [(Table.insert?_eq_some put).1, length_append]
        simp [AppendCall.success]
  | _ => cases ran

end

section

variable {pool : Pool Ledger AppendCall}

def Ledger.empty : Ledger where
  log := .empty
  holder := none

theorem chained_of_reachable (met : Reachable (machine sha256).step (.quiet .empty) pool) :
    pool.shared.Chained sha256 := by
  refine (met.rely (Ledger.Chained sha256)
    (fun ledger idx c => c.Turn sha256 ledger idx) ?_ ?_ ?_).1
  · refine ⟨trivial, ?_⟩
    intro idx c there
    cases there
  · intro ledger idx req _
    trivial
  · intro pool idx io c next ledger _ here links turn ran
    have kept := advance_kept links turn ran
    exact ⟨kept.chained, kept.own, fun alt there ne _ idle =>
      kept.others alt there ne idle⟩

theorem length_of_reachable (met : Reachable (machine sha256).step (.quiet .empty) pool) :
    (pool.shared.log.rows.length : Int) = pool.total AppendCall.success := by
  refine met.invariant (fun pool =>
    (pool.shared.log.rows.length : Int) = pool.total AppendCall.success) rfl ?_
  intro pool new ev tally _ did
  cases Machine.step_move did with
  | requested req =>
    rw [Pool.total_append]
    exact tally.trans (Int.add_zero _).symm
  | @advanced idx io c next both here ran =>
    rw [Pool.total_set both AppendCall.success here]
    have grew := advance_length ran
    show (both.log.rows.length : Int) = _
    omega

def head (log : Log) : Option (Int × Octets) :=
  (rowsBySeq log).getLast?.map fun row => (row.seq, row.hash)

theorem length_eq_of_head_eq {l r : Log} (lLink : (view sha256).Linked genesisPrev 1 (rowsBySeq l))
    (rLink : (view sha256).Linked genesisPrev 1 (rowsBySeq r))
    (eq : head l = head r) : (rowsBySeq l).length = (rowsBySeq r).length ∧
      (view sha256).tip genesisPrev (rowsBySeq l) =
        (view sha256).tip genesisPrev (rowsBySeq r) := by
  unfold head at eq
  rcases eq_nil_or_concat' (rowsBySeq l) with none | ⟨front, last, ends⟩
  · rcases eq_nil_or_concat' (rowsBySeq r) with
      empty | ⟨rest, final, stops⟩
    · rw [none, empty]
      exact ⟨rfl, rfl⟩
    · rw [none, stops] at eq
      simp at eq
  · rcases eq_nil_or_concat' (rowsBySeq r) with
      empty | ⟨rest, final, stops⟩
    · rw [ends, empty] at eq
      simp at eq
    · rw [ends, stops] at eq ⊢
      rw [ends] at lLink
      rw [stops] at rLink
      have lastNumber : last.seq = 1 + (front.length : Int) :=
        (ChainView.linked_concat.mp lLink).2.1
      have finalNumber : final.seq = 1 + (rest.length : Int) :=
        (ChainView.linked_concat.mp rLink).2.1
      simp only [List.getLast?_concat, map_some, Option.some.injEq, Prod.mk.injEq] at eq
      refine ⟨?_, ?_⟩
      · rw [length_append, length_append]
        simp only [length_singleton]
        omega
      · rw [ChainView.tip_concat, ChainView.tip_concat]
        exact eq.2

def CollisionFree (sha256 : Bytes → Octets) (left right : Log) : Prop :=
  ∀ one ∈ rowsBySeq left, ∀ two ∈ rowsBySeq right,
    sha256 one.encoding = sha256 two.encoding → one.encoding = two.encoding

instance (left right : Log) : Decidable (CollisionFree sha256 left right) :=
  List.decidableBAll _ _

/-- In every run `VerifyAudit` accepts the log with one row for every append
that has succeeded, and a log that it accepts and that ends in the same number
and hash is the same row for row. -/
theorem audit_chain_integrity (reached : Reachable (machine sha256).step (.quiet .empty) pool) :
    verifyAudit sha256 pool.shared.log = (pool.total AppendCall.success, none) ∧
    ((rowsBySeq pool.shared.log).length : Int) = pool.total AppendCall.success ∧
    ∀ log, CollisionFree sha256 pool.shared.log log → (verifyAudit sha256 log).2 = none →
      head log = head pool.shared.log → rowsBySeq log = rowsBySeq pool.shared.log := by
  have chained := chained_of_reachable reached
  have ordered := rowsBySeq_of_linked chained
  have counted := length_of_reachable reached
  refine ⟨?_, ?_, ?_⟩
  · unfold verifyAudit
    rw [ordered, verifyRows_of_linked chained, ← counted]
    simp
  · rw [ordered]
    exact counted
  · intro log free accepted same
    have linked := linked_of_verifyRows accepted
    have honest : (view sha256).Linked genesisPrev 1 (rowsBySeq pool.shared.log) := by
      rw [ordered]
      exact chained
    obtain ⟨lengths, tips⟩ := length_eq_of_head_eq honest linked same.symm
    refine (ChainView.Linked.eq_of_tip_eq ?_ honest linked lengths tips).symm
    intro one here two there numbers hashes stamps
    exact Entry.eq_of_encoding_eq numbers hashes (free one here two there stamps)

end

namespace Example

def digest (bytes : Bytes) : Octets where
  bytes := bytes.take 8
  bounded := by
    have short := List.length_take_le 8 bytes
    exact Nat.lt_of_le_of_lt short (by decide)

def word (byte : UInt8) : Octets where
  bytes := [byte]
  bounded := by
    rw [List.length_singleton]
    decide

def report : Report where
  actor := word 1
  action := word 2
  target := word 3
  details := word 4

def twoAppends : List (Pool.Event Report AppendIo) :=
  [.request report, .request report] ++ List.replicate 4 (.statement 1 { ts := 5 }) ++
    List.replicate 4 (.statement 0 { ts := 6 })

end Example

open Example

/-- A log of two rows is accepted, and only that log ends in its head. -/
theorem audit_chain_integrity_two : ∃ pool, Reachable (machine digest).step (.quiet .empty) pool ∧
      verifyAudit digest pool.shared.log = (2, none) ∧
      CollisionFree digest pool.shared.log pool.shared.log ∧
      ∀ log, CollisionFree digest pool.shared.log log →
        (verifyAudit digest log).2 = none → head log = head pool.shared.log →
        rowsBySeq log = rowsBySeq pool.shared.log := by
  have reached := @reachable_getD _ _ (machine digest).step
    (.quiet .empty) twoAppends (.quiet .empty) (by decide)
  obtain ⟨accepted, _, unique⟩ := audit_chain_integrity reached
  exact ⟨_, reached, accepted, by decide, unique⟩

end Harbor.Audit
