import Harbor.Data.Enrollment
import Harbor.Library.Framing
import Harbor.Library.HashChain
import Harbor.Library.Pool
import Mathlib.Data.List.Sort

/-!
# The audit log

The rows of `audit` are chained: each holds the hash of the row before it, and
its own hash covers all its columns.  `AppendAudit` reads the last row and
writes the next one inside a transaction that first takes the advisory lock of
the log; `VerifyAudit` walks the rows in the order of their numbers.

A transaction that reports an error has not taken effect.  Sequence numbers stay
below the bound of their column.
-/

namespace Harbor.Audit

open Library

/-- A row of `audit`. -/
structure Entry where
  seq : Int
  ts : Int64
  actor : Octets
  action : Octets
  target : Octets
  details : Octets
  prevHash : Octets
  hash : Octets
deriving DecidableEq

abbrev Log := Table Entry.seq

def hashLen : Nat := 32

/-- The `prev_hash` of the first row. -/
def genesisPrev : Octets where
  bytes := List.replicate hashLen 0
  bounded := by decide

def writeUint (value : UInt64) : Bytes :=
  bigEndian 8 value.toNat

def Entry.encoding (entry : Entry) : Bytes :=
  writeUint (UInt64.ofNat (entry.seq % 18446744073709551616).toNat) ++
    (writeUint entry.ts.toUInt64 ++ (framed entry.actor ++ (framed entry.action ++
        (framed entry.target ++ (framed entry.details ++ framed entry.prevHash)))))

def auditHash (sha256 : Bytes → Octets) (entry : Entry) : Octets :=
  sha256 entry.encoding

def rowsBySeq (log : Log) : List Entry :=
  log.rows.insertionSort fun left right => left.seq ≤ right.seq

inductive VerifyError where
  | gap (want got : Int)
  | brokenLink (seq : Int)
  | mismatch (seq : Int)
deriving DecidableEq, Repr

/-- The loop of `VerifyAudit`. -/
def verifyRows (sha256 : Bytes → Octets) (prev : Octets) (want : Int) :
    List Entry → Int × Option VerifyError
  | [] => (want - 1, none)
  | row :: rest =>
    if row.seq ≠ want then (want - 1, some (.gap want row.seq))
    else if row.prevHash ≠ prev then
      (row.seq - 1, some (.brokenLink row.seq))
    else if row.hash ≠ auditHash sha256 row then
      (row.seq - 1, some (.mismatch row.seq))
    else verifyRows sha256 row.hash (want + 1) rest

def verifyAudit (sha256 : Bytes → Octets) (log : Log) : Int × Option VerifyError :=
  verifyRows sha256 genesisPrev 1 (rowsBySeq log)

/-- The arguments of `AppendAudit`. -/
structure Report where
  actor : Octets
  action : Octets
  target : Octets
  details : Octets

structure Ledger where
  log : Log
  /-- The call that holds the advisory lock. -/
  holder : Option Nat

structure AppendIo where
  /-- The statement reports an error, and the transaction is rolled back. -/
  failure : Option String := none
  ts : Int64 := 0

inductive AppendCall where
  | lock (report : Report)
  | readLast (report : Report)
  | create (entry : Entry)
  | commit (entry : Entry)
  | appended (entry : Entry)
  | failed (text : String)

def nextEntry (sha256 : Bytes → Octets) (log : Log) (report : Report) (ts : Int64) : Entry :=
  let last := (rowsBySeq log).getLast?
  let entry : Entry :=
    { seq := (last.map (·.seq + 1)).getD 1
      ts := ts
      actor := report.actor
      action := report.action
      target := report.target
      details := report.details
      prevHash := (last.map (·.hash)).getD genesisPrev
      hash := genesisPrev }
  { entry with hash := auditHash sha256 entry }

namespace Ledger

variable (sha256 : Bytes → Octets) (ledger : Ledger) (io : AppendIo)

def release : Ledger :=
  { ledger with holder := none }

def held (next : AppendCall) : Ledger × AppendCall :=
  match io.failure with
  | none => (ledger, next)
  | some text => (ledger.release, .failed ("store: append audit: " ++ text))

def commit (entry : Entry) : Ledger × AppendCall :=
  match io.failure with
  | some text => (ledger.release, .failed ("store: append audit: " ++ text))
  | none =>
    match ledger.log.insert? entry with
    | none =>
      (ledger.release, .failed "store: append audit: duplicated key not allowed")
    | some log => ({ log := log, holder := none }, .appended entry)

def advance (index : Nat) : AppendCall → Option (Ledger × AppendCall)
  | .lock report =>
    match io.failure with
    | some text =>
      some (ledger, .failed ("store: append audit: " ++ text))
    | none =>
      if ledger.holder = none then
        some ({ ledger with holder := some index }, .readLast report)
      else none
  | .readLast report =>
    some (ledger.held io (.create (nextEntry sha256 ledger.log report io.ts)))
  | .create entry => some (ledger.held io (.commit entry))
  | .commit entry => some (ledger.commit io entry)
  | _ => none

end Ledger

def machine (sha256 : Bytes → Octets) : Machine Ledger Report AppendIo AppendCall where
  accept _ report := .lock report
  advance index ledger io call := ledger.advance sha256 io index call

end Harbor.Audit
