import Harbor.Library.Table
import Mathlib.Algebra.Order.Ring.Nat

/-!
# Overlay addresses and the allocation table

The rows of `ip_allocations` and what the statements of the allocator do to
them.  The `ip` column is unique, so the address is the key of the table; the
column's text is the dotted form of the address it denotes.
-/

namespace Harbor.Ipam

open Library List Table

abbrev Addr := Nat

/-- `netip.Addr.String`. -/
def addrString (ip : Addr) : String :=
  s!"{ip / 2 ^ 24 % 256}.{ip / 2 ^ 16 % 256}.{ip / 2 ^ 8 % 256}.{ip % 256}"

/-- A valid IPv4 `netip.Prefix`. -/
structure Prefix where
  addr : Addr
  bits : Nat
  addr_lt : addr < 2 ^ 32
  bits_le : bits ≤ 32
deriving DecidableEq, Repr

namespace Prefix

def size (range : Prefix) : Nat :=
  2 ^ (32 - range.bits)

/-- `Masked().Addr()`. -/
def network (range : Prefix) : Addr :=
  range.addr / range.size * range.size

def contains (range : Prefix) (ip : Addr) : Bool :=
  ip / range.size == range.addr / range.size

def overlaps (left right : Prefix) : Bool :=
  left.contains right.addr || right.contains left.addr

/-- The addresses a walk with `Next` visits from the network address on. -/
def addresses (range : Prefix) : List Addr :=
  (List.range range.size).map (range.network + ·)

end Prefix

inductive AllocationState where
  | allocated
  | quarantined
deriving DecidableEq, Repr

/-- A row of `ip_allocations`. -/
structure Allocation where
  ip : Addr
  deviceID : Int := 0
  state : AllocationState := .allocated
  allocatedAt : Int := 0
  releasedAt : Int := 0
  quarantineUntil : Int := 0
  netblockID : Int := 0
  method : String := ""
deriving DecidableEq, Repr

abbrev Allocations := Table Allocation.ip

namespace Allocations

/-- The statement of `purgeExpiredQuarantine`. -/
def purgeExpired (table : Allocations) (now : Int) : Allocations :=
  table.keep fun row =>
    !(row.state == .quarantined && decide (row.quarantineUntil ≤ now))

/-- `DELETE … WHERE ip = ?`. -/
def delete (table : Allocations) (ip : Addr) : Allocations :=
  table.keep fun row => row.ip != ip

/-- `UPDATE … WHERE ip = ? AND state = 'allocated'`. -/
def quarantine (table : Allocations) (ip : Addr) (releasedAt quarantineUntil : Int) : Allocations :=
  table.update (fun row => row.ip == ip && row.state == .allocated)
    (fun row => { row with
      state := .quarantined
      releasedAt := releasedAt
      quarantineUntil := quarantineUntil })
    fun _ => rfl

/-- The addresses `LiveAddrs` returns at a time: allocated, or quarantined with
an unexpired window. -/
def liveAddrs (table : Allocations) (now : Int) : List Addr :=
  (table.rows.filter fun row =>
    row.state == .allocated || decide (now < row.quarantineUntil)).map (·.ip)

def leased (table : Allocations) : List Addr :=
  (table.rows.filter fun row => row.state == .allocated).map (·.ip)

variable {tbl : Allocations}

theorem mem_leased : ip ∈ tbl.leased ↔ ∃ row ∈ tbl.rows, row.state = .allocated ∧ row.ip = ip := by
  simp [leased, and_assoc]

variable {now : Int}

theorem mem_liveAddrs : ip ∈ tbl.liveAddrs now ↔
      ∃ row ∈ tbl.rows, (row.state = .allocated ∨ now < row.quarantineUntil) ∧ row.ip = ip := by
  simp [liveAddrs, and_assoc]

theorem leased_purgeExpired (tbl : Allocations) (now : Int) (ip : Addr) :
    ip ∈ (tbl.purgeExpired now).leased ↔ ip ∈ tbl.leased := by
  simp only [mem_leased, purgeExpired, Table.keep, mem_filter]
  constructor
  · rintro ⟨row, ⟨mem, _⟩, s, eq⟩
    exact ⟨row, mem, s, eq⟩
  · rintro ⟨row, mem, s, eq⟩
    exact ⟨row, ⟨mem, by simp [s]⟩, s, eq⟩

theorem leased_delete (tbl : Allocations) (ip alt : Addr) :
    alt ∈ (tbl.delete ip).leased ↔ alt ∈ tbl.leased ∧ alt ≠ ip := by
  simp only [mem_leased, delete, Table.keep, mem_filter]
  constructor
  · rintro ⟨row, ⟨mem, ne⟩, s, rfl⟩
    exact ⟨⟨row, mem, s, rfl⟩, by simpa using ne⟩
  · rintro ⟨⟨row, mem, s, rfl⟩, ne⟩
    exact ⟨row, ⟨mem, by simpa using ne⟩, s, rfl⟩

theorem leased_quarantine (tbl : Allocations) (ip alt : Addr) (freed quarantineUntil : Int) :
    alt ∈ (tbl.quarantine ip freed quarantineUntil).leased ↔ alt ∈ tbl.leased ∧ alt ≠ ip := by
  simp only [mem_leased, quarantine, mem_update]
  constructor
  · rintro ⟨row, ⟨old, mem, rfl⟩, s, eq⟩
    split_ifs at s eq with io
    refine ⟨⟨old, mem, s, eq⟩, ?_⟩
    rintro rfl
    simp [s, eq] at io
  · rintro ⟨⟨row, mem, s, eq⟩, ne⟩
    have still : (row.ip == ip && row.state == AllocationState.allocated) = false := by
      simp [eq, ne]
    exact ⟨row, ⟨row, mem, by simp [still]⟩, s, eq⟩

variable {fin : Allocations} {row : Allocation}

theorem leased_insert
    (put : tbl.insert? row = some fin) (allocated : row.state = .allocated) (ip : Addr) :
    ip ∈ fin.leased ↔ ip ∈ tbl.leased ∨ ip = row.ip := by
  obtain ⟨rs, _⟩ := Table.insert?_eq_some put
  simp [leased, rs, allocated]

theorem liveAddrs_purgeExpired (tbl : Allocations)
    (ord : earlier ≤ now) (ip : Addr) : ip ∈ (tbl.purgeExpired earlier).liveAddrs now ↔
      ip ∈ tbl.liveAddrs now := by
  simp only [mem_liveAddrs, purgeExpired, Table.keep, mem_filter]
  constructor
  · rintro ⟨row, ⟨mem, _⟩, live, eq⟩
    exact ⟨row, mem, live, eq⟩
  · rintro ⟨row, mem, live, eq⟩
    refine ⟨row, ⟨mem, ?_⟩, live, eq⟩
    rcases live with got | unexpired
    · simp [got]
    · have late : ¬row.quarantineUntil ≤ earlier := by omega
      simp [late]

theorem liveAddrs_delete (tbl : Allocations) (now : Int) (ip alt : Addr) :
    alt ∈ (tbl.delete ip).liveAddrs now ↔ alt ∈ tbl.liveAddrs now ∧ alt ≠ ip := by
  simp only [mem_liveAddrs, delete, Table.keep, mem_filter]
  constructor
  · rintro ⟨row, ⟨mem, ne⟩, live, rfl⟩
    exact ⟨⟨row, mem, live, rfl⟩, by simpa using ne⟩
  · rintro ⟨⟨row, mem, live, rfl⟩, ne⟩
    exact ⟨row, ⟨mem, by simpa using ne⟩, live, rfl⟩

theorem liveAddrs_quarantine (tbl : Allocations) (ip alt : Addr) (due : now < quarantineUntil) :
    alt ∈ (tbl.quarantine ip freed quarantineUntil).liveAddrs now ↔ alt ∈ tbl.liveAddrs now := by
  simp only [mem_liveAddrs, quarantine, mem_update]
  constructor
  · rintro ⟨row, ⟨old, mem, rfl⟩, live, eq⟩
    split_ifs at live eq with io
    · simp only [Bool.and_eq_true, beq_iff_eq] at io
      exact ⟨old, mem, .inl io.2, eq⟩
    · exact ⟨old, mem, live, eq⟩
  · rintro ⟨old, mem, live, eq⟩
    refine ⟨_, ⟨old, mem, rfl⟩, ?_, ?_⟩
    · split_ifs
      · exact .inr due
      · exact live
    · split_ifs <;> exact eq

theorem liveAddrs_insert (put : tbl.insert? row = some fin)
    (got : row.state = .allocated) (now : Int) (ip : Addr) :
    ip ∈ fin.liveAddrs now ↔ ip ∈ tbl.liveAddrs now ∨ ip = row.ip := by
  obtain ⟨rs, _⟩ := Table.insert?_eq_some put
  simp [liveAddrs, rs, got]

theorem not_live_of_insert
    (put : tbl.insert? row = some fin) (now : Int) : row.ip ∉ tbl.liveAddrs now := by
  obtain ⟨_, gone⟩ := Table.insert?_eq_some put
  intro mem
  obtain ⟨alt, had, _, eq⟩ := mem_liveAddrs.mp mem
  exact find_eq_none_iff.mp gone alt had eq

theorem not_leased_of_insert (put : tbl.insert? row = some fin) : row.ip ∉ tbl.leased := by
  obtain ⟨_, gone⟩ := Table.insert?_eq_some put
  intro mem
  obtain ⟨alt, had, _, eq⟩ := mem_leased.mp mem
  exact find_eq_none_iff.mp gone alt had eq

end Allocations

structure Resolved where
  id : Int := 0
  name : String := ""
  cidr : Prefix
  named : Bool := false
  reserved : Bool := false
deriving DecidableEq, Repr

def inAnyCarve (ip : Addr) (carves : List Prefix) : Bool :=
  carves.any (·.contains ip)

/-- The walk of `firstFree` over the addresses of the block. -/
def lowestFree (range : Prefix) (reserved occupied : List Addr)
    (carves : List Prefix) : Option Addr :=
  range.addresses.find? fun ip =>
    !(ip == range.network || reserved.contains ip || occupied.contains ip) && !inAnyCarve ip carves

end Harbor.Ipam
