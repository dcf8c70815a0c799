import Harbor.Ipam.Allocation
import Harbor.Library.Int64
import Harbor.Library.Pool
import Harbor.Library.Procedure

/-!
# The quarantine of a released address

Any number of `Allocate`, `AllocateSpecific` and `Release` calls share the
table.  A call reads the clock in a step of its own before the statement that
uses the reading, so the statement may run much later.  The history lists the
releases with the time they read and the leases with the time of the insert.
The columns hold times as 64-bit nanoseconds (`UnixNano`), so the end of a very
long quarantine may wrap around.

Every past release is over or still in its row: the row stays quarantined until
a purge whose reading of the clock has reached the end of the window.
-/

namespace Harbor.Ipam

open Library List

inductive LeaseEvent where
  | released (ip : Addr) (releasedAt : Int)
  | leased (ip : Addr) (now : Int)
deriving DecidableEq

structure Leases where
  clock : Int
  table : Allocations
  history : List LeaseEvent

structure LeaseIo where
  now : Int
  fault : Fault := .ok
  carves : List Prefix := []
  grown : Option Prefix := none

inductive Wanted where
  | lowest (range : Prefix) (attempts : Nat)
  | specific (ip : Addr)

inductive LeaseRequest where
  | allocate (deviceID : Int) (range : Prefix)
  | allocateSpecific (deviceID : Int) (ip : Addr)
  | release (ip : Addr)

inductive LeaseCall where
  | purgeRead (deviceID : Int) (wanted : Wanted)
  | purge (deviceID : Int) (wanted : Wanted) (now : Int)
  | pick (deviceID : Int) (wanted : Wanted)
  | insertRead (deviceID : Int) (wanted : Wanted) (ip : Addr)
  | insert (deviceID : Int) (wanted : Wanted) (ip : Addr) (now : Int)
  | releaseRead (ip : Addr)
  | release (ip : Addr) (now : Int)
  | returned

structure AddressPool where
  range : Prefix
  reserved : List Addr
  quarantineTTL : Int

namespace AddressPool

def accept (pool : AddressPool) : LeaseRequest → LeaseCall
  | .allocate deviceID range => .purgeRead deviceID (.lowest range 100)
  | .allocateSpecific deviceID ip =>
    if pool.range.contains ip then .purgeRead deviceID (.specific ip) else .returned
  | .release ip => .releaseRead ip

/-- The choice of an address: `firstFree`, with the growth of a full block, or
the address asked for. -/
def choose (pool : AddressPool) (table : Allocations) (io : LeaseIo) (deviceID : Int) :
    Wanted → LeaseCall
  | .specific ip => .insertRead deviceID (.specific ip) ip
  | .lowest _ 0 => .returned
  | .lowest range (attempts + 1) =>
    if io.fault ≠ .ok then .returned
    else
      match lowestFree range pool.reserved (table.rows.map (·.ip)) io.carves, io.grown with
      | some ip, _ => .insertRead deviceID (.lowest range attempts) ip
      | none, some wider => .pick deviceID (.lowest wider attempts)
      | none, none => .returned

def lease (world : Leases) (io : LeaseIo) (deviceID : Int) (wanted : Wanted) (ip : Addr)
    (now : Int) : Leases × LeaseCall :=
  if io.fault = .failed then (world, .returned)
  else
    match world.table.insert?
        { ip := ip, deviceID := deviceID, allocatedAt := int64 now } with
    | some table =>
      ({ world with
          table := table, history := world.history ++ [.leased ip world.clock] }, .returned)
    | none =>
      (world,
        match wanted with
        | .lowest .. => if io.fault = .ok then .pick deviceID wanted else .returned
        | .specific _ => .returned)

/-- The statement of `Release`. -/
def giveBack (pool : AddressPool) (world : Leases) (fault : Fault) (ip : Addr)
    (now : Int) : Leases :=
  if fault = .failed then world
  else if pool.quarantineTTL ≤ 0 then
    if (world.table.find ip).isNone then world
    else
      { world with
        table := world.table.delete ip, history := world.history ++ [.released ip now] }
  else if ip ∈ world.table.leased then
    { world with
      table := world.table.quarantine ip (int64 now)
        (int64 (now + pool.quarantineTTL))
      history := world.history ++ [.released ip now] }
  else world

def run (pool : AddressPool) (world : Leases) (io : LeaseIo) :
    LeaseCall → Option (Leases × LeaseCall)
  | .purgeRead deviceID wanted => some (world, .purge deviceID wanted world.clock)
  | .purge deviceID wanted now =>
    some (if io.fault = .failed then world
        else { world with table := world.table.purgeExpired (int64 now) },
      if io.fault = .ok then .pick deviceID wanted else .returned)
  | .pick deviceID wanted => some (world, pool.choose world.table io deviceID wanted)
  | .insertRead deviceID wanted ip => some (world, .insert deviceID wanted ip world.clock)
  | .insert deviceID wanted ip now => some (lease world io deviceID wanted ip now)
  | .releaseRead ip => some (world, .release ip world.clock)
  | .release ip now => some (pool.giveBack world io.fault ip now, .returned)
  | .returned => none

def machine (pool : AddressPool) : Machine Leases LeaseRequest LeaseIo LeaseCall where
  accept _ := pool.accept
  advance _ world io call :=
    if world.clock ≤ io.now then pool.run { world with clock := io.now } io call else none

/-- No lease comes before the end of the quarantine of an earlier release. -/
def Respected (pool : AddressPool) (history : List LeaseEvent) : Prop :=
  history.Pairwise fun earlier later => ∀ ip releasedAt now,
    earlier = .released ip releasedAt → later = .leased ip now →
      releasedAt + pool.quarantineTTL ≤ now

/-- The quarantine is over, or a row still keeps the address until its end. -/
def Served (pool : AddressPool) (world : Leases) (ip : Addr) (releasedAt : Int) : Prop :=
  releasedAt + pool.quarantineTTL ≤ world.clock ∨
    ∃ row ∈ world.table.rows, row.ip = ip ∧ row.state = .quarantined ∧
      releasedAt + pool.quarantineTTL ≤ row.quarantineUntil

structure Sound (pool : AddressPool) (world : Leases) : Prop where
  respected : pool.Respected world.history
  served : ∀ ip releasedAt, .released ip releasedAt ∈ world.history →
    pool.Served world ip releasedAt

/-- A quarantine that starts now ends at a time the columns can hold. -/
def InRange (pool : AddressPool) (world : Leases) : Prop :=
  world.clock + pool.quarantineTTL < 2 ^ 63

/-- The reading of the clock that a call goes on with is not in the future. -/
def Past (world : Leases) : LeaseCall → Prop
  | .purge _ _ now | .release _ now => -2 ^ 63 ≤ now ∧ now ≤ world.clock
  | _ => True

section

variable {pool : AddressPool} {w : Leases} {ip : Addr} {releasedAt : Int}

theorem Past.later {c : LeaseCall} {post : Leases} (past : Past w c)
    (ok : w.clock ≤ post.clock) : Past post c := by
  unfold Past at past ⊢
  split <;> first | trivial | exact ⟨past.1, Int.le_trans past.2 ok⟩

theorem Sound.tick {now : Int} (inv : pool.Sound w) (ok : w.clock ≤ now) :
    pool.Sound { w with clock := now } := by
  refine ⟨inv.respected, fun ip releasedAt mem => ?_⟩
  rcases inv.served ip releasedAt mem with done | held
  · exact .inl (Int.le_trans done ok)
  · exact .inr held

theorem Sound.purge (inv : pool.Sound w) (pos : 0 < pool.quarantineTTL)
    (fits : pool.InRange w) (past : -2 ^ 63 ≤ now ∧ now ≤ w.clock) :
    pool.Sound { w with table := w.table.purgeExpired (int64 now) } := by
  have unwrapped : int64 now = now := int64_eq_self past.1 (by unfold InRange at fits; omega)
  rw [unwrapped]
  refine ⟨inv.respected, fun ip releasedAt mem => ?_⟩
  rcases inv.served ip releasedAt mem with done | ⟨row, kept, addr, s, window⟩
  · exact .inl done
  · by_cases expired : row.quarantineUntil ≤ now
    · exact .inl (by dsimp only; omega)
    · refine .inr ⟨row, ?_, addr, s, window⟩
      simp [Allocations.purgeExpired, Table.keep, kept, expired]

theorem Sound.finished_of_absent (inv : pool.Sound w) (mem : .released ip releasedAt ∈ w.history)
    (fr : ∀ row ∈ w.table.rows, row.ip = ip → row.state ≠ .quarantined) :
    releasedAt + pool.quarantineTTL ≤ w.clock := by
  rcases inv.served ip releasedAt mem with done | ⟨row, kept, addr, s, -⟩
  · exact done
  · exact absurd s (fr row kept addr)

theorem Sound.lease (inv : pool.Sound w) (io : LeaseIo) (did : Int) (want : Wanted)
    (ip : Addr) (now : Int) : pool.Sound (lease w io did want ip now).1 := by
  unfold AddressPool.lease
  split
  · exact inv
  · split
    · rename_i table put
      obtain ⟨rs, gone⟩ := Table.insert?_eq_some put
      have fr : ∀ row ∈ w.table.rows, row.ip = ip → row.state ≠ .quarantined :=
        fun row kept addr => absurd addr (Table.find_eq_none_iff.mp gone row kept)
      constructor
      · refine pairwise_append.mpr ⟨inv.respected, pairwise_singleton _ _, ?_⟩
        intro old mem late lent ip' releasedAt t freed
        rw [mem_singleton.mp lent, LeaseEvent.leased.injEq]
        rintro ⟨rfl, rfl⟩
        exact inv.finished_of_absent (freed ▸ mem) fr
      · intro alt releasedAt mem
        have old : .released alt releasedAt ∈ w.history := by simpa using mem
        rcases inv.served alt releasedAt old with done | ⟨row, kept, held⟩
        · exact .inl done
        · exact .inr ⟨row, by simp [rs, kept], held⟩
    · exact inv

theorem Sound.giveBack (inv : pool.Sound w) (pos : 0 < pool.quarantineTTL)
    (fits : pool.InRange w) (past : -2 ^ 63 ≤ now ∧ now ≤ w.clock)
    (f : Fault) (ip : Addr) : pool.Sound (pool.giveBack w f ip now) := by
  have whole : int64 (now + pool.quarantineTTL) = now + pool.quarantineTTL :=
    int64_eq_self (by omega) (by unfold InRange at fits; omega)
  unfold AddressPool.giveBack
  rw [if_neg (Int.not_le.mpr pos), whole]
  split_ifs with failed had
  · exact inv
  · obtain ⟨row, kept, lent, addr⟩ := Allocations.mem_leased.mp had
    constructor
    · refine pairwise_append.mpr ⟨inv.respected, pairwise_singleton _ _, ?_⟩
      intro old mem late freed ip' releasedAt t _ lent
      rw [mem_singleton.mp freed] at lent
      cases lent
    · intro alt releasedAt mem
      simp only [mem_append, mem_singleton, LeaseEvent.released.injEq] at mem
      rcases mem with old | ⟨rfl, rfl⟩
      · by_cases eq : alt = ip
        · subst alt
          refine .inl (inv.finished_of_absent old fun held had ipEq => ?_)
          rw [w.table.row_eq_of_key_eq had kept (ipEq.trans addr.symm), lent]
          decide
        · rcases inv.served alt releasedAt old with done | ⟨held, had, ipEq, rest⟩
          · exact .inl done
          · refine .inr ⟨held, ?_, ipEq, rest⟩
            simp only [Allocations.quarantine, Table.mem_update]
            exact ⟨held, had, if_neg (by simp [ipEq, eq])⟩
      · refine .inr ⟨{ row with
          state := .quarantined, releasedAt := int64 releasedAt
          quarantineUntil := releasedAt + pool.quarantineTTL }, ?_, addr, rfl, Int.le_refl _⟩
        simp only [Allocations.quarantine, Table.mem_update]
        exact ⟨row, kept, if_pos (by simp [addr, lent])⟩
  · exact inv

theorem Sound.run {io : LeaseIo} {c next : LeaseCall} {new : Leases}
    (inv : pool.InRange w → pool.Sound w) (pos : 0 < pool.quarantineTTL)
    (low : -2 ^ 63 ≤ w.clock) (past : Past w c)
    (ran : pool.run w io c = some (new, next)) :
    (pool.InRange w → pool.Sound new) ∧ new.clock = w.clock ∧ Past new next := by
  cases c with
  | purgeRead =>
    cases ran
    exact ⟨inv, rfl, low, Int.le_refl _⟩
  | purge did want now =>
    cases ran
    refine ⟨fun fits => ?_, by split <;> rfl, by split <;> split <;> trivial⟩
    split
    · exact inv fits
    · exact (inv fits).purge pos fits past
  | pick did want =>
    cases ran
    refine ⟨inv, rfl, ?_⟩
    unfold choose
    split
    · trivial
    · trivial
    · split
      · trivial
      · split <;> trivial
  | insertRead =>
    cases ran
    exact ⟨inv, rfl, trivial⟩
  | releaseRead =>
    cases ran
    exact ⟨inv, rfl, low, Int.le_refl _⟩
  | insert did want ip now =>
    have res : AddressPool.lease w io did want ip now = (new, next) :=
      Option.some.inj ran
    have kept := fun fits => (inv fits).lease io did want ip now
    rw [res] at kept
    refine ⟨kept, ?_⟩
    unfold AddressPool.lease at res
    split at res
    · cases res
      exact ⟨rfl, trivial⟩
    · split at res
      · cases res
        exact ⟨rfl, trivial⟩
      · cases res
        refine ⟨rfl, ?_⟩
        split
        · split <;> trivial
        · trivial
  | release ip now =>
    cases ran
    refine ⟨fun fits => (inv fits).giveBack pos fits past io.fault ip, ?_, trivial⟩
    unfold AddressPool.giveBack
    split_ifs <;> rfl
  | returned => cases ran

end

/-- An address released at a time is not leased again before the quarantine is
over, however the calls on the table interleave, as long as the columns can hold
the end of a quarantine that starts now. -/
theorem quarantine_holds (pool : AddressPool) (clock : Int) (table : Allocations)
    {finish : Library.Pool Leases LeaseCall}
    (positive : 0 < pool.quarantineTTL)
    (low : -2 ^ 63 ≤ clock)
    (reached : Reachable pool.machine.step (.quiet ⟨clock, table, []⟩) finish)
    (high : finish.shared.clock + pool.quarantineTTL < 2 ^ 63) :
    pool.Respected finish.shared.history := by
  have kept := reached.rely
    (fun world => -2 ^ 63 ≤ world.clock ∧ (pool.InRange world → pool.Sound world))
    (fun world _ call => Past world call)
    ⟨⟨low, fun _ => ⟨List.Pairwise.nil, by rintro _ _ ⟨⟩⟩⟩, by rintro _ _ ⟨⟩⟩ ?_ ?_
  · exact (kept.1.2 high).respected
  · intro world _ request _
    simp only [machine]
    unfold accept
    split
    · trivial
    · split <;> trivial
    · trivial
  · intro before index io call next world _ _ bounded past ran
    simp only [machine, Option.ite_none_right_eq_some] at ran
    obtain ⟨passes, ran⟩ := ran
    have lower := bounded.1.trans passes
    have started : pool.InRange { before.shared with clock := io.now } →
        pool.Sound { before.shared with clock := io.now } := by
      intro fits
      refine (bounded.2 ?_).tick passes
      unfold InRange at fits ⊢
      dsimp only at fits
      omega
    obtain ⟨sound, sameClock, nextPast⟩ :=
      Sound.run started positive lower (past.later passes) ran
    refine ⟨⟨sameClock ▸ lower, fun fits => sound ?_⟩, nextPast,
      fun _ _ _ _ earlier => earlier.later (sameClock ▸ passes)⟩
    unfold InRange at fits ⊢
    rwa [sameClock] at fits

namespace Example

def pool : AddressPool where
  range := ⟨168427520, 24, by decide, by decide⟩
  reserved := []
  quarantineTTL := 10

def leased : Allocations :=
  ⟨[{ ip := 168427525, deviceID := 1 }], by simp⟩

def handover : List (Pool.Event LeaseRequest LeaseIo) :=
  [.request (.release 168427525), .statement 0 { now := 5 }, .statement 0 { now := 6 },
    .request (.allocateSpecific 2 168427525), .statement 1 { now := 15 },
    .statement 1 { now := 15 }, .statement 1 { now := 15 }, .statement 1 { now := 16 },
    .statement 1 { now := 16 }]

end Example

open Example

theorem quarantine_holds_handover :
    ∃ finish,
    Reachable pool.machine.step (.quiet ⟨0, leased, []⟩) finish ∧
      finish.shared.history = [.released 168427525 5, .leased 168427525 16] ∧
      pool.Respected finish.shared.history := by
  obtain ⟨finish, executed, history⟩ : ∃ finish,
      runEvents pool.machine.step (.quiet ⟨0, leased, []⟩) handover =
        some finish ∧ finish.shared.history = [.released 168427525 5, .leased 168427525 16] :=
    ⟨_, rfl, by decide⟩
  have reached := reachable_of_runEvents executed
  have clock : finish.shared.clock = 16 := by
    cases executed
    rfl
  exact ⟨finish, reached, history, quarantine_holds _ _ _ (by decide) (by decide) reached
    (by rw [clock]; decide)⟩

namespace Example

/-- Two hundred and forty years, which a flag of type `Duration` can hold. -/
def lasting : AddressPool :=
  { pool with quarantineTTL := 240 * 365 * 24 * 3600 * 1000000000 }

/-- Nanoseconds since 1970 in the year 2026. -/
def today : Int := 1790000000000000000

def hastyHandover : List (Pool.Event LeaseRequest LeaseIo) :=
  [.request (.release 168427525), .statement 0 { now := today },
    .statement 0 { now := today }, .request (.allocateSpecific 2 168427525)] ++
    List.replicate 5 (.statement 1 { now := today + 1 })

end Example

/-- The end of a quarantine of 240 years wraps around to a time long past, so the
next allocation takes the address at once. -/
theorem wrapped_quarantine_ignored :
    ∃ finish,
      Reachable lasting.machine.step (.quiet ⟨0, leased, []⟩) finish ∧
      0 < lasting.quarantineTTL ∧ lasting.quarantineTTL < 2 ^ 63 ∧
      finish.shared.history =
        [.released 168427525 today, .leased 168427525 (today + 1)] ∧
      ¬lasting.Respected finish.shared.history := by
  obtain ⟨finish, executed, history⟩ : ∃ finish,
      runEvents lasting.machine.step (.quiet ⟨0, leased, []⟩) hastyHandover =
        some finish ∧ finish.shared.history =
          [.released 168427525 today, .leased 168427525 (today + 1)] :=
    ⟨_, rfl, by decide⟩
  refine ⟨finish, reachable_of_runEvents executed, by decide, by decide, history, ?_⟩
  rw [history]
  intro respected
  have early := (List.pairwise_pair.mp respected) 168427525 today (today + 1) rfl rfl
  exact absurd early (by decide)

end AddressPool

end Harbor.Ipam
