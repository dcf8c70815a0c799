import Harbor.Ipam.Allocation
import Harbor.Library.Procedure
import Harbor.Policy.Reserved

/-!
# Addresses, heartbeats and the reaper

Three parties share the tables: hosts that heartbeat, devices that enroll, and
the reaper, which takes hosts back that have gone silent.  A call is cut at its
statements, each of which may fail, or take effect and report a failure.

An `overlay_ip` column holds an address.  Enrollments stay issued, so
`trySelfHeal`, which runs only for a host without an issued enrollment, has no
part here.
-/

namespace Harbor.Fleet

open Library Ipam Policy

def hour : Int := 3600000000000

structure Config where
  persistentGrace : Int := 0
  ephemeralGrace : Int := 0
  silentAfter : Int := 0
  dryRun : Bool := false
  quarantineTTL : Int := 0
  pool : Addr → Bool
  central : Addr → Bool

def Config.withDefaults (config : Config) : Config :=
  { config with
    persistentGrace :=
      if config.persistentGrace ≤ 0 then 7 * 24 * hour
      else config.persistentGrace
    ephemeralGrace :=
      if config.ephemeralGrace ≤ 0 then hour else config.ephemeralGrace }

inductive Reason where
  | certExpired
  | silent
deriving DecidableEq, Repr

structure Device where
  id : Int
  name : String
  createdAt : Int := 0
  reapedAt : Int := 0
  reapReason : Option Reason := none
deriving DecidableEq, Repr

structure Issued where
  id : Int
  overlayIP : Addr
  deviceName : String
  ephemeral : Bool := false
  groups : List String := []
deriving DecidableEq, Repr

structure Heartbeat where
  overlayIP : Addr
  deviceName : String
  certNotAfter : Int
  lastSeen : Int
deriving DecidableEq, Repr

structure Database where
  devices : Table Device.id
  allocations : Allocations
  enrollments : Table Issued.id
  heartbeats : Table Heartbeat.overlayIP

namespace Database

def device (db : Database) (name : String) : Option Device :=
  db.devices.rows.find? fun row => row.name == name

/-- `allocationOwner`: the name of the device an allocation refers to. -/
def owner (db : Database) (row : Allocation) : Option String :=
  (db.devices.find row.deviceID).map Device.name

def allocationOwner (db : Database) (ip : Addr) : Option String :=
  (db.allocations.find ip).bind db.owner

/-- `ensureDevice`. -/
def ensureDevice (db : Database) (name : String) (now : Int) : Database × Int :=
  match db.device name with
  | some row => (db, row.id)
  | none =>
    let id := nextID (db.devices.rows.map Device.id)
    match db.devices.insert? { id := id, name := name, createdAt := now }
        with
    | some devices => ({ db with devices := devices }, id)
    | none => (db, id)

/-- `Release`. -/
def release (db : Database) (config : Config) (now : Int) (ip : Addr) :
    Database :=
  { db with
    allocations :=
      if config.quarantineTTL ≤ 0 then db.allocations.delete ip
      else db.allocations.quarantine ip now (now + config.quarantineTTL) }

/-- `DELETE FROM heartbeats WHERE overlay_ip = ?`. -/
def forget (db : Database) (ip : Addr) : Database :=
  { db with heartbeats := db.heartbeats.keep fun row => row.overlayIP != ip }

/-- `UPDATE devices … WHERE name = ? AND reaped_at = 0`. -/
def stamp (db : Database) (name : String) (now : Int) (reason : Reason) :
    Database :=
  { db with
    devices := db.devices.update
      (fun row => row.name == name && row.reapedAt == 0)
      (fun row => { row with reapedAt := now, reapReason := some reason })
      fun _ => rfl }

/-- The upsert of `handleHeartbeat`. -/
def record (db : Database) (beat : Heartbeat) : Database :=
  { db with
    heartbeats := db.heartbeats.upsert beat
      (fun row => { row with
        deviceName := beat.deviceName
        certNotAfter := beat.certNotAfter
        lastSeen := beat.lastSeen })
      fun _ => rfl }

end Database

structure Candidate where
  overlayIP : Addr
  deviceName : String
  certNotAfter : Int
  lastSeen : Int
  ephemeral : Bool
  groups : List String
deriving DecidableEq, Repr

namespace Candidate

def certStillValid (c : Candidate) (now : Int) : Bool :=
  c.certNotAfter != 0 && decide (now ≤ c.certNotAfter)

def grace (c : Candidate) (cfg : Config) : Int :=
  if c.ephemeral then cfg.ephemeralGrace else cfg.persistentGrace

def reason (c : Candidate) (now : Int) (cfg : Config) : Option Reason :=
  if c.certNotAfter ≠ 0 ∧ c.certNotAfter < now - c.grace cfg ∧
      c.lastSeen < now - c.grace cfg then some .certExpired
  else if 0 < cfg.silentAfter ∧ c.certNotAfter ≠ 0 ∧ c.certStillValid now = false ∧
      c.lastSeen < now - cfg.silentAfter then some .silent
  else none

def excluded (c : Candidate) (cfg : Config) : Bool :=
  grantsReservedGroup c.groups || cfg.central c.overlayIP

end Candidate

/-- `dedupByHost`, with the addresses and names seen so far. -/
def dedupByHost (seenIP : List Addr) (seenName : List String) : List Candidate → List Candidate
  | [] => []
  | c :: rest =>
    if c.overlayIP ∈ seenIP then dedupByHost seenIP seenName rest
    else if c.deviceName ≠ "" ∧ c.deviceName ∈ seenName then
      dedupByHost seenIP seenName rest
    else
      c :: dedupByHost (c.overlayIP :: seenIP)
        (if c.deviceName = "" then seenName else c.deviceName :: seenName) rest

theorem mem_dedupByHost {c : Candidate} (mem : c ∈ dedupByHost seenIP seenName cands) :
    c ∈ cands := by
  fun_induction dedupByHost seenIP seenName cands with
  | case1 => cases mem
  | case2 _ _ _ _ _ ih | case3 _ _ _ _ _ _ ih => exact .tail _ (ih mem)
  | case4 _ _ _ _ _ _ ih =>
    rcases List.mem_cons.mp mem with rfl | later
    · exact .head _
    · exact .tail _ (ih later)

def surfaced (cfg : Config) (now : Int) (beat : Heartbeat) : Bool :=
  let cutoff := now - min cfg.persistentGrace cfg.ephemeralGrace
  (beat.certNotAfter != 0 && decide (beat.certNotAfter < cutoff) &&
      decide (beat.lastSeen < cutoff)) ||
    (decide (0 < cfg.silentAfter) &&
      decide (beat.lastSeen < now - cfg.silentAfter))

/-- A row of the candidate query: the latest issued enrollment at the address
of the heartbeat, unless its device is marked reaped. -/
def candidate? (cfg : Config) (now : Int) (db : Database) (beat : Heartbeat) : Option Candidate :=
  match db.enrollments.latest fun row => row.overlayIP == beat.overlayIP with
  | none => none
  | some enrollment =>
    if surfaced cfg now beat = true ∧
        (db.device beat.deviceName).all (fun row => row.reapedAt == 0) = true
    then
      some
        { overlayIP := beat.overlayIP, deviceName := beat.deviceName
          certNotAfter := beat.certNotAfter, lastSeen := beat.lastSeen
          ephemeral := enrollment.ephemeral, groups := enrollment.groups }
    else none

def loadCandidates (cfg : Config) (now : Int) (db : Database) :
    List Candidate :=
  dedupByHost [] [] (db.heartbeats.rows.filterMap (candidate? cfg now db))

structure Target where
  candidate : Candidate
  reason : Reason
deriving DecidableEq, Repr

def targets (cfg : Config) (now : Int) (cands : List Candidate) :
    List Target :=
  cands.filterMap fun c =>
    match c.reason now cfg with
    | none => none
    | some reason => if c.excluded cfg then none else some ⟨c, reason⟩

inductive Stage where
  | release
  | delete
  | stamp
deriving DecidableEq, Repr

inductive Pass where
  | idle
  | load
  | select (cands : List Candidate)
  | reap (stage : Stage) (now : Int) (target : Target) (rest : List Target)
deriving DecidableEq, Repr

def Pass.next (now : Int) : List Target → Pass
  | [] => .idle
  | target :: rest => .reap .release now target rest

/-- One statement of `ReapOnce`.  A failure of one of the three statements
about a host is tolerated. -/
def advancePass (config : Config) (clock : Int) (db : Database)
    (fault : Fault) : Pass → Option (Database × Pass)
  | .idle => none
  | .load =>
    if fault = .ok then
      some (db, .select (loadCandidates config.withDefaults clock db))
    else some (db, .idle)
  | .select cands =>
    if config.dryRun then some (db, .idle)
    else some (db, .next clock (targets config.withDefaults clock cands))
  | .reap .release now target rest =>
    some (if fault = .failed then db
        else db.release config clock target.candidate.overlayIP,
      .reap .delete now target rest)
  | .reap .delete now target rest =>
    some (if fault = .failed then db
        else db.forget target.candidate.overlayIP,
      .reap .stamp now target rest)
  | .reap .stamp now target rest =>
    some (if fault = .failed then db
        else db.stamp target.candidate.deviceName now target.reason,
      .next now rest)

/-- A device that enrolls.  `specific` is the address of `AllocateSpecific`;
without one `Allocate` picks a free address. -/
structure Joiner where
  name : String
  ephemeral : Bool := false
  groups : List String := []
  specific : Option Addr := none
deriving DecidableEq, Repr

inductive Call where
  | idle
  | beatDevice (ip : Addr) (certNotAfter : Int)
  | beatOwner (dev : Issued) (certNotAfter : Int)
  | beatEnsure (dev : Issued) (certNotAfter : Int)
  | beatPurge (dev : Issued) (certNotAfter deviceID : Int)
  | beatInsert (dev : Issued) (certNotAfter deviceID : Int)
  | beatRecord (dev : Issued) (certNotAfter : Int) (asserted : Bool)
  | enrollEnsure (joiner : Joiner)
  | enrollPurge (joiner : Joiner) (deviceID : Int)
  | enrollPick (joiner : Joiner) (deviceID : Int)
  | enrollInsert (joiner : Joiner) (deviceID : Int) (ip : Addr)
  | enrollRecord (joiner : Joiner) (ip : Addr)
  | enrollRelease (ip : Addr)
  | returned
deriving DecidableEq, Repr

/-- The fault of a statement, and the address `firstFree` finds. -/
structure Io where
  fault : Fault := .ok
  ip : Addr := 0

/-- `purgeExpiredQuarantine`, and where to go on when it succeeds or fails. -/
def purge (clock : Int) (db : Database) (fault : Fault) (next failed : Call) : Database × Call :=
  (if fault = .failed then db
    else { db with allocations := db.allocations.purgeExpired clock },
    if fault = .ok then next else failed)

def leaseRow (clock : Int) (ip : Addr) (deviceID : Int) : Allocation :=
  { ip := ip, deviceID := deviceID, allocatedAt := clock }

def lease (clock : Int) (db : Database) (fault : Fault) (ip : Addr)
    (deviceID : Int) (next taken failed : Call) : Database × Call :=
  if fault = .failed then (db, failed)
  else
    match db.allocations.insert? (leaseRow clock ip deviceID) with
    | some allocations =>
      ({ db with allocations := allocations },
        if fault = .ok then next else failed)
    | none => (db, if fault = .ok then taken else failed)

/-- One statement of `handleHeartbeat`.  An unreadable owner is no owner, and
a failed reassertion of the lease does not stop the heartbeat. -/
def advanceBeat (config : Config) (clock : Int) (db : Database) (io : Io) :
    Call → Option (Database × Call)
  | .beatDevice ip certNotAfter =>
    match io.fault, db.enrollments.latest fun row => row.overlayIP == ip with
    | .ok, some dev => some (db, .beatOwner dev certNotAfter)
    | _, _ => some (db, .returned)
  | .beatOwner dev certNotAfter =>
    if io.fault = .ok ∧ (db.allocationOwner dev.overlayIP).isSome = true then
      some (db, .beatRecord dev certNotAfter true)
    else if config.pool dev.overlayIP then
      some (db, .beatEnsure dev certNotAfter)
    else some (db, .beatRecord dev certNotAfter false)
  | .beatEnsure dev certNotAfter =>
    if io.fault = .ok then
      let (after, id) := db.ensureDevice dev.deviceName clock
      some (after, .beatPurge dev certNotAfter id)
    else some (db, .beatRecord dev certNotAfter false)
  | .beatPurge dev certNotAfter id =>
    some (purge clock db io.fault (.beatInsert dev certNotAfter id)
      (.beatRecord dev certNotAfter false))
  | .beatInsert dev certNotAfter id =>
    some (lease clock db io.fault dev.overlayIP id
      (.beatRecord dev certNotAfter true) (.beatRecord dev certNotAfter true)
      (.beatRecord dev certNotAfter false))
  | .beatRecord dev certNotAfter _ =>
    some (if io.fault = .failed then db
        else db.record
          { overlayIP := dev.overlayIP, deviceName := dev.deviceName
            certNotAfter := certNotAfter, lastSeen := clock },
      .returned)
  | _ => none

/-- One statement of an enrollment: `Allocate` or `AllocateSpecific`, and the
record of the issued certificate.  A failed signature or record gives the
address back. -/
def advanceEnroll (clock : Int) (db : Database) (config : Config) (io : Io) :
    Call → Option (Database × Call)
  | .enrollEnsure joiner =>
    if io.fault = .ok then
      let (after, id) := db.ensureDevice joiner.name clock
      some (after, .enrollPurge joiner id)
    else some (db, .returned)
  | .enrollPurge joiner id =>
    some (purge clock db io.fault (.enrollPick joiner id) .returned)
  | .enrollPick joiner id =>
    match joiner.specific with
    | some ip => some (db, .enrollInsert joiner id ip)
    | none =>
      if io.fault ≠ .ok then some (db, .returned)
      else if (db.allocations.find io.ip).isSome then none
      else some (db, .enrollInsert joiner id io.ip)
  | .enrollInsert joiner id ip =>
    some (lease clock db io.fault ip id (.enrollRecord joiner ip)
      (if joiner.specific = none then .enrollPick joiner id else .returned) .returned)
  | .enrollRecord joiner ip =>
    if io.fault = .failed then some (db, .enrollRelease ip)
    else
      (db.enrollments.insert?
        { id := nextID (db.enrollments.rows.map Issued.id), overlayIP := ip
          deviceName := joiner.name, ephemeral := joiner.ephemeral
          groups := joiner.groups }).map fun enrollments =>
        ({ db with enrollments := enrollments },
          if io.fault = .ok then .returned else .enrollRelease ip)
  | .enrollRelease ip =>
    some (if io.fault = .failed then db else db.release config clock ip, .returned)
  | _ => none

inductive Request where
  | heartbeat (ip : Addr) (certNotAfter : Int)
  | enroll (joiner : Joiner)

def Config.accept (config : Config) : Request → Call
  | .heartbeat ip certNotAfter => .beatDevice ip certNotAfter
  | .enroll joiner =>
    if joiner.specific.all config.pool then .enrollEnsure joiner
    else .returned

inductive Event where
  | tick (now : Int)
  | startPass
  | passStatement (fault : Fault)
  | crashPass
  | request (call : Nat) (request : Request)
  | statement (call : Nat) (io : Io)
  | crash (call : Nat)

structure State where
  clock : Int
  db : Database
  pass : Pass
  calls : Nat → Call

def Config.step (config : Config) (state : State) : Event → Option State
  | .tick now =>
    if state.clock ≤ now then some { state with clock := now } else none
  | .startPass =>
    if state.pass = .idle then some { state with pass := .load } else none
  | .passStatement fault =>
    (advancePass config state.clock state.db fault state.pass).map
      fun (db, pass) => { state with db := db, pass := pass }
  | .crashPass => some { state with pass := .idle }
  | .request call request =>
    if state.calls call = .idle then
      some { state with
        calls := Function.update state.calls call (config.accept request) }
    else none
  | .statement call io =>
    ((advanceBeat config state.clock state.db io (state.calls call)).or
      (advanceEnroll state.clock state.db config io (state.calls call))).map fun (db, next) =>
        { state with
          db := db, calls := Function.update state.calls call next }
  | .crash call =>
    some { state with calls := Function.update state.calls call .returned }

def State.quiet (db : Database) (clock : Int) : State where
  clock := clock
  db := db
  pass := .idle
  calls _ := .idle

def Database.empty : Database where
  devices := .empty
  allocations := .empty
  enrollments := .empty
  heartbeats := .empty

end Harbor.Fleet
