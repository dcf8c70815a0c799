import Harbor.Library.Table

/-!
# The staged rollout engine

The tables `rollouts`, `rollout_hosts` and `heartbeats`, and what `Start`,
`Evaluate` and `AbortLane` do to them.  Each of these is one transaction under
the lane's lock, so it is one function on the database; a transaction that an
error ends leaves no trace.  The reads that Core makes for a host, the command
and the generation to stamp, follow.
-/

namespace Harbor.Rollouts

open Library

inductive Lane where
  | policy
  | blocklist
  | nebula
  | pilot
deriving DecidableEq, Repr

/-- The lanes `Evaluate` sweeps, in order. -/
def lanes : List Lane :=
  [.policy, .blocklist, .nebula, .pilot]

/-- The `state` column of a rollout. -/
inductive Phase where
  | canary
  | widening
  | completed
  | rolledBack
  | aborted
deriving DecidableEq, Repr

/-- The `status` column of a host. -/
inductive HostStatus where
  | waiting
  | converged
  | failed
  | reverted
deriving DecidableEq, Repr

structure Rollout where
  id : Int
  lane : Lane
  description : String := ""
  targetVersion : Int
  prevVersion : Int
  state : Phase
  activeWave : Nat := 0
  waveSize : Int := 0
  minHealthy : Int := 0
  observeWindow : Int
  missingAfter : Int
  waveStartedAt : Int
  createdAt : Int
  updatedAt : Int
  note : String := ""
deriving DecidableEq, Repr

def Rollout.active (r : Rollout) : Bool :=
  r.state == .canary || r.state == .widening

/-- A row of `rollout_hosts`. -/
structure Host where
  rolloutID : Int
  overlayIP : String
  wave : Nat
  status : HostStatus := .waiting
  updatedAt : Int := 0
deriving DecidableEq, Repr

/-- `UNIQUE(rollout_id, overlay_ip)`. -/
def Host.key (h : Host) : Int × String :=
  (h.rolloutID, h.overlayIP)

/-- The engine's view of a row of `heartbeats`. -/
structure Beat where
  overlayIP : String
  appliedBundleVersion : Int := 0
  appliedBlocklistVersion : Int := 0
  appliedNebulaVersion : Int := 0
  appliedPilotVersion : Int := 0
  health : String := ""
  lastSeen : Int := 0
deriving DecidableEq, Repr

def appliedFor (beat : Beat) : Lane → Int
  | .blocklist => beat.appliedBlocklistVersion
  | .nebula => beat.appliedNebulaVersion
  | .pilot => beat.appliedPilotVersion
  | .policy => beat.appliedBundleVersion

def healthBad (health : String) : Bool :=
  health ∈ ["unhealthy", "degraded", "error", "critical", "red"]

structure Database where
  rollouts : Table Rollout.id
  hosts : Table Host.key
  heartbeats : Table Beat.overlayIP

def Database.empty : Database where
  rollouts := .empty
  hosts := .empty
  heartbeats := .empty

namespace Database

variable (db : Database)

def current (lane : Lane) : Option Rollout :=
  db.rollouts.latest fun r => r.lane == lane

/-- `lockedActiveCurrent`. -/
def activeCurrent (lane : Lane) : Option Rollout :=
  (db.current lane).filter Rollout.active

def host (r : Rollout) (ip : String) : Option Host :=
  db.hosts.find (r.id, ip)

def waveHosts (r : Rollout) (wave : Nat) : List Host :=
  db.hosts.rows.filter fun h => h.rolloutID == r.id && h.wave == wave

/-- `UPDATE rollouts … WHERE id = ?`. -/
def setRollout (id : Int) (change : Rollout → Rollout)
    (keepsKey : ∀ r, (change r).id = r.id) : Database :=
  { db with
    rollouts := db.rollouts.update (fun r => r.id == id) change keepsKey }

/-- `SET status = ?, updated_at = ?` on the hosts of a wave. -/
def setWaveStatus (r : Rollout) (status : HostStatus) (now : Int) : Database :=
  { db with
    hosts := db.hosts.update
      (fun h => h.rolloutID == r.id && h.wave == r.activeWave)
      (fun h => { h with status := status, updatedAt := now }) fun _ => rfl }

end Database

structure StartConfig where
  lane : Option Lane := none
  description : String := ""
  targetVersion : Int
  prevVersion : Int
  hosts : List String
  canarySize : Int := 1
  waveSize : Int := 0
  minHealthy : Int := 0
  observe : Int := 0
  missingAfter : Int := 0

namespace StartConfig

variable (cfg : StartConfig)

def canary : Nat :=
  let size := if cfg.canarySize < 1 then 1 else cfg.canarySize.toNat
  if cfg.hosts.length < size then cfg.hosts.length else size

def waveOf (index : Nat) : Nat :=
  if index < cfg.canary then 0
  else if cfg.waveSize ≤ 0 then 1
  else 1 + (index - cfg.canary) / cfg.waveSize.toNat

/-- The row `Start` inserts. -/
def rollout (id now : Int) : Rollout where
  id := id
  lane := cfg.lane.getD .policy
  description := cfg.description
  targetVersion := cfg.targetVersion
  prevVersion := cfg.prevVersion
  state := .canary
  activeWave := 0
  waveSize := cfg.waveSize
  minHealthy := cfg.minHealthy
  observeWindow := cfg.observe
  missingAfter := cfg.missingAfter
  waveStartedAt := now
  createdAt := now
  updatedAt := now

def hostRow (id now : Int) (index : Nat) (ip : String) : Host where
  rolloutID := id
  overlayIP := ip
  wave := cfg.waveOf index
  updatedAt := now

/-- The loop of `Start` over the hosts from a position on; an address listed
twice violates the constraint. -/
def insertHosts (id now : Int) : Nat → List String → Table Host.key → Option (Table Host.key)
  | _, [], hosts => some hosts
  | index, ip :: rest, hosts =>
    (hosts.insert? (cfg.hostRow id now index ip)).bind (insertHosts id now (index + 1) rest)

end StartConfig

inductive Error where
  | activeExists
  | noHosts
  | notActive
  | database
deriving DecidableEq, Repr

namespace Database

variable (db : Database)

def start (cfg : StartConfig) (now : Int) : Except Error (Rollout × Database) :=
  if cfg.hosts = [] then .error .noHosts
  else
    match db.activeCurrent (cfg.lane.getD .policy) with
    | some _ => .error .activeExists
    | none =>
      let r := cfg.rollout (nextID (db.rollouts.rows.map (·.id))) now
      match db.rollouts.insert? r, cfg.insertHosts r.id now 0 cfg.hosts db.hosts with
      | some rollouts, some hosts =>
        .ok (r, { db with rollouts := rollouts, hosts := hosts })
      | _, _ => .error .database

end Database

inductive Reading where
  | found (beat : Beat)
  | absent
  | failed
deriving DecidableEq, Repr

inductive Tally where
  | failed
  | converged
  | missing
  | applying
deriving DecidableEq, Repr

namespace Rollout

variable (r : Rollout) (now : Int)

def isMissing : Reading → Bool
  | .failed => false
  | .absent => !decide (now - r.waveStartedAt < r.missingAfter)
  | .found beat =>
    !decide (now - r.waveStartedAt < r.missingAfter) &&
      decide (beat.lastSeen < now - r.missingAfter)

/-- The switch over one host in `evaluateLane`. -/
def tally (reading : Reading) : Tally :=
  match reading with
  | .found beat =>
    if healthBad beat.health then .failed
    else if appliedFor beat r.lane = r.targetVersion ∧
        now - r.missingAfter ≤ beat.lastSeen then .converged
    else if r.isMissing now reading then .missing
    else .applying
  | _ => if r.isMissing now reading then .missing else .applying

def triggerOf (ip : String) (reading : Reading) : Option String :=
  match r.tally now reading, reading with
  | .failed, .found beat => some (ip ++ " reported health=" ++ beat.health)
  | .missing, _ =>
    some (ip ++ " went silent (no healthy heartbeat on the target version)")
  | _, _ => none

end Rollout

/-- What `evaluateLane` does with the active wave. -/
inductive Decision where
  | rollback (trigger : String)
  | advance
  | wait
deriving DecidableEq, Repr

/-- The judgement of `evaluateLane` over the readings of the wave's hosts. -/
def Rollout.judge (r : Rollout) (now : Int) (readings : List (String × Reading)) : Decision :=
  let tallies := readings.map fun reading => r.tally now reading.2
  let trigger :=
    (readings.findSome? fun reading =>
      r.triggerOf now reading.1 reading.2).getD ""
  let converged := tallies.count .converged
  let missing := tallies.count .missing
  let reachable := readings.length - missing
  let need : Int :=
    if r.minHealthy ≤ 0 ∨ (reachable : Int) < r.minHealthy then reachable
    else r.minHealthy
  if 0 < tallies.count .failed then .rollback trigger
  else if r.activeWave = 0 ∧ converged = 0 ∧ 0 < missing then
    .rollback ("canary not validated: " ++ trigger)
  else if need ≤ converged then .advance
  else if r.observeWindow ≤ now - r.waveStartedAt then
    .rollback s!"wave {r.activeWave} did not converge within the observe window ({converged}/{need} reachable healthy; {missing} missing excluded)"
  else .wait

namespace Database

variable (db : Database)

/-- Read the heartbeat of a host; `unreadable` says which reads fail. -/
def read (unreadable : String → Bool) (ip : String) : Reading :=
  if unreadable ip then .failed
  else
    match db.heartbeats.find ip with
    | some beat => .found beat
    | none => .absent

def rollback (r : Rollout) (now : Int) (trigger : String) : Database :=
  (db.setWaveStatus r .failed now).setRollout r.id
    (fun row => { row with
      state := .rolledBack
      updatedAt := now
      note := "auto-rollback: " ++ trigger }) fun _ => rfl

def advance (r : Rollout) (now : Int) : Database :=
  let marked := db.setWaveStatus r .converged now
  if marked.hosts.affected (fun h =>
      h.rolloutID == r.id && decide (r.activeWave < h.wave)) = 0 then
    marked.setRollout r.id
      (fun row => { row with
        state := .completed
        updatedAt := now
        note := "all waves converged" }) fun _ => rfl
  else
    marked.setRollout r.id
      (fun row => { row with
        state := .widening
        activeWave := r.activeWave + 1
        waveStartedAt := now
        updatedAt := now }) fun _ => rfl

/-- The readings `evaluateLane` takes of the active wave. -/
def readings (r : Rollout) (unreadable : String → Bool) : List (String × Reading) :=
  (db.waveHosts r r.activeWave).map fun h =>
    (h.overlayIP, db.read unreadable h.overlayIP)

def evaluateLane (lane : Lane) (now : Int) (unreadable : String → Bool) : Bool × Database :=
  match db.activeCurrent lane with
  | none => (false, db)
  | some r =>
    match r.judge now (db.readings r unreadable) with
    | .rollback trigger => (true, db.rollback r now trigger)
    | .advance => (true, db.advance r now)
    | .wait => (false, db)

/-- The sweep of `Evaluate`; each lane's transaction reads its own clock. -/
def evaluate (now : Lane → Int) (unreadable : Lane → String → Bool) :
    Database :=
  lanes.foldl (fun db lane =>
    (db.evaluateLane lane (now lane) (unreadable lane)).2) db

def abortLane (lane : Lane) (now : Int) : Except Error Database :=
  match db.activeCurrent lane with
  | none => .error .notActive
  | some r =>
    .ok (db.setRollout r.id
      (fun row => { row with
        state := .rolledBack
        updatedAt := now
        note := "operator-aborted" }) fun _ => rfl)

/-- The version `commandForLane` commands a host to apply. -/
def commandForLane (lane : Lane) (ip : String) (reported : Int) : Option Int :=
  match db.current lane with
  | none => none
  | some r =>
    match db.host r ip with
    | none => none
    | some h =>
      match r.state with
      | .canary | .widening =>
        if h.wave ≤ r.activeWave ∧ reported ≠ r.targetVersion then
          some r.targetVersion
        else none
      | .completed =>
        if reported ≠ r.targetVersion then some r.targetVersion else none
      | .rolledBack =>
        if lane = .blocklist then none
        else if h.wave ≤ r.activeWave ∧ reported ≠ r.prevVersion then
          some r.prevVersion
        else none
      | .aborted => none

/-- The other effect of `commandForLane`: a touched host that reports the
previous version after a rollback is marked reverted. -/
def markReverted (lane : Lane) (ip : String) (reported now : Int) : Database :=
  match db.current lane with
  | none => db
  | some r =>
    if r.state = .rolledBack ∧ lane ≠ .blocklist ∧ reported = r.prevVersion then
      { db with
        hosts := db.hosts.update
          (fun h => h.rolloutID == r.id && h.overlayIP == ip &&
            decide (h.wave ≤ r.activeWave) && h.status != .reverted)
          (fun h => { h with status := .reverted, updatedAt := now })
          fun _ => rfl }
    else db

def versionFor (ip : String) : Option Int :=
  (db.current .policy).map fun r =>
    match db.host r ip with
    | none => r.prevVersion
    | some h =>
      if r.active = true ∧ h.wave ≤ r.activeWave then r.targetVersion
      else r.prevVersion

/-- `MAX(target_version)` of the blocklist lane, 0 without a row. -/
def blocklistVersion : Int :=
  ((db.rollouts.rows.filter fun r => r.lane == .blocklist).map (·.targetVersion)).max?.getD 0

def genForLane (lane : Lane) (ip : String) : Option Int :=
  (db.current lane).map fun r =>
    match r.state with
    | .completed => r.targetVersion
    | .canary | .widening =>
      match db.host r ip with
      | none => r.prevVersion
      | some h =>
        if h.wave ≤ r.activeWave then r.targetVersion else r.prevVersion
    | .rolledBack | .aborted => r.prevVersion

def currentCompletedGen (lane : Lane) : Int :=
  ((db.rollouts.latest fun r => r.lane == lane && r.state == .completed).map
    (·.targetVersion)).getD 0

def floorCatchupGen (lane : Lane) (reported : Int) : Option Int :=
  if ((db.current lane).map (·.active)).getD false = true then none
  else if db.currentCompletedGen lane = 0 ∨ db.currentCompletedGen lane ≤ reported then none
  else some (db.currentCompletedGen lane)

end Database

/-- What can happen to the tables: the three operations of the engine, a
heartbeat, and the bookkeeping of a command. -/
inductive Event where
  | start (cfg : StartConfig) (now : Int)
  | evaluate (lane : Lane) (now : Int) (unreadable : String → Bool)
  | abort (lane : Lane) (now : Int)
  | heartbeat (beat : Beat)
  | command (lane : Lane) (ip : String) (reported now : Int)

def step (db : Database) : Event → Option Database
  | .start cfg now =>
    match db.start cfg now with
    | .ok (_, after) => some after
    | .error _ => some db
  | .evaluate lane now unreadable =>
    some (db.evaluateLane lane now unreadable).2
  | .abort lane now =>
    match db.abortLane lane now with
    | .ok after => some after
    | .error _ => some db
  | .heartbeat beat =>
    some { db with
      heartbeats := db.heartbeats.upsert beat
        (fun old => { beat with overlayIP := old.overlayIP }) fun _ => rfl }
  | .command lane ip reported now => some (db.markReverted lane ip reported now)

end Harbor.Rollouts
