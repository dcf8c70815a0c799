import Harbor.Data.JoinKey
import Harbor.Ipam.Allocation
import Harbor.Library.Procedure
import Harbor.Queue.Durable
import Harbor.Trust.Config

/-!
# What the enrollment consumer talks to

The tables of Harbor's database and the durable queue with its result store,
and the statements the consumer, the allocator and the collector send to them.
`execute` gives each statement its meaning; a `Choice` holds what the outside
decides about it: how the statement ends, the reading of the clock, and what the
signer, the netblock registry, STS and the live configuration sources answer.
-/

namespace Harbor.Consumer

open Library Ipam Queue Trust

/-- `enrollments`, whose `enrollment_id` is unique. -/
abbrev EnrollmentRows := Table Enrollment.enrollmentID

/-- A row of `nonce_replays`. -/
structure NonceReplay where
  nonce : String
  expiresAt : Int := 0
deriving DecidableEq, Repr

/-- A row of `devices`. -/
structure Device where
  id : Int
  name : String
  createdAt : Int := 0
deriving DecidableEq, Repr

structure World where
  enrollments : EnrollmentRows
  joinKeys : JoinKeys
  nonces : Table NonceReplay.nonce
  devices : Table Device.name
  allocations : Allocations
  items : Items
  results : Results
  /-- The deliveries written to `results`, oldest first. -/
  delivered : List Delivery
  /-- The enrollment ids acked off the queue, oldest first. -/
  acked : List String

structure Certificate where
  pem : Bytes := []
  fingerprint : String := ""
  issuer : String := ""
deriving DecidableEq, Repr

/-- `signer.Template`; the one network is `ip/bits`. -/
structure Template where
  name : String
  ip : Addr
  bits : Nat
  groups : List String
  notBefore : Int
  notAfter : Int
  publicKey : Bytes
deriving DecidableEq, Repr

structure BundleSources where
  caBundle : List String := []
  configSigningKeys : List String := []
  configKeyVersion : Int := 0
  lighthouses : List String := []
  blocklist : List String := []
  binaries : List String := []
deriving DecidableEq, Repr

structure Bundle where
  issuedAt : Int
  deviceName : String
  overlayIP : String
  groups : List String
  certificate : Bytes
  notAfter : Int
  sources : BundleSources
deriving DecidableEq, Repr

/-- The columns `Approve` writes besides the status. -/
structure Issued where
  certPEM : Bytes
  overlayIP : String
  fingerprint : String
  caFingerprint : String
  decidedAt : Int
  approver : String
  ephemeral : Bool
deriving DecidableEq, Repr

def Issued.apply (issued : Issued) (row : Enrollment) : Enrollment :=
  { row with
    status := .issued
    certPEM := issued.certPEM
    overlayIP := issued.overlayIP
    fingerprint := issued.fingerprint
    caFingerprint := issued.caFingerprint
    decidedAt := issued.decidedAt
    approver := issued.approver
    ephemeral := issued.ephemeral }

/-- The columns `Deny` writes. -/
def denyRow (decidedAt : Int) (approver : String) (row : Enrollment) :
    Enrollment :=
  { row with status := .denied, decidedAt := decidedAt, approver := approver }

inductive InsertError where
  | duplicatedKey
  | failed (text : String)
deriving DecidableEq, Repr

inductive Statement where
  | clock
  | findEnrollment (enrollmentID : String)
  | observe (nonce : String)
  | findJoinKey (secretHash : Bytes)
  | findJoinKeyByID (id : Int)
  | countEnrollments (joinKeyID cutoff : Int)
  | consumeJoinKey (id maxUses : Int)
  | createEnrollment (row : Enrollment)
  | claimIssued (enrollmentID : String) (issued : Issued)
  | claimDenied (enrollmentID : String) (decidedAt : Int) (approver : String)
  | resolveNetblock (name : String)
  | resolveFull (name : String)
  | carves
  | grow (name : String)
  | firstOrCreateDevice (name : String) (createdAt : Int)
  | purgeExpiredQuarantine
  | pluckAllocations
  | createAllocation (row : Allocation)
  | deleteAllocation (ip : Addr)
  | quarantineAllocation (ip : Addr) (ttl : Int)
  | sign (template : Template)
  | bundleSources (goos goarch : String)
  | signBundle (bundle : Bundle)
  | attest (pres : AwsAttest.PresignedRequest) (nonce pubkeyHash : String)
  | userTrustActive
  | putResult (delivery : Delivery)
  | claim (limit : Nat) (leaseTTL : Int)
  | pendingResultIDs
  | ackItem (id : Int)
  | nackItem (id : Int)

def Statement.Answer : Statement → Type
  | .clock => Int
  | .findEnrollment _ => Except String (Option Enrollment)
  | .observe _ => Except String Bool
  | .findJoinKey _ | .findJoinKeyByID _ => Except String (Option JoinKey)
  | .countEnrollments _ _ | .consumeJoinKey _ _ => Except String Nat
  | .createEnrollment _ => Except String Unit
  | .claimIssued _ _ | .claimDenied _ _ _ => Except String Nat
  | .resolveNetblock _ => Except String Prefix
  | .resolveFull _ => Except String Resolved
  | .carves => Except String (List Prefix)
  | .grow _ => Except String (Option Prefix)
  | .firstOrCreateDevice _ _ => Except String Device
  | .purgeExpiredQuarantine => Except String Unit
  | .pluckAllocations => Except String (List Addr)
  | .createAllocation _ => Except InsertError Unit
  | .deleteAllocation _ | .quarantineAllocation _ _ => Except String Nat
  | .sign _ => Except String Certificate
  | .bundleSources _ _ => BundleSources
  | .signBundle _ => Except String Bytes
  | .attest _ _ _ => Except AwsAttest.VerifyError AwsAttest.Identity
  | .userTrustActive => Option UserTrust.Config
  | .putResult _ => Except String Unit
  | .claim _ _ => Except String (List Leased)
  | .pendingResultIDs => Except String (List String)
  | .ackItem _ | .nackItem _ => Except String Unit

def wholeSpace : Prefix :=
  ⟨0, 0, by decide, by decide⟩

structure Choice where
  fault : Fault := .ok
  text : String := ""
  now : Int := 0
  cidr : Prefix := wholeSpace
  resolved : Resolved := { cidr := wholeSpace }
  carves : List Prefix := []
  grown : Option Prefix := none
  certificate : Certificate := {}
  sources : BundleSources := {}
  seed : Nat := 0
  identity : Except AwsAttest.VerifyError AwsAttest.Identity :=
    .error .binding
  userTrust : Option UserTrust.Config := none

def Choice.database {Value : Type} (choice : Choice) (before : World)
    (value : Value) (after : World) : Except String Value × World :=
  choice.fault.settle (.error choice.text) before (.ok value, after)

/-- The signing functions and constants outside the model: `signJWS` makes
the bundle JWS with some randomness, `mac` authenticates queue items. -/
structure Env where
  signJWS : Nat → Bundle → Bytes
  mac : Candidate → Bytes
  maxAttempts : Nat
  replayTTL : Int

namespace World

variable (world : World) (choice : Choice)

/-- `INSERT … ON CONFLICT DO NOTHING` into `nonce_replays`: whether the nonce
was new. -/
def observe (env : Env) (nonce : String) : Except String Bool × World :=
  match world.nonces.insert? { nonce := nonce, expiresAt := choice.now + env.replayTTL } with
  | some nonces => choice.database world true { world with nonces := nonces }
  | none => choice.database world false world

def consumeJoinKey (id maxUses : Int) : Except String Nat × World :=
  choice.database world (world.joinKeys.consume id maxUses).1
    { world with joinKeys := (world.joinKeys.consume id maxUses).2 }

def createEnrollment (row : Enrollment) : Except String Unit × World :=
  match world.enrollments.insert? { row with id := nextID (world.enrollments.rows.map (·.id)) } with
  | some rows => choice.database world () { world with enrollments := rows }
  | none => (.error choice.text, world)

/-- `enrollment_id = ? AND status = 'pending'`. -/
def isPending (enrollmentID : String) (row : Enrollment) : Bool :=
  row.enrollmentID == enrollmentID && row.status == .pending

/-- The conditional update of `Approve` and `Deny`, with the number of rows it
reports. -/
def claimPending (enrollmentID : String) (change : Enrollment → Enrollment)
    (keepsKey : ∀ row, (change row).enrollmentID = row.enrollmentID) : Except String Nat × World :=
  choice.database world (world.enrollments.affected (isPending enrollmentID))
    { world with
      enrollments :=
        world.enrollments.update (isPending enrollmentID) change keepsKey }

def firstOrCreateDevice (name : String) (createdAt : Int) : Except String Device × World :=
  match world.devices.find name with
  | some device => choice.database world device world
  | none =>
    let device : Device :=
      { id := nextID (world.devices.rows.map (·.id))
        name := name
        createdAt := createdAt }
    match world.devices.insert? device with
    | some devices =>
      choice.database world device { world with devices := devices }
    | none => (.error choice.text, world)

def createAllocation (row : Allocation) : Except InsertError Unit × World :=
  choice.fault.settle (.error (.failed choice.text)) world (match world.allocations.insert? row with
      | some allocations =>
        (.ok (), { world with allocations := allocations })
      | none => (.error .duplicatedKey, world))

/-- `Ack`, with the id of the enrollment that leaves the queue logged. -/
def ackItem (id : Int) : Except String Unit × World :=
  choice.database world ()
    { world with
      items := Queue.ack world.items id
      acked := world.acked ++
        ((world.items.find id).map (·.candidate.enrollmentID)).toList }

def nackItem (env : Env) (id : Int) : Except String Unit × World :=
  match Queue.nack world.items env.maxAttempts id with
  | some items => choice.database world () { world with items := items }
  | none => (.error choice.text, world)

end World

def execute (env : Env) (choice : Choice) (world : World) :
    (statement : Statement) → statement.Answer × World
  | .clock => (choice.now, world)
  | .findEnrollment enrollmentID =>
    choice.database world (world.enrollments.find enrollmentID) world
  | .observe nonce => world.observe choice env nonce
  | .findJoinKey secretHash =>
    choice.database world (world.joinKeys.findActive secretHash) world
  | .findJoinKeyByID id => choice.database world (world.joinKeys.find id) world
  | .countEnrollments joinKeyID cutoff =>
    choice.database world (world.enrollments.rows.countP fun row =>
        row.joinKeyID == joinKeyID && (row.status == .pending || row.status == .issued) &&
          decide (cutoff < row.createdAt)) world
  | .consumeJoinKey id maxUses => world.consumeJoinKey choice id maxUses
  | .createEnrollment row => world.createEnrollment choice row
  | .claimIssued enrollmentID issued =>
    world.claimPending choice enrollmentID issued.apply fun _ => rfl
  | .claimDenied enrollmentID decidedAt approver =>
    world.claimPending choice enrollmentID (denyRow decidedAt approver) fun _ => rfl
  | .resolveNetblock _ => choice.database world choice.cidr world
  | .resolveFull _ => choice.database world choice.resolved world
  | .carves => choice.database world choice.carves world
  | .grow _ => choice.database world choice.grown world
  | .firstOrCreateDevice name createdAt =>
    world.firstOrCreateDevice choice name createdAt
  | .purgeExpiredQuarantine =>
    choice.database world ()
      { world with
        allocations := world.allocations.purgeExpired choice.now }
  | .pluckAllocations =>
    choice.database world (world.allocations.rows.map (·.ip)) world
  | .createAllocation row => world.createAllocation choice row
  | .deleteAllocation ip =>
    choice.database world (world.allocations.affected fun row => row.ip == ip)
      { world with allocations := world.allocations.delete ip }
  | .quarantineAllocation ip ttl =>
    choice.database world (world.allocations.affected fun row =>
        row.ip == ip && row.state == .allocated)
      { world with
        allocations := world.allocations.quarantine ip choice.now
          (choice.now + ttl) }
  | .sign _ => choice.database world choice.certificate world
  | .bundleSources _ _ => (choice.sources, world)
  | .signBundle bundle =>
    choice.database world (env.signJWS choice.seed bundle) world
  | .attest _ _ _ => (choice.identity, world)
  | .userTrustActive => (choice.userTrust, world)
  | .putResult delivery =>
    choice.database world ()
      { world with
        results := Queue.putResult world.results delivery
        delivered := world.delivered ++ [delivery] }
  | .claim limit leaseTTL =>
    choice.database world
      (Queue.claim world.items env.mac limit leaseTTL choice.now).1
      { world with
        items :=
          (Queue.claim world.items env.mac limit leaseTTL choice.now).2 }
  | .pendingResultIDs =>
    choice.database world (Queue.pendingResultIDs world.results) world
  | .ackItem id => world.ackItem choice id
  | .nackItem id => world.nackItem choice env id

end Harbor.Consumer
