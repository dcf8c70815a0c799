import Harbor.Consumer.Allocator

/-!
# The enrollment consumer

`Process` verifies a queued candidate, decides it by its method and issues,
parks or denies it; `Approve` and `Deny` decide a parked enrollment; `Drain`
processes what it claims from the queue.  Each is a procedure over the
statements of `World`; appending to the audit log, whose errors every caller
drops, is left out.

The three methods of `Process` end alike, with the values of their own in an
`Admission`: `accept` records and delivers a pending enrollment, or issues,
builds the bundle, records and delivers.
-/

namespace Harbor.Consumer

open Library Library.Text Ipam Queue Policy

def methodToken : String := "token"

def methodAWSSigV4 : String := "aws-sigv4"

def methodOIDC : String := "oidc"

def providerSSO : String := "sso"

def typEnrollRequest : String := "ncp-request+jws"

/-- The fields of `wire.EnrollRequest` the consumer reads. -/
structure EnrollRequest where
  type : String := "enroll"
  nonce : String
  publicKey : String := ""
  requestedName : String := ""
  method : String
  credential : Bytes := []
  os : String := ""
  arch : String := ""
deriving DecidableEq, Repr

/-- The fields of `jws.Header` the consumer reads. -/
structure JWSHeader where
  typ : String
  kid : String
deriving DecidableEq, Repr

/-- `ssoassert.Assertion` after its window was checked. -/
structure Assertion where
  subject : String
  email : String := ""
  issuer : String
  idpGroups : List String := []
  pubkeyHash : String
  nonce : String
deriving DecidableEq, Repr

structure Codec where
  Envelope : Type
  Key : Type
  unmarshalEnvelope : Bytes → Option Envelope
  jwsPayload : Envelope → Option Bytes
  unmarshalRequest : Bytes → Option EnrollRequest
  decodeB64 : String → Option Bytes
  parsePoint : Bytes → Option Key
  verifyJWS : Envelope → Key → Option JWSHeader
  pubkeyHash : Bytes → String
  verifyNonce : (nonce binding : String) → (now : Int) → Except String Unit
  sha256 : String → Bytes
  token : Bytes → String
  presigned : Bytes → Except String AwsAttest.PresignedRequest
  assertion : Bytes → Option String
  verifyAssertion : String → (now : Int) → Except String Assertion
  hostname : String → Option String
  marshalGroups : List String → String
  unmarshalGroups : String → Option (List String)
  fold : CaseMap

/-- `enrollment.Config`; a nil function or key is a false flag. -/
structure Config where
  codec : Codec
  allocator : Allocator
  pool : Prefix
  certLifetime : Int := 0
  ephemeralCertTTL : Int := 0
  enrollWindow : Int := 0
  configBackend : Bool := true
  results : Bool := true
  resultTTL : Int := 0
  awsSigV4Enabled : Bool := false
  cloudTrust : Option CloudTrust.Config := none
  assertionVerifyKey : Bool := false
  userTrust : Bool := false

def hour : Int := 3600000000000

def minute : Int := 60000000000

def defaultEphemeralCertTTL : Int := 24 * hour

inductive Error where
  | badRequest
  | signature
  | nonce
  | replay
  | method (detail : String)
  | notPending
  | quota
  | reservedGroup (groups : String)
  | ssoNotConfigured
  | ssoAssertion (detail : String)
  | ssoBinding (detail : String)
  | ssoNotAllowed (realm : String)
  | joinKey (error : JoinKey.Error)
  | attestation (error : AwsAttest.VerifyError)
  | notAllowed (account : String)
  | replayStore (text : String)
  | lookup (text : String)
  | countQuota (text : String)
  | consume (text : String)
  | allocate (error : AllocateError)
  | sign (text : String)
  | bundle (text : String)
  | persistPending (text : String)
  | persistIssued (text : String)
  | database (text : String)
deriving DecidableEq, Repr

def Error.message : Error → String
  | .badRequest => "enrollment: malformed request"
  | .signature => "enrollment: request signature invalid"
  | .nonce => "enrollment: nonce invalid"
  | .replay => "enrollment: nonce replay"
  | .method detail => "enrollment: unsupported method: " ++ detail
  | .notPending => "enrollment: not a pending enrollment"
  | .quota => "enrollment: join-key enrollment quota exceeded"
  | .reservedGroup groups =>
    "enrollment: refusing to issue a reserved group " ++
      "(control-plane/lighthouse) via enrollment: " ++ groups
  | .ssoNotConfigured => "enrollment: SSO not configured"
  | .ssoAssertion detail => "enrollment: SSO assertion invalid: " ++ detail
  | .ssoBinding detail =>
    "enrollment: SSO assertion binding mismatch: " ++ detail
  | .ssoNotAllowed realm =>
    "enrollment: SSO identity not in user-trust: realm " ++ realm
  | .joinKey error | .attestation error => error.message
  | .notAllowed account =>
    "awsattest: caller account/role is not allowlisted: account " ++ account
  | .replayStore text => "enrollment: replay store: " ++ text
  | .lookup text => "joinkey: lookup: " ++ text
  | .countQuota text => "enrollment: count quota: " ++ text
  | .consume text => "joinkey: consume: " ++ text
  | .allocate error => "enrollment: allocate IP: " ++ error.message
  | .sign text => "enrollment: sign: " ++ text
  | .bundle text => text
  | .persistPending text => "enroll: persist pending enrollment: " ++ text
  | .persistIssued text => "enroll: persist issued enrollment: " ++ text
  | .database text => text

/-- The errors of `awsattest` listed in `terminal`. -/
def terminalAttestation : AwsAttest.VerifyError → Bool
  | .newRequest _ => false
  | _ => true

def terminal : Error → Bool
  | .badRequest | .signature | .nonce | .replay | .method _ | .quota
  | .reservedGroup _ | .joinKey _ | .notAllowed _ | .ssoNotConfigured
  | .ssoAssertion _ | .ssoBinding _ | .ssoNotAllowed _ => true
  | .attestation error => terminalAttestation error
  | _ => false

structure Result where
  enrollmentID : String
  status : Enrollment.Status
  overlayIP : String := ""
  certPEM : Bytes := []
deriving DecidableEq, Repr

structure Evidence where
  provider : String := ""
  account : String := ""
  principal : String := ""
  region : String := ""
  verifiedAt : Int := 0
deriving DecidableEq, Repr

/-- What `verify` hands on. -/
structure Verified where
  req : EnrollRequest
  pubBytes : Bytes
deriving DecidableEq, Repr

def deviceName (req : EnrollRequest) (pubkeyHash : String) : String :=
  if req.requestedName ≠ "" then req.requestedName
  else "dev-" ++ String.ofList (pubkeyHash.toList.take 10)

def provenanceMethod (wireMethod : String) : String :=
  if wireMethod = methodOIDC then providerSSO else wireMethod

/-- `strings.TrimPrefix`. -/
def dropLeading (lead text : List Char) : List Char :=
  if lead.isPrefixOf text then text.drop lead.length else text

/-- `strings.TrimSuffix`. -/
def dropTrailing (trail text : List Char) : List Char :=
  if trail.isSuffixOf text then text.take (text.length - trail.length) else text

def regionFromSTSURL (codec : Codec) (raw : String) : String :=
  match codec.hostname raw with
  | none => ""
  | some host =>
    let h := dropTrailing ".amazonaws.com".toList host.toList
    let h := dropLeading ".".toList (dropLeading "sts".toList h)
    if h = [] then "global" else String.ofList h

namespace Config

variable (c : Config)

def certTTL (ephemeral : Bool) : Int :=
  if !ephemeral then c.certLifetime
  else if 0 < c.ephemeralCertTTL then c.ephemeralCertTTL
  else defaultEphemeralCertTTL

/-- The part of `verify` that reads nothing but the candidate. -/
def checkRequest (cand : Candidate) : Except Error Verified :=
  match c.codec.unmarshalEnvelope cand.requestJWS with
  | none => .error .badRequest
  | some env =>
    match c.codec.jwsPayload env with
    | none => .error .badRequest
    | some plBytes =>
      match c.codec.unmarshalRequest plBytes with
      | none => .error .badRequest
      | some req =>
        if req.type ≠ "enroll" ∨ req.nonce = "" then .error .badRequest
        else
          match c.codec.decodeB64 req.publicKey with
          | none => .error .badRequest
          | some pubBytes =>
            if pubBytes.length ≠ 65 then .error .badRequest
            else
              match c.codec.parsePoint pubBytes with
              | none => .error .badRequest
              | some pub =>
                let pubkeyHash := c.codec.pubkeyHash pubBytes
                match c.codec.verifyJWS env pub with
                | none => .error .signature
                | some hdr =>
                  if hdr.typ ≠ typEnrollRequest ∨ hdr.kid ≠ pubkeyHash ∨
                      pubkeyHash ≠ cand.pubkeyHash then
                    .error .signature
                  else .ok { req := req, pubBytes := pubBytes }

def verify (cand : Candidate) : Run (Except Error Verified) :=
  match c.checkRequest cand with
  | .error error => return .error error
  | .ok verified => do
    let now ← clock
    match c.codec.verifyNonce verified.req.nonce (c.codec.pubkeyHash verified.pubBytes) now with
    | .error _ => return .error .nonce
    | .ok () =>
      match ← send (.observe verified.req.nonce) with
      | .error text => return .error (.replayStore text)
      | .ok false => return .error .replay
      | .ok true => return .ok verified

def existing (enrollmentID : String) : Run (Option Result) := do
  match ← send (.findEnrollment enrollmentID) with
  | .ok (some e) =>
    return some
      { enrollmentID := enrollmentID
        status := e.status
        overlayIP := e.overlayIP
        certPEM := e.certPEM }
  | _ => return none

/-- The columns of an enrollment that differ between the calls of `record`. -/
structure Entry where
  joinKeyID : Int := 0
  groups : List String := []
  subRange : String := ""
  status : Enrollment.Status
  certPEM : Bytes := []
  ip : String := ""
  fingerprint : String := ""
  caFingerprint : String := ""
  evidence : Evidence := {}
  ephemeral : Bool := false

/-- The row `record` inserts; its `id` is chosen by the database. -/
def enrollmentRow (enrollmentID : String) (verified : Verified) (entry : Entry)
    (createdAt decidedAt : Int) : Enrollment where
  id := 0
  enrollmentID := enrollmentID
  deviceName := deviceName verified.req (c.codec.pubkeyHash verified.pubBytes)
  pubkeyHash := c.codec.pubkeyHash verified.pubBytes
  pubkey := verified.pubBytes
  method := verified.req.method
  joinKeyID := entry.joinKeyID
  groups := entry.groups
  desiredGroups := entry.groups
  subRange := entry.subRange
  status := entry.status
  certPEM := entry.certPEM
  overlayIP := entry.ip
  fingerprint := entry.fingerprint
  caFingerprint := entry.caFingerprint
  createdAt := createdAt
  decidedAt := decidedAt
  ephemeral := entry.ephemeral
  attestProvider := entry.evidence.provider
  attestAccount := entry.evidence.account
  attestPrincipal := entry.evidence.principal
  attestRegion := entry.evidence.region
  verifiedAt := entry.evidence.verifiedAt
  goos := verified.req.os
  goarch := verified.req.arch

/-- `DB.Create(&e)`. -/
def create (row : Enrollment) : Run (Except String Unit) :=
  send (.createEnrollment row)

def record (enrollmentID : String) (verified : Verified) (entry : Entry) :
    Run (Except String Unit) := do
  let createdAt ← clock
  if entry.status = .pending then
    create (c.enrollmentRow enrollmentID verified entry createdAt 0)
  else
    let decidedAt ← clock
    create (c.enrollmentRow enrollmentID verified entry createdAt decidedAt)

def writeResult (enrollmentID : String) (secretHash bundleJWS : Bytes)
    (status : Enrollment.Status) (reason : String) : Run Unit :=
  if c.results = false then return ()
  else if status = .pending then do
    let _ ← send (.putResult
      { enrollmentID := enrollmentID
        status := status
        secretHash := secretHash
        bundle := bundleJWS
        reason := reason
        expiresAt := 0 })
    return ()
  else do
    let now ← clock
    let ttl := if c.resultTTL ≤ 0 then hour else c.resultTTL
    let _ ← send (.putResult
      { enrollmentID := enrollmentID
        status := status
        secretHash := secretHash
        bundle := bundleJWS
        reason := reason
        expiresAt := now + ttl })
    return ()

def deny (cand : Candidate) (verified : Verified) (reason : String) :
    Run Unit := do
  let _ ← c.record cand.enrollmentID verified { status := .denied }
  c.writeResult cand.enrollmentID cand.retrievalSecretHash [] .denied reason

/-- What `issue` returns. -/
structure Issuance where
  ip : Addr
  certPEM : Bytes
  fingerprint : String
  caFingerprint : String
  notAfter : Int
deriving DecidableEq, Repr

def issue (deviceName : String) (pubBytes : Bytes) (groups : List String)
    (netblockName method : String) (ephemeral : Bool) : Run (Except Error Issuance) :=
  if grantsReservedGroup groups then
    return .error (.reservedGroup (c.codec.marshalGroups groups))
  else do
    match ← c.allocator.allocate deviceName netblockName method with
    | .error error => return .error (.allocate error)
    | .ok ip =>
      let now ← clock
      let nb := now - 5 * minute
      let notAfter := nb + c.certTTL ephemeral
      match ← send (.sign
          { name := deviceName
            ip := ip
            bits := c.pool.bits
            groups := groups
            notBefore := nb
            notAfter := notAfter
            publicKey := pubBytes }) with
      | .error text =>
        let _ ← c.allocator.release ip
        return .error (.sign text)
      | .ok cert =>
        return .ok
          { ip := ip
            certPEM := cert.pem
            fingerprint := cert.fingerprint
            caFingerprint := c.codec.fold.lower (trimSpace cert.issuer)
            notAfter := notAfter }

/-- `buildBundle`; nil when no config-signing backend is configured. -/
def buildBundle (deviceName ip : String) (groups : List String)
    (certPEM : Bytes) (notAfter : Int) (goos goarch : String) : Run (Except Error Bytes) :=
  if c.configBackend = false then return .ok []
  else do
    let issuedAt ← clock
    let sources ← send (.bundleSources goos goarch)
    match ← send (.signBundle
        { issuedAt := issuedAt
          deviceName := deviceName
          overlayIP := ip
          groups := groups
          certificate := certPEM
          notAfter := notAfter
          sources := sources }) with
    | .error text => return .error (.bundle text)
    | .ok bundleJWS => return .ok bundleJWS

structure Admission where
  autoIssue : Bool
  joinKeyID : Int := 0
  groups : List String
  netblock : String
  provenance : String
  evidence : Evidence := {}
  ephemeral : Bool := false

def recordIssued (cand : Candidate) (verified : Verified) (entry : Entry)
    (issuance : Issuance) (bundleJWS : Bytes) : Run (Except Error Result) := do
  match ← c.record cand.enrollmentID verified { entry with
      status := .issued
      certPEM := issuance.certPEM
      ip := addrString issuance.ip
      fingerprint := issuance.fingerprint
      caFingerprint := issuance.caFingerprint } with
  | .error text => return .error (.persistIssued text)
  | .ok () =>
    c.writeResult cand.enrollmentID cand.retrievalSecretHash bundleJWS .issued ""
    return .ok
      { enrollmentID := cand.enrollmentID
        status := .issued
        overlayIP := addrString issuance.ip
        certPEM := issuance.certPEM }

/-- The end of `Process`, `processAttested` and `processSSO`. -/
def accept (cand : Candidate) (verified : Verified) (admission : Admission) :
    Run (Except Error Result) :=
  let entry : Entry :=
    { joinKeyID := admission.joinKeyID
      groups := admission.groups
      subRange := admission.netblock
      status := .pending
      evidence := admission.evidence
      ephemeral := admission.ephemeral }
  if admission.autoIssue = false then do
    match ← c.record cand.enrollmentID verified entry with
    | .error text => return .error (.persistPending text)
    | .ok () =>
      c.writeResult cand.enrollmentID cand.retrievalSecretHash [] .pending ""
      return .ok { enrollmentID := cand.enrollmentID, status := .pending }
  else do
    let name := deviceName verified.req cand.pubkeyHash
    match ← c.issue name verified.pubBytes admission.groups admission.netblock
        admission.provenance admission.ephemeral with
    | .error error => return .error error
    | .ok issuance =>
      match ← c.buildBundle name (addrString issuance.ip) admission.groups
          issuance.certPEM issuance.notAfter verified.req.os verified.req.arch with
      | .error error => return .error error
      | .ok bundleJWS =>
        c.recordIssued cand verified entry issuance bundleJWS

def reject (cand : Candidate) (verified : Verified) (reason : String)
    (error : Error) : Run (Except Error Result) := do
  c.deny cand verified reason
  return .error error

/-- `joinkey.Lookup`. -/
def lookup (token : String) (now : Int) : Run (Except Error JoinKey) := do
  match ← send (.findJoinKey (c.codec.sha256 token)) with
  | .error text => return .error (.lookup text)
  | .ok none => return .error (.joinKey .notFound)
  | .ok (some key) =>
    match key.check now with
    | .error error => return .error (.joinKey error)
    | .ok key => return .ok key

def recentEnrollments (joinKeyID : Int) : Run (Except Error Nat) := do
  let now ← clock
  let window := if c.enrollWindow ≤ 0 then hour else c.enrollWindow
  match ← send (.countEnrollments joinKeyID (now - window)) with
  | .error text => return .error (.countQuota text)
  | .ok n => return .ok n

/-- `joinkey.Consume`. -/
def consume (key : JoinKey) : Run (Except Error Unit) := do
  match ← send (.consumeJoinKey key.id key.maxUses) with
  | .error text => return .error (.consume text)
  | .ok 0 => return .error (.joinKey .exhausted)
  | .ok _ => return .ok ()

def consumeAndAccept (cand : Candidate) (verified : Verified) (key : JoinKey) :
    Run (Except Error Result) := do
  match ← consume key with
  | .error error => c.reject cand verified error.message error
  | .ok () =>
    c.accept cand verified
      { autoIssue := key.autoIssue
        joinKeyID := key.id
        groups := key.groups
        netblock := key.subRange
        provenance := methodToken
        ephemeral := key.ephemeral }

/-- The token branch of `Process`. -/
def processToken (cand : Candidate) (verified : Verified) : Run (Except Error Result) := do
  let now ← clock
  match ← c.lookup (c.codec.token verified.req.credential) now with
  | .error error => c.reject cand verified error.message error
  | .ok key =>
    if 0 < key.quotaPerHour then
      match ← c.recentEnrollments key.id with
      | .error error => return .error error
      | .ok n =>
        if key.quotaPerHour ≤ n then
          c.reject cand verified s!"join-key {key.name.quote} quota {key.quotaPerHour}/h exceeded"
            .quota
        else c.consumeAndAccept cand verified key
    else c.consumeAndAccept cand verified key

def attestationReason : AwsAttest.VerifyError → String
  | .stsUnavailable _ =>
    "cloud attestation verifier (AWS STS) is unavailable; re-enroll to retry"
  | error => "attestation rejected: " ++ error.message

def processAttested (cand : Candidate) (verified : Verified) : Run (Except Error Result) :=
  match c.awsSigV4Enabled, c.cloudTrust with
  | true, some trust =>
    match c.codec.presigned verified.req.credential with
    | .error text =>
      c.reject cand verified "malformed attestation credential" (.attestation (.badRequest text))
    | .ok pres => do
      match ← send (.attest pres verified.req.nonce (c.codec.pubkeyHash verified.pubBytes)) with
      | .error error =>
        c.reject cand verified (attestationReason error) (.attestation error)
      | .ok id =>
        match trust.matchAWS id with
        | none =>
          c.reject cand verified ("AWS account " ++ id.account ++ " / role " ++ id.arn ++
              " is not in the cloud-trust config") (.notAllowed id.account)
        | some grant =>
          let verifiedAt ← clock
          c.accept cand verified
            { autoIssue := grant.autoIssue
              groups := grant.groups
              netblock := grant.netblock
              provenance := methodAWSSigV4
              evidence :=
                { provider := CloudTrust.providerAWS
                  account := id.account
                  principal := id.arn
                  region := regionFromSTSURL c.codec pres.url
                  verifiedAt := verifiedAt } }
  | _, _ =>
    c.reject cand verified "aws-sigv4 attestation is not enabled on this control plane"
      (.method "aws-sigv4 disabled")

/-- The binding checks of `processSSO` on a verified assertion. -/
def checkBinding (verified : Verified) (a : Assertion) (now : Int) : Option (String × String) :=
  let pubkeyHash := c.codec.pubkeyHash verified.pubBytes
  if a.pubkeyHash ≠ pubkeyHash then
    some ("SSO assertion is bound to a different device key", "pubkey hash")
  else if a.nonce ≠ verified.req.nonce then
    some ("SSO assertion is bound to a different enrollment nonce", "nonce mismatch")
  else
    match c.codec.verifyNonce a.nonce pubkeyHash now with
    | .error text =>
      some ("SSO assertion nonce is not authentic for this device", text)
    | .ok () => none

/-- `processSSO` from the assertion text on. -/
def processAssertion (cand : Candidate) (verified : Verified)
    (active : UserTrust.Config) (assertion : String) : Run (Except Error Result) := do
  let now ← clock
  match c.codec.verifyAssertion assertion now with
  | .error text =>
    c.reject cand verified ("SSO assertion rejected: " ++ text) (.ssoAssertion text)
  | .ok a =>
    let checkedAt ← clock
    match c.checkBinding verified a checkedAt with
    | some (reason, detail) =>
      c.reject cand verified reason (.ssoBinding detail)
    | none =>
      match UserTrust.matchEntries active a.issuer a.idpGroups with
      | none =>
        c.reject cand verified s!"SSO identity {a.subject.quote}
          (realm {a.issuer.quote}) is in no trusted user-trust group" (.ssoNotAllowed a.issuer)
      | some grant =>
        let verifiedAt ← clock
        c.accept cand verified
          { autoIssue :=
              grant.autoIssue && !grantsReservedGroup grant.groups
            groups := grant.groups
            netblock := grant.netblock
            provenance := providerSSO
            evidence :=
              { provider := providerSSO
                account := a.issuer
                principal := if a.email = "" then a.subject else a.email
                region := c.codec.marshalGroups a.idpGroups
                verifiedAt := verifiedAt } }

def processSSO (cand : Candidate) (verified : Verified) : Run (Except Error Result) :=
  if c.assertionVerifyKey = false ∨ c.userTrust = false then
    c.reject cand verified
      "SSO enrollment is not configured on this control plane" .ssoNotConfigured
  else do
    match ← send .userTrustActive with
    | none =>
      c.reject cand verified "no user-trust config has been published" .ssoNotConfigured
    | some active =>
      match c.codec.assertion verified.req.credential with
      | none =>
        c.reject cand verified "malformed SSO credential envelope"
          (.ssoAssertion "malformed credential envelope")
      | some assertion => c.processAssertion cand verified active assertion

def process (cand : Candidate) : Run (Except Error Result) := do
  match ← existing cand.enrollmentID with
  | some result => return .ok result
  | none =>
    match ← c.verify cand with
    | .error error => return .error error
    | .ok verified =>
      if verified.req.method = methodAWSSigV4 then
        c.processAttested cand verified
      else if verified.req.method = methodOIDC then
        c.processSSO cand verified
      else if verified.req.method = methodToken then
        c.processToken cand verified
      else
        return .error (.method (verified.req.method.quote ++
          " (token/join-key, aws-sigv4 and oidc/sso are implemented)"))

/-- The SSO case of `approveNetblock`. -/
def approveNetblockSSO (e : Enrollment) : Run String :=
  if e.method = methodOIDC ∧ c.userTrust = true ∧ e.attestProvider = providerSSO then do
    match ← send .userTrustActive with
    | none => return ""
    | some active =>
      let groups := (c.codec.unmarshalGroups e.attestRegion).getD []
      match UserTrust.matchEntries active e.attestAccount groups with
      | some grant => return grant.netblock
      | none => return ""
  else return ""

def approveNetblock (e : Enrollment) : Run String :=
  if e.joinKeyID ≠ 0 then do
    match ← send (.findJoinKeyByID e.joinKeyID) with
    | .ok (some key) => return key.subRange
    | _ => return ""
  else if e.method = methodAWSSigV4 ∧ e.attestProvider = CloudTrust.providerAWS then
    match c.cloudTrust.bind fun trust =>
        trust.matchAWS ⟨e.attestAccount, e.attestPrincipal, ""⟩ with
    | some grant => return grant.netblock
    | none => c.approveNetblockSSO e
  else c.approveNetblockSSO e

def approveEphemeral (e : Enrollment) : Run Bool :=
  if e.joinKeyID ≠ 0 then do
    match ← send (.findJoinKeyByID e.joinKeyID) with
    | .ok (some key) => return key.ephemeral
    | _ => return e.ephemeral
  else return false

/-- The row an `Approve` or `Deny` starts from. -/
def loadPending (enrollmentID : String) : Run (Except Error Enrollment) := do
  match ← send (.findEnrollment enrollmentID) with
  | .error text => return .error (.database text)
  | .ok none => return .error .notPending
  | .ok (some e) =>
    if e.status ≠ .pending then return .error .notPending else return .ok e

/-- `Approve` once it has issued: claim the row, then build and deliver. -/
def commitApproval (enrollmentID approver : String) (e : Enrollment)
    (ephemeral : Bool) (issuance : Issuance) : Run (Except Error Result) := do
  let now ← clock
  match ← send (.claimIssued enrollmentID
      { certPEM := issuance.certPEM
        overlayIP := addrString issuance.ip
        fingerprint := issuance.fingerprint
        caFingerprint := issuance.caFingerprint
        decidedAt := now
        approver := approver
        ephemeral := ephemeral }) with
  | .error text =>
    let _ ← c.allocator.release issuance.ip
    return .error (.database text)
  | .ok 0 =>
    let _ ← c.allocator.release issuance.ip
    return .error .notPending
  | .ok _ =>
    match ← c.buildBundle e.deviceName (addrString issuance.ip) e.groups
        issuance.certPEM issuance.notAfter e.goos e.goarch with
    | .error error => return .error error
    | .ok bundleJWS =>
      c.writeResult enrollmentID [] bundleJWS .issued ""
      return .ok
        { enrollmentID := enrollmentID
          status := .issued
          overlayIP := addrString issuance.ip
          certPEM := issuance.certPEM }

def netblockOf (e : Enrollment) : Run String :=
  if e.subRange = "" then c.approveNetblock e else return e.subRange

def approve (enrollmentID approver : String) : Run (Except Error Result) := do
  match ← loadPending enrollmentID with
  | .error error => return .error error
  | .ok e =>
    let netblockName ← c.netblockOf e
    let ephemeral ← approveEphemeral e
    match ← c.issue e.deviceName e.pubkey e.groups netblockName
        (provenanceMethod e.method) ephemeral with
    | .error error => return .error error
    | .ok issuance =>
      c.commitApproval enrollmentID approver e ephemeral issuance

/-- The exported `Deny`. -/
def denyPending (enrollmentID approver reason : String) : Run (Except Error Result) := do
  match ← loadPending enrollmentID with
  | .error error => return .error error
  | .ok _ =>
    let now ← clock
    match ← send (.claimDenied enrollmentID now approver) with
    | .error text => return .error (.database text)
    | .ok 0 => return .error .notPending
    | .ok _ =>
      c.writeResult enrollmentID [] [] .denied reason
      return .ok { enrollmentID := enrollmentID, status := .denied }

/-- Whether `Drain` gives the candidate back to the queue. -/
def retried : Except Error Result → Bool
  | .ok _ => false
  | .error error => !terminal error

/-- One turn of the loop in `Drain`, with the outcome of `Process`. -/
def handle (leased : Leased) : Run (Except Error Result) := do
  let outcome ← c.process leased.candidate
  if retried outcome = true then
    let _ ← send (.nackItem leased.id)
    return outcome
  else
    let _ ← send (.ackItem leased.id)
    return outcome

end Config

end Harbor.Consumer
