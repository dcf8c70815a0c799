import Harbor.AwsAttest.Headers
import Harbor.Library.MapOrder
import Harbor.Library.Table

/-!
# Core-side attestation check

`verify` follows `awsattest.Verify`: it checks the presigned request, forwards
it to STS and reads the caller identity from the answer.  The header map is
iterated twice, once by `lowerHeaders` for the checks and once to fill the
request that is sent, so the two iteration orders are separate arguments.
-/

namespace Harbor.AwsAttest

open Library Library.Text List

def headerNonce : String := "X-Harbor-Nonce"

def headerPubkeyHash : String := "X-Harbor-Pubkey-Hash"

def stsBody : String := "Action=GetCallerIdentity&Version=2011-06-15"

inductive VerifyError where
  | badRequest (detail : String)
  | binding
  | unsignedBinding
  | badEndpoint
  | newRequest (detail : String)
  | stsUnavailable (detail : String)
  | attestation (detail : String)
deriving DecidableEq, Repr

def VerifyError.message : VerifyError → String
  | .badRequest detail => "awsattest: malformed presigned request: " ++ detail
  | .binding => "awsattest: nonce/pubkey binding mismatch"
  | .unsignedBinding =>
    "awsattest: binding header not covered by the SigV4 signature"
  | .badEndpoint =>
    "awsattest: STS endpoint is not an allowlisted AWS STS host"
  | .newRequest detail => detail
  | .stsUnavailable detail => "awsattest: STS unavailable: " ++ detail
  | .attestation detail => "awsattest: STS rejected the attestation: " ++ detail

abbrev HeaderMap := Table (Prod.fst : String × String → String)

structure PresignedRequest where
  method : String
  url : String
  headers : HeaderMap
  body : String

structure Identity where
  account : String
  arn : String
  userID : String
deriving DecidableEq, Repr

structure ParsedURL where
  scheme : String
  host : String
  hostname : String
deriving DecidableEq, Repr

/-- What the libraries decide: the lower case of letters, the reading of URLs
with the texts of its errors, and the text of the transport's errors. -/
structure Env where
  fold : CaseMap
  parseURL : String → Except String ParsedURL
  transportError : String := ""

/-- `agent` is the `User-Agent` the HTTP client sends by default. -/
structure VerifyConfig where
  endpoint : String := ""
  agent : String := "Go-http-client/1.1"

/-- A request handed to the transport; `header` is indexed by canonical keys. -/
structure SentRequest where
  target : String
  host : String
  body : String
  agent : String
  header : String → Option String

/-- The value of a header as it goes over the wire.  The transport writes
`Host` and `Content-Length` itself, leaves `Transfer-Encoding` and `Trailer`
out, and adds its own `User-Agent` and `Accept-Encoding` if there are none. -/
def SentRequest.value (sent : SentRequest) (name : String) : Option String :=
  let key := canonicalMIMEHeaderKey name
  if key = "Host" then some sent.host
  else if key = "Content-Length" then some (toString sent.body.utf8ByteSize)
  else if key = "Transfer-Encoding" ∨ key = "Trailer" then none
  else if key = "User-Agent" then
    match sent.header key with
    | none => some sent.agent
    | some agent => if agent = "" then none else some agent
  else if key = "Accept-Encoding" ∧ (sent.header key).getD "" = "" ∧
      (sent.header "Range").getD "" = "" then some "gzip"
  else sent.header key

/-- An HTTP answer with its decoded `GetCallerIdentityResult`, if it decodes. -/
structure Response where
  status : Nat
  result : Option Identity

/-- `strings.EqualFold(method, "POST")`; the long s folds to `S`. -/
def isPost (method : String) : Bool :=
  match method.toList with
  | [p, o, s, t] =>
    (p == 'P' || p == 'p') && (o == 'O' || o == 'o') &&
      (s == 'S' || s == 's' || s == '\u017f') && (t == 'T' || t == 't')
  | _ => false

def signedHeaderSet (fold : CaseMap) (authz : String) : Except VerifyError (List String) :=
  match afterFirst "SignedHeaders=".toList authz.toList with
  | none => .error (.badRequest "no Authorization/SignedHeaders")
  | some rest =>
    let listed := trimBoth isSpace (rest.takeWhile (· != ','))
    .ok ((listed.splitOn ';').map fun name => fold.lower (String.ofList name))

/-- The host pattern `sts(.region)?.amazonaws.com`, anchored at both ends. -/
def stsHost (host : String) : Bool :=
  let text := host.toList
  let middle := (text.drop 3).take (text.length - 17)
  "sts".toList.isPrefixOf text && ".amazonaws.com".toList.isSuffixOf text &&
    decide (17 ≤ text.length) &&
    match middle with
    | [] => true
    | c :: region =>
      c == '.' && !region.isEmpty && region.all fun c => c.isLower || c.isDigit || c == '-'

/-- What `lowerHeaders` returns for one iteration order; an absent key reads
as the empty string. -/
def lowerHeaders (fold : CaseMap) (order : List (String × String)) (name : String) : String :=
  (collect fold.lower order name).getD ""

def check (env : Env) (pres : PresignedRequest) (expectedNonce expectedPubkeyHash : String)
    (order : List (String × String)) : Except VerifyError ParsedURL :=
  if !isPost pres.method || pres.body != stsBody then
    .error (.badRequest "method/body")
  else if lowerHeaders env.fold order "x-harbor-nonce" ≠ expectedNonce ∨
      lowerHeaders env.fold order "x-harbor-pubkey-hash" ≠ expectedPubkeyHash then
    .error .binding
  else
    match signedHeaderSet env.fold (lowerHeaders env.fold order "authorization") with
    | .error error => .error error
    | .ok signed =>
      if "x-harbor-nonce" ∉ signed ∨ "x-harbor-pubkey-hash" ∉ signed ∨ "host" ∉ signed then
        .error .unsignedBinding
      else
        match env.parseURL pres.url with
        | .error _ => .error .badEndpoint
        | .ok u =>
          if u.scheme ≠ "https" ∨ stsHost u.hostname = false then
            .error .badEndpoint
          else .ok u

def transportAccepts (order : List (String × String)) : Bool :=
  order.all fun entry =>
    validHeaderFieldName (canonicalMIMEHeaderKey entry.1) && (collect canonicalMIMEHeaderKey order
        (canonicalMIMEHeaderKey entry.1)).all validHeaderFieldValue

def fieldValue (value : String) : String :=
  String.ofList (trimBoth (fun c => c == ' ' || c == '\t' || c == '\n' || c == '\r') value.toList)

def sentHeader (order : List (String × String)) (name : String) :
    Option String :=
  (collect canonicalMIMEHeaderKey order name).map fieldValue

def target (cfg : VerifyConfig) (pres : PresignedRequest) : String :=
  if cfg.endpoint ≠ "" then cfg.endpoint else pres.url

def buildRequest (cfg : VerifyConfig) (pres : PresignedRequest)
    (u : ParsedURL) (order : List (String × String)) : SentRequest where
  target := target cfg pres
  host := u.host
  body := pres.body
  agent := cfg.agent
  header := sentHeader order

def readResponse (transportError : String) : Option Response → Except VerifyError Identity
  | none => .error (.stsUnavailable transportError)
  | some response =>
    if response.status = 429 ∨ 500 ≤ response.status then
      .error (.stsUnavailable s!"STS status {response.status}")
    else if response.status ≠ 200 then
      .error (.attestation s!"STS status {response.status}")
    else
      match response.result with
      | none => .error (.attestation "unparseable STS response")
      | some identity =>
        if identity.account = "" then
          .error (.attestation "unparseable STS response")
        else .ok identity

/-- The values a signature covers are present for every header named in
`SignedHeaders`. -/
def Covers (fold : CaseMap) (covered : (authorization name : String) → String)
    (sent : SentRequest) : Prop :=
  ∃ authorization signed, sent.header "Authorization" = some authorization ∧
    signedHeaderSet fold authorization = .ok signed ∧
    ∀ name ∈ signed, sent.value name = some (covered authorization name)

/-- An STS that accepts a request only if its signature covers the values of
the headers named in its `SignedHeaders`. -/
structure Sts (fold : CaseMap) where
  covered : (authorization name : String) → String
  respond : SentRequest → Option Response
  honest : ∀ sent response, respond sent = some response →
    response.status = 200 → Covers fold covered sent

/-- `Verify`, together with the request it handed to the network. -/
def verify (env : Env) (cfg : VerifyConfig) (sts : Sts env.fold)
    (pres : PresignedRequest) (expectedNonce expectedPubkeyHash : String)
    (checkOrder sendOrder : List (String × String)) :
    Option SentRequest × Except VerifyError Identity :=
  match check env pres expectedNonce expectedPubkeyHash checkOrder with
  | .error error => (none, .error error)
  | .ok u =>
    match env.parseURL (target cfg pres) with
    | .error text => (none, .error (.newRequest text))
    | .ok _ =>
      if transportAccepts sendOrder then
        let sent := buildRequest cfg pres u sendOrder
        (some sent, readResponse env.transportError (sts.respond sent))
      else (none, .error (.stsUnavailable env.transportError))

theorem verify_eq_ok_iff : verify env cfg sts pres expectedNonce expectedPubkeyHash checkOrder
        sendOrder = (some sent, .ok ident) ↔
      ∃ u, check env pres expectedNonce expectedPubkeyHash checkOrder = .ok u ∧
        (∃ read, env.parseURL (target cfg pres) = .ok read) ∧
        transportAccepts sendOrder = true ∧ sent = buildRequest cfg pres u sendOrder ∧
        readResponse env.transportError (sts.respond sent) = .ok ident := by
  unfold verify
  cases checked : check env pres expectedNonce expectedPubkeyHash checkOrder with
  | error error => simp
  | ok u =>
    cases read : env.parseURL (target cfg pres) with
    | error text => simp
    | ok place =>
      by_cases took : transportAccepts sendOrder = true
      · simp only [took, if_true, Prod.mk.injEq, Option.some.injEq,
          true_and, Except.ok.injEq, exists_eq_left', exists_eq']
        constructor
        · intro outcome
          obtain ⟨rfl, told⟩ := outcome
          exact ⟨rfl, told⟩
        · intro outcome
          obtain ⟨rfl, told⟩ := outcome
          exact ⟨rfl, told⟩
      · simp [took]

theorem status_of_readResponse (read : readResponse text ans = .ok ident) :
    ∃ resp, ans = some resp ∧ resp.status = 200 := by
  cases ans with
  | none => simp [readResponse] at read
  | some resp =>
    refine ⟨resp, rfl, ?_⟩
    simp only [readResponse] at read
    split_ifs at read with unavailable rejected
    exact not_not.mp rejected

variable {order : List (String × String)}

theorem token_of_transportAccepts (took : transportAccepts order = true) (mem : entry ∈ order) :
    entry.1.toList.all isTokenChar = true := by
  have ok := all_eq_true.mp took entry mem
  simp only [validHeaderFieldName, Bool.and_eq_true] at ok
  by_cases token : entry.1.toList.all isTokenChar = true
  · exact token
  · have stay : canonicalMIMEHeaderKey entry.1 = entry.1 := by
      simp only [canonicalMIMEHeaderKey, if_neg token]
    rw [stay] at ok
    exact ok.1.2

theorem bound_of_check (checked : check env pres nonce pubkeyHash order = .ok u) :
    lowerHeaders env.fold order "x-harbor-nonce" = nonce ∧
      lowerHeaders env.fold order "x-harbor-pubkey-hash" = pubkeyHash ∧
      ∃ signed, signedHeaderSet env.fold (lowerHeaders env.fold order "authorization") =
          .ok signed ∧
        "x-harbor-nonce" ∈ signed ∧ "x-harbor-pubkey-hash" ∈ signed := by
  unfold check at checked
  split_ifs at checked with malformed unbound
  simp only [not_or, not_not] at unbound
  cases listed : signedHeaderSet env.fold (lowerHeaders env.fold order "authorization") with
  | error error =>
    rw [listed] at checked
    cases checked
  | ok signed =>
    rw [listed] at checked
    dsimp only at checked
    split_ifs at checked with unsigned
    simp only [not_or, not_not] at unsigned
    exact ⟨unbound.1, unbound.2, signed, rfl, unsigned.1, unsigned.2.1⟩

end Harbor.AwsAttest
