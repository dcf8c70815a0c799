import Harbor.Library.Run
import Mathlib.Data.List.Nodup

/-!
# The enrollment portal

A start request stores a session under a fresh token; the callback of the
identity provider takes the session of its `RelayState` out of the store and
signs an assertion for the device in it.  Each handler touches the store once,
under its lock, so a run is a sequence of these accesses, and what a handler
does before or after is part of its event.
-/

namespace Harbor.Portal

open Library List Function

inductive Code where
  | invalidRequest
  | invalidSignature
  | invalidNonce
  | notFound
  | internal
deriving DecidableEq, Repr

abbrev Failure := Code × String

structure Session where
  (pubkeyHash nonce redirect requestID : String)
  (expires : Int)

structure Subject where
  (id email : String)
  (groups : List String)

structure Assertion where
  (subject : Subject)
  (issuer pubkeyHash nonce : String)
  (issuedAt expiresAt : Int)

/-- The configuration, the libraries the portal calls and the one thing it
relies on: an accepted response answers the request it is checked against. -/
structure Env (Response : Type) where
  enabled : Bool
  (issuer samlName : String)
  (sessionTTL assertionTTL : Int)
  verify : Int → String → String → Bool
  isLoopbackRedirect : String → Bool
  validateACS : Response → String → Option Subject
  answers : Response → String → Prop
  honest : ∀ response id subject, validateACS response id = some subject → answers response id
  sign : Assertion → Option String
  parses : String → Bool

structure Query where
  (pubkeyHash nonce redirect : String)

/-- A stored session with its token and the times of its nonce check and of its
entry into the store. -/
structure Start where
  (token : String)
  (session : Session)
  (verifiedAt storedAt : Int)

/-- An assertion handed to a redirect. -/
structure Sent (Response : Type) where
  (token signed redirect : String)
  (assertion : Assertion)
  (response : Response)
  (takenAt : Int)

/-- The store, with all sessions it was given and all assertions sent. -/
structure State (Response : Type) where
  sessions : String → Option Session
  starts : List Start
  sent : List (Sent Response)

variable {Response : Type} (env : Env Response)

def gc (sessions : String → Option Session) (now : Int) : String → Option Session :=
  fun token => (sessions token).filter fun session => decide (now ≤ session.expires)

def put (state : State Response) (start : Start) : State Response :=
  { state with
    sessions := update (gc state.sessions start.storedAt) start.token (some start.session)
    starts := start :: state.starts }

def take (sessions : String → Option Session) (token : String) (now : Int) :
    Option Session × (String → Option Session) :=
  match sessions token with
  | none => (none, sessions)
  | some session =>
    (if session.expires < now then none else some session, update sessions token none)

def checkStart (q : Query) (now : Int) : Except Failure Unit :=
  if env.enabled = false then .error (.notFound, "SSO not enabled")
  else if q.pubkeyHash = "" ∨ 128 < q.pubkeyHash.utf8ByteSize then
    .error (.invalidRequest, "missing or oversized 'pubkey_hash'")
  else if q.nonce = "" then .error (.invalidRequest, "missing 'nonce'")
  else if q.redirect = "" ∨ 512 < q.redirect.utf8ByteSize then
    .error (.invalidRequest, "missing or oversized 'redirect'")
  else if env.isLoopbackRedirect q.redirect = false then
    .error (.invalidRequest, "redirect must target loopback (127.0.0.1/::1/localhost)")
  else if env.verify now q.nonce q.pubkeyHash = false then
    .error (.invalidNonce, "invalid or expired nonce")
  else .ok ()

/-- `requestID` is `none` when `AuthnRedirect` fails. -/
def handleSSOStart (state : State Response) (q : Query) (token : String)
    (requestID : Option String) (verifiedAt now : Int) : Except Failure (State Response) := do
  checkStart env q verifiedAt
  match requestID with
  | none => .error (.internal, "could not start SSO")
  | some requestID =>
    return put state ⟨token, ⟨q.pubkeyHash, q.nonce, q.redirect, requestID, now + env.sessionTTL⟩,
      verifiedAt, now⟩

def assertionFor (session : Session) (subject : Subject) (now : Int) : Assertion where
  subject := subject
  issuer := if env.issuer = "" then env.samlName else env.issuer
  pubkeyHash := session.pubkeyHash
  nonce := session.nonce
  issuedAt := now / 1000000000
  expiresAt := (now + env.assertionTTL) / 1000000000

/-- The part of the callback after `take`. -/
def conclude (session : Session) (token : String) (response : Response) (now takenAt : Int) :
    Except Failure (Sent Response) :=
  match env.validateACS response session.requestID with
  | none => .error (.invalidSignature, "SAML assertion did not verify")
  | some subject =>
    match env.sign (assertionFor env session subject now) with
    | none => .error (.internal, "could not sign assertion")
    | some signed =>
      if env.parses session.redirect = false then .error (.internal, "invalid loopback redirect")
      else
        .ok ⟨token, signed, session.redirect, assertionFor env session subject now,
          response, takenAt⟩

/-- The part of the callback that `take` begins. -/
def answer (state : State Response) (relayState : String) (response : Response)
    (takenAt now : Int) : Except Failure (Sent Response) × State Response :=
  match take state.sessions relayState takenAt with
  | (none, left) =>
    (.error (.invalidRequest, "unknown, expired, or already-used SSO session"),
      { state with sessions := left })
  | (some session, left) =>
    match conclude env session relayState response now takenAt with
    | .error failure => (.error failure, { state with sessions := left })
    | .ok out => (.ok out, { state with sessions := left, sent := out :: state.sent })

/-- `form` is `none` when `ParseForm` fails. -/
def handleSSOACS (state : State Response) (form : Option (String × Response))
    (takenAt now : Int) : Except Failure (Sent Response) × State Response :=
  if env.enabled = false then (.error (.notFound, "SSO not enabled"), state)
  else
    match form with
    | none => (.error (.invalidRequest, "could not parse SAML response"), state)
    | some (relayState, response) =>
      if relayState = "" ∨ 128 < relayState.utf8ByteSize then
        (.error (.invalidRequest, "missing RelayState"), state)
      else answer env state relayState response takenAt now

inductive Event (Response : Type) where
  | start (q : Query) (token : String) (requestID : Option String) (verifiedAt now : Int)
  | callback (form : Option (String × Response)) (takenAt now : Int)

def step (state : State Response) : Event Response → Option (State Response)
  | .start q token requestID verifiedAt now =>
    match handleSSOStart env state q token requestID verifiedAt now with
    | .error _ => some state
    | .ok after => some after
  | .callback form takenAt now =>
    some (handleSSOACS env state form takenAt now).2

/-- Tokens are drawn without repetition. -/
def Fresh (state : State Response) : Event Response → Prop
  | .start _ token _ _ _ => token ∉ state.starts.map Start.token
  | .callback .. => True

instance (state : State Response) : DecidablePred (Fresh state)
  | .start .. => inferInstanceAs (Decidable (_ ∉ _))
  | .callback .. => inferInstanceAs (Decidable True)

def empty : State Response := ⟨fun _ => none, [], []⟩

/-- What an assertion has to do with the start of its session. -/
structure Bound (start : Start) (out : Sent Response) : Prop where
  token : start.token = out.token
  device : out.assertion.pubkeyHash = start.session.pubkeyHash ∧
    out.assertion.nonce = start.session.nonce
  answers : env.answers out.response start.session.requestID
  inTime : out.takenAt ≤ start.storedAt + env.sessionTTL
  redirect : out.redirect = start.session.redirect

/-- What is known of a session from its start. -/
structure Checked (start : Start) : Prop where
  verified : env.verify start.verifiedAt start.session.nonce start.session.pubkeyHash = true
  loopback : env.isLoopbackRedirect start.session.redirect = true
  expires : start.session.expires = start.storedAt + env.sessionTTL

structure Sound (state : State Response) : Prop where
  distinct : (state.starts.map Start.token).Nodup
  checked : ∀ start ∈ state.starts, Checked env start
  stored : ∀ token session, state.sessions token = some session →
    token ∉ state.sent.map Sent.token ∧
      ∃ start ∈ state.starts, start.token = token ∧ start.session = session
  once : (state.sent.map Sent.token).Nodup
  bound : ∀ out ∈ state.sent, ∃ start ∈ state.starts, Bound env start out

variable {env} {state fin : State Response}

theorem checkStart_ok (good : checkStart env q now = .ok ()) :
    env.verify now q.nonce q.pubkeyHash = true ∧ env.isLoopbackRedirect q.redirect = true := by
  unfold checkStart at good
  split_ifs at good
  simp_all

theorem conclude_ok (done : conclude env sess tok resp now takenAt = .ok out) :
    out.token = tok ∧ (out.assertion.pubkeyHash = sess.pubkeyHash ∧
      out.assertion.nonce = sess.nonce) ∧ env.answers out.response sess.requestID ∧
      out.takenAt = takenAt ∧ out.redirect = sess.redirect := by
  unfold conclude at done
  split at done
  · cases done
  · rename_i subject took
    split at done
    · cases done
    · split_ifs at done
      cases done
      exact ⟨rfl, ⟨rfl, rfl⟩, env.honest _ _ _ took, rfl, rfl⟩

theorem take_spec (took : take sessions tok now = (held, l)) :
    (∀ o sess, l o = some sess → sessions o = some sess) ∧ ∀ sess, held = some sess →
        sessions tok = some sess ∧ now ≤ sess.expires ∧ l tok = none := by
  unfold take at took
  split at took
  · cases took
    exact ⟨fun _ _ => id, by rintro _ ⟨⟩⟩
  · rename_i sess hit
    cases took
    refine ⟨?_, ?_⟩
    · intro o sess kept
      by_cases eq : o = tok
      · simp [eq] at kept
      · simpa [eq] using kept
    · intro got hop
      split_ifs at hop with late
      cases hop
      exact ⟨hit, Int.not_lt.mp late, update_self ..⟩

namespace Sound

theorem fewer (inv : Sound env state)
    (less : ∀ tok session, l tok = some session → state.sessions tok = some session) :
    Sound env { state with sessions := l } where
  distinct := inv.distinct
  checked := inv.checked
  stored tok session hit := inv.stored tok session (less tok session hit)
  once := inv.once
  bound := inv.bound

theorem put {init : Start} (sound : Sound env state)
    (new : init.token ∉ state.starts.map Start.token) (checked : Checked env init) :
    Sound env (put state init) where
  distinct := nodup_cons.mpr ⟨new, sound.distinct⟩
  checked := forall_mem_cons.mpr ⟨checked, sound.checked⟩
  stored := by
    intro token sess hit
    by_cases eq : token = init.token
    · subst eq
      refine ⟨?_, init, mem_cons_self, rfl, by simpa [Portal.put] using hit⟩
      intro used
      obtain ⟨out, mem, equal⟩ := mem_map.mp used
      obtain ⟨older, known, bound⟩ := sound.bound out mem
      exact new (mem_map.mpr ⟨older, known, bound.token.trans equal⟩)
    · have kept : gc state.sessions init.storedAt token = some sess :=
        (update_of_ne eq ..).symm.trans hit
      obtain ⟨unused, older, known, facts⟩ := sound.stored token sess
        (Option.filter_eq_some_iff.mp kept).1
      exact ⟨unused, older, mem_cons_of_mem _ known, facts⟩
  once := sound.once
  bound out mem := by
    obtain ⟨older, known, bound⟩ := sound.bound out mem
    exact ⟨older, mem_cons_of_mem _ known, bound⟩

theorem send (inv : Sound env state) (took : take state.sessions tok now = (some session, l))
    (done : conclude env session tok response signedAt now = .ok out) :
    Sound env { state with sessions := l, sent := out :: state.sent } := by
  obtain ⟨less, got⟩ := take_spec took
  obtain ⟨hit, inTime, removed⟩ := got session rfl
  obtain ⟨rfl, d, answers, rfl, redirect⟩ := conclude_ok done
  obtain ⟨unused, init, seen, eq, rfl⟩ := inv.stored _ _ hit
  refine ⟨inv.distinct, inv.checked, ?_, nodup_cons.mpr ⟨unused, inv.once⟩, ?_⟩
  · intro o session kept
    obtain ⟨fr, facts⟩ := inv.stored o session (less o session kept)
    refine ⟨fun used => ?_, facts⟩
    rcases mem_cons.mp used with rfl | old
    · cases removed.symm.trans kept
    · exact fr old
  · refine forall_mem_cons.mpr ⟨⟨init, seen, eq, d, answers, ?_, redirect⟩, inv.bound⟩
    rw [← (inv.checked init seen).expires]
    exact inTime

theorem answer (inv : Sound env state) (relayState : String) (response : Response)
    (takenAt now : Int) : Sound env (answer env state relayState response takenAt now).2 := by
  unfold Portal.answer
  split
  · rename_i took
    exact inv.fewer (take_spec took).1
  · rename_i took
    split
    · exact inv.fewer (take_spec took).1
    · rename_i done
      exact inv.send took done

theorem step {e : Event Response} (inv : Sound env state) (new : Fresh state e)
    (hop : step env state e = some fin) : Sound env fin := by
  cases e with
  | start q tok requestID seenAt now =>
    simp only [Portal.step, handleSSOStart] at hop
    cases good : checkStart env q seenAt with
    | error failure =>
      rw [good] at hop
      cases hop
      exact inv
    | ok =>
      rw [good] at hop
      cases requestID with
      | none =>
        cases hop
        exact inv
      | some requestID =>
        cases hop
        obtain ⟨verified, loopback⟩ := checkStart_ok good
        exact inv.put new ⟨verified, loopback, rfl⟩
  | callback form takenAt now =>
    cases hop
    unfold handleSSOACS
    split_ifs
    · exact inv
    · split
      · exact inv
      · split_ifs
        · exact inv
        · exact inv.answer _ _ _ _

end Sound

/-- In every run with distinct tokens a session leads to at most one assertion,
and every assertion is bound to the start of its session: its device facts were
checked together, its response answers that request in time, and it went to
that loopback redirect. -/
theorem assertions_bound (env : Env Response) (state : State Response)
    (ran : Reaches (step env) Fresh empty state) :
    (state.starts.map Start.token).Nodup ∧ (state.sent.map Sent.token).Nodup ∧
      ∀ out ∈ state.sent, ∃ start ∈ state.starts, Bound env start out ∧ Checked env start := by
  have sound : Sound env state := by
    refine ran.invariant (Sound env) ?_ Sound.step
    exact ⟨.nil, by simp [empty], by simp [empty], .nil, by simp [empty]⟩
  refine ⟨sound.distinct, sound.once, ?_⟩
  intro out mem
  obtain ⟨start, known, bound⟩ := sound.bound out mem
  exact ⟨start, known, bound, sound.checked start known⟩

/-- A response is the request it answers; the nonce of a device names it. -/
def portal : Env String where
  enabled := true
  issuer := "realm"
  samlName := ""
  sessionTTL := 300
  assertionTTL := 180
  verify now nonce pubkeyHash := decide (now < 60) && nonce == pubkeyHash
  isLoopbackRedirect redirect := redirect == "http://localhost/"
  validateACS response id := if response = id then some ⟨"alice", "", []⟩ else none
  answers response id := response = id
  honest response id subject accepted := by
    split_ifs at accepted with same
    exact same
  sign _ := some "token"
  parses _ := true

/-- With a foreign redirect, a broken form, a crossed and a repeated answer. -/
def exchange : List (Event String) :=
  [.start ⟨"a", "a", "http://localhost/"⟩ "first" (some "id1") 0 0,
    .start ⟨"b", "b", "http://evil/"⟩ "second" (some "id2") 1 1,
    .start ⟨"b", "b", "http://localhost/"⟩ "third" (some "id3") 2 2,
    .callback none 7 7,
    .callback (some ("third", "id1")) 8 8,
    .callback (some ("first", "id1")) 9 9,
    .callback (some ("first", "id1")) 10 10]

theorem assertions_bound_reply :
    ∃ state, Reaches (step portal) Fresh empty state ∧
      state.sent.map (fun out => (out.token, out.assertion.pubkeyHash)) =
        [("first", "a")] ∧
      ∀ out ∈ state.sent, ∃ start ∈ state.starts, Bound portal start out := by
  have executed : (runEvents (guarded (step portal) Fresh) empty exchange).map
      (fun state => state.sent.map fun out => (out.token, out.assertion.pubkeyHash)) =
        some [("first", "a")] := by
    decide
  obtain ⟨state, ran, sent⟩ := Option.map_eq_some_iff.mp executed
  have reached := reaches_of_runEvents ran
  refine ⟨state, reached, sent, ?_⟩
  intro out member
  obtain ⟨start, known, bound, -⟩ := (assertions_bound portal state reached).2.2 out member
  exact ⟨start, known, bound⟩

end Harbor.Portal
