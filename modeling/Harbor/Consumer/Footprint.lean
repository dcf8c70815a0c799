import Harbor.Consumer.Enroll

/-!
# What a call of the consumer leaves behind

A `Footprint` summarises what one call has done to the shared tables.  The
discipline below says, for every statement, in which situations a call may
issue it: an address is released only by the call that allocated it and after
its certificate or its claim failed, a row is inserted only after the nonce
check, a result is written once and says what the call recorded.

The theorems at the end are the specifications of `Process`, `Approve` and
`Deny` every later argument about the consumer rests on.
-/

namespace Harbor.Consumer

open Library Ipam Queue

inductive Job where
  | process (cand : Candidate)
  | approve (enrollmentID approver : String)
  | deny (enrollmentID approver reason : String)
deriving DecidableEq

def Job.enrollmentID : Job → String
  | .process cand => cand.enrollmentID
  | .approve enrollmentID _ | .deny enrollmentID _ _ => enrollmentID

/-- What a conditional update of `Approve` or `Deny` made of the row. -/
inductive Verdict where
  | issued (columns : Issued) (ip : Addr)
  | denied
deriving DecidableEq

def Verdict.status : Verdict → Enrollment.Status
  | .issued _ _ => .issued
  | .denied => .denied

inductive Step where
  | signing
  | bundling
  | recording
  | releasing
deriving DecidableEq, Repr

def Step.failed : (statement : Statement) → statement.Answer → Option Step
  | .sign _, .error _ => some .signing
  | .signBundle _, .error _ => some .bundling
  | .createEnrollment row, .error _ =>
    if row.status = .issued then some .recording else none
  | .claimIssued _ _, .error _ => some .recording
  | .deleteAllocation _, .error _ | .quarantineAllocation _ _, .error _ => some .releasing
  | _, _ => none

structure Footprint where
  job : Job
  /-- The row a `Process` call found for its candidate. -/
  known : Option Enrollment := none
  /-- The nonce check counted this call as the first sighting. -/
  spent : Bool := false
  /-- A use of the join key was asked for. -/
  used : Bool := false
  /-- An address allocated by the call that no row records. -/
  held : Option Addr := none
  /-- The held address has to be released. -/
  owed : Bool := false
  /-- An address was released. -/
  released : Bool := false
  /-- A write of an allocation ended in an error. -/
  muddled : Bool := false
  /-- The row whose insertion was asked for. -/
  inserted : Option Enrollment := none
  /-- The insertion was acknowledged. -/
  recorded : Bool := false
  /-- A write to the row ended in an error. -/
  doubt : Bool := false
  /-- The row was found not to be pending. -/
  refused : Bool := false
  /-- The conditional update changed the row. -/
  verdict : Option Verdict := none
  /-- The bundle that was signed, with its signed form. -/
  built : Option (Bundle × Bytes) := none
  /-- The result that was written. -/
  put : Option Delivery := none
  /-- The steps after the allocation that failed, latest first. -/
  failed : List Step := []
deriving DecidableEq

namespace Footprint

def Clean (f : Footprint) : Prop :=
  f = { job := f.job }

/-- The call may allocate: a `Process` call is past its nonce check, and the
call has had no address and has recorded nothing. -/
structure Free (f : Footprint) : Prop where
  entered : ∀ cand, f.job = .process cand → f.spent = true
  held : f.held = none
  owed : f.owed = false
  released : f.released = false
  inserted : f.inserted = none
  verdict : f.verdict = none
  put : f.put = none

def Carries (c : Config) (built : Option (Bundle × Bytes)) (certPEM : Bytes)
    (overlayIP : String) (bundle : Bytes) : Prop :=
  (c.configBackend = false ∧ bundle = []) ∨ ∃ content, built = some (content, bundle) ∧
      content.certificate = certPEM ∧ content.overlayIP = overlayIP

def Delivers (c : Config) (f : Footprint) (delivery : Delivery) : Prop :=
  delivery.enrollmentID = f.job.enrollmentID ∧
  match f.job with
  | .process cand =>
    delivery.secretHash = cand.retrievalSecretHash ∧
      ∃ row, f.inserted = some row ∧ delivery.status = row.status ∧
        (f.recorded = true ∨ row.status = .denied) ∧ (row.status = .issued →
          Carries c f.built row.certPEM row.overlayIP delivery.bundle)
  | _ =>
    delivery.secretHash = [] ∧ ∃ verdict, f.verdict = some verdict ∧
        delivery.status = verdict.status ∧ ∀ columns ip, verdict = .issued columns ip →
          Carries c f.built columns.certPEM columns.overlayIP delivery.bundle

def may (c : Config) (f : Footprint) : Statement → Prop
  | .findEnrollment enrollmentID => enrollmentID = f.job.enrollmentID
  | .observe nonce =>
    f.Clean ∧ ∃ cand verified, f.job = .process cand ∧
      c.checkRequest cand = .ok verified ∧ nonce = verified.req.nonce
  | .consumeJoinKey _ _ =>
    f.spent = true ∧ f.used = false ∧ f.inserted = none ∧ f.held = none
  | .createEnrollment row =>
    f.spent = true ∧ f.inserted = none ∧ f.put = none ∧ (∃ cand, f.job = .process cand) ∧
      row.enrollmentID = f.job.enrollmentID ∧ (row.status = .issued → ∃ ip, f.held = some ip ∧
        row.overlayIP = addrString ip) ∧ (row.status ≠ .issued → f.held = none)
  | .claimIssued enrollmentID issued =>
    (∃ approver, f.job = .approve enrollmentID approver) ∧
      f.verdict = none ∧ f.refused = false ∧ f.owed = false ∧
      ∃ ip, f.held = some ip ∧ issued.overlayIP = addrString ip
  | .claimDenied enrollmentID _ _ =>
    (∃ approver reason, f.job = .deny enrollmentID approver reason) ∧ f.Clean
  | .firstOrCreateDevice _ _ | .purgeExpiredQuarantine => f.Free
  | .createAllocation row =>
    f.Free ∧ row.state = .allocated
  | .deleteAllocation ip =>
    f.held = some ip ∧ f.owed = true ∧ f.verdict = none ∧ c.allocator.quarantineTTL ≤ 0
  | .quarantineAllocation ip ttl =>
    f.held = some ip ∧ f.owed = true ∧ f.verdict = none ∧ ttl = c.allocator.quarantineTTL ∧ 0 < ttl
  | .putResult delivery => f.put = none ∧ f.Delivers c delivery
  | .claim _ _ | .pendingResultIDs | .ackItem _ | .nackItem _ => False
  | _ => True

def read (f : Footprint) (answer : Except String (Option Enrollment)) :
    Footprint :=
  match f.job, answer with
  | .process _, .ok (some row) => { f with known := some row }
  | .process _, _ => f
  | _, .ok none => { f with refused := true }
  | _, .ok (some row) =>
    if row.status = .pending then f else { f with refused := true }
  | _, .error _ => f

def learn (f : Footprint) : (statement : Statement) → statement.Answer → Footprint
  | .findEnrollment _, answer => f.read answer
  | .observe _, .ok true => { f with spent := true }
  | .consumeJoinKey _ _, _ => { f with used := true }
  | .createEnrollment row, .ok () =>
    { f with inserted := some row, recorded := true, held := none }
  | .createEnrollment row, .error _ =>
    { f with inserted := some row, doubt := true }
  | .claimIssued _ issued, .ok (_ + 1) =>
    { f with
      verdict := f.held.map (.issued issued)
      held := none }
  | .claimIssued _ _, .ok 0 => { f with refused := true, owed := true }
  | .claimIssued _ _, .error _ => { f with owed := true, doubt := true }
  | .claimDenied _ _ _, .ok (_ + 1) => { f with verdict := some .denied }
  | .claimDenied _ _ _, .ok 0 => { f with refused := true }
  | .claimDenied _ _ _, .error _ => { f with doubt := true }
  | .purgeExpiredQuarantine, .error _ => { f with muddled := true }
  | .createAllocation row, .ok () => { f with held := some row.ip }
  | .createAllocation _, .error (.failed _) => { f with muddled := true }
  | .deleteAllocation _, .ok _ =>
    { f with held := none, owed := false, released := true }
  | .deleteAllocation _, .error _ => { f with owed := false, muddled := true }
  | .quarantineAllocation _ _, .ok _ =>
    { f with held := none, owed := false, released := true }
  | .quarantineAllocation _ _, .error _ =>
    { f with owed := false, muddled := true }
  | .sign _, .error _ => { f with owed := true }
  | .signBundle bundle, .ok signed =>
    { f with built := some (bundle, signed) }
  | .putResult delivery, _ => { f with put := some delivery }
  | _, _ => f

def after (f : Footprint) (statement : Statement) (answer : statement.Answer) : Footprint :=
  { f.learn statement answer with
    failed := (Step.failed statement answer).toList ++ f.failed }

theorem read_eq (f : Footprint) (ans : Except String (Option Enrollment)) : ∃ deny seen,
      f.read ans = { f with refused := deny, known := seen } := by
  unfold read
  split
  · exact ⟨f.refused, _, rfl⟩
  · exact ⟨f.refused, f.known, rfl⟩
  · exact ⟨true, f.known, rfl⟩
  · split
    · exact ⟨f.refused, f.known, rfl⟩
    · exact ⟨true, f.known, rfl⟩
  · exact ⟨f.refused, f.known, rfl⟩

theorem after_findEnrollment (f : Footprint) (id : String)
    (a : (Statement.findEnrollment id).Answer) : f.after (.findEnrollment id) a = f.read a := by
  obtain ⟨_, _, eq⟩ := f.read_eq a
  change { f.read a with failed := f.failed } = f.read a
  rw [eq]

end Footprint

abbrev discipline (c : Config) : Discipline Statement Statement.Answer where
  Phase := Footprint
  may := Footprint.may c
  after := Footprint.after

abbrev Ends (Value : Type) := Value → Footprint → Prop

section

variable {c : Config} {f : Footprint} {V : Type} {ends : Ends V}

theorem follows_send (may : f.may c s) (rest : ∀ ans,
      (next ans).Follows (discipline c) (f.after s ans) ends) :
    (send s >>= next).Follows (discipline c) f ends :=
  ⟨may, rest⟩

theorem follows_clock (rest : ∀ now, (next now).Follows (discipline c) f ends) :
    (clock >>= next).Follows (discipline c) f ends :=
  ⟨trivial, rest⟩

end

section

variable {c : Config} {f : Footprint}

theorem resolve_follows (a : Allocator) (n : String) :
    (a.resolve n).Follows (discipline c) f fun _ last => last = f := by
  unfold Allocator.resolve
  split
  · apply follows_send
    · exact trivial
    intro ans
    cases ans with
    | error t => exact rfl
    | ok res =>
      dsimp only
      split
      · apply follows_send
        · exact trivial
        intro back
        cases back <;> exact rfl
      · exact rfl
  · apply follows_send
    · exact trivial
    intro ans
    cases ans <;> exact rfl
  · split
    · exact rfl
    · split <;> exact rfl

theorem firstFree_follows (a : Allocator) (res : Resolved) :
    (a.firstFree res).Follows (discipline c) f fun _ last => last = f := by
  apply follows_send
  · exact trivial
  intro ans
  cases ans with
  | error t => exact rfl
  | ok occupied =>
    have cv : (a.skippedCarves res).Follows (discipline c) f fun _ last => last = f := by
      unfold Allocator.skippedCarves
      split
      · apply follows_send
        · exact trivial
        intro ans
        cases ans <;> exact rfl
      · exact rfl
    apply cv.bind
    intro skipped last eq
    subst eq
    split <;> exact rfl

inductive AllocateEnds (f : Footprint) : Ends (Except AllocateError Addr) where
  | held {ip : Addr} : AllocateEnds f (.ok ip) { f with held := some ip }
  | failed {error : AllocateError} : AllocateEnds f (.error error) f
  | muddled {error : AllocateError} : AllocateEnds f (.error error) { f with muddled := true }

theorem allocateLoop_follows (free : f.Free) (a : Allocator) (deviceID : Int)
    (verb : String) (n : Nat) (res : Resolved) :
    (a.allocateLoop deviceID verb n res).Follows (discipline c) f (AllocateEnds f) := by
  induction n generalizing res with
  | zero => exact .failed
  | succ n ih =>
    unfold Allocator.allocateLoop
    apply (firstFree_follows a res).bind
    intro hit last same
    subst same
    split
    · split
      · apply follows_send
        · exact trivial
        intro big
        split
        · exact ih _
        · exact .failed
      · exact .failed
    · exact .failed
    · apply follows_clock
      intro now
      apply follows_send
      · exact ⟨free, rfl⟩
      intro made
      match made with
      | .ok () => exact .held
      | .error .duplicatedKey => exact ih res
      | .error (.failed text) => exact .muddled

theorem allocate_follows (free : f.Free) (a : Allocator) (name n verb : String) :
    (a.allocate name n verb).Follows (discipline c) f (AllocateEnds f) := by
  apply (resolve_follows a n).bind
  intro resolved last same
  subst same
  cases resolved with
  | error err => exact .failed
  | ok res =>
    apply follows_clock
    intro made
    apply follows_send
    · exact free
    intro dev
    cases dev with
    | error text => exact .failed
    | ok dev =>
      apply follows_send
      · exact free
      intro purged
      cases purged with
      | error text => exact .muddled
      | ok _ => exact allocateLoop_follows free a _ _ _ _

inductive Unwound (f : Footprint) : Footprint → Prop where
  | released : Unwound f { f with held := none, owed := false, released := true }
  | stuck :
      Unwound f { f with
        owed := false
        muddled := true
        failed := .releasing :: f.failed }

theorem release_follows (held : f.held = some ip)
    (owed : f.owed = true) (unclaimed : f.verdict = none) :
    (c.allocator.release ip).Follows (discipline c) f fun _ last => Unwound f last := by
  unfold Allocator.release
  split
  · rename_i soon
    apply follows_send
    · exact ⟨held, owed, unclaimed, soon⟩
    intro ans
    match ans with
    | .error t => exact .stuck
    | .ok 0 | .ok (_ + 1) => exact .released
  · rename_i quarantined
    apply follows_send
    · exact ⟨held, owed, unclaimed, rfl, by omega⟩
    intro ans
    match ans with
    | .error t => exact .stuck
    | .ok 0 | .ok (_ + 1) => exact .released

end

section

variable {c : Config} {f : Footprint}

/-- How `issue` ends: holding the address of the new certificate, refused
before an allocation, or with a failed signature. -/
inductive IssueEnds (f : Footprint) : Ends (Except Error Config.Issuance) where
  | issued {issuance : Config.Issuance} :
      IssueEnds f (.ok issuance) { f with held := some issuance.ip }
  | refused {error : Error} {muddled : Bool} : terminal error = true ∨
      (∃ failure, error = .allocate failure) →
      IssueEnds f (.error error) { f with muddled := muddled }
  | unsigned {text : String} (ip : Addr) {last : Footprint} :
      Unwound { f with held := some ip, failed := .signing :: f.failed } last →
      IssueEnds f (.error (.sign text)) last

theorem issue_follows (free : f.Free) (name : String) (pubBytes : Bytes)
    (groups : List String) (n method : String) (eph : Bool) :
    (c.issue name pubBytes groups n method eph).Follows (discipline c) f (IssueEnds f) := by
  unfold Config.issue
  split
  · exact .refused (.inl rfl)
  · apply (allocate_follows free _ _ _ _).bind
    intro leased last past
    cases past with
    | @failed err | @muddled err => exact .refused (.inr ⟨err, rfl⟩)
    | @held ip =>
      apply follows_clock
      intro now
      apply follows_send
      · exact trivial
      intro signed
      cases signed with
      | error text =>
        refine (release_follows rfl rfl ?_).bind ?_
        · exact free.verdict
        · intro freed last unwound
          cases unwound with
          | released => exact .unsigned ip .released
          | stuck => exact .unsigned ip .stuck
      | ok cert => exact .issued

/-- How `buildBundle` ends. -/
inductive BundleEnds (c : Config) (f : Footprint) (certPEM : Bytes)
    (ip : String) : Ends (Except Error Bytes) where
  | built {built : Option (Bundle × Bytes)} {bundle : Bytes} :
      Footprint.Carries c built certPEM ip bundle →
      BundleEnds c f certPEM ip (.ok bundle) { f with built := built }
  | failed {text : String} : BundleEnds c f certPEM ip (.error (.bundle text))
        { f with failed := .bundling :: f.failed }

theorem buildBundle_follows (name ip : String) (groups : List String)
    (certPEM : Bytes) (notAfter : Int) (goos arch : String) :
    (c.buildBundle name ip groups certPEM notAfter goos arch).Follows
      (discipline c) f (BundleEnds c f certPEM ip) := by
  unfold Config.buildBundle
  split
  · rename_i noBackend
    exact .built (.inl ⟨noBackend, rfl⟩)
  · apply follows_clock
    intro issuedAt
    apply follows_send
    · exact trivial
    intro sources
    apply follows_send
    · exact trivial
    intro signed
    cases signed with
    | error text => exact .failed
    | ok bundle => exact .built (.inr ⟨_, rfl, rfl, rfl⟩)

end

end Harbor.Consumer
