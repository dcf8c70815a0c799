import Harbor.Consumer.Footprint

/-!
# Specifications of Process, Approve and Deny

For each of the three calls the footprints it can end with, together with the
value it returns then.  Everything the later modules say about the consumer
uses these specifications and the discipline, never the text of a procedure.
-/

namespace Harbor.Consumer

open Library Ipam Queue

section

variable {c : Config} {f : Footprint} {cand : Candidate}

structure Footprint.Cleared (f : Footprint) (cand : Candidate) : Prop where
  job : f.job = .process cand
  spent : f.spent = true
  owed : f.owed = false
  released : f.released = false
  inserted : f.inserted = none
  recorded : f.recorded = false
  verdict : f.verdict = none
  put : f.put = none

theorem Footprint.Cleared.free (free : f.Cleared cand) (held : f.held = none) : f.Free :=
  ⟨fun _ _ => free.spent, held, free.owed, free.released,
    free.inserted, free.verdict, free.put⟩

def Config.Entry.Fits (entry : Config.Entry) (row : Enrollment) : Prop :=
  row.status = entry.status ∧ row.certPEM = entry.certPEM ∧ row.overlayIP = entry.ip

inductive RecordEnds (f : Footprint) (entry : Config.Entry) : Ends (Except String Unit) where
  | recorded {row : Enrollment} : entry.Fits row → RecordEnds f entry (.ok ())
        { f with inserted := some row, recorded := true, held := none }
  | failed {text : String} {row : Enrollment} : entry.Fits row → RecordEnds f entry (.error text)
        { f with
          inserted := some row
          doubt := true
          failed := (if row.status = .issued then some Step.recording
            else none).toList ++ f.failed }

theorem record_follows (free : f.Cleared cand) (good : Verified) (entry : Config.Entry)
    (held : entry.status = .issued → ∃ ip, f.held = some ip ∧ entry.ip = addrString ip)
    (unheld : entry.status ≠ .issued → f.held = none) :
    (c.record cand.enrollmentID good entry).Follows (discipline c) f (RecordEnds f entry) := by
  have adds : ∀ made when : Int, (Config.create (c.enrollmentRow cand.enrollmentID good entry
        made when)).Follows (discipline c) f (RecordEnds f entry) := by
    intro made when
    apply Procedure.follows_request
    · refine ⟨free.spent, free.inserted, free.put, ⟨cand, free.job⟩, ?_, held, unheld⟩
      rw [free.job]
      rfl
    · intro ans
      cases ans with
      | error t => exact .failed ⟨rfl, rfl, rfl⟩
      | ok _ => exact .recorded ⟨rfl, rfl, rfl⟩
  apply follows_clock
  intro made
  split
  · exact adds made 0
  · apply follows_clock
    intro when
    exact adds made when

def Written (c : Config) (f last : Footprint) : Prop :=
  (c.results = false ∧ last = f) ∨ (c.results = true ∧ ∃ delivery, f.Delivers c delivery ∧
      last = { f with put := some delivery })

theorem writeResult_follows (bare : f.put = none) (out : ∀ expiresAt, f.Delivers c
      { enrollmentID := eid
        status := st
        secretHash := secretHash
        bundle := bundleJWS
        reason := reason
        expiresAt := expiresAt }) : (c.writeResult eid secretHash bundleJWS st reason).Follows
      (discipline c) f fun _ last => Written c f last := by
  unfold Config.writeResult
  split
  · rename_i noResults
    exact .inl ⟨noResults, rfl⟩
  · rename_i results
    rw [Bool.not_eq_false] at results
    split
    · apply follows_send
      · exact ⟨bare, out 0⟩
      intro _
      exact .inr ⟨results, _, out 0, rfl⟩
    · apply follows_clock
      intro now
      apply follows_send
      · exact ⟨bare, out _⟩
      intro _
      exact .inr ⟨results, _, out _, rfl⟩

end

section

variable {c : Config} {cand : Candidate}

/-- The footprint of a `Process` call that has passed its nonce check. -/
def spentBy (cand : Candidate) (used : Bool) : Footprint :=
  { job := .process cand, spent := true, used := used }

theorem spentBy_cleared (cand : Candidate) (used : Bool) : (spentBy cand used).Cleared cand :=
  ⟨rfl, rfl, rfl, rfl, rfl, rfl, rfl, rfl⟩

/-- How `Process` ends. -/
inductive ProcessEnds (c : Config) (cand : Candidate) : Ends (Except Error Result) where
  /-- The candidate was processed before. -/
  | known {result : Result} {row : Enrollment} : result.status = row.status →
      ProcessEnds c cand (.ok result) { job := .process cand, known := some row }
  /-- The request did not pass its nonce check. -/
  | untouched {error : Error} : ProcessEnds c cand (.error error) { job := .process cand }
  /-- Stopped before anything was recorded. -/
  | stopped {error : Error} {used muddled : Bool} : ProcessEnds c cand (.error error)
        { spentBy cand used with muddled := muddled }
  | denied {error : Error} {used recorded doubt : Bool} {row : Enrollment} {last : Footprint} :
      row.status = .denied →
      Written c { spentBy cand used with
        inserted := some row
        recorded := recorded
        doubt := doubt } last →
      ProcessEnds c cand (.error error) last
  | unsigned {text : String} {used : Bool} (ip : Addr) {last : Footprint} :
      Unwound { spentBy cand used with
        held := some ip
        failed := [.signing] } last →
      ProcessEnds c cand (.error (.sign text)) last
  | unbundled {text : String} {used : Bool} {ip : Addr} : ProcessEnds c cand (.error (.bundle text))
        { spentBy cand used with held := some ip, failed := [.bundling] }
  | unparked {text : String} {used : Bool} {row : Enrollment} : row.status = .pending →
      ProcessEnds c cand (.error (.persistPending text))
        { spentBy cand used with inserted := some row, doubt := true }
  | parked {used : Bool} {row : Enrollment} {last : Footprint} : row.status = .pending →
      Written c { spentBy cand used with
        inserted := some row
        recorded := true } last →
      ProcessEnds c cand (.ok { enrollmentID := cand.enrollmentID, status := .pending }) last
  | unrecorded {text : String} {used : Bool} {row : Enrollment} {ip : Addr}
      {built : Option (Bundle × Bytes)} : row.status = .issued →
      ProcessEnds c cand (.error (.persistIssued text))
        { spentBy cand used with
          held := some ip
          inserted := some row
          built := built
          doubt := true
          failed := [.recording] }
  | issued {used : Bool} {row : Enrollment} {result : Result}
      {built : Option (Bundle × Bytes)} {last : Footprint} : row.status = .issued →
      result.status = .issued →
      Written c { spentBy cand used with
        inserted := some row
        recorded := true
        built := built } last →
      ProcessEnds c cand (.ok result) last

theorem reject_follows (used : Bool) (good : Verified) (why : String) (err : Error) :
    (c.reject cand good why err).Follows (discipline c)
      (spentBy cand used) (ProcessEnds c cand) := by
  have kept := record_follows (c := c) (spentBy_cleared cand used)
    good { status := .denied } nofun fun _ => rfl
  have puts : ∀ (row : Enrollment) (kept doubt : Bool), row.status = .denied →
      (c.writeResult cand.enrollmentID cand.retrievalSecretHash [] .denied
        why).Follows (discipline c)
        { spentBy cand used with
          inserted := some row
          recorded := kept
          doubt := doubt }
        fun _ last => Written c { spentBy cand used with
          inserted := some row
          recorded := kept
          doubt := doubt } last := by
    intro row kept doubt denied
    apply writeResult_follows rfl
    intro expiresAt
    refine ⟨rfl, rfl, row, rfl, denied.symm, .inr denied, ?_⟩
    intro sent
    rw [denied] at sent
    cases sent
  have denies : (c.deny cand good why).Follows (discipline c) (spentBy cand used)
      fun _ last => ProcessEnds c cand (.error err) last := by
    apply kept.bind
    intro out last past
    cases past with
    | recorded fits =>
      exact (puts _ true false fits.1).mono fun _ _ put =>
        .denied fits.1 put
    | failed fits =>
      rw [if_neg (by rw [fits.1]; nofun)]
      exact (puts _ false true fits.1).mono fun _ _ put =>
        .denied fits.1 put
  apply denies.bind
  intro _ last past
  exact past

theorem recordIssued_follows (used : Bool) (good : Verified)
    (entry : Config.Entry) (sent : Config.Issuance)
    (carries : Footprint.Carries c built sent.certPEM (addrString sent.ip) bundle) :
    (c.recordIssued cand good entry sent bundle).Follows (discipline c)
      { spentBy cand used with held := some sent.ip, built := built } (ProcessEnds c cand) := by
  have cleared : Footprint.Cleared { spentBy cand used with held := some sent.ip, built := built }
      cand := ⟨rfl, rfl, rfl, rfl, rfl, rfl, rfl, rfl⟩
  apply (record_follows cleared good _ (fun _ => ⟨_, rfl, rfl⟩) (by nofun)).bind
  intro rec last past
  cases past with
  | failed fits =>
    rw [if_pos fits.1]
    exact .unrecorded fits.1
  | recorded fits =>
    obtain ⟨st, certificate, addr⟩ := fits
    apply (writeResult_follows rfl ?_).bind
    · intro _ last put
      exact .issued st rfl put
    · intro expiresAt
      refine ⟨rfl, rfl, _, rfl, st.symm, .inl rfl, ?_⟩
      intro _
      rw [certificate, addr]
      exact carries

theorem accept_follows (used : Bool) (good : Verified) (admission : Config.Admission) :
    (c.accept cand good admission).Follows (discipline c)
      (spentBy cand used) (ProcessEnds c cand) := by
  unfold Config.accept
  dsimp only
  split
  · apply (record_follows (spentBy_cleared cand used) good _ (by nofun) fun _ => rfl).bind
    intro rec last past
    cases past with
    | failed fits =>
      rw [if_neg (by rw [fits.1]; nofun)]
      exact .unparked fits.1
    | recorded fits =>
      apply (writeResult_follows rfl ?_).bind
      · intro _ last put
        exact .parked fits.1 put
      · intro expiresAt
        refine ⟨rfl, rfl, _, rfl, fits.1.symm, .inl rfl, ?_⟩
        intro issued
        rw [fits.1] at issued
        cases issued
  · apply (issue_follows ((spentBy_cleared cand used).free rfl)
      _ _ _ _ _ _).bind
    intro issued last past
    cases past with
    | refused _ => exact .stopped
    | unsigned ip undo => exact .unsigned ip undo
    | @issued sent =>
      apply (buildBundle_follows _ _ _ _ _ _ _).bind
      intro bundle last past
      cases past with
      | failed => exact .unbundled
      | built carries => exact recordIssued_follows used good _ sent carries

theorem consumeAndAccept_follows (good : Verified) (key : JoinKey) :
    (c.consumeAndAccept cand good key).Follows (discipline c)
      (spentBy cand false) (ProcessEnds c cand) := by
  have consumes : (Config.consume key).Follows (discipline c)
      (spentBy cand false) fun _ last => last = spentBy cand true := by
    apply follows_send
    · exact ⟨rfl, rfl, rfl, rfl⟩
    intro ans
    match ans with
    | .error t | .ok 0 | .ok (_ + 1) => exact rfl
  apply consumes.bind
  intro consumed last eq
  subst eq
  cases consumed with
  | error err => exact reject_follows true good _ err
  | ok _ => exact accept_follows true good _

theorem processToken_follows (good : Verified) : (c.processToken cand good).Follows (discipline c)
      (spentBy cand false) (ProcessEnds c cand) := by
  apply follows_clock
  intro now
  have looks : (c.lookup (c.codec.token good.req.credential) now).Follows
      (discipline c) (spentBy cand false) fun _ last => last = spentBy cand false := by
    apply follows_send
    · exact trivial
    intro ans
    match ans with
    | .error t | .ok none => exact rfl
    | .ok (some key) =>
      dsimp only
      split <;> exact rfl
  apply looks.bind
  intro hit last eq
  subst eq
  cases hit with
  | error err => exact reject_follows false good _ err
  | ok key =>
    dsimp only
    split
    · have counts : (c.recentEnrollments key.id).Follows (discipline c)
          (spentBy cand false) fun _ last => last = spentBy cand false := by
        apply follows_clock
        intro now
        apply follows_send
        · exact trivial
        intro ans
        cases ans <;> exact rfl
      apply counts.bind
      intro sum last eq
      subst eq
      cases sum with
      | error err => exact .stopped
      | ok n =>
        dsimp only
        split
        · exact reject_follows false good _ _
        · exact consumeAndAccept_follows good key
    · exact consumeAndAccept_follows good key

theorem processAttested_follows (good : Verified) :
    (c.processAttested cand good).Follows (discipline c)
      (spentBy cand false) (ProcessEnds c cand) := by
  unfold Config.processAttested
  split
  · split
    · exact reject_follows false good _ _
    · apply follows_send
      · exact trivial
      intro ans
      cases ans with
      | error err => exact reject_follows false good _ _
      | ok id =>
        dsimp only
        split
        · exact reject_follows false good _ _
        · apply follows_clock
          intro when
          exact accept_follows false good _
  · exact reject_follows false good _ _

theorem processSSO_follows (good : Verified) : (c.processSSO cand good).Follows (discipline c)
      (spentBy cand false) (ProcessEnds c cand) := by
  unfold Config.processSSO
  split
  · exact reject_follows false good _ _
  · apply follows_send
    · exact trivial
    intro ans
    cases ans with
    | none => exact reject_follows false good _ _
    | some live =>
      dsimp only
      split
      · exact reject_follows false good _ _
      · apply follows_clock
        intro now
        split
        · exact reject_follows false good _ _
        · apply follows_clock
          intro checkedAt
          split
          · exact reject_follows false good _ _
          · split
            · exact reject_follows false good _ _
            · apply follows_clock
              intro when
              exact accept_follows false good _

/-- How `verify` ends: a request that passes has its nonce recorded as a first
sighting by this call. -/
def VerifyEnds (cand : Candidate) : Ends (Except Error Verified)
  | .ok _, last => last = spentBy cand false
  | .error _, last => last = { job := .process cand }

theorem verify_follows : (c.verify cand).Follows (discipline c) { job := .process cand }
      (VerifyEnds cand) := by
  unfold Config.verify
  split
  · exact rfl
  · rename_i good test
    apply follows_clock
    intro now
    split
    · exact rfl
    · apply follows_send
      · exact ⟨rfl, cand, good, rfl, test, rfl⟩
      intro ans
      match ans with
      | .error t | .ok false | .ok true => exact rfl

/-- How `existing` ends. -/
inductive ExistingEnds (cand : Candidate) : Ends (Option Result) where
  | found {result : Result} {row : Enrollment} : result.status = row.status →
      ExistingEnds cand (some result) { job := .process cand, known := some row }
  | missed : ExistingEnds cand none { job := .process cand }

theorem process_follows : (c.process cand).Follows (discipline c) { job := .process cand }
      (ProcessEnds c cand) := by
  have read : (Config.existing cand.enrollmentID).Follows (discipline c)
      { job := .process cand } (ExistingEnds cand) := by
    apply follows_send
    · exact rfl
    intro ans
    match ans with
    | .error t | .ok none => exact .missed
    | .ok (some row) => exact .found rfl
  apply read.bind
  intro hit last past
  cases past with
  | found st => exact .known st
  | missed =>
    apply verify_follows.bind
    intro good last past
    cases good with
    | error err =>
      subst past
      exact .untouched
    | ok good =>
      subst past
      dsimp only
      split
      · exact processAttested_follows good
      · split
        · exact processSSO_follows good
        · split
          · exact processToken_follows good
          · exact .stopped

end

section

variable {c : Config} {f : Footprint} {eid who reason : String}

inductive LoadEnds (f : Footprint) : Ends (Except Error Enrollment) where
  | pending {row : Enrollment} : LoadEnds f (.ok row) f
  | refused : LoadEnds f (.error .notPending) { f with refused := true }
  | unread {text : String} : LoadEnds f (.error (.database text)) f

theorem loadPending_follows (own : eid = f.job.enrollmentID)
    (rules : ∀ cand, f.job ≠ .process cand) :
    (Config.loadPending eid).Follows (discipline c) f (LoadEnds f) := by
  apply follows_send
  · exact own
  intro ans
  rw [Footprint.after_findEnrollment]
  cases ans with
  | error t =>
    have eq : f.read (.error t) = f := by
      unfold Footprint.read
      split <;> simp_all
    rw [eq]
    exact .unread
  | ok hit =>
    cases hit with
    | none =>
      have eq : f.read (.ok none) = { f with refused := true } := by
        unfold Footprint.read
        split <;> simp_all
      rw [eq]
      exact .refused
    | some row =>
      have eq : f.read (.ok (some row)) =
          if row.status = .pending then f
          else { f with refused := true } := by
        unfold Footprint.read
        split <;> simp_all
      rw [eq]
      dsimp only
      by_cases wait : row.status = .pending
      · simp only [wait, ne_eq, not_true_eq_false, if_false, if_true]
        exact .pending
      · simp only [wait, ne_eq, not_false_eq_true, if_true, if_false]
        exact .refused

theorem netblockOf_follows (row : Enrollment) :
    (c.netblockOf row).Follows (discipline c) f fun _ last => last = f := by
  have sso : (c.approveNetblockSSO row).Follows (discipline c) f fun _ last => last = f := by
    unfold Config.approveNetblockSSO
    split
    · apply follows_send
      · exact trivial
      intro ans
      cases ans with
      | none => exact rfl
      | some live =>
        dsimp only
        split <;> exact rfl
    · exact rfl
  unfold Config.netblockOf
  split
  · unfold Config.approveNetblock
    split
    · apply follows_send
      · exact trivial
      intro ans
      match ans with
      | .error t | .ok none | .ok (some key) => exact rfl
    · split
      · split
        · exact rfl
        · exact sso
      · exact sso
  · exact rfl

theorem approveEphemeral_follows (row : Enrollment) :
    (Config.approveEphemeral row).Follows (discipline c) f fun _ last => last = f := by
  unfold Config.approveEphemeral
  split
  · apply follows_send
    · exact trivial
    intro ans
    match ans with
    | .error t | .ok none | .ok (some key) => exact rfl
  · exact rfl

/-- How `Approve` ends. -/
inductive ApproveEnds (c : Config) (start : Footprint) : Ends (Except Error Result) where
  /-- Stopped before an address was allocated. -/
  | stopped {error : Error} {muddled : Bool} : error ≠ .notPending →
      ApproveEnds c start (.error error) { start with muddled := muddled }
  /-- Somebody else decided the enrollment before it was read. -/
  | refused : ApproveEnds c start (.error .notPending) { start with refused := true }
  /-- Somebody else decided the enrollment after it was read. -/
  | outrun (ip : Addr) {last : Footprint} :
      Unwound { start with held := some ip, refused := true } last →
      ApproveEnds c start (.error .notPending) last
  | unsigned {text : String} (ip : Addr) {last : Footprint} :
      Unwound { start with held := some ip, failed := [.signing] } last →
      ApproveEnds c start (.error (.sign text)) last
  | unclaimed {text : String} (ip : Addr) {last : Footprint} :
      Unwound { start with
        held := some ip
        doubt := true
        failed := [.recording] } last →
      ApproveEnds c start (.error (.database text)) last
  | unbundled {text : String} {columns : Issued} {ip : Addr} :
      ApproveEnds c start (.error (.bundle text))
        { start with
          verdict := some (.issued columns ip)
          failed := [.bundling] }
  | issued {result : Result} {columns : Issued} {ip : Addr}
      {built : Option (Bundle × Bytes)} {last : Footprint} : result.status = .issued →
      result.overlayIP = addrString ip →
      Written c { start with
        verdict := some (.issued columns ip)
        built := built } last →
      ApproveEnds c start (.ok result) last

theorem commitApproval_follows (row : Enrollment) (ephemeral : Bool) (sent : Config.Issuance) :
    (c.commitApproval eid who row ephemeral sent).Follows (discipline c)
      { job := .approve eid who, held := some sent.ip }
      (ApproveEnds c { job := .approve eid who }) := by
  apply follows_clock
  intro now
  apply follows_send
  · exact ⟨⟨who, rfl⟩, rfl, rfl, rfl, sent.ip, rfl, rfl⟩
  intro ans
  match ans with
  | .error t =>
    apply (release_follows rfl rfl rfl).bind
    intro free last undo
    cases undo with
    | released => exact .unclaimed sent.ip .released
    | stuck => exact .unclaimed sent.ip .stuck
  | .ok 0 =>
    apply (release_follows rfl rfl rfl).bind
    intro free last undo
    cases undo with
    | released => exact .outrun sent.ip .released
    | stuck => exact .outrun sent.ip .stuck
  | .ok (count + 1) =>
    apply (buildBundle_follows _ _ _ _ _ _ _).bind
    intro bundle last past
    cases past with
    | failed => exact .unbundled
    | built carries =>
      apply (writeResult_follows rfl ?_).bind
      · intro _ last put
        exact .issued rfl rfl put
      · intro expiresAt
        refine ⟨rfl, rfl, _, rfl, rfl, ?_⟩
        intro columns ip eq
        cases eq
        exact carries

theorem approve_follows : (c.approve eid who).Follows (discipline c) { job := .approve eid who }
      (ApproveEnds c { job := .approve eid who }) := by
  apply (loadPending_follows rfl (by nofun)).bind
  intro loaded last past
  cases past with
  | refused => exact .refused
  | unread => exact .stopped (by nofun)
  | @pending row =>
    apply (netblockOf_follows row).bind
    intro name last same
    subst same
    apply (approveEphemeral_follows row).bind
    intro ephemeral last same
    subst same
    apply (issue_follows ⟨by nofun, rfl, rfl, rfl, rfl, rfl, rfl⟩
      _ _ _ _ _ _).bind
    intro issued last past
    cases past with
    | refused why =>
      apply ApproveEnds.stopped
      rintro rfl
      simp [terminal] at why
    | unsigned ip unwound => exact .unsigned ip unwound
    | @issued issuance => exact commitApproval_follows row ephemeral issuance

/-- How `Deny` ends. -/
inductive DenyEnds (c : Config) (start : Footprint) : Ends (Except Error Result) where
  | stopped {text : String} {doubt : Bool} :
      DenyEnds c start (.error (.database text)) { start with doubt := doubt }
  | refused : DenyEnds c start (.error .notPending) { start with refused := true }
  | denied {result : Result} {last : Footprint} : result.status = .denied →
      Written c { start with verdict := some .denied } last → DenyEnds c start (.ok result) last

theorem denyPending_follows : (c.denyPending eid who reason).Follows (discipline c)
      { job := .deny eid who reason } (DenyEnds c { job := .deny eid who reason }) := by
  apply (loadPending_follows rfl (by nofun)).bind
  intro got last past
  cases past with
  | refused => exact .refused
  | unread => exact .stopped
  | pending =>
    apply follows_clock
    intro now
    apply follows_send
    · exact ⟨⟨who, reason, rfl⟩, rfl⟩
    intro ans
    match ans with
    | .error t => exact .stopped
    | .ok 0 => exact .refused
    | .ok (count + 1) =>
      apply (writeResult_follows rfl ?_).bind
      · intro _ last put
        exact .denied rfl put
      · intro expiresAt
        exact ⟨rfl, rfl, .denied, rfl, rfl, by nofun⟩

end

def Config.procedure (c : Config) : Job → Run (Except Error Result)
  | .process cand => c.process cand
  | .approve enrollmentID approver => c.approve enrollmentID approver
  | .deny enrollmentID approver reason =>
    c.denyPending enrollmentID approver reason

def Ended (c : Config) (job : Job) : Ends (Except Error Result) :=
  match job with
  | .process cand => ProcessEnds c cand
  | .approve _ _ => ApproveEnds c { job := job }
  | .deny _ _ _ => DenyEnds c { job := job }

theorem Written.job_eq {c : Config} {f last : Footprint}
    (put : Written c f last) : last.job = f.job := by
  rcases put with ⟨_, rfl⟩ | ⟨_, _, _, rfl⟩ <;> rfl

theorem Unwound.job_eq {f last : Footprint} (undo : Unwound f last) : last.job = f.job := by
  cases undo <;> rfl

theorem Ended.job_eq {c : Config} (fin : Ended c job v last) : last.job = job := by
  cases job with
  | process cand =>
    change ProcessEnds c cand v last at fin
    cases fin with
    | denied _ put => exact put.job_eq
    | unsigned _ undo => exact undo.job_eq
    | parked _ put => exact put.job_eq
    | issued _ _ put => exact put.job_eq
    | _ => rfl
  | approve eid who =>
    change ApproveEnds c _ v last at fin
    cases fin with
    | outrun _ undo => exact undo.job_eq
    | unsigned _ undo => exact undo.job_eq
    | unclaimed _ undo => exact undo.job_eq
    | issued _ _ put => exact put.job_eq
    | _ => rfl
  | deny eid who why =>
    change DenyEnds c _ v last at fin
    cases fin with
    | denied _ put => exact put.job_eq
    | _ => rfl

theorem procedure_follows (c : Config) (job : Job) :
    (c.procedure job).Follows (discipline c) { job := job } (Ended c job) := by
  cases job with
  | process cand => exact process_follows
  | approve eid who => exact approve_follows
  | deny eid who why => exact denyPending_follows

end Harbor.Consumer
