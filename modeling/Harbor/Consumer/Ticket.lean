import Harbor.Consumer.Effects

/-!
# What a call knows about the quota

A `Ticket` holds what a call has learned on its way to recording an enrollment:
the join key it has looked up, the count of recent enrollments, and its readings
of the clock since.  The discipline says that an enrollment is recorded under a
join key only by a call that has found the key and, where the key has a quota,
has counted fewer enrollments than that.
-/

namespace Harbor.Consumer

open Library Ipam Queue Trust List

/-- The window of `recentEnrollments`. -/
def Config.quotaWindow (c : Config) : Int :=
  if c.enrollWindow ≤ 0 then hour else c.enrollWindow

def Job.isProcess : Job → Bool
  | .process _ => true
  | _ => false

structure Ticket where
  processes : Bool
  /-- The key that was found. -/
  key : Option JoinKey := none
  /-- The key that was counted for, and the count. -/
  count : Option (Int × Nat) := none
  /-- The readings of the clock since the count, or since the start. -/
  readings : List Int := []

namespace Ticket

def Admits (ticket : Ticket) (joinKeyID : Int) : Prop :=
  joinKeyID = 0 ∨ ∃ key, ticket.key = some key ∧ key.id = joinKeyID ∧
    (0 < key.quotaPerHour → ∃ count : Nat,
      ticket.count = some (joinKeyID, count) ∧ count < key.quotaPerHour)

def may (c : Config) (ticket : Ticket) : Statement → Prop
  | .countEnrollments _ cutoff =>
    ticket.processes = true ∧ ∃ now ∈ ticket.readings, cutoff = now - c.quotaWindow
  | .createEnrollment row =>
    ticket.processes = true ∧ ticket.Admits row.joinKeyID ∧
      (row.joinKeyID ≠ 0 → row.status ≠ .denied) ∧ row.createdAt ∈ ticket.readings
  | _ => True

def looked (ticket : Ticket) : Except String (Option JoinKey) → Ticket
  | .ok (some key) => { ticket with key := some key }
  | _ => ticket

def tallied (ticket : Ticket) (joinKeyID : Int) : Except String Nat → Ticket
  | .ok count =>
    { ticket with count := some (joinKeyID, count), readings := [] }
  | .error _ => ticket

def after (ticket : Ticket) : (statement : Statement) → statement.Answer → Ticket
  | .clock => fun now => { ticket with readings := now :: ticket.readings }
  | .findJoinKey _ => ticket.looked
  | .countEnrollments joinKeyID _ => ticket.tallied joinKeyID
  | .createEnrollment _ => fun _ => { processes := ticket.processes }
  | _ => fun _ => ticket

structure Onward (before after : Ticket) : Prop where
  processes : after.processes = before.processes
  key : after.key = before.key
  count : after.count = before.count

theorem Onward.refl (tk : Ticket) : tk.Onward tk :=
  ⟨rfl, rfl, rfl⟩

theorem Onward.trans {fst snd trd : Ticket} (one : fst.Onward snd) (two : snd.Onward trd) :
    fst.Onward trd :=
  ⟨two.processes.trans one.processes, two.key.trans one.key, two.count.trans one.count⟩

theorem Onward.admits {was new : Ticket} (onward : was.Onward new)
    {kid : Int} (admits : was.Admits kid) :
    new.Admits kid := by
  unfold Admits at admits ⊢
  rw [onward.key, onward.count]
  exact admits

end Ticket

def ticketing (c : Config) : Discipline Statement Statement.Answer where
  Phase := Ticket
  may := Ticket.may c
  after := Ticket.after

def Statement.isIdle : Statement → Bool
  | .createEnrollment _ | .findJoinKey _ | .countEnrollments _ _ => false
  | _ => true

def Idles {Value : Type} (procedure : Run Value) : Prop :=
  procedure.Issues (fun statement => statement.isIdle = true) fun _ => True

section

variable {c : Config} {V Other : Type} {tk : Ticket}

theorem after_idle {s : Statement} (idle : s.isIdle = true)
    (ans : s.Answer) : tk.Onward (tk.after s ans) := by
  cases s with
  | createEnrollment | findJoinKey | countEnrollments => cases idle
  | clock => exact ⟨rfl, rfl, rfl⟩
  | _ => exact .refl tk

variable {proc : Run V}

theorem Idles.follows (idles : Idles proc) :
    proc.Follows (ticketing c) tk fun _ last => tk.Onward last := by
  induction proc generalizing tk with
  | done val => exact .refl tk
  | issue s tail ih =>
    obtain ⟨idle, rest⟩ := idles
    refine ⟨?_, ?_⟩
    · have may : tk.may c s := by
        cases s with
        | createEnrollment | findJoinKey | countEnrollments => cases idle
        | _ => trivial
      exact may
    · intro ans
      refine (ih ans (rest ans)).mono ?_
      intro val last onward
      exact (after_idle idle ans).trans onward

theorem idles_send {s : Statement} {next : s.Answer → Run V} (idle : s.isIdle = true)
    (rest : ∀ ans, Idles (next ans)) : Idles (send s >>= next) :=
  ⟨idle, rest⟩

theorem Idles.bind {next : V → Run Other}
    (fst : Idles proc) (snd : ∀ val, Idles (next val)) : Idles (proc >>= next) :=
  Procedure.Issues.bind fst fun val _ => snd val

theorem Idles.then {next : V → Run Other} {ends : Other → Ticket → Prop} (fst : Idles proc)
    (snd : ∀ val last, tk.Onward last → (next val).Follows (ticketing c) last ends) :
    (proc >>= next).Follows (ticketing c) tk ends :=
  Procedure.Follows.bind fst.follows snd

theorem idles_clock : Idles clock :=
  ⟨rfl, fun _ => trivial⟩

end

section

variable {c : Config}

theorem resolve_idles (a : Allocator) (n : String) : Idles (a.resolve n) := by
  unfold Allocator.resolve
  split
  · apply idles_send rfl
    intro ans
    cases ans with
    | error t => exact trivial
    | ok res =>
      dsimp only
      split
      · apply idles_send rfl
        intro back
        cases back <;> exact trivial
      · exact trivial
  · apply idles_send rfl
    intro ans
    cases ans <;> exact trivial
  · split
    · exact trivial
    · split <;> exact trivial

theorem firstFree_idles (a : Allocator) (res : Resolved) : Idles (a.firstFree res) := by
  unfold Allocator.firstFree
  apply idles_send rfl
  intro ans
  cases ans with
  | error t => exact trivial
  | ok occupied =>
    refine Idles.bind ?_ ?_
    · unfold Allocator.skippedCarves
      split
      · apply idles_send rfl
        intro cv
        cases cv <;> exact trivial
      · exact trivial
    · intro cv
      split <;> exact trivial

theorem allocateLoop_idles (a : Allocator) (did : Int) (verb : String)
    (n : Nat) (res : Resolved) : Idles (a.allocateLoop did verb n res) := by
  induction n generalizing res with
  | zero => exact trivial
  | succ n ih =>
    unfold Allocator.allocateLoop
    refine (firstFree_idles a res).bind ?_
    intro hit
    split
    · split
      · apply idles_send rfl
        intro grew
        split
        · exact ih _
        · exact trivial
      · exact trivial
    · exact trivial
    · apply idles_send rfl
      intro now
      apply idles_send rfl
      intro made
      split
      · exact trivial
      · exact ih _
      · exact trivial

theorem allocate_idles (a : Allocator) (n netblockName verb : String) :
    Idles (a.allocate n netblockName verb) := by
  unfold Allocator.allocate
  refine (resolve_idles a netblockName).bind ?_
  intro resolved
  split
  · exact trivial
  · apply idles_send rfl
    intro made
    apply idles_send rfl
    intro dev
    split
    · exact trivial
    · apply idles_send rfl
      intro purged
      split
      · exact trivial
      · exact allocateLoop_idles a _ verb _ _

theorem release_idles (a : Allocator) (ip : Addr) : Idles (a.release ip) := by
  unfold Allocator.release
  split <;>
    · apply idles_send rfl
      intro ans
      split <;> exact trivial

theorem issue_idles (n : String) (pubBytes : Bytes)
    (gs : List String) (netblockName verb : String) (eph : Bool) :
    Idles (c.issue n pubBytes gs netblockName verb eph) := by
  unfold Config.issue
  split
  · exact trivial
  · refine (allocate_idles _ _ _ _).bind ?_
    intro got
    split
    · exact trivial
    · apply idles_send rfl
      intro now
      apply idles_send rfl
      intro sig
      split
      · exact (release_idles _ _).bind fun _ => trivial
      · exact trivial

theorem buildBundle_idles (n ip : String) (gs : List String)
    (certPEM : Bytes) (notAfter : Int) (goos arch : String) :
    Idles (c.buildBundle n ip gs certPEM notAfter goos arch) := by
  unfold Config.buildBundle
  split
  · exact trivial
  · apply idles_send rfl
    intro issuedAt
    apply idles_send rfl
    intro sources
    apply idles_send rfl
    intro sig
    split <;> exact trivial

theorem writeResult_idles (id : String)
    (hash bundleJWS : Bytes) (st : Enrollment.Status) (why : String) :
    Idles (c.writeResult id hash bundleJWS st why) := by
  unfold Config.writeResult
  split
  · exact trivial
  · split
    · exact idles_send rfl fun _ => trivial
    · exact idles_send rfl fun _ => idles_send rfl fun _ => trivial

theorem verify_idles (cand : Candidate) : Idles (c.verify cand) := by
  unfold Config.verify
  split
  · exact trivial
  · apply idles_send rfl
    intro now
    split
    · exact trivial
    · apply idles_send rfl
      intro observed
      split <;> exact trivial

theorem loadPending_idles (id : String) : Idles (Config.loadPending id) := by
  unfold Config.loadPending
  apply idles_send rfl
  intro ans
  split
  · exact trivial
  · exact trivial
  · split <;> exact trivial

theorem netblockOf_idles (e : Enrollment) : Idles (c.netblockOf e) := by
  have sso : Idles (c.approveNetblockSSO e) := by
    unfold Config.approveNetblockSSO
    split
    · apply idles_send rfl
      intro live
      split
      · exact trivial
      · dsimp only
        split <;> exact trivial
    · exact trivial
  unfold Config.netblockOf
  split
  · unfold Config.approveNetblock
    split
    · apply idles_send rfl
      intro ans
      split <;> exact trivial
    · split
      · split
        · exact trivial
        · exact sso
      · exact sso
  · exact trivial

theorem approveEphemeral_idles (e : Enrollment) : Idles (Config.approveEphemeral e) := by
  unfold Config.approveEphemeral
  split
  · apply idles_send rfl
    intro ans
    split <;> exact trivial
  · exact trivial

theorem commitApproval_idles (id who : String)
    (e : Enrollment) (eph : Bool) (sent : Config.Issuance) :
    Idles (c.commitApproval id who e eph sent) := by
  unfold Config.commitApproval
  apply idles_send rfl
  intro now
  apply idles_send rfl
  intro took
  rcases claim_answer took with ⟨count, rfl⟩ | rfl | ⟨t, rfl⟩
  · refine (buildBundle_idles _ _ _ _ _ _ _).bind ?_
    intro built
    split
    · exact trivial
    · exact (writeResult_idles _ _ _ _ _).bind fun _ => trivial
  · exact (release_idles _ _).bind fun _ => trivial
  · exact (release_idles _ _).bind fun _ => trivial

theorem approve_idles (id who : String) : Idles (c.approve id who) := by
  unfold Config.approve
  refine (loadPending_idles id).bind ?_
  intro got
  split
  · exact trivial
  · rename_i e
    refine (netblockOf_idles e).bind ?_
    intro n
    refine (approveEphemeral_idles e).bind ?_
    intro eph
    refine (issue_idles _ _ _ _ _ _).bind ?_
    intro sent
    split
    · exact trivial
    · exact commitApproval_idles _ _ _ _ _

theorem denyPending_idles (id who why : String) : Idles (c.denyPending id who why) := by
  unfold Config.denyPending
  refine (loadPending_idles id).bind ?_
  intro got
  split
  · exact trivial
  · apply idles_send rfl
    intro now
    apply idles_send rfl
    intro took
    rcases claim_answer took with ⟨count, rfl⟩ | rfl | ⟨t, rfl⟩
    · exact (writeResult_idles _ _ _ _ _).bind fun _ => trivial
    · exact trivial
    · exact trivial

end

section

variable {c : Config} {tk : Ticket}

theorem follows_ask {V : Type} {s : Statement} {next : s.Answer → Run V} {ends : V → Ticket → Prop}
    (may : tk.may c s) (rest : ∀ ans, (next ans).Follows (ticketing c)
      (tk.after s ans) ends) : (send s >>= next).Follows (ticketing c) tk ends :=
  ⟨may, rest⟩

theorem record_ticketed (ps : tk.processes = true)
    (id : String) (good : Verified) (entry : Config.Entry) (lets : tk.Admits entry.joinKeyID)
    (took : entry.joinKeyID ≠ 0 → entry.status ≠ .denied) :
    (c.record id good entry).Follows (ticketing c) tk fun _ _ => True := by
  unfold Config.record
  apply follows_ask
  · exact trivial
  intro made
  have onward : tk.Onward (tk.after .clock made) := after_idle rfl made
  split
  · refine ⟨⟨ps, onward.admits lets, took, mem_cons_self⟩, ?_⟩
    intro ans
    exact trivial
  · apply follows_ask
    · exact trivial
    intro when
    have further := onward.trans (after_idle rfl when)
    refine ⟨⟨ps, further.admits lets, took, mem_cons_of_mem _ mem_cons_self⟩, ?_⟩
    intro ans
    exact trivial

theorem reject_ticketed (ps : tk.processes = true)
    (cand : Candidate) (good : Verified) (why : String) (err : Error) :
    (c.reject cand good why err).Follows (ticketing c) tk fun _ _ => True := by
  have denies : (c.deny cand good why).Follows (ticketing c) tk fun _ _ => True := by
    unfold Config.deny
    refine Procedure.Follows.bind (record_ticketed ps _ _ _ (.inl rfl) ?_) ?_
    · intro key
      exact absurd rfl key
    · intro note last _
      exact (writeResult_idles _ _ _ _ _).follows.mono fun _ _ _ => trivial
  unfold Config.reject
  exact Procedure.Follows.bind denies fun _ _ _ => trivial

theorem recordIssued_ticketed (ps : tk.processes = true)
    (cand : Candidate) (good : Verified) (entry : Config.Entry)
    (sent : Config.Issuance) (bundleJWS : Bytes) (lets : tk.Admits entry.joinKeyID) :
    (c.recordIssued cand good entry sent bundleJWS).Follows (ticketing c) tk fun _ _ => True := by
  unfold Config.recordIssued
  refine Procedure.Follows.bind (record_ticketed ps _ _ _ lets (fun _ => by simp)) ?_
  intro note last _
  split
  · exact trivial
  · exact (writeResult_idles _ _ _ _ _).then fun _ _ _ => trivial

theorem accept_ticketed (ps : tk.processes = true)
    (cand : Candidate) (good : Verified) (entry : Config.Admission)
    (lets : tk.Admits entry.joinKeyID) :
    (c.accept cand good entry).Follows (ticketing c) tk fun _ _ => True := by
  unfold Config.accept
  split
  · refine Procedure.Follows.bind (record_ticketed ps _ _ _ lets (fun _ => by simp)) ?_
    intro note last _
    split
    · exact trivial
    · exact (writeResult_idles _ _ _ _ _).then fun _ _ _ => trivial
  · refine (issue_idles _ _ _ _ _ _).then ?_
    intro sent last onward
    split
    · exact trivial
    · refine (buildBundle_idles _ _ _ _ _ _ _).then ?_
      intro built late further
      split
      · exact trivial
      · have sum := onward.trans further
        exact recordIssued_ticketed (sum.processes.trans ps) _ _ _ _ _ (sum.admits lets)

theorem consumeAndAccept_ticketed (ps : tk.processes = true)
    (cand : Candidate) (good : Verified) (key : JoinKey) (lets : tk.Admits key.id) :
    (c.consumeAndAccept cand good key).Follows (ticketing c) tk fun _ _ => True := by
  have consumes : Idles (Config.consume key) := by
    unfold Config.consume
    apply idles_send rfl
    intro ans
    split <;> exact trivial
  unfold Config.consumeAndAccept
  refine consumes.then ?_
  intro consumed last onward
  split
  · exact reject_ticketed (onward.processes.trans ps) _ _ _ _
  · exact accept_ticketed (onward.processes.trans ps) _ _ _ (onward.admits lets)

theorem check_ok {key hit : JoinKey} {now : Int} (good : key.check now = .ok hit) : hit = key := by
  unfold JoinKey.check at good
  split_ifs at good
  cases good
  rfl

theorem lookup_ticketed (ps : tk.processes = true) (tok : String) (now : Int) :
    (c.lookup tok now).Follows (ticketing c) tk fun res last =>
      last.processes = true ∧ ∀ key, res = .ok key → last.key = some key := by
  unfold Config.lookup
  apply follows_ask
  · exact trivial
  intro ans
  match ans with
  | .error t | .ok none =>
    refine ⟨ps, ?_⟩
    intro alt returned
    cases returned
  | .ok (some key) =>
    dsimp only
    cases out : key.check now with
    | error err =>
      refine ⟨ps, ?_⟩
      intro alt returned
      cases returned
    | ok hit =>
      refine ⟨ps, ?_⟩
      intro alt returned
      cases returned
      rw [check_ok out]
      rfl

theorem recentEnrollments_ticketed (ps : tk.processes = true) (kid : Int) :
    (c.recentEnrollments kid).Follows (ticketing c) tk fun res last =>
        last.processes = true ∧ last.key = tk.key ∧ ∀ count, res = .ok count →
            last.count = some (kid, count) := by
  unfold Config.recentEnrollments
  apply follows_ask
  · exact trivial
  intro now
  apply follows_ask
  · exact ⟨ps, now, mem_cons_self, rfl⟩
  intro ans
  cases ans with
  | error t =>
    refine ⟨ps, rfl, ?_⟩
    intro alt returned
    cases returned
  | ok count =>
    refine ⟨ps, rfl, ?_⟩
    intro alt returned
    cases returned
    rfl

theorem processToken_ticketed (ps : tk.processes = true) (cand : Candidate) (good : Verified) :
    (c.processToken cand good).Follows (ticketing c) tk fun _ _ => True := by
  unfold Config.processToken
  refine idles_clock.then ?_
  intro now went onward
  refine Procedure.Follows.bind (lookup_ticketed (onward.processes.trans ps) _ now) ?_
  intro saw last seen
  cases saw with
  | error err => exact reject_ticketed seen.1 _ _ _ _
  | ok key =>
    have hit := seen.2 key rfl
    dsimp only
    split
    · refine Procedure.Follows.bind (recentEnrollments_ticketed seen.1 key.id) ?_
      intro sum late learned
      cases sum with
      | error err => exact trivial
      | ok count =>
        dsimp only
        split
        · exact reject_ticketed learned.1 _ _ _ _
        · rename_i less
          exact consumeAndAccept_ticketed learned.1 _ _ _
            (.inr ⟨key, learned.2.1.trans hit, rfl, fun _ =>
              ⟨count, learned.2.2 count rfl, not_le.mp less⟩⟩)
    · rename_i unlimited
      exact consumeAndAccept_ticketed seen.1 _ _ _
        (.inr ⟨key, hit, rfl, fun few => absurd few unlimited⟩)

theorem processAttested_ticketed (ps : tk.processes = true) (cand : Candidate) (good : Verified) :
    (c.processAttested cand good).Follows (ticketing c) tk fun _ _ => True := by
  unfold Config.processAttested
  split
  · split
    · exact reject_ticketed ps _ _ _ _
    · apply follows_ask
      · exact trivial
      intro attested
      split
      · exact reject_ticketed ps _ _ _ _
      · split
        · exact reject_ticketed ps _ _ _ _
        · refine idles_clock.then ?_
          intro when last onward
          refine accept_ticketed (onward.processes.trans ps) _ _ _ ?_
          exact .inl rfl
  · exact reject_ticketed ps _ _ _ _

theorem processAssertion_ticketed (ps : tk.processes = true)
    (cand : Candidate) (good : Verified) (live : UserTrust.Config) (assertion : String) :
    (c.processAssertion cand good live assertion).Follows (ticketing c) tk fun _ _ => True := by
  unfold Config.processAssertion
  refine idles_clock.then ?_
  intro now fst onward
  have went := onward.processes.trans ps
  split
  · exact reject_ticketed went _ _ _ _
  · refine idles_clock.then ?_
    intro checkedAt snd further
    have test := further.processes.trans went
    split
    · exact reject_ticketed test _ _ _ _
    · split
      · exact reject_ticketed test _ _ _ _
      · refine idles_clock.then ?_
        intro when last rest
        refine accept_ticketed (rest.processes.trans test) _ _ _ ?_
        exact .inl rfl

theorem processSSO_ticketed (ps : tk.processes = true) (cand : Candidate) (good : Verified) :
    (c.processSSO cand good).Follows (ticketing c) tk fun _ _ => True := by
  unfold Config.processSSO
  split
  · exact reject_ticketed ps _ _ _ _
  · apply follows_ask
    · exact trivial
    intro live
    split
    · exact reject_ticketed ps _ _ _ _
    · split
      · exact reject_ticketed ps _ _ _ _
      · exact processAssertion_ticketed ps _ _ _ _

theorem process_ticketed (ps : tk.processes = true) (cand : Candidate) :
    (c.process cand).Follows (ticketing c) tk fun _ _ => True := by
  have looks : Idles (Config.existing cand.enrollmentID) := by
    unfold Config.existing
    apply idles_send rfl
    intro ans
    split <;> exact trivial
  unfold Config.process
  refine looks.then ?_
  intro seen last onward
  split
  · exact trivial
  · refine (verify_idles cand).then ?_
    intro good late further
    have same : late.processes = true := further.processes.trans (onward.processes.trans ps)
    split
    · exact trivial
    · split
      · exact processAttested_ticketed same _ _
      · split
        · exact processSSO_ticketed same _ _
        · split
          · exact processToken_ticketed same _ _
          · exact trivial

theorem procedure_ticketed (c : Config) (job : Job) :
    (c.procedure job).Follows (ticketing c) { processes := job.isProcess } fun _ _ => True := by
  cases job with
  | process cand => exact process_ticketed rfl cand
  | approve id who => exact (approve_idles id who).follows.mono fun _ _ _ => trivial
  | deny id who why => exact (denyPending_idles id who why).follows.mono fun _ _ _ => trivial

end

end Harbor.Consumer
