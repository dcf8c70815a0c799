import Harbor.Consumer.Ruling
import Harbor.Library.Ownership

/-!
# Approve and Deny racing for one enrollment

Every `Approve` allocates an address and signs before it knows whether it wins
the conditional update, so the race has two halves: who decides the row, which
is the ruling, and what becomes of the addresses.  The addresses are resources
owned by the calls; a call owns the one it holds or the one its verdict put
into the row.
-/

namespace Harbor.Consumer

open Function Library Library.Service Ipam Queue

def Verdict.address : Verdict → Option Addr
  | .issued _ ip => some ip
  | .denied => none

def Footprint.owned (f : Footprint) : Option Addr :=
  f.held.or (f.verdict.bind Verdict.address)

section

variable {c : Config} {env : Env} {pick : Choice} {w : World}
  {f : Footprint} {eid : String}
variable {stmt : Statement}

theorem owned_after (rs : stmt.writes ≠ some .enrollments)
    (leases : stmt.writes ≠ some .allocations) (a : stmt.Answer) :
    (f.after stmt a).owned = f.owned := by
  change (f.learn stmt a).owned = f.owned
  unfold Footprint.learn
  split <;> first
    | rfl
    | exact absurd rfl rs
    | exact absurd rfl leases
    | skip
  rename_i a
  obtain ⟨_, _, eq⟩ := f.read_eq a
  rw [eq]
  rfl

theorem execute_transfer (env : Env) (w : World) (rs : f.job.Decides eid)
    (ok : pick.fault = .ok) (may : f.may c stmt) : Transfer (· ∈ w.allocations.leased)
      (· ∈ (execute env pick w stmt).2.allocations.leased)
      f.owned (f.after stmt (execute env pick w stmt).1).owned := by
  cases stmt with
  | createEnrollment row =>
    obtain ⟨_, _, _, ⟨cand, proc⟩, _⟩ := may
    exact absurd proc (rs.not_process cand)
  | claimIssued eid out =>
    obtain ⟨_, loose, _, _, ip, held, _⟩ := may
    rw [(execute_framed env pick w _).allocations (by rintro ⟨⟩)]
    rcases claim_answer (execute env pick w (.claimIssued eid out)).1 with
      ⟨count, same⟩ | same | ⟨text, same⟩ <;>
    · rw [same]
      simpa [Footprint.owned, Footprint.after, Footprint.learn, held, loose,
        Verdict.address] using Transfer.kept fun _ => Iff.rfl
  | claimDenied eid when who =>
    obtain ⟨_, tidy⟩ := may
    have held : f.held = none := congrArg Footprint.held tidy
    have loose : f.verdict = none := congrArg Footprint.verdict tidy
    rw [(execute_framed env pick w _).allocations (by rintro ⟨⟩)]
    rcases claim_answer (execute env pick w (.claimDenied eid when who)).1 with
      ⟨count, same⟩ | same | ⟨text, same⟩ <;>
    · rw [same]
      simpa [Footprint.owned, Footprint.after, Footprint.learn, held, loose,
        Verdict.address] using Transfer.kept fun _ => Iff.rfl
  | purgeExpiredQuarantine =>
    have past : execute env pick w .purgeExpiredQuarantine =
        (.ok (), { w with
          allocations := w.allocations.purgeExpired pick.now }) :=
      database_ok ok _ _ _
    rw [past]
    exact .kept (Allocations.leased_purgeExpired w.allocations pick.now)
  | createAllocation row =>
    obtain ⟨free, got⟩ := may
    have unowned : f.owned = none := by
      simp [Footprint.owned, free.held, free.verdict]
    cases put : w.allocations.insert? row with
    | none =>
      have past : execute env pick w (.createAllocation row) = (.error .duplicatedKey, w) :=
        (createAllocation_ok ok row).trans (by rw [put]; rfl)
      rw [past]
      exact .kept fun _ => Iff.rfl
    | some new =>
      have past : execute env pick w (.createAllocation row) =
          (.ok (), { w with allocations := new }) :=
        (createAllocation_ok ok row).trans (by rw [put]; rfl)
      rw [past, unowned]
      exact .taken (Allocations.not_leased_of_insert put) (Allocations.leased_insert put got)
  | deleteAllocation ip =>
    obtain ⟨held, _, loose, _⟩ := may
    have past : execute env pick w (.deleteAllocation ip) =
        (.ok _, { w with
          allocations := w.allocations.delete ip }) :=
      database_ok ok _ _ _
    rw [past]
    simpa [Footprint.owned, Footprint.after, Footprint.learn, held, loose] using
      Transfer.freed (Allocations.leased_delete w.allocations ip)
  | quarantineAllocation ip ttl =>
    obtain ⟨held, _, loose, _⟩ := may
    have past : execute env pick w (.quarantineAllocation ip ttl) =
        (.ok _, { w with
          allocations := w.allocations.quarantine ip pick.now
            (pick.now + ttl) }) :=
      database_ok ok _ _ _
    rw [past]
    simpa [Footprint.owned, Footprint.after, Footprint.learn, held, loose] using
      Transfer.freed (Allocations.leased_quarantine w.allocations ip · pick.now (pick.now + ttl))
  | _ =>
    rw [owned_after (by rintro ⟨⟩) (by rintro ⟨⟩),
      (execute_framed env pick w _).allocations (by rintro ⟨⟩)]
    exact .kept fun _ => Iff.rfl

theorem execute_steady (env : Env) (w : World) (rs : f.job.Decides eid)
    (ok : pick.fault = .ok) (may : f.may c stmt) :
    (f.after stmt (execute env pick w stmt).1).doubt = f.doubt ∧
      (f.after stmt (execute env pick w stmt).1).failed =
        f.failed := by
  cases stmt with
  | createEnrollment row =>
    obtain ⟨_, _, _, ⟨cand, p⟩, _⟩ := may
    exact absurd p (rs.not_process cand)
  | claimIssued eid out =>
    rw [show (execute env pick w (.claimIssued eid out)).1 =
      .ok _ from congrArg Prod.fst (database_ok ok _ _ _)]
    cases w.enrollments.affected (World.isPending eid) <;>
      exact ⟨rfl, rfl⟩
  | claimDenied eid when who =>
    rw [show (execute env pick w (.claimDenied eid when who)).1 = .ok _ from
      congrArg Prod.fst (database_ok ok _ _ _)]
    cases w.enrollments.affected (World.isPending eid) <;>
      exact ⟨rfl, rfl⟩
  | deleteAllocation ip =>
    rw [show (execute env pick w (.deleteAllocation ip)).1 = .ok _ from
      congrArg Prod.fst (database_ok ok _ _ _)]
    exact ⟨rfl, rfl⟩
  | quarantineAllocation ip ttl =>
    rw [show (execute env pick w (.quarantineAllocation ip ttl)).1 =
      .ok _ from congrArg Prod.fst (database_ok ok _ _ _)]
    exact ⟨rfl, rfl⟩
  | sign template =>
    rw [show (execute env pick w (.sign template)).1 = .ok _ from
      congrArg Prod.fst (database_ok ok _ _ _)]
    exact ⟨rfl, rfl⟩
  | signBundle bundle =>
    rw [show (execute env pick w (.signBundle bundle)).1 = .ok _ from
      congrArg Prod.fst (database_ok ok _ _ _)]
    exact ⟨rfl, rfl⟩
  | findEnrollment eid =>
    rw [Footprint.after_findEnrollment]
    obtain ⟨_, _, eq⟩ := f.read_eq (execute env pick w (.findEnrollment eid)).1
    rw [eq]
    exact ⟨rfl, rfl⟩
  | observe nonce | createAllocation row | purgeExpiredQuarantine =>
    refine ⟨?_, rfl⟩
    change (f.learn _ _).doubt = _
    unfold Footprint.learn
    split <;> first
      | rfl
      | rename_i eq _
        cases eq
  | _ => exact ⟨rfl, rfl⟩

end

structure Footprint.Contends (f : Footprint) (enrollmentID : String) : Prop where
  decides : f.job.Decides enrollmentID
  undoubted : f.doubt = false
  inserted : f.inserted = none
  faultless : f.failed = []
  puts : f.put ≠ none → f.verdict ≠ none

structure Race (enrollmentID : String) (start world : World)
    (prints : Nat → Option Footprint) : Prop where
  ruling : Ruling enrollmentID world.enrollments prints
  kept : ∃ row, world.enrollments.find enrollmentID = some row
  contends : ∀ call f, prints call = some f → f.Contends enrollmentID
  refused : ∀ call f, prints call = some f → f.refused = true →
    ∀ row, world.enrollments.find enrollmentID = some row → row.status ≠ .pending
  leases : Ownership (· ∈ start.allocations.leased) (· ∈ world.allocations.leased)
    fun call => (prints call).bind Footprint.owned
  written : ∃ written, world.delivered = start.delivered ++ written ∧
    (written = [] ∨ ∃ call f delivery, written = [delivery] ∧
      prints call = some f ∧ f.put = some delivery)

namespace Race

variable {c : Config} {env : Env} {pick : Choice} {init w : World}
  {eid : String} {fps : Nat → Option Footprint} {call : Nat} {f : Footprint}

theorem initial (hit : init.enrollments.find eid = some row)
    (due : row.status = .pending) : Race eid init init fun _ => none where
  ruling := by
    apply Ruling.initial
    intro alt had
    rw [hit, Option.some.injEq] at had
    rw [← had, due]
  kept := ⟨row, hit⟩
  contends := fun _ _ had => nomatch had
  refused := fun _ _ had => nomatch had
  leases := Ownership.initial _
  written := ⟨[], by simp, .inl rfl⟩

theorem begin (race : Race eid init w fps) (idle : fps call = none) {job : Job}
    (rs : job.Decides eid) : Race eid init w (update fps call (some { job := job })) where
  ruling := race.ruling.begin idle job
  kept := race.kept
  contends := by
    rw [forall_update_some]
    refine ⟨⟨rs, rfl, rfl, rfl, fun put => absurd rfl put⟩, ?_⟩
    intro alt f _ had
    exact race.contends alt f had
  refused := by
    rw [forall_update_some]
    constructor
    · intro deny
      cases deny
    · intro alt f _ had
      exact race.refused alt f had
  leases := by
    rw [bind_update_some]
    apply race.leases.step
    rw [idle]
    exact .kept fun _ => Iff.rfl
  written := by
    obtain ⟨wrote, came, shape⟩ := race.written
    refine ⟨wrote, came, shape.imp_right ?_⟩
    rintro ⟨alt, f, sent, eq, had, put⟩
    refine ⟨alt, f, sent, eq, ?_, put⟩
    rw [update_of_ne, had]
    rintro rfl
    rw [idle] at had
    cases had

variable {stmt : Statement}

theorem contends_after (vies : f.Contends eid) (ok : pick.fault = .ok) (may : f.may c stmt) :
    (f.after stmt (execute env pick w stmt).1).Contends
      eid := by
  have eff := execute_rowEffect env pick w may
  obtain ⟨doubt, fail⟩ := execute_steady env w vies.decides ok may
  exact ⟨eff.job_eq ▸ vies.decides, doubt.trans vies.undoubted,
    (inserted_after vies.decides may _).trans vies.inserted, fail.trans vies.faultless,
    decided_after vies.decides vies.puts env pick w may⟩

theorem refused_after (race : Race eid init w fps)
    (had : fps call = some f) (may : f.may c stmt) : ∀ alt g, update fps call
        (some (f.after stmt (execute env pick w stmt).1)) alt = some g →
      g.refused = true → ∀ row, (execute env pick w stmt).2.enrollments.find
          eid = some row → row.status ≠ .pending := by
  have eff := execute_rowEffect env pick w may
  have own := (race.contends call f had).decides.enrollmentID_eq
  obtain ⟨old, hit⟩ := race.kept
  obtain ⟨row, now, same⟩ := eff.persists hit
  have stays : old.status ≠ .pending → ∀ alt, (execute env pick w stmt).2.enrollments.find eid =
        some alt → alt.status ≠ .pending := by
    intro ruled alt here
    rw [now, Option.some.injEq] at here
    rwa [← here, same ruled]
  rw [forall_update_some]
  constructor
  · intro deny
    apply stays
    rcases eff.refusal (own ▸ hit) deny with was | ruled
    · exact race.refused call f had was old hit
    · exact ruled
  · intro alt g _ here deny
    exact stays (race.refused alt g here deny old hit)

theorem written_after (race : Race eid init w fps)
    (had : fps call = some f) (ok : pick.fault = .ok) (may : f.may c stmt) :
    ∃ wrote, (execute env pick w stmt).2.delivered = init.delivered ++ wrote ∧
      (wrote = [] ∨ ∃ alt g sent, wrote = [sent] ∧ update fps call
          (some (f.after stmt (execute env pick w stmt).1)) alt = some g ∧ g.put = some sent) := by
  obtain ⟨wrote, came, shape⟩ := race.written
  have vies := race.contends call f had
  by_cases puts : stmt.writes = some .results
  · cases stmt with
    | putResult sent =>
      have past : execute env pick w (.putResult sent) =
          (.ok (), { w with
            results := Queue.putResult w.results sent
            delivered := w.delivered ++ [sent] }) :=
        database_ok ok _ _ _
      rw [past]
      rcases shape with rfl | ⟨alt, g, old, rfl, there, put⟩
      · refine ⟨[sent], by simp [came], .inr ⟨call, _, sent, rfl, update_self .., rfl⟩⟩
      · have theirs := race.contends alt g there
        have eq := race.ruling.unique call f had alt g there
          ⟨vies.decides.enrollmentID_eq, decided_of_putResult vies.decides may⟩
          ⟨theirs.decides.enrollmentID_eq, theirs.puts (by simp [put])⟩
        subst eq
        rw [had, Option.some.injEq] at there
        subst there
        rw [may.1] at put
        cases put
    | _ => cases puts
  · rw [((execute_framed env pick w stmt).results puts).2]
    refine ⟨wrote, came, shape.imp_right ?_⟩
    rintro ⟨alt, g, sent, eq, there, put⟩
    by_cases here : alt = call
    · subst here
      rw [had, Option.some.injEq] at there
      subst there
      exact ⟨alt, _, sent, eq, update_self .., (put_after puts _).trans put⟩
    · exact ⟨alt, g, sent, eq, (update_of_ne here _ _).trans there, put⟩

theorem execute (race : Race eid init w fps)
    (had : fps call = some f) (ok : pick.fault = .ok) {stmt : Statement} (may : f.may c stmt) :
    Race eid init (Consumer.execute env pick w stmt).2
      (update fps call (some (f.after stmt (Consumer.execute env pick w stmt).1))) where
  ruling := race.ruling.step had (execute_rowEffect env pick w may)
  kept := by
    obtain ⟨old, hit⟩ := race.kept
    obtain ⟨row, now, _⟩ := (execute_rowEffect env pick w may).persists hit
    exact ⟨row, now⟩
  contends := by
    rw [forall_update_some]
    refine ⟨contends_after (race.contends call f had) ok may, ?_⟩
    intro alt g _ here
    exact race.contends alt g here
  refused := race.refused_after had may
  leases := by
    rw [bind_update_some]
    apply race.leases.step
    rw [had]
    exact execute_transfer env w (race.contends call f had).decides ok may
  written := race.written_after had ok may

end Race

inductive Concluded (enrollmentID : String) (f : Footprint) : Job → Except Error Result → Prop where
  | approved {approver : String} {result : Result} {columns : Issued} {ip : Addr} :
      result.overlayIP = addrString ip → f.verdict = some (.issued columns ip) → f.held = none →
      Concluded enrollmentID f (.approve enrollmentID approver) (.ok result)
  | denied {approver reason : String} {result : Result} : f.verdict = some .denied → f.held = none →
      Concluded enrollmentID f (.deny enrollmentID approver reason) (.ok result)
  | refused {job : Job} : f.refused = true → f.verdict = none → f.held = none →
      Concluded enrollmentID f job (.error .notPending)

theorem concluded_of_ended {c : Config} {f : Footprint}
    (contends : f.Contends eid) (fin : Ended c job v f)
    (refusal : ∀ err, v = .error err → err = .notPending) :
    Concluded eid f job v := by
  have rs := contends.decides
  have faultless := contends.faultless
  rw [fin.job_eq] at rs
  cases job with
  | process cand => exact rs.elim
  | approve law who =>
    obtain rfl : law = eid := rs
    change ApproveEnds c _ v f at fin
    cases fin with
    | stopped o => exact absurd (refusal _ rfl) o
    | refused => exact .refused rfl rfl rfl
    | outrun _ undo =>
      cases undo with
      | released => exact .refused rfl rfl rfl
      | stuck => cases faultless
    | unsigned _ _ => cases refusal _ rfl
    | unclaimed _ _ => cases refusal _ rfl
    | unbundled => cases refusal _ rfl
    | issued _ address put =>
      rcases put with ⟨_, rfl⟩ | ⟨_, _, _, rfl⟩ <;>
        exact .approved address rfl rfl
  | deny law who reason =>
    obtain rfl : law = eid := rs
    change DenyEnds c _ v f at fin
    cases fin with
    | stopped => cases refusal _ rfl
    | refused => exact .refused rfl rfl rfl
    | denied _ put =>
      rcases put with ⟨_, rfl⟩ | ⟨_, _, _, rfl⟩ <;>
        exact .denied rfl rfl

section

variable {eid : String} {init w : World}
  {fps : Nat → Option Footprint} {call : Nat} {f : Footprint}

def AllConcluded (enrollmentID : String) (prints : Nat → Option Footprint)
    (calls : Nat → ConsumerCall) : Prop :=
  ∀ call f, prints call = some f → ∃ job value, calls call = .returned job value ∧
      Concluded enrollmentID f job value

variable {job : Job}

theorem Concluded.decided_of_ok (done : Concluded eid f job (.ok res)) : f.verdict ≠ none := by
  cases done with
  | approved _ vote _ | denied vote _ => simp [vote]

theorem Concluded.owned_of_undecided (done : Concluded eid f job val)
    (unset : f.verdict = none) : f.owned = none := by
  cases done with
  | approved _ vote _ | denied vote _ =>
    rw [unset] at vote
    cases vote
  | refused _ _ held => simp [Footprint.owned, held, unset]

theorem Race.exists_decided (race : Race eid init w fps)
    (had : fps call = some f) (done : Concluded eid f job val) :
    ∃ winner g, fps winner = some g ∧ g.verdict ≠ none := by
  cases done with
  | approved _ vote _ | denied vote _ => exact ⟨call, f, had, by simp [vote]⟩
  | refused deny _ _ =>
    obtain ⟨row, hit⟩ := race.kept
    obtain ⟨winner, g, here, _, law | doubted | ⟨_, put, _⟩⟩ :=
      race.ruling.answered row hit (race.refused call f had deny row hit)
    · exact ⟨winner, g, here, law⟩
    · rw [(race.contends winner g here).undoubted] at doubted
      cases doubted
    · rw [(race.contends winner g here).inserted] at put
      cases put

variable {calls : Nat → ConsumerCall}

theorem Race.leased_iff (race : Race eid init w fps)
    (done : AllConcluded eid fps calls) (had : fps call = some f)
    (law : f.verdict ≠ none) (ip : Addr) : ip ∈ w.allocations.leased ↔
      ip ∈ init.allocations.leased ∨ f.owned = some ip := by
  rw [race.leases.accounted]
  apply or_congr_right
  constructor
  · rintro ⟨alt, own⟩
    cases here : fps alt with
    | none =>
      rw [here] at own
      cases own
    | some g =>
      rw [here, Option.bind_some] at own
      obtain ⟨_, _, _, past⟩ := done alt g here
      have theirs : g.verdict ≠ none := by
        intro unset
        rw [past.owned_of_undecided unset] at own
        cases own
      have eq := race.ruling.unique call f had alt g here
        ⟨(race.contends call f had).decides.enrollmentID_eq, law⟩
        ⟨(race.contends alt g here).decides.enrollmentID_eq, theirs⟩
      subst eq
      rw [had, Option.some.injEq] at here
      rwa [here]
  · intro own
    exact ⟨call, by rwa [had, Option.bind_some]⟩

/-- What the race comes to: the row shows the decision of the call that
succeeded, and a winning Approve has leased the only new address. -/
inductive Outcome (enrollmentID : String) (start world : World)
    (calls : Nat → ConsumerCall) : Prop where
  | approved {call : Nat} {approver : String} {result : Result}
      {decision : Enrollment} {ip : Addr} : calls call =
        .returned (.approve enrollmentID approver) (.ok result) →
      world.enrollments.find enrollmentID = some decision → decision.status = .issued →
      decision.overlayIP = addrString ip → result.overlayIP = addrString ip →
      ip ∉ start.allocations.leased → (∀ other, other ∈ world.allocations.leased ↔
        other ∈ start.allocations.leased ∨ other = ip) → Outcome enrollmentID start world calls
  | denied {call : Nat} {approver reason : String} {result : Result} {decision : Enrollment} :
      calls call = .returned (.deny enrollmentID approver reason) (.ok result) →
      world.enrollments.find enrollmentID = some decision → decision.status = .denied →
      (∀ other, other ∈ world.allocations.leased ↔ other ∈ start.allocations.leased) →
      Outcome enrollmentID start world calls

theorem Race.outcome (race : Race eid init w fps) (done : AllConcluded eid fps calls)
    (had : fps call = some f) (law : f.verdict ≠ none) :
    Outcome eid init w calls := by
  have lent := race.leased_iff done had law
  have own := (race.contends call f had).decides.enrollmentID_eq
  obtain ⟨job, val, returned, past⟩ := done call f had
  cases past with
  | refused _ unset _ => exact absurd unset law
  | @approved who res cols ip addr vote held =>
    have owned : f.owned = some ip := by
      simp [Footprint.owned, held, vote, Verdict.address]
    obtain ⟨decision, seen, st, _, overlay, same⟩ := race.ruling.shown call f had own _ vote
    refine .approved returned seen st (overlay.trans same) addr
      (race.leases.fresh call ip (by simp [had, owned])) ?_
    intro alt
    rw [lent, owned, Option.some.injEq, eq_comm (a := ip)]
  | @denied who reason res vote held =>
    have unowned : f.owned = none := by
      simp [Footprint.owned, held, vote, Verdict.address]
    obtain ⟨decision, seen, st⟩ := race.ruling.shown call f had own _ vote
    refine .denied returned seen st ?_
    intro alt
    simp [lent, unowned]

theorem Race.eq_of_ok (race : Race eid init w fps) (done : AllConcluded eid fps calls)
    (went : ∀ call, calls call ≠ .idle → ∃ f, fps call = some f)
    (fine : calls alt = .returned job (.ok res))
    (had : fps call = some f) (law : f.verdict ≠ none) : alt = call := by
  obtain ⟨g, here⟩ := went alt (by rw [fine]; nofun)
  obtain ⟨_, _, eq, past⟩ := done alt g here
  rw [fine] at eq
  cases eq
  exact race.ruling.unique alt g here call f had
    ⟨(race.contends alt g here).decides.enrollmentID_eq, past.decided_of_ok⟩
    ⟨(race.contends call f had).decides.enrollmentID_eq, law⟩

end

/-- Approve against Deny: of any number of concurrent decisions about a pending
enrollment at most one ever writes a result.  When all have returned, and none
failed to issue, exactly one succeeded; the row says what it decided, and the
only address leased since the start is the one a winning Approve put there. -/
theorem one_decision_wins {c : Config} {env : Env} {enrollmentID : String}
    {start : World} {row : Enrollment} {finish : ConsumerState}
    (found : start.enrollments.find enrollmentID = some row) (pending : row.status = .pending)
    (reached : Reaches (consumer c env).step (contest enrollmentID).Allows
      (State.quiet start) finish) :
    (∃ written, finish.world.delivered = start.delivered ++ written ∧ written.length ≤ 1) ∧
    (finish.Settled → (∃ call, finish.calls call ≠ .idle) → (∀ call job error,
        finish.calls call = .returned job (.error error) → error = .notPending) →
      (∃! call, ∃ job result, finish.calls call = .returned job (.ok result)) ∧
      Outcome enrollmentID start finish.world finish.calls) := by
  obtain ⟨last, race, staged⟩ := phased_of_reaches (procedure_follows c)
    (Race enrollmentID start) (fun _ => .idle) (Race.initial found pending)
    (fun race idle decides => race.begin idle decides)
    (fun race present permitted ok => race.execute present ok permitted) reached
  refine ⟨?_, ?_⟩
  · obtain ⟨written, delivered, rfl | ⟨_, _, _, rfl, _⟩⟩ := race.written
    · exact ⟨[], delivered, by simp⟩
    · exact ⟨[_], delivered, by simp⟩
  · rintro settled ⟨first, began⟩ refusals
    have uncrashed := uncrashed_of_reaches (fun crash => crash)
      (by intro _ _ crashed; cases crashed) reached
    have concluded : AllConcluded enrollmentID (fun call => (last call).phase) finish.calls := by
      intro call f present
      obtain ⟨job, value, returned, ended⟩ :=
        returned_of_settled staged settled uncrashed present
      refine ⟨job, value, returned, ?_⟩
      apply concluded_of_ended (race.contends call f present) ended
      rintro error rfl
      exact refusals call job error returned
    have begun : ∀ call, finish.calls call ≠ .idle → ∃ f, (last call).phase = some f :=
      fun call => phase_of_begun (staged call)
    obtain ⟨f, present⟩ := begun first began
    obtain ⟨_, _, _, ended⟩ := concluded first f present
    obtain ⟨winner, g, there, decided⟩ := race.exists_decided present ended
    obtain ⟨job, value, returned, ended⟩ := concluded winner g there
    refine ⟨⟨winner, ?_, ?_⟩, race.outcome concluded there decided⟩
    · cases ended with
      | refused _ undecided _ => exact absurd undecided decided
      | approved | denied => exact ⟨_, _, returned⟩
    · rintro other ⟨job, result, succeeded⟩
      exact race.eq_of_ok concluded begun succeeded there decided

namespace Example

def parked : EnrollmentRows :=
  ⟨[{ id := 1, enrollmentID := "e1", deviceName := "host", status := .pending }],
    List.nodup_singleton _⟩

def twoApprovals : List (Event Job Choice) :=
  [.begin 0 (.approve "e1" "alice"), .begin 1 (.approve "e1" "bob")] ++
    (List.replicate 16 [.step 0 {}, .step 1 {}]).flatten ++ [.step 0 {}]

end Example

open Example

theorem one_decision_wins_two_approvals :
    ∃ finish, Reaches (consumer config env).step (contest "e1").Allows
        (State.quiet (world parked .empty)) finish ∧
      (∃! call, ∃ job result, finish.calls call = .returned job (.ok result)) ∧
      Outcome "e1" (world parked .empty) finish.world finish.calls := by
  have executed : (runEvents (guarded (consumer config env).step (contest "e1").Allows)
      (State.quiet (world parked .empty)) twoApprovals).map
      (fun state => ((success (state.calls 0)).isSome,
        closed (state.calls 0), closed (state.calls 1))) = some (true, true, true) := by
    decide
  obtain ⟨finish, ran, ended⟩ := Option.map_eq_some_iff.mp executed
  simp only [Prod.mk.injEq] at ended
  obtain ⟨succeeded, first, second⟩ := ended
  have all : ∀ call, closed (finish.calls call) = true := by
    apply forall_calls_of_runEvents 2 (fun call => closed call = true) (runEvents_of_guarded ran)
    · decide
    · exact fun _ _ => rfl
    · intro call within
      match call with
      | 0 => exact first
      | 1 => exact second
  have reached := reaches_of_runEvents ran
  refine ⟨finish, reached, (one_decision_wins rfl rfl reached).2
    (settled_of_closed all) ⟨0, ?_⟩ (refused_of_closed all)⟩
  intro idle
  rw [idle] at succeeded
  cases succeeded

end Harbor.Consumer
