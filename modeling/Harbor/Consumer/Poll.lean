import Harbor.Consumer.Ruling

/-!
# The result a host polls for

A candidate is parked by two statements, the pending row in Harbor's database
and then the pending result in the gateway's; a decision changes the row and
then writes its own result.  Results are upserts that keep the secret hash of
the row that is there, so the outcome depends on their order: the decision's
result must not be the first one.  Under that condition the stored result
follows the decision and opens with the candidate's retrieval secret.
-/

namespace Harbor.Consumer

open Function Library Library.Service Ipam Queue Option

def Footprint.Signed (env : Env) (f : Footprint) : Prop :=
  ∀ content signed, f.built = some (content, signed) → ∃ seed, signed = env.signJWS seed content

section

variable {c : Config} {f : Footprint}

theorem execute_signed (env : Env) (io : Choice) (w : World) (sig : f.Signed env) (s : Statement) :
    (f.after s (execute env io w s).1).Signed env := by
  cases s with
  | signBundle pack =>
    rcases database_cases io w (env.signJWS io.seed pack) w with ended | ended | ended <;>
    have ans : execute env io w (.signBundle pack) = _ := ended
    · rw [ans]
      rintro t made ⟨⟩
      exact ⟨io.seed, rfl⟩
    · rw [ans]
      exact sig
    · rw [ans]
      exact sig
  | findEnrollment id =>
    obtain ⟨_, _, eq⟩ := f.read_eq (execute env io w (.findEnrollment id)).1
    rw [Footprint.after_findEnrollment, eq]
    exact sig
  | observe _ | createEnrollment _ | claimIssued _ _ | claimDenied _ _ _
  | purgeExpiredQuarantine | createAllocation _ | deleteAllocation _
  | quarantineAllocation _ _ | sign _ =>
    change (f.learn _ _).Signed env
    unfold Footprint.learn
    split <;> first
      | exact sig
      | rename_i eq _
        cases eq
  | _ => exact sig

theorem execute_known (env : Env) (io : Choice) (w : World) (may : f.may c s)
    (seen : (f.after s (execute env io w s).1).known ≠ none) : f.known ≠ none ∨
      ∃ row, w.enrollments.find f.job.enrollmentID = some row := by
  cases s with
  | findEnrollment id =>
    obtain rfl : id = f.job.enrollmentID := may
    rw [Footprint.after_findEnrollment] at seen
    change (f.read (io.database w (w.enrollments.find f.job.enrollmentID) w).1).known ≠ none at seen
    rcases read_cases f (io.database w
      (w.enrollments.find f.job.enrollmentID) w).1 with eq | ⟨row, _, told⟩ | ⟨eq, _⟩
    · exact .inl (eq ▸ seen)
    · rcases database_cases io w
        (w.enrollments.find f.job.enrollmentID) w with ended | ended | ended
      · rw [ended, Except.ok.injEq] at told
        exact .inr ⟨row, told⟩
      · rw [ended] at told
        cases told
      · rw [ended] at told
        cases told
    · rw [eq] at seen
      exact .inl seen
  | observe _ | createEnrollment _ | claimIssued _ _ | claimDenied _ _ _
  | purgeExpiredQuarantine | createAllocation _ | deleteAllocation _
  | quarantineAllocation _ _ | sign _ | signBundle _ =>
    change (f.learn _ _).known ≠ none at seen
    unfold Footprint.learn at seen
    split at seen <;> first
      | exact .inl seen
      | rename_i eq _
        cases eq
  | _ => exact .inl seen

end

/-- The result row reflects the writes of the calls: those of the parking call
0 come first, a decision's replaces the status and the bundle. -/
structure Stored (cand : Candidate) (puts : Nat → Option Delivery)
    (result : Queue.Result) : Prop where
  secret : result.secretHash = cand.retrievalSecretHash
  unread : result.readCount = 0
  parked : ∃ delivery, puts 0 = some delivery ∧
    ((∀ call, call ≠ 0 → puts call = none) → result.status = delivery.status)
  decided : ∀ call, call ≠ 0 → ∀ delivery, puts call = some delivery →
    result.status = delivery.status ∧ result.bundle = delivery.bundle

structure Mailbox (cand : Candidate) (puts : Nat → Option Delivery) (results : Results) : Prop where
  silent : results.find cand.enrollmentID = none → ∀ call, puts call = none
  stored : ∀ result, results.find cand.enrollmentID = some result → Stored cand puts result

namespace Mailbox

variable {cand : Candidate} {puts : Nat → Option Delivery} {outs : Results} {dlv : Delivery}

theorem park (mailbox : Mailbox cand puts outs) (own : dlv.enrollmentID = cand.enrollmentID)
    (key : dlv.secretHash = cand.retrievalSecretHash) (fst : puts 0 = none) :
    Mailbox cand (update puts 0 (some dlv)) (putResult outs dlv) := by
  have unstored : outs.find cand.enrollmentID = none := by
    cases hit : outs.find cand.enrollmentID with
    | none => rfl
    | some res =>
      obtain ⟨old, put, _⟩ := (mailbox.stored res hit).parked
      rw [fst] at put
      cases put
  have mute := mailbox.silent unstored
  have now : (putResult outs dlv).find cand.enrollmentID = some dlv.row := by
    rw [find_putResult, if_pos own.symm, unstored]
    rfl
  constructor
  · intro gone
    rw [now] at gone
    cases gone
  · intro res hit
    rw [now, Option.some.injEq] at hit
    subst hit
    refine ⟨key, rfl, ⟨dlv, update_self .., fun _ => rfl⟩, ?_⟩
    intro c pos alt put
    rw [update_of_ne pos, mute] at put
    cases put

theorem decide (mailbox : Mailbox cand puts outs) (own : dlv.enrollmentID = cand.enrollmentID)
    (here : outs.find cand.enrollmentID ≠ none) (pos : c ≠ 0)
    (only : ∀ alt, alt ≠ 0 → alt ≠ c → puts alt = none) :
    Mailbox cand (update puts c (some dlv)) (putResult outs dlv) := by
  obtain ⟨res, hit⟩ := ne_none_iff_exists'.mp here
  obtain ⟨key, left, ⟨parked, put, _⟩, _⟩ := mailbox.stored res hit
  have now : (putResult outs dlv).find cand.enrollmentID = some (dlv.overwrite res) := by
    rw [find_putResult, if_pos own.symm, hit]
    rfl
  constructor
  · intro gone
    rw [now] at gone
    cases gone
  · intro last eq
    rw [now, Option.some.injEq] at eq
    subst eq
    refine ⟨key, left, ⟨parked, (update_of_ne pos.symm _ _).trans put, ?_⟩, ?_⟩
    · intro unset
      have wrote := unset c pos
      rw [update_self] at wrote
      cases wrote
    · intro alt ne wrote put
      by_cases eq : alt = c
      · subst eq
        rw [update_self, Option.some.injEq] at put
        subst put
        exact ⟨rfl, rfl⟩
      · rw [update_of_ne eq, only alt ne eq] at put
        cases put

end Mailbox

structure Poll (env : Env) (cand : Candidate) (world : World)
    (prints : Nat → Option Footprint) : Prop where
  ruling : Ruling cand.enrollmentID world.enrollments prints
  parks : ∃ p, prints 0 = some p ∧ p.job = .process cand
  decides : ∀ call f, prints call = some f → call ≠ 0 →
    f.job.Decides cand.enrollmentID ∧ f.inserted = none ∧ (f.put ≠ none → f.verdict ≠ none)
  origin : ∀ row, world.enrollments.find cand.enrollmentID = some row →
    ∃ p, prints 0 = some p ∧ p.inserted ≠ none
  placed : ∀ p, prints 0 = some p → p.recorded = true ∨ p.known ≠ none →
    ∃ row, world.enrollments.find cand.enrollmentID = some row
  signed : ∀ call f, prints call = some f → f.Signed env
  mailbox : Mailbox cand (fun call => (prints call).bind Footprint.put) world.results

namespace Poll

variable {c : Config} {env : Env} {pick : Choice} {cand : Candidate}
  {w : World} {fps : Nat → Option Footprint} {call : Nat} {f : Footprint}

def parking (cand : Candidate) : Nat → Option Footprint :=
  update (fun _ => none) 0 (some { job := .process cand })

theorem parking_eq (had : parking cand alt = some f) : alt = 0 ∧ f = { job := .process cand } := by
  unfold parking at had
  by_cases zero : alt = 0
  · subst zero
    rw [update_self, Option.some.injEq] at had
    exact ⟨rfl, had.symm⟩
  · rw [update_of_ne zero] at had
    cases had

theorem initial (new : w.enrollments.find cand.enrollmentID = none)
    (unstored : w.results.find cand.enrollmentID = none) : Poll env cand w (parking cand) where
  ruling := by
    apply (Ruling.initial _).begin rfl
    intro row hit
    rw [new] at hit
    cases hit
  parks := ⟨_, update_self .., rfl⟩
  decides := fun _ _ had o => absurd (parking_eq had).1 o
  origin := by
    intro row hit
    rw [new] at hit
    cases hit
  placed := by
    intro p had noted
    rw [(parking_eq had).2] at noted
    rcases noted with noted | known
    · cases noted
    · exact absurd rfl known
  signed := by
    intro call f had t sig built
    rw [(parking_eq had).2] at built
    cases built
  mailbox := by
    constructor
    · intro _ call
      cases had : parking cand call with
      | none => rfl
      | some f =>
        rw [(parking_eq had).2]
        rfl
    · intro res hit
      rw [unstored] at hit
      cases hit

theorem begin (poll : Poll env cand w fps) (idle : fps call = none)
    {job : Job} (rs : job.Decides cand.enrollmentID) : Poll env cand w
      (update fps call (some { job := job })) := by
  obtain ⟨p, parks, proc⟩ := poll.parks
  have alt : 0 ≠ call := by
    rintro rfl
    rw [idle] at parks
    cases parks
  have zero : update fps call (some { job := job }) 0 = fps 0 := update_of_ne alt _ _
  refine
    { ruling := poll.ruling.begin idle job
      parks := ⟨p, zero.trans parks, proc⟩
      decides := ?_
      origin := ?_
      placed := ?_
      signed := ?_
      mailbox := ?_ }
  · rw [forall_update_some]
    refine ⟨fun _ => ⟨rs, rfl, fun put => absurd rfl put⟩, ?_⟩
    intro alt f _ had
    exact poll.decides alt f had
  · intro row hit
    rw [zero]
    exact poll.origin row hit
  · intro p had
    rw [zero] at had
    exact poll.placed p had
  · rw [forall_update_some]
    refine ⟨fun _ _ built => (nomatch built), ?_⟩
    intro alt f _ had
    exact poll.signed alt f had
  · have same : (fps call).bind Footprint.put = none := by rw [idle]; rfl
    rw [bind_update_some]
    change Mailbox cand (update _ call none) _
    rw [← same, update_eq_self call (fun alt => (fps alt).bind Footprint.put)]
    exact poll.mailbox

/-- The condition under which a statement keeps the invariant: results are
written, and a decision's is not the first. -/
def Orderly (cand : Candidate) (world : World) (call : Nat)
    (statement : Statement) (choice : Choice) : Prop :=
  statement.writes = some .results → choice.fault = .ok ∧
    (call = 0 ∨ world.results.find cand.enrollmentID ≠ none)

theorem mailbox_after (poll : Poll env cand w fps) (had : fps call = some f) (may : f.may c s)
    (neat : Orderly cand w call s pick) : Mailbox cand (fun alt => (update fps call (some (f.after s
        (execute env pick w s).1)) alt).bind Footprint.put) (execute env pick w s).2.results := by
  have mine : (fps call).bind Footprint.put = f.put := by rw [had]; rfl
  rw [bind_update_some]
  by_cases writes : s.writes = some .results
  · obtain ⟨ok, ord⟩ := neat writes
    cases s with
    | putResult dlv =>
      have past : execute env pick w (.putResult dlv) =
          (.ok (), { w with
            results := Queue.putResult w.results dlv
            delivered := w.delivered ++ [dlv] }) :=
        database_ok ok _ _ _
      rw [past]
      have puts := may
      obtain ⟨bare, own, out⟩ := may
      by_cases zero : call = 0
      · subst zero
        obtain ⟨p, wait, proc⟩ := poll.parks
        rw [had, Option.some.injEq] at wait
        subst wait
        rw [proc] at own out
        exact poll.mailbox.park own out.1 (mine.trans bare)
      · have rs := (poll.decides call f had zero).1
        apply poll.mailbox.decide (own.trans rs.enrollmentID_eq) (ord.resolve_left zero) zero
        intro alt pos ne
        cases here : fps alt with
        | none => rfl
        | some g =>
          obtain ⟨theirs, _, wrote⟩ := poll.decides alt g here pos
          rw [bind_some]
          by_contra put
          exact ne (poll.ruling.unique alt g here call f had ⟨theirs.enrollmentID_eq, wrote put⟩
            ⟨rs.enrollmentID_eq, decided_of_putResult rs puts⟩)
    | _ => cases writes
  · rw [put_after writes, ((execute_framed env pick w s).results
      writes).1, ← mine, update_eq_self call (fun alt => (fps alt).bind Footprint.put)]
    exact poll.mailbox

theorem execute (poll : Poll env cand w fps)
    (had : fps call = some f) {stmt : Statement} (may : f.may c stmt)
    (neat : Orderly cand w call stmt pick) :
    Poll env cand (Consumer.execute env pick w stmt).2 (update fps call (some (f.after stmt
        (Consumer.execute env pick w stmt).1))) := by
  have eff := execute_rowEffect env pick w may
  obtain ⟨p, parks, process⟩ := poll.parks
  refine
    { ruling := poll.ruling.step had eff
      parks := ?_
      decides := ?_
      origin := ?_
      placed := ?_
      signed := ?_
      mailbox := poll.mailbox_after had may neat }
  · by_cases zero : 0 = call
    · subst zero
      rw [had, Option.some.injEq] at parks
      subst parks
      exact ⟨_, update_self .., eff.job_eq.trans process⟩
    · exact ⟨p, (update_of_ne zero _ _).trans parks, process⟩
  · rw [forall_update_some]
    constructor
    · intro pos
      obtain ⟨rs, put, written⟩ := poll.decides call f had pos
      exact ⟨eff.job_eq ▸ rs, (inserted_after rs may _).trans put,
        decided_after rs written env pick w may⟩
    · intro alt g _ here
      exact poll.decides alt g here
  · intro row hit
    rcases eff.origin hit with ⟨old, was⟩ | ⟨_, ask⟩
    · obtain ⟨p, parks, put⟩ := poll.origin old was
      by_cases zero : 0 = call
      · subst zero
        rw [had, Option.some.injEq] at parks
        subst parks
        exact ⟨_, update_self .., eff.inserted_of_inserted put⟩
      · exact ⟨p, (update_of_ne zero _ _).trans parks, put⟩
    · by_cases zero : call = 0
      · subst zero
        exact ⟨_, update_self .., ask⟩
      · obtain ⟨rs, none, _⟩ := poll.decides call f had zero
        rw [inserted_after rs may] at ask
        exact absurd none ask
  · have stays : (∃ row, w.enrollments.find cand.enrollmentID = some row) →
        ∃ row, (Consumer.execute env pick w
          stmt).2.enrollments.find cand.enrollmentID = some row := by
      rintro ⟨old, hit⟩
      obtain ⟨row, now, _⟩ := eff.persists hit
      exact ⟨row, now⟩
    intro q final
    by_cases zero : 0 = call
    · subst zero
      rw [had, Option.some.injEq] at parks
      subst parks
      rw [update_self, Option.some.injEq] at final
      subst final
      have own : f.job.enrollmentID = cand.enrollmentID := by rw [process]; rfl
      rintro (noted | known)
      · rcases eff.found_of_recorded noted with before | ⟨row, now⟩
        · exact stays (poll.placed f had (.inl before))
        · exact ⟨row, own ▸ now⟩
      · rcases execute_known env pick w may known with before | hit
        · exact stays (poll.placed f had (.inr before))
        · exact stays (own ▸ hit)
    · rw [update_of_ne zero] at final
      intro noted
      exact stays (poll.placed q final noted)
  · rw [forall_update_some]
    refine ⟨execute_signed env pick w (poll.signed call f had) _, ?_⟩
    intro alt g _ here
    exact poll.signed alt g here

end Poll

theorem decision_delivers {c : Config} {id : String} {job : Job}
    {v : Except Error Result} {f : Footprint} (outs : c.results = true)
    (rs : f.job.Decides id) (put : f.inserted = none)
    (fin : Ended c job v f) (refusal : ∀ err, v = .error err → err = .notPending)
    (answers : f.Answers id) : ∃ vote dlv, f.verdict = some vote ∧
      f.put = some dlv ∧ dlv.status = vote.status ∧ ∀ columns ip, vote = .issued columns ip →
        Footprint.Carries c f.built columns.certPEM columns.overlayIP
          dlv.bundle := by
  have law : f.verdict ≠ none ∨ f.doubt = true := by
    rcases answers.2 with law | doubted | ⟨row, ask, _⟩
    · exact .inl law
    · exact .inr doubted
    · rw [put] at ask
      cases ask
  rw [fin.job_eq] at rs
  have sent : ∀ init : Footprint, (∀ cand, init.job ≠ .process cand) → Written c init f →
      ∃ vote dlv, f.verdict = some vote ∧ f.put = some dlv ∧ dlv.status = vote.status ∧
        ∀ columns ip, vote = .issued columns ip →
          Footprint.Carries c f.built columns.certPEM columns.overlayIP
            dlv.bundle := by
    intro init decision wrote
    rcases wrote with ⟨none, _⟩ | ⟨_, dlv, ⟨_, out⟩, rfl⟩
    · rw [outs] at none
      cases none
    · cases job : init.job with
      | process cand => exact absurd job (decision cand)
      | approve | deny =>
        rw [job] at out
        obtain ⟨_, vote, got, st, carries⟩ := out
        exact ⟨vote, dlv, got, rfl, st, carries⟩
  cases job with
  | process cand => exact rs.elim
  | approve _ who =>
    change ApproveEnds c _ v f at fin
    cases fin with
    | stopped alt => exact absurd (refusal _ rfl) alt
    | refused => simp at law
    | outrun _ undo => cases undo <;> simp at law
    | unsigned _ _ => cases refusal _ rfl
    | unclaimed _ _ => cases refusal _ rfl
    | unbundled => cases refusal _ rfl
    | issued _ _ wrote => exact sent _ (by nofun) wrote
  | deny _ who why =>
    change DenyEnds c _ v f at fin
    cases fin with
    | stopped => cases refusal _ rfl
    | refused => simp at law
    | denied _ wrote => exact sent _ (by nofun) wrote

def Bundled (c : Config) (env : Env) (row : Enrollment) (bundle : Bytes) :
    Prop :=
  (c.configBackend = false ∧ bundle = []) ∨ ∃ seed content, bundle = env.signJWS seed content ∧
      content.certificate = row.certPEM ∧ content.overlayIP = row.overlayIP

def ResultFollows (c : Config) (env : Env) (cand : Candidate) (world : World) :
    Prop :=
  ∃ row result, world.enrollments.find cand.enrollmentID = some row ∧
    world.results.find cand.enrollmentID = some result ∧ result.status = row.status ∧
    (row.status = .issued → Bundled c env row result.bundle) ∧
    ∀ secret now, c.codec.sha256 secret = cand.retrievalSecretHash →
      result.expiresAt = 0 ∨ now < result.expiresAt →
      (getResult world.results c.codec.sha256 cand.enrollmentID secret now).1 = .ok
          { status := row.status
            bundle := result.bundle
            reason := result.reason }

def parkingState (c : Config) (cand : Candidate) (world : World) : ConsumerState where
  world := world
  calls := update (fun _ => .idle) 0 (.running (.process cand) (c.procedure (.process cand)))

/-- The stages of `parkingState`. -/
def parkingStage (cand : Candidate) : Nat → Stage Job (Except Error Result) Footprint :=
  update (fun _ => .idle) 0 (.running (.process cand) { job := .process cand })

theorem parkingState_staged (c : Config) (cand : Candidate) (w : World) :
    ∀ call, ConsumerStaged c ((parkingState c cand w).calls call) (parkingStage cand call) :=
  staged_update (fun _ => .idle) (.running (procedure_follows c _))

theorem parkingStage_phase (cand : Candidate) :
    Poll.parking cand = fun c => (parkingStage cand c).phase := by
  funext c
  by_cases zero : c = 0
  · subst zero
    rfl
  · simp [Poll.parking, parkingStage, update_of_ne zero, Stage.phase]

theorem parkingState_uncrashed (c : Config) (cand : Candidate)
    (w : World) (call : Nat) (job : Job) : (parkingState c cand w).calls call ≠ .crashed job := by
  by_cases zero : call = 0
  · subst zero
    nofun
  · simp [parkingState, update_of_ne zero]

def polling (cand : Candidate) : Permit Job Statement World Choice where
  opens := fun _ job => job.Decides cand.enrollmentID
  executes := fun world _ call statement choice =>
    Poll.Orderly cand world call statement choice
  crashes := False

section

variable {c : Config} {env : Env} {cand : Candidate} {w : World}
  {fps : Nat → Option Footprint}
variable {row : Enrollment}

theorem Bundled.of_fits {vote : Verdict} {f : Footprint} {pack : Bytes} (sig : f.Signed env)
    (fits : vote.Fits row) (sent : row.status = .issued) (has : ∀ cols ip, vote = .issued cols ip →
      Footprint.Carries c f.built cols.certPEM cols.overlayIP pack) :
    Bundled c env row pack := by
  cases vote with
  | denied =>
    rw [fits.status_eq] at sent
    cases sent
  | issued cols ip =>
    obtain ⟨_, certificate, address, _⟩ := fits
    rcases has cols ip rfl with none | ⟨t, built, cert, addr⟩
    · exact .inl none
    · obtain ⟨seed, made⟩ := sig t pack built
      exact .inr ⟨seed, t, made, cert.trans certificate.symm, addr.trans address.symm⟩

theorem Poll.parked_of_pending (poll : Poll env cand w fps)
    {p : Footprint} (outs : c.results = true) (had : fps 0 = some p)
    (fin : Ended c (.process cand) (.ok res) p) (due : res.status = .pending) :
    p.recorded = true ∧ ¬p.Answers cand.enrollmentID ∧
      ∃ dlv, p.put = some dlv ∧ dlv.status = .pending := by
  change ProcessEnds c cand (.ok res) p at fin
  cases fin with
  | known _ =>
    obtain ⟨row, hit⟩ := poll.placed _ had (.inr (by nofun))
    obtain ⟨q, eq, put⟩ := poll.origin row hit
    rw [had, Option.some.injEq] at eq
    subst eq
    exact absurd rfl put
  | parked parked wrote =>
    rcases wrote with ⟨none, _⟩ | ⟨_, dlv, ⟨_, out⟩, rfl⟩
    · rw [outs] at none
      cases none
    · obtain ⟨_, row, ask, st, _⟩ := out
      cases ask
      refine ⟨rfl, ?_, dlv, rfl, st.trans parked⟩
      rintro ⟨_, law | doubted | ⟨_, ⟨⟩, law⟩⟩
      · exact law rfl
      · cases doubted
      · exact law parked
  | issued _ st _ =>
    rw [due] at st
    cases st

variable {res : Queue.Result}

theorem Stored.readable {puts : Nat → Option Delivery} (kept : Stored cand puts res)
    (hit : w.results.find cand.enrollmentID = some res)
    (st : res.status = row.status) {key : String} {now : Int} {sha : String → Bytes}
    (new : sha key = cand.retrievalSecretHash)
    (unexpired : res.expiresAt = 0 ∨ now < res.expiresAt) :
    (getResult w.results sha cand.enrollmentID key now).1 = .ok
        { status := row.status
          bundle := res.bundle
          reason := res.reason } := by
  rw [← st]
  exact getResult_of_row hit (kept.secret.trans new.symm) unexpired kept.unread

theorem Poll.waits (poll : Poll env cand w fps) {p : Footprint}
    (kept : Stored cand (fun call => (fps call).bind Footprint.put) res)
    (had : fps 0 = some p) (put : p.put = some dlv) (idle : dlv.status = .pending)
    (hit : w.enrollments.find cand.enrollmentID = some row)
    (unset : row.status = .pending) : res.status = .pending := by
  obtain ⟨old, written, st⟩ := kept.parked
  rw [had, bind_some, put, Option.some.injEq] at written
  subst written
  rw [st, idle]
  intro call pos
  cases here : fps call with
  | none => rfl
  | some f =>
    obtain ⟨rs, _, puts⟩ := poll.decides call f here pos
    rw [bind_some]
    by_contra wrote
    exact poll.ruling.undecided hit unset here ⟨rs.enrollmentID_eq, puts wrote⟩

theorem Poll.follows (poll : Poll env cand w fps) {f : Footprint}
    {call : Nat} {vote : Verdict} {dlv : Delivery}
    (kept : Stored cand (fun call => (fps call).bind Footprint.put) res)
    (hit : w.enrollments.find cand.enrollmentID = some row)
    (had : fps call = some f) (pos : call ≠ 0)
    (got : f.verdict = some vote) (put : f.put = some dlv) (st : dlv.status = vote.status)
    (has : ∀ cols ip, vote = .issued cols ip →
      Footprint.Carries c f.built cols.certPEM cols.overlayIP dlv.bundle) :
    res.status = row.status ∧ (row.status = .issued → Bundled c env row res.bundle) := by
  obtain ⟨rs, _, _⟩ := poll.decides call f had pos
  obtain ⟨seen, eq, fits⟩ := poll.ruling.shown call f had rs.enrollmentID_eq vote got
  rw [hit, Option.some.injEq] at eq
  subst eq
  obtain ⟨wrote, pack⟩ := kept.decided call pos dlv (by rw [had, bind_some, put])
  refine ⟨by rw [wrote, st, fits.status_eq], ?_⟩
  intro sent
  rw [pack]
  exact .of_fits (poll.signed call f had) fits sent has

end

/-- The poll result follows the decision: when the parking call and every
decision about its candidate have returned, with no other error than the
refusal of a late decision, the stored result says what the row says. -/
theorem result_follows_decision {c : Config} {env : Env} {cand : Candidate}
    {world : World} {parked : Result} {finish : ConsumerState} (results : c.results = true)
    (unknown : world.enrollments.find cand.enrollmentID = none)
    (unstored : world.results.find cand.enrollmentID = none)
    (reached : Reaches (consumer c env).step (polling cand).Allows
      (parkingState c cand world) finish) (settled : finish.Settled)
    (returned : finish.calls 0 = .returned (.process cand) (.ok parked))
    (pending : parked.status = .pending) (refusals : ∀ call job error,
      finish.calls call = .returned job (.error error) → error = .notPending) :
    ResultFollows c env cand finish.world := by
  obtain ⟨last, poll, staged⟩ := phased_of_reaches (procedure_follows c)
    (Poll env cand) (parkingState_staged c cand world)
    (parkingStage_phase cand ▸ Poll.initial unknown unstored)
    (fun poll idle decides => poll.begin idle decides) (fun poll present permitted orderly =>
      poll.execute present permitted orderly)
    reached
  have uncrashed := uncrashed_of_reaches (fun crash => crash)
    (parkingState_uncrashed c cand world) reached
  obtain ⟨p, present⟩ := phase_of_begun (staged 0) (by rw [returned]; nofun)
  obtain ⟨_, _, same, ended⟩ :=
    returned_of_settled staged settled uncrashed present
  rw [returned] at same
  cases same
  obtain ⟨recorded, silent, delivery, put, waiting⟩ :=
    poll.parked_of_pending results present ended pending
  obtain ⟨row, found⟩ := poll.placed p present (.inl recorded)
  cases there : finish.world.results.find cand.enrollmentID with
  | none =>
    have written := poll.mailbox.silent there 0
    rw [present, Option.bind_some, put] at written
    cases written
  | some result =>
    have stored := poll.mailbox.stored result there
    suffices agrees : result.status = row.status ∧
        (row.status = .issued → Bundled c env row result.bundle) from
      ⟨row, result, found, there, agrees.1, agrees.2, fun _ _ opens unexpired =>
          stored.readable there agrees.1 opens unexpired⟩
    by_cases undecided : row.status = .pending
    · rw [poll.waits stored present put waiting found undecided, undecided]
      exact ⟨rfl, nofun⟩
    · obtain ⟨call, f, phase, answers⟩ :=
        poll.ruling.answered row found undecided
      have nonzero : call ≠ 0 := by
        rintro rfl
        rw [present, Option.some.injEq] at phase
        exact silent (phase ▸ answers)
      obtain ⟨decides, inserted, _⟩ := poll.decides call f phase nonzero
      obtain ⟨job, value, closed, ended⟩ :=
        returned_of_settled staged settled uncrashed phase
      obtain ⟨verdict, final, given, wrote, status, carries⟩ :=
        decision_delivers results decides inserted ended
          (fun error failed => refusals call job error (failed ▸ closed)) answers
      exact poll.follows stored found phase nonzero given wrote status carries

namespace Example

def keyed : World :=
  world .empty ⟨[{ id := 1, secretHash := [1] }], List.nodup_singleton _⟩

/-- The candidate is parked, with an approval after `early` statements. -/
def approval (early : Nat) : List (Event Job Choice) :=
  List.replicate early (.step 0 {}) ++ .begin 1 (.approve "e1" "alice") ::
    List.replicate 19 (.step 1 {}) ++ List.replicate (10 - early) (.step 0 {})

theorem closed_of_ran (ran : runEvents (consumer cfg env).step
      (parkingState cfg cand keyed) evs = some finish)
    (mentioned : ∀ ev ∈ evs, ev.call < 2) (fst : closed (finish.calls 0) = true)
    (snd : closed (finish.calls 1) = true) : ∀ c, closed (finish.calls c) = true := by
  apply forall_calls_of_runEvents 2 (fun c => closed c = true) ran mentioned
  · intro c beyond
    have nonzero : c ≠ 0 := by omega
    simp [parkingState, update_of_ne nonzero, closed]
  · intro c within
    obtain rfl | rfl : c = 0 ∨ c = 1 := by omega
    · exact fst
    · exact snd

end Example

open Example

instance (cand : Candidate) (world : World) (job : Job) :
    Decidable ((polling cand).opens world job) :=
  inferInstanceAs (Decidable (job.Decides cand.enrollmentID))

instance (cand : Candidate) (world : World) (active : Nat → Option Job)
    (call : Nat) (statement : Statement) (choice : Choice) :
    Decidable ((polling cand).executes world active call statement choice) :=
  inferInstanceAs (Decidable (_ → _))

instance (cand : Candidate) : Decidable (polling cand).crashes :=
  inferInstanceAs (Decidable False)

theorem result_follows_decision_late_approval :
    ∃ finish, Reaches (consumer config env).step (polling candidate).Allows
        (parkingState config candidate keyed) finish ∧ ResultFollows config env candidate
        finish.world := by
  have executed : (runEvents (guarded (consumer config env).step (polling candidate).Allows)
      (parkingState config candidate keyed) (approval 10)).map
      (fun state => (success (state.calls 0), closed (state.calls 0), closed (state.calls 1))) =
      some (some (.process candidate,
        { enrollmentID := "e1", status := .pending }), true, true) := by
    decide
  obtain ⟨finish, ran, ended⟩ := Option.map_eq_some_iff.mp executed
  simp only [Prod.mk.injEq] at ended
  obtain ⟨parked, first, second⟩ := ended
  have all := closed_of_ran (runEvents_of_guarded ran) (by decide) first second
  have reached := reaches_of_runEvents ran
  exact ⟨finish, reached, result_follows_decision rfl rfl rfl reached
    (settled_of_closed all) (returned_of_success parked) rfl (refused_of_closed all)⟩

/-- An approval between the two statements that park its candidate: its result
row gets no secret, and the late pending result takes its status and bundle
away. -/
theorem result_overtakes_decision : ¬ ∀ (c : Config) (env : Env) (cand : Candidate) (world : World)
        (parked : Result) (finish : ConsumerState), c.results = true →
      world.enrollments.find cand.enrollmentID = none →
      world.results.find cand.enrollmentID = none →
      Reaches (consumer c env).step (contest cand.enrollmentID).Allows
        (parkingState c cand world) finish → finish.Settled →
      finish.calls 0 = .returned (.process cand) (.ok parked) → parked.status = .pending →
      (∀ call job error, finish.calls call = .returned job (.error error) → error = .notPending) →
      ResultFollows c env cand finish.world := by
  intro claim
  have executed : (runEvents (guarded (consumer config Example.env).step
      (contest candidate.enrollmentID).Allows)
      (parkingState config candidate keyed) (approval 8)).map
      (fun state => (success (state.calls 0), closed (state.calls 0), closed (state.calls 1),
        (state.world.enrollments.find "e1").map (·.status),
        (state.world.results.find "e1").map (·.status))) = some (some (.process candidate,
        { enrollmentID := "e1", status := .pending }), true, true,
        some .issued, some .pending) := by
    decide
  obtain ⟨finish, ran, ended⟩ := Option.map_eq_some_iff.mp executed
  simp only [Prod.mk.injEq] at ended
  obtain ⟨parked, first, second, decided, shown⟩ := ended
  have all := closed_of_ran (runEvents_of_guarded ran) (by decide) first second
  obtain ⟨row, result, found, stored, same, _⟩ := claim config
    Example.env candidate keyed _ finish rfl rfl rfl
    (reaches_of_runEvents ran) (settled_of_closed all)
    (returned_of_success parked) rfl (refused_of_closed all)
  rw [show candidate.enrollmentID = "e1" from rfl] at found stored
  rw [found] at decided
  rw [stored] at shown
  simp only [Option.map_some, Option.some.injEq] at decided shown
  rw [decided, shown] at same
  cases same

end Harbor.Consumer
