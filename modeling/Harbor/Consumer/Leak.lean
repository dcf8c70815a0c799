import Harbor.Consumer.Ruling

/-!
# The address of a call that fails

`issue` leases an address before the certificate is signed, the bundle built
and the enrollment recorded, and each of these steps can fail.  For a call run
alone the module compares the live addresses before and after it, when exactly
one step after the allocation failed: a failed signature and a failed claim of
`Approve` give the address back, the other exits of `Process` keep it.
-/

namespace Harbor.Consumer

open Library Ipam Queue

def failures (trace : List ((statement : Statement) × statement.Answer)) :
    List Step :=
  trace.filterMap fun entry => Step.failed entry.1 entry.2

theorem follow_failed (c : Config) (f : Footprint) (trace : List ((s : Statement) × s.Answer)) :
    Footprint.failed ((discipline c).follow f trace) = (failures trace).reverse ++ f.failed := by
  induction trace generalizing f with
  | nil => rfl
  | cons entry trace ih =>
    have rest := ih (f.after entry.1 entry.2)
    cases fail : Step.failed entry.1 entry.2 <;>
      simpa [failures, List.filterMap_cons, fail, Discipline.follow, Footprint.after] using rest

structure Footprint.SameLease (f g : Footprint) : Prop where
  held : g.held = f.held
  released : g.released = f.released
  inserted : g.inserted = f.inserted
  verdict : g.verdict = f.verdict

/-- The addresses that are live and were not at the start: the one the call
holds, or one it released into quarantine. -/
structure Extra (c : Config) (start : World) (now : Int) (world : World)
    (f : Footprint) (extra : Option Addr) : Prop where
  live : ∀ ip, ip ∈ world.allocations.liveAddrs now ↔
    ip ∈ start.allocations.liveAddrs now ∨ extra = some ip
  fresh : ∀ ip, extra = some ip → ip ∉ start.allocations.liveAddrs now
  held : ∀ ip, f.held = some ip → extra = some ip
  once : f.held ≠ none → f.released = false
  free : f.held = none → f.released = false → f.inserted = none → f.verdict = none → extra = none
  released : f.held = none → f.released = true → (extra = none ↔ c.allocator.quarantineTTL ≤ 0)

def Balanced (c : Config) (start : World) (now : Int) (world : World) (f : Footprint) : Prop :=
  f.muddled = true ∨ ∃ extra, Extra c start now world f extra

section

variable {c : Config} {env : Env} {pick : Choice} {init w : World}
  {now : Int} {f g : Footprint} {extra : Option Addr}

theorem sameLease_after (rs : s.writes ≠ some .enrollments)
    (leases : s.writes ≠ some .allocations) (ans : s.Answer) : f.SameLease (f.after s ans) := by
  suffices eq : f.SameLease (f.learn s ans) from
    ⟨eq.held, eq.released, eq.inserted, eq.verdict⟩
  unfold Footprint.learn
  split <;> first
    | exact ⟨rfl, rfl, rfl, rfl⟩
    | exact absurd rfl rs
    | exact absurd rfl leases
    | skip
  rename_i ans
  obtain ⟨_, _, eq⟩ := f.read_eq ans
  rw [eq]
  exact ⟨rfl, rfl, rfl, rfl⟩

theorem muddled_after (muddled : f.muddled = true) (s : Statement)
    (ans : s.Answer) : (f.after s ans).muddled = true := by
  change (f.learn s ans).muddled = true
  unfold Footprint.learn
  split <;> first
    | rfl
    | exact muddled
    | skip
  rename_i ans
  obtain ⟨_, _, eq⟩ := f.read_eq ans
  rw [eq]
  exact muddled

theorem Extra.of_sameLease (was : Extra c init now w f extra)
    (l : f.SameLease g) (eq : ∀ ip, ip ∈ new.allocations.liveAddrs now ↔
      ip ∈ w.allocations.liveAddrs now) : Extra c init now new g extra where
  live := fun ip => (eq ip).trans (was.live ip)
  fresh := was.fresh
  held := by rw [l.held]; exact was.held
  once := by rw [l.held, l.released]; exact was.once
  free := by
    rw [l.held, l.released, l.inserted, l.verdict]
    exact was.free
  released := by rw [l.held, l.released]; exact was.released

theorem Extra.initial (c : Config) (init : World) (now : Int) (job : Job) :
    Extra c init now init { job := job } none where
  live := by simp
  fresh := fun _ none => nomatch none
  held := fun _ none => nomatch none
  once := fun held => absurd rfl held
  free := fun _ _ _ _ => rfl
  released := fun _ freed => nomatch freed

theorem Extra.live_iff (account : Extra c init now w f extra) :
    (∀ ip, ip ∈ w.allocations.liveAddrs now ↔
      ip ∈ init.allocations.liveAddrs now) ↔ extra = none := by
  constructor
  · intro eq
    cases atEnd : extra with
    | none => rfl
    | some ip =>
      have live := (account.live ip).mpr (.inr atEnd)
      rw [eq] at live
      exact absurd live (account.fresh ip atEnd)
  · intro none ip
    rw [account.live, none]
    simp

theorem Extra.of_settled (was : Extra c init now w f extra)
    (held : g.held = none) (freed : g.released = f.released)
    (fix : g.inserted ≠ none ∨ g.verdict ≠ none)
    (eq : new.allocations = w.allocations) : Extra c init now new g extra where
  live := by rw [eq]; exact was.live
  fresh := was.fresh
  held := by simp [held]
  once := by simp [held]
  free := by
    intro _ _ put vote
    exact fix.elim (absurd put) (absurd vote)
  released := by
    intro _ got
    rw [freed] at got
    cases here : f.held with
    | none => exact was.released here got
    | some ip =>
      rw [was.once (by simp [here])] at got
      cases got

theorem Extra.createAllocation (was : Extra c init now w f extra)
    (may : f.may c (.createAllocation row)) : Balanced c init now
      (execute env pick w (.createAllocation row)).2 (f.after (.createAllocation row)
        (execute env pick w (.createAllocation row)).1) := by
  obtain ⟨free, got⟩ := may
  have none := was.free free.held free.released free.inserted free.verdict
  by_cases ok : pick.fault = .ok
  · cases put : w.allocations.insert? row with
    | none =>
      have fin : execute env pick w (.createAllocation row) = (.error .duplicatedKey, w) :=
        (createAllocation_ok ok row).trans (by rw [put]; rfl)
      rw [fin]
      exact .inr ⟨extra, was⟩
    | some new =>
      have fin : execute env pick w (.createAllocation row) =
          (.ok (), { w with allocations := new }) :=
        (createAllocation_ok ok row).trans (by rw [put]; rfl)
      have gone := Allocations.not_live_of_insert put now
      rw [was.live, none] at gone
      rw [fin]
      refine .inr ⟨some row.ip, ?_, ?_, ?_, ?_, ?_, ?_⟩
      · intro ip
        rw [Allocations.liveAddrs_insert put got, was.live, none]
        simp [eq_comm]
      · rintro ip ⟨⟩
        simpa using gone
      · exact fun _ held => held
      · exact fun _ => free.released
      · exact fun held => nomatch held
      · exact fun held => nomatch held
  · left
    have ans : (execute env pick w (.createAllocation row)).1 = .error (.failed pick.text) := by
      change (w.createAllocation pick row).1 = _
      unfold World.createAllocation Fault.settle
      cases fault : pick.fault with
      | ok => exact absurd fault ok
      | failed | lost => rfl
    rw [ans]
    rfl

theorem Extra.deleteAllocation (was : Extra c init now w f extra)
    (may : f.may c (.deleteAllocation ip)) : Balanced c init now
      (execute env pick w (.deleteAllocation ip)).2 (f.after (.deleteAllocation ip)
        (execute env pick w (.deleteAllocation ip)).1) := by
  obtain ⟨held, _, _, soon⟩ := may
  rcases database_cases pick w (w.allocations.affected fun row => row.ip == ip)
    { w with allocations := w.allocations.delete ip } with ended | ended | ended <;>
  have ans : execute env pick w (.deleteAllocation ip) = _ := ended
  · rw [ans]
    have some := was.held ip held
    refine .inr ⟨none, ?_, nofun, nofun, fun held => absurd rfl held,
      fun _ freed => (nomatch freed), fun _ _ => by simp [soon]⟩
    intro alt
    rw [Allocations.liveAddrs_delete, was.live, some]
    constructor
    · rintro ⟨begun | same, ne⟩
      · exact .inl begun
      · exact absurd (Option.some.inj same).symm ne
    · rintro (begun | same)
      · refine ⟨.inl begun, ?_⟩
        rintro rfl
        exact was.fresh alt some begun
      · cases same
  · rw [ans]
    exact .inl rfl
  · rw [ans]
    exact .inl rfl

theorem Extra.quarantineAllocation (was : Extra c init now w f extra)
    (soon : 0 < c.allocator.quarantineTTL → now < pick.now + c.allocator.quarantineTTL)
    (may : f.may c (.quarantineAllocation ip ttl)) : Balanced c init now
      (execute env pick w (.quarantineAllocation ip ttl)).2 (f.after (.quarantineAllocation ip ttl)
        (execute env pick w (.quarantineAllocation ip ttl)).1) := by
  obtain ⟨held, _, _, rfl, pos⟩ := may
  rcases database_cases pick w (w.allocations.affected fun row =>
      row.ip == ip && row.state == .allocated)
    { w with
      allocations := w.allocations.quarantine ip pick.now
        (pick.now + c.allocator.quarantineTTL) } with ended | ended |
    ended <;>
  have ans : execute env pick w (.quarantineAllocation ip c.allocator.quarantineTTL) = _ := ended
  · rw [ans]
    have some := was.held ip held
    refine .inr ⟨extra, ?_, was.fresh, nofun, fun held => absurd rfl held,
      fun _ freed => (nomatch freed), ?_⟩
    · intro alt
      rw [Allocations.liveAddrs_quarantine _ _ _ (soon pos), was.live]
    · intro _ _
      simp [some, pos]
  · rw [ans]
    exact .inl rfl
  · rw [ans]
    exact .inl rfl

theorem Extra.purgeExpiredQuarantine (was : Extra c init now w f extra) (prompt : pick.now ≤ now) :
    Balanced c init now (execute env pick w .purgeExpiredQuarantine).2
      (f.after .purgeExpiredQuarantine (execute env pick w .purgeExpiredQuarantine).1) := by
  rcases database_cases pick w ()
    { w with
      allocations := w.allocations.purgeExpired pick.now } with ended |
    ended | ended <;>
  have ans : execute env pick w .purgeExpiredQuarantine = _ := ended
  · rw [ans]
    exact .inr ⟨extra, was.of_sameLease ⟨rfl, rfl, rfl, rfl⟩
      (Allocations.liveAddrs_purgeExpired _ prompt)⟩
  · rw [ans]
    exact .inl rfl
  · rw [ans]
    exact .inl rfl

theorem Extra.claimIssued (was : Extra c init now w f extra) {id : String} {sent : Issued}
    (may : f.may c (.claimIssued id sent)) : Balanced c init now
      (execute env pick w (.claimIssued id sent)).2 (f.after (.claimIssued id sent)
        (execute env pick w (.claimIssued id sent)).1) := by
  obtain ⟨_, _, _, _, ip, held, _⟩ := may
  have eq := (execute_framed env pick w (.claimIssued id sent)).allocations (by nofun)
  rcases claim_answer (execute env pick w
    (.claimIssued id sent)).1 with ⟨count, ended⟩ | ended | ⟨t, ended⟩
  · rw [ended]
    refine .inr ⟨extra, was.of_settled ?_ ?_ (.inr ?_) eq⟩
    · rfl
    · rfl
    · simp [Footprint.after, Footprint.learn, held]
  · rw [ended]
    refine .inr ⟨extra, was.of_sameLease ?_ fun _ => by rw [eq]⟩
    exact ⟨rfl, rfl, rfl, rfl⟩
  · rw [ended]
    refine .inr ⟨extra, was.of_sameLease ?_ fun _ => by rw [eq]⟩
    exact ⟨rfl, rfl, rfl, rfl⟩

theorem Extra.claimDenied (was : Extra c init now w f extra) {id who : String} {when : Int}
    (may : f.may c (.claimDenied id when who)) : Balanced c init now
      (execute env pick w (.claimDenied id when who)).2
      (f.after (.claimDenied id when who) (execute env pick w (.claimDenied id when who)).1) := by
  have held : f.held = none := congrArg Footprint.held may.2
  have eq := (execute_framed env pick w (.claimDenied id when who)).allocations (by nofun)
  rcases claim_answer (execute env pick w
    (.claimDenied id when who)).1 with ⟨count, ended⟩ | ended | ⟨t, ended⟩
  · rw [ended]
    refine .inr ⟨extra, was.of_settled ?_ ?_ (.inr ?_) eq⟩
    · exact held
    · rfl
    · nofun
  · rw [ended]
    refine .inr ⟨extra, was.of_sameLease ?_ fun _ => by rw [eq]⟩
    exact ⟨rfl, rfl, rfl, rfl⟩
  · rw [ended]
    refine .inr ⟨extra, was.of_sameLease ?_ fun _ => by rw [eq]⟩
    exact ⟨rfl, rfl, rfl, rfl⟩

theorem Extra.createEnrollment (was : Extra c init now w f extra) :
    Balanced c init now (execute env pick w (.createEnrollment row)).2
      (f.after (.createEnrollment row) (execute env pick w (.createEnrollment row)).1) := by
  have eq := (execute_framed env pick w (.createEnrollment row)).allocations (by nofun)
  generalize (execute env pick w (.createEnrollment row)).1 = ans
  cases ans with
  | ok _ =>
    refine .inr ⟨extra, was.of_settled ?_ ?_ (.inl ?_) eq⟩
    · rfl
    · rfl
    · nofun
  | error t =>
    refine .inr ⟨extra, ?_, was.fresh, was.held, was.once, ?_, was.released⟩
    · rw [eq]
      exact was.live
    · exact fun _ _ put => nomatch put

theorem Balanced.execute (balanced : Balanced c init now w f) (prompt : pick.now ≤ now)
    (soon : 0 < c.allocator.quarantineTTL → now < pick.now + c.allocator.quarantineTTL)
    {s : Statement} (may : f.may c s) : Balanced c init now (execute env pick w s).2
      (f.after s (execute env pick w s).1) := by
  rcases balanced with muddled | ⟨extra, was⟩
  · exact .inl (muddled_after muddled s _)
  · cases s with
    | createEnrollment row => exact was.createEnrollment
    | claimIssued id sent => exact was.claimIssued may
    | claimDenied id when who => exact was.claimDenied may
    | purgeExpiredQuarantine => exact was.purgeExpiredQuarantine prompt
    | createAllocation row => exact was.createAllocation may
    | deleteAllocation ip => exact was.deleteAllocation may
    | quarantineAllocation ip ttl => exact was.quarantineAllocation soon may
    | _ =>
      refine .inr ⟨extra, was.of_sameLease (sameLease_after (by nofun) (by nofun) _) ?_⟩
      rw [(execute_framed env pick w _).allocations (by nofun)]
      exact fun _ => Iff.rfl

def Shown (world : World) (f : Footprint) : Prop :=
  ∀ columns ip, f.verdict = some (.issued columns ip) →
    ∃ row, world.enrollments.find f.job.enrollmentID = some row ∧ row.status = .issued

theorem Shown.execute (seen : Shown w f) {s : Statement}
    (may : f.may c s) : Shown (execute env pick w s).2 (f.after s (execute env pick w s).1) := by
  have eff := execute_rowEffect env pick w may
  intro cols ip got
  rw [eff.job_eq]
  rcases eff.verdict_cases with eq | ⟨vote, _, row, now, _, _, hit, fits⟩
  · rw [eq] at got
    obtain ⟨old, hit, sent⟩ := seen cols ip got
    obtain ⟨row, now, kept⟩ := eff.persists hit
    exact ⟨row, now, by rw [kept (by rw [sent]; nofun), sent]⟩
  · rw [now, Option.some.injEq] at got
    subst got
    exact ⟨row, hit, fits.1⟩

end

/-- Where a call whose one failed step is `step` leaves its address. -/
inductive Exit (job : Job) (step : Step) (f : Footprint) : Prop where
  | released : (step = .signing ∨ ∃ enrollmentID approver, job = .approve enrollmentID approver) →
      f.muddled = false → f.held = none → f.released = true → Exit job step f
  | kept {ip : Addr} : ¬(step = .signing ∨ ∃ enrollmentID approver,
        job = .approve enrollmentID approver) → f.muddled = false → f.held = some ip →
      Exit job step f
  | recorded {columns : Issued} {ip : Addr} : f.verdict = some (.issued columns ip) →
      Exit job step f

theorem Written.failed_eq {c : Config} {f last : Footprint}
    (put : Written c f last) : last.failed = f.failed := by
  rcases put with ⟨_, rfl⟩ | ⟨_, _, _, rfl⟩ <;> rfl

theorem Unwound.of_single {f last : Footprint}
    (undo : Unwound f last) (sole : f.failed = [fst]) (one : last.failed = [step]) :
    step = fst ∧ last.muddled = f.muddled ∧ last.held = none ∧ last.released = true := by
  cases undo with
  | released =>
    change f.failed = [step] at one
    rw [sole] at one
    cases one
    exact ⟨rfl, rfl, rfl, rfl⟩
  | stuck =>
    change .releasing :: f.failed = [step] at one
    rw [sole] at one
    cases one

theorem exit_of_ended {c : Config} {f : Footprint} (fin : Ended c job v f) (one : f.failed = [step])
    (failing : step ≠ .releasing) : Exit job step f := by
  cases job with
  | process cand =>
    change ProcessEnds c cand v f at fin
    cases fin with
    | known _ => cases one
    | untouched => cases one
    | stopped => cases one
    | denied _ put =>
      rw [put.failed_eq] at one
      cases one
    | unsigned _ undo =>
      obtain ⟨rfl, free, held, freed⟩ := undo.of_single rfl one
      exact .released (.inl rfl) free held freed
    | unbundled =>
      cases one
      exact .kept (by simp) rfl rfl
    | unparked _ => cases one
    | parked _ put =>
      rw [put.failed_eq] at one
      cases one
    | unrecorded _ =>
      cases one
      exact .kept (by simp) rfl rfl
    | issued _ _ put =>
      rw [put.failed_eq] at one
      cases one
  | approve id who =>
    change ApproveEnds c _ v f at fin
    cases fin with
    | stopped _ => cases one
    | refused => cases one
    | outrun _ undo =>
      cases undo with
      | released => cases one
      | stuck =>
        cases one
        exact absurd rfl failing
    | unsigned _ undo =>
      obtain ⟨rfl, free, held, freed⟩ := undo.of_single rfl one
      exact .released (.inl rfl) free held freed
    | unclaimed _ undo =>
      obtain ⟨rfl, free, held, freed⟩ := undo.of_single rfl one
      exact .released (.inr ⟨_, _, rfl⟩) free held freed
    | unbundled => exact .recorded rfl
    | issued _ _ put =>
      rw [put.failed_eq] at one
      cases one
  | deny id who why =>
    change DenyEnds c _ v f at fin
    cases fin with
    | stopped => cases one
    | refused => cases one
    | denied _ put =>
      rw [put.failed_eq] at one
      cases one

/-- The live addresses after a call that recorded no issued enrollment and one
of whose steps after the allocation failed.  They are those before the call
exactly when the step was the signature or the call an `Approve`, and released
addresses are not quarantined.  The comparison is made after the call and
before a quarantine that the call began is over. -/
theorem live_unchanged_iff {c : Config} {env : Env} {job : Job}
    {start : World} {choices : Nat → Choice} {now : Int} {step : Step}
    (timely : ∀ index, (choices index).now ≤ now) (soon : ∀ index, 0 < c.allocator.quarantineTTL →
      now < (choices index).now + c.allocator.quarantineTTL)
    (single : failures ((c.procedure job).trace (execute env) choices start) = [step])
    (failing : step ≠ .releasing) (unrecorded : ∀ row,
      ((c.procedure job).run (execute env) choices start).2.enrollments.find
        job.enrollmentID = some row → row.status ≠ .issued) :
    (∀ ip, ip ∈ ((c.procedure job).run (execute env) choices start).2.allocations.liveAddrs now ↔
        ip ∈ start.allocations.liveAddrs now) ↔ (step = .signing ∨ ∃ enrollmentID approver,
        job = .approve enrollmentID approver) ∧ c.allocator.quarantineTTL ≤ 0 := by
  have preserved : ∀ index world (f : Footprint) statement,
      f.may c statement → Balanced c start now world f ∧ Shown world f →
      Balanced c start now (execute env (choices index) world statement).2 (f.after statement
            (execute env (choices index) world statement).1) ∧
        Shown (execute env (choices index) world statement).2 (f.after statement
            (execute env (choices index) world statement).1) := by
    intro index world f statement permitted held
    exact ⟨held.1.execute (timely index) (soon index) permitted, held.2.execute permitted⟩
  obtain ⟨ended, balanced, shown⟩ := Procedure.run_follows
    (fun world f => Balanced c start now world f ∧ Shown world f)
    (procedure_follows c job) ⟨.inr ⟨none, .initial c start now job⟩, nofun⟩ preserved
  have failed := follow_failed c { job := job }
    ((c.procedure job).trace (execute env) choices start)
  rw [single] at failed
  cases exit_of_ended ended failed failing with
  | recorded verdict =>
    obtain ⟨row, found, issued⟩ := shown _ _ verdict
    rw [ended.job_eq] at found
    exact absurd issued (unrecorded row found)
  | released compensated clear held released =>
    obtain ⟨extra, account⟩ := balanced.resolve_left (by simp [clear])
    rw [account.live_iff, account.released held released]
    simp [compensated]
  | kept uncompensated clear held =>
    obtain ⟨extra, account⟩ := balanced.resolve_left (by simp [clear])
    rw [account.live_iff, account.held _ held]
    simp [uncompensated]

namespace Example

def automatic : World :=
  world .empty ⟨[{ id := 1, secretHash := [1], autoIssue := true }],
      List.nodup_singleton _⟩

def failsAt (index : Nat) : Nat → Choice :=
  fun other => if other = index then { fault := .failed } else {}

theorem failsAt_now (idx alt : Nat) : (failsAt idx alt).now = 0 := by
  unfold failsAt
  split <;> rfl

end Example

open Example

theorem live_unchanged_iff_unsigned : failures ((config.procedure (.process candidate)).trace
        (execute env) (failsAt 13) automatic) = [.signing] ∧
    ∀ ip, ip ∈ ((config.procedure (.process candidate)).run
        (execute env) (failsAt 13) automatic).2.allocations.liveAddrs 0 ↔
      ip ∈ automatic.allocations.liveAddrs 0 := by
  have single : failures ((config.procedure (.process candidate)).trace (execute env)
      (failsAt 13) automatic) = [.signing] := by
    decide
  refine ⟨single, ?_⟩
  have absent : ((config.procedure (.process candidate)).run (execute env)
      (failsAt 13) automatic).2.enrollments.find "e1" =
      none := by
    decide
  apply (live_unchanged_iff (fun index => (failsAt_now 13 index).le)
    (fun _ positive => absurd positive (by decide)) single (by decide) ?_).mpr
  · exact ⟨.inl rfl, by decide⟩
  · intro row found
    rw [show (Job.process candidate).enrollmentID = "e1" from rfl, absent] at found
    cases found

/-- The signature of the bundle fails: the enrollment is not recorded and the
address stays leased. -/
theorem address_leaked_by_bundle : ¬ ∀ (c : Config) (env : Env) (job : Job) (start : World)
        (choices : Nat → Choice) (now : Int) (step : Step), (∀ index, (choices index).now ≤ now) →
      c.allocator.quarantineTTL ≤ 0 →
      failures ((c.procedure job).trace (execute env) choices start) = [step] → step ≠ .releasing →
      (∀ row, ((c.procedure job).run (execute env) choices
        start).2.enrollments.find job.enrollmentID = some row → row.status ≠ .issued) →
      ∀ ip, ip ∈ ((c.procedure job).run (execute env) choices start).2.allocations.liveAddrs now ↔
        ip ∈ start.allocations.liveAddrs now := by
  intro claim
  have absent : ((config.procedure (.process candidate)).run (execute Example.env)
      (failsAt 16) automatic).2.enrollments.find "e1" =
      none := by
    decide
  have same := claim config Example.env (.process candidate) automatic (failsAt 16) 0 .bundling
    (fun index => (failsAt_now 16 index).le) (by decide) (by decide) (by decide) (by
      intro row found
      rw [show (Job.process candidate).enrollmentID = "e1" from rfl, absent] at found
      cases found) 167772161
  exact absurd (same.mp (by decide)) (by decide)

end Harbor.Consumer
