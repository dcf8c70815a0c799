import Harbor.Consumer.Effects
import Harbor.Library.Interleaving

/-!
# Who decided an enrollment

Any number of calls of `Process`, `Approve` and `Deny` share the tables, and
any statement may fail or lose its answer.  `RowEffect` says what one statement
can do to a row; from it follows that a row has at most one call whose
conditional update changed it, that the row shows that call's verdict for ever,
and that a row which is not pending has somebody to answer for it.
-/

namespace Harbor.Consumer

open Function Library Ipam Queue

def Verdict.Fits : Verdict → Enrollment → Prop
  | .issued columns ip, row =>
    row.status = .issued ∧ row.certPEM = columns.certPEM ∧
      row.overlayIP = columns.overlayIP ∧ columns.overlayIP = addrString ip
  | .denied, row => row.status = .denied

theorem Verdict.Fits.status_eq {vote : Verdict} {row : Enrollment}
    (fits : vote.Fits row) : row.status = vote.status := by
  cases vote with
  | issued cols ip => exact fits.1
  | denied => exact fits

theorem Verdict.Fits.not_pending {vote : Verdict} {row : Enrollment}
    (fits : vote.Fits row) : row.status ≠ .pending := by
  rw [fits.status_eq]
  cases vote <;> nofun

structure Standing where
  job : Job
  inserted : Option Enrollment
  recorded : Bool
  doubt : Bool
  refused : Bool
  verdict : Option Verdict

def Footprint.standing (f : Footprint) : Standing where
  job := f.job
  inserted := f.inserted
  recorded := f.recorded
  doubt := f.doubt
  refused := f.refused
  verdict := f.verdict

/-- The effect of one statement on `enrollments` and on the standing of the
call that issued it. -/
inductive RowEffect (before after : EnrollmentRows) (f g : Footprint) : Prop where
  | kept (refused : Bool) : after = before → g.standing = { f.standing with refused := refused } →
      (refused = true → f.refused = true ∨ ∀ row, before.find f.job.enrollmentID = some row →
          row.status ≠ .pending) → RowEffect before after f g
  | decided {verdict : Verdict} {old row : Enrollment} : before.find f.job.enrollmentID = some old →
      old.status = .pending → after.find f.job.enrollmentID = some row → verdict.Fits row →
      (∀ other, other ≠ f.job.enrollmentID → after.find other = before.find other) →
      g.standing = { f.standing with verdict := some verdict } → RowEffect before after f g
  | doubted {inserted : Option Enrollment} : inserted = f.inserted ∨ inserted ≠ none →
      (before.find f.job.enrollmentID = none →
        after.find f.job.enrollmentID = none ∨ inserted ≠ none) →
      (∀ old, before.find f.job.enrollmentID = some old →
        ∃ row, after.find f.job.enrollmentID = some row ∧ (old.status ≠ .pending → row = old)) →
      (∀ other, other ≠ f.job.enrollmentID → after.find other = before.find other) →
      g.standing = { f.standing with inserted := inserted, doubt := true } →
      RowEffect before after f g
  | inserted (new : Enrollment) {row : Enrollment} : before.find f.job.enrollmentID = none →
      after.find f.job.enrollmentID = some row → row.status = new.status →
      (∀ other, other ≠ f.job.enrollmentID → after.find other = before.find other) →
      g.standing = { f.standing with
        inserted := some new
        recorded := true } →
      RowEffect before after f g

namespace RowEffect

variable {before fin : EnrollmentRows} {f g : Footprint}

theorem job_eq (eff : RowEffect before fin f g) : g.job = f.job := by
  cases eff with
  | kept _ _ rank _ | decided _ _ _ _ _ rank => exact congrArg Standing.job rank
  | doubted _ _ _ _ rank | inserted _ _ _ _ _ rank => exact congrArg Standing.job rank

theorem persists (eff : RowEffect before fin f g) {eid : String}
    {old : Enrollment} (hit : before.find eid = some old) :
    ∃ row, fin.find eid = some row ∧ (old.status ≠ .pending → row = old) := by
  by_cases own : eid = f.job.enrollmentID
  · subst own
    cases eff with
    | kept _ eq _ _ => exact ⟨old, by rw [eq, hit], fun _ => rfl⟩
    | decided was wait now _ _ _ =>
      rw [was, Option.some.injEq] at hit
      subst hit
      exact ⟨_, now, fun law => absurd wait law⟩
    | doubted _ _ own _ _ => exact own old hit
    | inserted _ absent _ _ _ _ =>
      rw [absent] at hit
      cases hit
  · refine ⟨old, ?_, fun _ => rfl⟩
    cases eff with
    | kept _ eq _ _ => rw [eq, hit]
    | decided _ _ _ _ away _ | doubted _ _ _ away _ => rw [away _ own, hit]
    | inserted _ _ _ _ away _ => rw [away _ own, hit]

theorem verdict_cases (eff : RowEffect before fin f g) :
    g.verdict = f.verdict ∨ ∃ vote old row, g.verdict = some vote ∧
        before.find f.job.enrollmentID = some old ∧ old.status = .pending ∧
        fin.find f.job.enrollmentID = some row ∧ vote.Fits row := by
  cases eff with
  | kept _ _ rank _ => exact .inl (congrArg Standing.verdict rank)
  | decided was wait now fits _ rank =>
    exact .inr ⟨_, _, _, congrArg Standing.verdict rank, was, wait, now, fits⟩
  | doubted _ _ _ _ rank => exact .inl (congrArg Standing.verdict rank)
  | inserted _ _ _ _ _ rank => exact .inl (congrArg Standing.verdict rank)

theorem origin (eff : RowEffect before fin f g) (hit : fin.find eid = some row) :
    (∃ old, before.find eid = some old) ∨ f.job.enrollmentID = eid ∧ g.inserted ≠ none := by
  by_cases own : eid = f.job.enrollmentID
  · subst own
    cases eff with
    | kept _ same _ _ => exact .inl ⟨row, by rw [← same, hit]⟩
    | decided was _ _ _ _ _ => exact .inl ⟨_, was⟩
    | doubted _ new _ _ standing =>
      cases was : before.find f.job.enrollmentID with
      | some old => exact .inl ⟨old, rfl⟩
      | none =>
        have ask : g.inserted = _ := congrArg Standing.inserted standing
        rcases new was with absent | inserted
        · rw [hit] at absent
          cases absent
        · exact .inr ⟨rfl, ask ▸ inserted⟩
    | inserted _ _ _ _ _ standing =>
      have ask : g.inserted = some _ := congrArg Standing.inserted standing
      exact .inr ⟨rfl, by simp [ask]⟩
  · left
    cases eff with
    | kept _ same _ _ => exact ⟨row, by rw [← same, hit]⟩
    | decided _ _ _ _ away _ | doubted _ _ _ away _ | inserted _ _ _ _ away _ =>
      exact ⟨row, by rw [← away _ own, hit]⟩

theorem inserted_of_inserted (eff : RowEffect before fin f g)
    (put : f.inserted ≠ none) : g.inserted ≠ none := by
  cases eff with
  | kept _ _ rank _ | decided _ _ _ _ _ rank =>
    have eq : g.inserted = f.inserted := congrArg Standing.inserted rank
    rwa [eq]
  | doubted new _ _ _ rank =>
    have eq : g.inserted = _ := congrArg Standing.inserted rank
    rw [eq]
    rcases new with kept | asked
    · rwa [kept]
    · exact asked
  | inserted _ _ _ _ _ rank =>
    have eq : g.inserted = some _ := congrArg Standing.inserted rank
    simp [eq]

theorem found_of_recorded (eff : RowEffect before fin f g) (rec : g.recorded = true) :
    f.recorded = true ∨ ∃ row, fin.find f.job.enrollmentID = some row := by
  cases eff with
  | kept _ _ rank _ | decided _ _ _ _ _ rank | doubted _ _ _ _ rank =>
    have eq : g.recorded = f.recorded := congrArg Standing.recorded rank
    exact .inl (eq ▸ rec)
  | inserted _ _ put _ _ _ => exact .inr ⟨_, put⟩

theorem refusal (eff : RowEffect before fin f g)
    (hit : before.find f.job.enrollmentID = some old) (deny : g.refused = true) :
    f.refused = true ∨ old.status ≠ .pending := by
  cases eff with
  | kept now _ rank why =>
    have eq : g.refused = now := congrArg Standing.refused rank
    exact (why (eq ▸ deny)).imp_right fun law => law old hit
  | decided _ _ _ _ _ rank | doubted _ _ _ _ rank | inserted _ _ _ _ _ rank =>
    have eq : g.refused = f.refused := congrArg Standing.refused rank
    exact .inl (eq ▸ deny)

end RowEffect

section

variable {c : Config} {env : Env} {io : Choice} {w : World} {f : Footprint}

theorem standing_after (alt : s.writes ≠ some .enrollments) (left : ∀ eid, s ≠ .findEnrollment eid)
    (a : s.Answer) : (f.after s a).standing = f.standing := by
  change (f.learn s a).standing = f.standing
  unfold Footprint.learn
  split <;> first
    | rfl
    | exact absurd rfl (left _)
    | exact absurd rfl alt

theorem read_cases (f : Footprint) (ans : Except String (Option Enrollment)) :
    f.read ans = f ∨ (∃ row, f.read ans = { f with known := some row } ∧
        ans = .ok (some row)) ∨ f.read ans = { f with refused := true } ∧
        ∃ hit, ans = .ok hit ∧ ∀ row, hit = some row → row.status ≠ .pending := by
  unfold Footprint.read
  split
  · rename_i row _
    exact .inr (.inl ⟨row, rfl, rfl⟩)
  · exact .inl rfl
  · refine .inr (.inr ⟨rfl, none, rfl, ?_⟩)
    intro row hit
    cases hit
  · rename_i row _
    split
    · exact .inl rfl
    · rename_i law
      refine .inr (.inr ⟨rfl, some row, rfl, ?_⟩)
      rintro _ ⟨⟩
      exact law
  · exact .inl rfl

theorem read_rowEffect (own : eid = f.job.enrollmentID) : RowEffect w.enrollments
      (execute env io w (.findEnrollment eid)).2.enrollments f (f.after (.findEnrollment eid)
        (execute env io w (.findEnrollment eid)).1) := by
  have eq : (execute env io w (.findEnrollment eid)).2 =
      w := execute_read env io w rfl
  rw [eq, Footprint.after_findEnrollment]
  change RowEffect _ _ f (f.read (io.database w (w.enrollments.find eid) w).1)
  rcases read_cases f (io.database w (w.enrollments.find eid) w).1 with kept |
      ⟨row, seen, _⟩ | ⟨refused, hit, answered, law⟩
  · rw [kept]
    exact .kept f.refused rfl rfl .inl
  · rw [seen]
    exact .kept f.refused rfl rfl .inl
  · rw [refused]
    refine .kept true rfl rfl fun _ => .inr ?_
    rcases database_cases io w (w.enrollments.find eid) w with ended | ended | ended
    · rw [ended] at answered
      cases answered
      rwa [own] at law
    · rw [ended] at answered
      cases answered
    · rw [ended] at answered
      cases answered

theorem claim_rowEffect (verdict : Verdict) (key : ∀ row, (ch row).enrollmentID = row.enrollmentID)
    (fits : ∀ row, verdict.Fits (ch row)) (g : Except String Nat → Footprint)
    (won : ∀ count, (g (.ok (count + 1))).standing = { f.standing with verdict := some verdict })
    (deny : (g (.ok 0)).standing = { f.standing with refused := true })
    (fail : ∀ text, (g (.error text)).standing = { f.standing with doubt := true }) :
    RowEffect w.enrollments (w.claimPending io f.job.enrollmentID ch key).2.enrollments f
      (g (w.claimPending io f.job.enrollmentID ch key).1) := by
  have away : ∀ alt, alt ≠ f.job.enrollmentID →
      (w.enrollments.update (World.isPending f.job.enrollmentID) ch
        key).find alt = w.enrollments.find alt := by
    intro alt ne
    rw [find_claimed key]
    simp [ne]
  rcases database_cases io w (w.enrollments.affected (World.isPending f.job.enrollmentID))
    { w with
      enrollments := w.enrollments.update
        (World.isPending f.job.enrollmentID) ch key }
    with ended | ended | ended
  · unfold World.claimPending
    rw [ended]
    cases tally : w.enrollments.affected (World.isPending f.job.enrollmentID) with
    | zero =>
      have ruled := (affected_isPending w.enrollments f.job.enrollmentID).not.mp (by simp [tally])
      refine .kept true (Table.update_of_affected_eq_zero key tally) deny fun _ => .inr ?_
      intro row hit pending
      exact ruled ⟨row, hit, pending⟩
    | succ count =>
      obtain ⟨old, hit, pending⟩ := (affected_isPending w.enrollments
        f.job.enrollmentID).mp (by simp [tally])
      refine .decided hit pending ?_ (fits old) away (won count)
      rw [find_claimed key, hit]
      simp [pending]
  · unfold World.claimPending
    rw [ended]
    exact .doubted (.inl rfl) .inl (fun old hit => ⟨old, hit, fun _ => rfl⟩) (fun _ _ => rfl)
      (fail io.text)
  · unfold World.claimPending
    rw [ended]
    refine .doubted (.inl rfl) ?_ ?_ away (fail io.text)
    · intro absent
      left
      rw [find_claimed key, absent]
      rfl
    · intro old hit
      refine ⟨_, by rw [find_claimed key, hit]; rfl, ?_⟩
      intro ruled
      simp [ruled]

theorem create_rowEffect (own : row.enrollmentID = f.job.enrollmentID) :
    RowEffect w.enrollments (w.createEnrollment io row).2.enrollments f
      (f.after (.createEnrollment row) (w.createEnrollment io row).1) := by
  have fail : RowEffect w.enrollments w.enrollments f
      (f.after (.createEnrollment row) (.error io.text)) :=
    .doubted (.inr (by nofun)) .inl (fun old hit => ⟨old, hit, fun _ => rfl⟩) (fun _ _ => rfl) rfl
  unfold World.createEnrollment
  split
  · rename_i rs put
    obtain ⟨_, away⟩ := Table.insert?_eq_some put
    have placed : ∀ want, rs.find want =
        if want = f.job.enrollmentID then
          some { row with id := nextID (w.enrollments.rows.map (·.id)) }
        else w.enrollments.find want := by
      intro want
      rw [Table.find_insert? put, ← own]
    rw [own] at away
    rcases database_cases io w () { w with enrollments := rs }
      with ended | ended | ended
    · rw [ended]
      have here := placed f.job.enrollmentID
      rw [if_pos rfl] at here
      refine .inserted row away here rfl ?_ rfl
      intro o ne
      rw [placed, if_neg ne]
    · rw [ended]
      exact fail
    · rw [ended]
      refine .doubted (.inr (by nofun)) (fun _ => .inr (by nofun)) ?_ ?_ rfl
      · intro old hit
        rw [away] at hit
        cases hit
      · intro o ne
        rw [placed, if_neg ne]
  · exact fail

theorem execute_rowEffect (env : Env) (io : Choice) (w : World)
    (may : f.may c s) : RowEffect w.enrollments (execute env io w s).2.enrollments f
      (f.after s (execute env io w s).1) := by
  by_cases rs : s.writes = some .enrollments
  · cases s with
    | createEnrollment row =>
      obtain ⟨_, _, _, _, own, _⟩ := may
      exact create_rowEffect own
    | claimIssued eid sent =>
      obtain ⟨⟨who, job⟩, _, _, _, ip, held, addr⟩ := may
      obtain rfl : f.job.enrollmentID = eid := by rw [job]; rfl
      refine claim_rowEffect (.issued sent ip) _ ?_
        (f.after (.claimIssued f.job.enrollmentID sent)) ?_ ?_ ?_
      · exact fun row => ⟨rfl, rfl, rfl, addr⟩
      · intro count
        simp [Footprint.after, Footprint.learn, Footprint.standing, held]
      · rfl
      · exact fun _ => rfl
    | claimDenied eid when who =>
      obtain ⟨⟨_, _, job⟩, _⟩ := may
      obtain rfl : f.job.enrollmentID = eid := by rw [job]; rfl
      refine claim_rowEffect .denied _ ?_ (f.after (.claimDenied f.job.enrollmentID when who))
        (fun _ => rfl) rfl fun _ => rfl
      exact fun _ => rfl
    | _ => cases rs
  · by_cases read : ∃ eid, s = .findEnrollment eid
    · obtain ⟨eid, rfl⟩ := read
      exact read_rowEffect may
    · exact .kept f.refused ((execute_framed env io w s).enrollments rs)
        (standing_after rs (by simpa using read) _) .inl

end

def Job.Decides (enrollmentID : String) : Job → Prop
  | .process _ => False
  | .approve decided _ | .deny decided _ _ => decided = enrollmentID

instance (enrollmentID : String) : DecidablePred (Job.Decides enrollmentID)
  | .process _ => inferInstanceAs (Decidable False)
  | .approve decided _ | .deny decided _ _ => inferInstanceAs (Decidable (decided = enrollmentID))

theorem Job.Decides.enrollmentID_eq {eid : String} {job : Job}
    (rs : job.Decides eid) : job.enrollmentID = eid := by
  cases job with
  | process c => cases rs
  | approve law who | deny law who why => exact rs

theorem Job.Decides.not_process {eid : String} {job : Job}
    (rs : job.Decides eid) (c : Candidate) : job ≠ .process c := by
  rintro rfl
  exact rs

section

variable {c : Config} {f : Footprint} {eid : String}
variable {stmt : Statement}

theorem put_after (alt : stmt.writes ≠ some .results) (a : stmt.Answer) :
    (f.after stmt a).put = f.put := by
  change (f.learn stmt a).put = f.put
  unfold Footprint.learn
  split <;> first
    | rfl
    | exact absurd rfl alt
    | skip
  rename_i a
  obtain ⟨_, _, eq⟩ := f.read_eq a
  rw [eq]

theorem decided_of_putResult (rs : f.job.Decides eid)
    (may : f.may c (.putResult dlv)) : f.verdict ≠ none := by
  obtain ⟨_, _, out⟩ := may
  cases job : f.job with
  | process cand => exact absurd job (rs.not_process cand)
  | approve | deny =>
    rw [job] at out
    obtain ⟨_, vote, got, _⟩ := out
    simp [got]

theorem inserted_after (rs : f.job.Decides eid) (may : f.may c stmt) (a : stmt.Answer) :
    (f.after stmt a).inserted = f.inserted := by
  change (f.learn stmt a).inserted = f.inserted
  unfold Footprint.learn
  split <;> first
    | rfl
    | skip
  · rename_i a
    obtain ⟨_, _, eq⟩ := f.read_eq a
    rw [eq]
  · obtain ⟨_, _, _, ⟨cand, p⟩, _⟩ := may
    exact absurd p (rs.not_process cand)
  · obtain ⟨_, _, _, ⟨cand, p⟩, _⟩ := may
    exact absurd p (rs.not_process cand)

theorem decided_after (rs : f.job.Decides eid)
    (puts : f.put ≠ none → f.verdict ≠ none) (env : Env) (io : Choice)
    (w : World) (may : f.may c stmt) (put : (f.after stmt (execute env io w stmt).1).put ≠ none) :
    (f.after stmt (execute env io w stmt).1).verdict ≠
      none := by
  have law : f.verdict ≠ none := by
    by_cases writes : stmt.writes = some .results
    · cases stmt with
      | putResult dlv => exact decided_of_putResult rs may
      | _ => cases writes
    · rw [put_after writes] at put
      exact puts put
  rcases (execute_rowEffect env io w may).verdict_cases with
    eq | ⟨vote, _, _, got, _⟩
  · rwa [eq]
  · simp [got]

end

namespace Footprint

def Decided (f : Footprint) (enrollmentID : String) : Prop :=
  f.job.enrollmentID = enrollmentID ∧ f.verdict ≠ none

def Answers (f : Footprint) (enrollmentID : String) : Prop :=
  f.job.enrollmentID = enrollmentID ∧ (f.verdict ≠ none ∨ f.doubt = true ∨
      ∃ row, f.inserted = some row ∧ row.status ≠ .pending)

end Footprint

structure Ruling (enrollmentID : String) (rows : EnrollmentRows)
    (prints : Nat → Option Footprint) : Prop where
  shown : ∀ call f, prints call = some f → f.job.enrollmentID = enrollmentID →
    ∀ verdict, f.verdict = some verdict →
      ∃ row, rows.find enrollmentID = some row ∧ verdict.Fits row
  unique : ∀ call f, prints call = some f → ∀ other g, prints other = some g →
      f.Decided enrollmentID → g.Decided enrollmentID → call = other
  answered : ∀ row, rows.find enrollmentID = some row → row.status ≠ .pending →
    ∃ call f, prints call = some f ∧ f.Answers enrollmentID

namespace Ruling

variable {eid : String} {rows fin : EnrollmentRows}
  {fps : Nat → Option Footprint} {call : Nat} {f g : Footprint}

theorem initial (unset : ∀ row, rows.find eid = some row →
    row.status = .pending) : Ruling eid rows fun _ => none where
  shown := fun _ _ hit => nomatch hit
  unique := fun _ _ hit => nomatch hit
  answered := fun row hit law => absurd (unset row hit) law

theorem begin (ruling : Ruling eid rows fps) (idle : fps call = none) (job : Job) :
    Ruling eid rows (update fps call (some { job := job })) where
  shown := by
    rw [forall_update_some]
    constructor
    · intro _ vote got
      cases got
    · intro alt f _ hit
      exact ruling.shown alt f hit
  unique := by
    have undecided : ¬Footprint.Decided { job := job } eid := by
      rintro ⟨_, law⟩
      exact law rfl
    rw [forall_update_some]
    constructor
    · intro _ _ _ law _
      exact absurd law undecided
    · intro alt f _ hit
      rw [forall_update_some]
      constructor
      · intro _ law
        exact absurd law undecided
      · intro another g _ had
        exact ruling.unique alt f hit another g had
  answered := by
    intro row hit law
    rw [exists_update_some]
    obtain ⟨alt, f, had, answers⟩ := ruling.answered row hit law
    refine .inr ⟨alt, f, ?_, had, answers⟩
    rintro rfl
    rw [idle] at had
    cases had

theorem undecided (ruling : Ruling eid rows fps) (hit : rows.find eid = some old)
    (wait : old.status = .pending) (had : fps alt = some g) : ¬g.Decided eid := by
  rintro ⟨own, law⟩
  obtain ⟨vote, got⟩ := Option.ne_none_iff_exists'.mp law
  obtain ⟨row, seen, fits⟩ := ruling.shown alt g had own vote got
  rw [hit, Option.some.injEq] at seen
  subst seen
  exact fits.not_pending wait

theorem step_shown (law : Ruling eid rows fps)
    (had : fps call = some f) (eff : RowEffect rows fin f g) :
    ∀ alt h, update fps call (some g) alt = some h →
      h.job.enrollmentID = eid → ∀ vote, h.verdict = some vote →
        ∃ row, fin.find eid = some row ∧ vote.Fits row := by
  have persists : ∀ vote : Verdict, (∃ row, rows.find eid = some row ∧ vote.Fits row) →
      ∃ row, fin.find eid = some row ∧ vote.Fits row := by
    rintro vote ⟨old, hit, fits⟩
    obtain ⟨row, now, eq⟩ := eff.persists hit
    exact ⟨row, now, eq fits.not_pending ▸ fits⟩
  rw [forall_update_some]
  constructor
  · intro own vote got
    rw [eff.job_eq] at own
    rcases eff.verdict_cases with eq | ⟨_, _, row, now, _, _, hit, fits⟩
    · rw [eq] at got
      exact persists _ (law.shown call f had own vote got)
    · rw [now, Option.some.injEq] at got
      subst got own
      exact ⟨row, hit, fits⟩
  · intro alt h _ hit own vote got
    exact persists _ (law.shown alt h hit own vote got)

theorem step_unique (ruling : Ruling eid rows fps)
    (had : fps call = some f) (eff : RowEffect rows fin f g) :
    ∀ one h, update fps call (some g) one = some h →
      ∀ alt k, update fps call (some g) alt = some k →
        h.Decided eid → k.Decided eid → one = alt := by
  have solo : g.Decided eid → ∀ alt h, fps alt = some h → h.Decided eid → call = alt := by
    rintro ⟨own, got⟩ alt h hit law
    rw [eff.job_eq] at own
    rcases eff.verdict_cases with eq | ⟨_, old, _, _, was, wait, _⟩
    · exact ruling.unique call f had alt h hit ⟨own, eq ▸ got⟩ law
    · rw [own] at was
      exact absurd law (ruling.undecided was wait hit)
  rw [forall_update_some]
  constructor
  · rw [forall_update_some]
    refine ⟨fun _ _ => rfl, ?_⟩
    intro alt h _ hit mine theirs
    exact solo mine alt h hit theirs
  · intro one h _ hit
    rw [forall_update_some]
    constructor
    · intro theirs mine
      exact (solo mine one h hit theirs).symm
    · intro alt k _ here
      exact ruling.unique one h hit alt k here

theorem step_answered (ruling : Ruling eid rows fps)
    (had : fps call = some f) (eff : RowEffect rows fin f g) :
    ∀ row, fin.find eid = some row → row.status ≠ .pending →
      ∃ alt h, update fps call (some g) alt = some h ∧
        h.Answers eid := by
  intro row now law
  rw [exists_update_some]
  have kept : (f.Answers eid → g.Answers eid) →
      rows.find eid = some row → g.Answers eid ∨ ∃ alt h, alt ≠ call ∧
        fps alt = some h ∧ h.Answers eid := by
    intro mono hit
    obtain ⟨alt, h, here, answers⟩ := ruling.answered row hit law
    by_cases eq : alt = call
    · subst eq
      rw [had, Option.some.injEq] at here
      subst here
      exact .inl (mono answers)
    · exact .inr ⟨alt, h, eq, here, answers⟩
  have job := eff.job_eq
  cases eff with
  | kept _ eq rank _ =>
    rw [eq] at now
    refine kept ?_ now
    rintro ⟨own, answers⟩
    have vote : g.verdict = f.verdict := congrArg Standing.verdict rank
    have doubt : g.doubt = f.doubt := congrArg Standing.doubt rank
    have inserted : g.inserted = f.inserted := congrArg Standing.inserted rank
    exact ⟨job ▸ own, by rwa [vote, doubt, inserted]⟩
  | decided _ _ _ _ away rank =>
    have vote : g.verdict = some _ := congrArg Standing.verdict rank
    by_cases own : eid = f.job.enrollmentID
    · exact .inl ⟨by rw [job, own], .inl (by simp [vote])⟩
    · rw [away _ own] at now
      exact kept (fun answers => absurd answers.1.symm own) now
  | doubted _ _ _ away rank =>
    have doubt : g.doubt = true := congrArg Standing.doubt rank
    by_cases own : eid = f.job.enrollmentID
    · exact .inl ⟨by rw [job, own], .inr (.inl doubt)⟩
    · rw [away _ own] at now
      exact kept (fun answers => absurd answers.1.symm own) now
  | inserted new _ put st away rank =>
    have inserted : g.inserted = some new := congrArg Standing.inserted rank
    by_cases own : eid = f.job.enrollmentID
    · subst own
      rw [put, Option.some.injEq] at now
      subst now
      exact .inl ⟨by rw [job], .inr (.inr ⟨new, inserted, st ▸ law⟩)⟩
    · rw [away _ own] at now
      exact kept (fun answers => absurd answers.1.symm own) now

theorem step (law : Ruling eid rows fps) (had : fps call = some f) (eff : RowEffect rows fin f g) :
    Ruling eid fin (update fps call (some g)) :=
  ⟨law.step_shown had eff, law.step_unique had eff, law.step_answered had eff⟩

end Ruling

abbrev ConsumerCall :=
  Service.Call Job Statement Statement.Answer (Except Error Result)

abbrev ConsumerState :=
  Service.State Job Statement Statement.Answer (Except Error Result) World

abbrev ConsumerStaged (c : Config) : ConsumerCall →
    Service.Stage Job (Except Error Result) Footprint → Prop :=
  @Service.Staged Job Statement Statement.Answer (Except Error Result) (discipline c) (Ended c)

def consumer (c : Config) (env : Env) :
    Service Job Statement Statement.Answer (Except Error Result) World Choice where
  procedure := c.procedure
  execute := execute env

def contest (enrollmentID : String) : Service.Permit Job Statement World Choice where
  opens := fun _ job => job.Decides enrollmentID
  executes := fun _ _ _ _ choice => choice.fault = .ok
  crashes := False

instance (enrollmentID : String) (world : World) (job : Job) :
    Decidable ((contest enrollmentID).opens world job) :=
  inferInstanceAs (Decidable (job.Decides enrollmentID))

instance (enrollmentID : String) (world : World) (active : Nat → Option Job)
    (call : Nat) (statement : Statement) (choice : Choice) :
    Decidable ((contest enrollmentID).executes world active call statement choice) :=
  inferInstanceAs (Decidable (choice.fault = .ok))

instance (enrollmentID : String) : Decidable (contest enrollmentID).crashes :=
  inferInstanceAs (Decidable False)

namespace Example

def codec : Codec where
  Envelope := Unit
  Key := Unit
  unmarshalEnvelope := fun _ => some ()
  jwsPayload := fun _ => some []
  unmarshalRequest := fun _ =>
    some { nonce := "n", method := "token", requestedName := "host" }
  decodeB64 := fun _ => some (List.replicate 65 0)
  parsePoint := fun _ => some ()
  verifyJWS := fun _ _ => some { typ := typEnrollRequest, kid := "h" }
  pubkeyHash := fun _ => "h"
  verifyNonce := fun _ _ _ => .ok ()
  sha256 := fun secret => if secret = "secret" then [1] else [2]
  token := fun _ => "secret"
  presigned := fun _ => .error ""
  assertion := fun _ => none
  verifyAssertion := fun _ _ => .error ""
  hostname := fun _ => none
  marshalGroups := fun _ => ""
  unmarshalGroups := fun _ => none
  fold := .plain

def pool : Prefix :=
  ⟨167772160, 29, by decide, by decide⟩

def config : Config where
  codec := codec
  allocator := { pool := pool, resolver := .none }
  pool := pool

def env : Env where
  signJWS := fun _ bundle => bundle.certificate
  mac := fun _ => []
  maxAttempts := 5
  replayTTL := 600

def world (enrollments : EnrollmentRows) (joinKeys : JoinKeys) : World where
  enrollments := enrollments
  joinKeys := joinKeys
  nonces := .empty
  devices := .empty
  allocations := .empty
  items := .empty
  results := .empty
  delivered := []
  acked := []

def candidate : Candidate where
  enrollmentID := "e1"
  pubkeyHash := "h"
  retrievalSecretHash := [1]

def closed : ConsumerCall → Bool
  | .idle => true
  | .running _ _ => false
  | .returned _ (.ok _) => true
  | .returned _ (.error error) => error == .notPending
  | .crashed _ => false

def success : ConsumerCall → Option (Job × Result)
  | .returned job (.ok result) => some (job, result)
  | _ => none

theorem returned_of_success (fine : success c = some (job, res)) : c = .returned job (.ok res) := by
  unfold success at fine
  split at fine <;> cases fine
  rfl

theorem settled_of_closed {st : ConsumerState}
    (all : ∀ c, closed (st.calls c) = true) : st.Settled := by
  intro c job rest running
  have past := all c
  rw [running] at past
  cases past

theorem refused_of_closed {st : ConsumerState}
    (all : ∀ c, closed (st.calls c) = true) (c : Nat) (job : Job) (err : Error)
    (fail : st.calls c = .returned job (.error err)) : err = .notPending := by
  have past := all c
  rw [fail] at past
  simpa [closed] using past

end Example

end Harbor.Consumer
