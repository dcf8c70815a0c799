import Harbor.Collect.Account

/-!
# Processing a batch

The statements of a cycle between its claim and its shipment.  A `Process` call
that found no row inserts the only one there is, and every result in the sink
fits the row of its enrollment.
-/

namespace Harbor.Collect

open Library Queue Consumer List

section

variable {c : Config} {env : Env} {pick : Choice} {w : World}
  {cand : Candidate} {f : Footprint} {stmt : Consumer.Statement}

theorem known_after (left : ∀ id, stmt ≠ .findEnrollment id)
    (a : stmt.Answer) : (f.after stmt a).known = f.known := by
  change (f.learn stmt a).known = f.known
  unfold Footprint.learn
  split <;> first
    | rfl
    | exact absurd rfl (left _)

theorem writes_of_process (may : f.may c stmt) (job : f.job = .process cand)
    (alt : ∀ row, stmt ≠ .createEnrollment row) : stmt.writes ≠ some .enrollments := by
  intro puts
  cases stmt with
  | createEnrollment row => exact alt row rfl
  | claimIssued id sent =>
    obtain ⟨⟨_, approve⟩, _⟩ := may
    rw [job] at approve
    cases approve
  | claimDenied id when who =>
    obtain ⟨⟨_, _, deny⟩, _⟩ := may
    rw [job] at deny
    cases deny
  | _ => cases puts

theorem undisturbed_of_process (may : f.may c stmt) (job : f.job = .process cand)
    (alt : ∀ row, stmt ≠ .createEnrollment row) (bare : stmt.writes ≠ some .results) :
    Undisturbed w (w.ran env pick stmt) := by
  have rest := execute_framed env.consumer pick w.base stmt
  exact undisturbed_of_eq (rest.enrollments (writes_of_process may job alt))
    (rest.results bare).1 (rest.items (writes_ne_items may)).1
    rfl

theorem working_of_fields {g : Footprint} (busy : w.Working cand f)
    (job : g.job = f.job) (inserted : g.inserted = f.inserted)
    (seen : g.known = f.known) (put : g.put = f.put) (used : g.spent = f.spent ∨ f.known = none) :
    w.Working cand g where
  job := job.trans busy.job
  shown := fun idle => busy.shown (inserted ▸ idle)
  fresh := fun idle unknown =>
    busy.fresh (inserted ▸ idle) (seen ▸ unknown)
  known := by
    intro idle hit
    rw [inserted] at idle
    rw [seen] at hit
    rcases used with eq | unknown
    · rw [eq]
      exact busy.known idle hit
    · exact absurd unknown hit
  inserted := fun new ask => busy.inserted new (inserted ▸ ask)
  put := by
    rw [put, inserted]
    exact busy.put

theorem working_read (busy : w.Working cand f)
    {id : String} (own : id = f.job.enrollmentID) : w.Working cand (f.after (.findEnrollment id)
      (w.told env pick (.findEnrollment id))) := by
  rw [Footprint.after_findEnrollment]
  rcases read_cases f (w.told env pick (.findEnrollment id)) with eq | ⟨row, eq, told⟩ | ⟨eq, _⟩
  · rw [eq]
    exact busy
  · rw [eq]
    have hit : w.base.enrollments.find cand.enrollmentID = some row := by
      rw [own, busy.job] at told
      rcases database_cases pick w.base (w.base.enrollments.find cand.enrollmentID) w.base with
          ended | ended | ended
      · exact Except.ok.inj ((congrArg Prod.fst ended).symm.trans told)
      · cases (congrArg Prod.fst ended).symm.trans told
      · cases (congrArg Prod.fst ended).symm.trans told
    refine ⟨busy.job, busy.shown, nofun, ?_, busy.inserted, busy.put⟩
    intro idle _
    apply busy.known idle
    intro new
    rw [busy.fresh idle new] at hit
    cases hit
  · rw [eq]
    exact working_of_fields busy rfl rfl rfl rfl (.inl rfl)

theorem working_after (busy : w.Working cand f) (may : f.may c stmt)
    (alt : ∀ row, stmt ≠ .createEnrollment row)
    (blank : stmt.writes ≠ some .results) : w.Working cand
      (f.after stmt (w.told env pick stmt)) := by
  by_cases read : ∃ eid, stmt = .findEnrollment eid
  · obtain ⟨eid, rfl⟩ := read
    exact working_read busy may
  · have unread : ∀ eid, stmt ≠ .findEnrollment eid := by simpa using read
    have rank := standing_after (f := f) (writes_of_process may busy.job alt) unread
      (w.told env pick stmt)
    obtain ⟨job, used, _⟩ := entry_after f stmt (w.told env pick stmt)
    refine working_of_fields busy job (congrArg Standing.inserted rank)
      (known_after unread _) (put_after blank _) ?_
    by_cases sees : stmt.writes = some .nonces
    · cases stmt with
      | observe n =>
        right
        rw [may.1]
      | _ => cases sees
    · exact .inl (used sees)

theorem create_find (pick : Choice) (base : Consumer.World) (row : Enrollment) (want : String) :
    (base.createEnrollment pick row).2.enrollments.find want = base.enrollments.find want ∨
      want = row.enrollmentID ∧ ∃ placed, (base.createEnrollment pick row).2.enrollments.find want =
          some placed ∧ placed.status = row.status := by
  unfold World.createEnrollment
  split
  · rename_i rs put
    have placed : rs.find want = if want = row.enrollmentID then
          some { row with id := nextID (base.enrollments.rows.map (·.id)) }
        else base.enrollments.find want := Table.find_insert? put
    have eff : rs.find want = base.enrollments.find want ∨ want = row.enrollmentID ∧ ∃ placed,
          rs.find want = some placed ∧ placed.status = row.status := by
      by_cases own : want = row.enrollmentID
      · rw [if_pos own] at placed
        exact .inr ⟨own, _, placed, rfl⟩
      · rw [if_neg own] at placed
        exact .inl placed
    rcases database_cases pick base () { base with enrollments := rs } with
      ended | ended | ended
    · rw [ended]
      exact eff
    · rw [ended]
      exact .inl rfl
    · rw [ended]
      exact eff
  · exact .inl rfl

theorem asked_after (row : Enrollment) (ans : (Consumer.Statement.createEnrollment row).Answer) :
    (f.after (.createEnrollment row) ans).inserted = some row := by
  match ans with
  | .ok () => rfl
  | .error t => rfl

theorem put_asked (row : Enrollment) (ans : (Consumer.Statement.createEnrollment row).Answer) :
    (f.after (.createEnrollment row) ans).put = f.put :=
  put_after (by rintro ⟨⟩) ans

theorem create_working (busy : w.Working cand f) (may : f.may c (.createEnrollment row)) :
    (w.ran env pick (.createEnrollment row)).Working cand (f.after (.createEnrollment row)
          (w.told env pick (.createEnrollment row))) ∧ ∀ eid, eid ≠ cand.enrollmentID →
        (w.ran env pick (.createEnrollment row)).base.enrollments.find
          eid = w.base.enrollments.find eid := by
  obtain ⟨used, idle, bare, _, own, _⟩ := may
  rw [busy.job] at own
  have unknown : f.known = none := by
    by_contra hit
    rw [busy.known idle hit] at used
    cases used
  have away := busy.fresh idle unknown
  have eff := create_find pick w.base row
  have ask := asked_after (f := f) row (w.told env pick (.createEnrollment row))
  have put := put_asked (f := f) row (w.told env pick (.createEnrollment row))
  refine ⟨⟨?_, ?_, ?_, ?_, ?_, ?_⟩, ?_⟩
  · exact (entry_after f _ _).1.trans busy.job
  · intro none
    rw [ask] at none
    cases none
  · intro none
    rw [ask] at none
    cases none
  · intro none
    rw [ask] at none
    cases none
  · intro new eq placed hit
    rw [ask, Option.some.injEq] at eq
    subst eq
    rcases eff cand.enrollmentID with kept | ⟨_, row, here, st⟩
    · cases (kept.trans away).symm.trans hit
    · cases here.symm.trans hit
      exact .inl st.symm
  · intro sent wrote
    rw [put, bare] at wrote
    cases wrote
  · intro eid ne
    rcases eff eid with kept | ⟨eq, _⟩
    · exact kept
    · exact absurd (eq.trans own) ne

theorem lookup_working (cand : Candidate) (told : w.Answered pick
      (.consumer (.findEnrollment cand.enrollmentID))) : w.Working cand
      (Footprint.after { job := .process cand } (.findEnrollment cand.enrollmentID)
        (w.told env pick (.findEnrollment cand.enrollmentID))) := by
  rw [Footprint.after_findEnrollment]
  change w.Working cand (Footprint.read _ (pick.database w.base
    (w.base.enrollments.find cand.enrollmentID) w.base).1)
  have shown : w.Shown cand.enrollmentID := fun row hit => (told row hit).2
  cases hit : w.base.enrollments.find cand.enrollmentID with
  | none =>
    have idle : w.Working cand { job := .process cand } := by
      refine ⟨rfl, fun _ => shown, fun _ _ => hit, fun _ _ => rfl, ?_, ?_⟩
      · intro new asked
        cases asked
      · intro sent wrote
        cases wrote
    rcases database_cases pick w.base (w.base.enrollments.find cand.enrollmentID) w.base with
        ended | ended | ended
    · rw [hit] at ended
      rw [ended]
      exact idle
    · rw [hit] at ended
      rw [ended]
      exact idle
    · rw [hit] at ended
      rw [ended]
      exact idle
  | some row =>
    rw [database_ok (told row hit).1]
    refine ⟨rfl, fun _ => shown, ?_, fun _ _ => rfl, ?_, ?_⟩
    · intro _ unknown
      cases unknown
    · intro new asked
      cases asked
    · intro sent wrote
      cases wrote

variable {finished : List Processed} {l : Leased} {rest : List Leased}

theorem World.Processing.move {new : World} {print : Option Footprint} {g : Footprint}
    (busy : w.Processing finished (l :: rest) print)
    (bt : new.Holds (finished.map Prod.fst ++ l :: rest))
    (past : ∀ entry ∈ finished, new.Working entry.1.candidate entry.2)
    (sink : new.sink = w.sink) (put : ∀ sent, g.put = some sent ↔
      ∃ f, print = some f ∧ f.put = some sent) (working : new.Working l.candidate g) :
    new.Processing finished (l :: rest) (some g) where
  batch := bt
  ended := past
  captured := by
    rw [sink]
    exact busy.captured
  current := by
    rintro _ _ _ ⟨⟩ ⟨⟩
    refine ⟨working, fun sent wrote => ?_⟩
    obtain ⟨f, saw, was⟩ := (put sent).mp wrote
    rw [sink]
    exact (busy.current l rest f rfl saw).2 sent was
  owned := by
    intro sent mem
    rw [sink] at mem
    rcases busy.owned sent mem with shut | ⟨_, _, f, eq, saw, wrote⟩
    · exact .inl shut
    · exact .inr ⟨l, rest, g, rfl, rfl, (put sent).mpr ⟨f, saw, wrote⟩⟩

theorem lookup_step (inv : w.Sound) (busy : w.Processing finished (l :: rest) none)
    (told : w.Answered pick (.consumer (.findEnrollment l.candidate.enrollmentID))) :
    (w.ran env pick (.findEnrollment l.candidate.enrollmentID)).Sound ∧ (w.ran env pick
        (.findEnrollment l.candidate.enrollmentID)).Processing finished (l :: rest)
        (some (Footprint.after { job := .process l.candidate }
          (.findEnrollment l.candidate.enrollmentID) (w.told env pick
            (.findEnrollment l.candidate.enrollmentID)))) := by
  have eq : w.ran env pick (.findEnrollment l.candidate.enrollmentID) = w := by
    unfold World.ran
    rw [execute_read _ _ _ rfl]
  rw [eq]
  refine ⟨inv, busy.move busy.batch busy.ended rfl ?_ (lookup_working l.candidate told)⟩
  intro sent
  rw [Footprint.after_findEnrollment]
  obtain ⟨_, _, read⟩ := Footprint.read_eq { job := .process l.candidate }
    (w.told env pick (.findEnrollment l.candidate.enrollmentID))
  rw [read]
  constructor
  · intro put
    cases put
  · rintro ⟨_, ⟨⟩, _⟩

theorem create_step (inv : w.Sound) (busy : w.Processing finished (l :: rest) (some f))
    (may : f.may c (.createEnrollment row)) : (w.ran env pick (.createEnrollment row)).Sound ∧
      (w.ran env pick (.createEnrollment row)).Processing finished
        (l :: rest) (some (f.after (.createEnrollment row)
          (w.told env pick (.createEnrollment row)))) := by
  have frame := execute_framed env.consumer pick w.base (.createEnrollment row)
  have xs := (frame.items (by rintro ⟨⟩)).1
  have res := (frame.results (by rintro ⟨⟩)).1
  obtain ⟨working, _⟩ := busy.current l rest f rfl rfl
  obtain ⟨move, apart⟩ := create_working working may
  have same : ∀ eid, eid ≠ l.candidate.enrollmentID →
      Alike w (w.ran env pick (.createEnrollment row))
        eid :=
    fun eid ne => ⟨apart eid ne, res⟩
  refine ⟨⟨by rw [xs]; exact inv.unique, ?_⟩, ?_⟩
  · intro eid
    by_cases own : eid = l.candidate.enrollmentID
    · right
      rw [World.queued_iff, xs]
      exact ⟨l.entry, busy.batch.queued l (by simp), own.symm⟩
    · rcases inv.kept eid with shown | queued
      · exact .inl ((same eid own).shown shown)
      · right
        rw [World.queued_iff, xs]
        exact World.queued_iff.mp queued
  · refine busy.move ⟨busy.batch.ids, busy.batch.names,
      by rw [xs]; exact busy.batch.queued⟩ ?_ rfl ?_ move
    · intro entry mem
      refine (same _ ?_).working (busy.ended entry mem)
      have names := busy.batch.names
      rw [map_append, nodup_append] at names
      exact names.2.2 _ (mem_map_of_mem (mem_map_of_mem mem)) _ (by simp)
    · intro sent
      rw [put_asked]
      simp

theorem frame_step (inv : w.Sound)
    (busy : w.Processing finished (l :: rest) (some f)) (may : f.may c stmt)
    (alt : ∀ row, stmt ≠ .createEnrollment row)
    (bare : stmt.writes ≠ some .results) : (w.ran env pick stmt).Sound ∧
      (w.ran env pick stmt).Processing finished (l :: rest)
        (some (f.after stmt (w.told env pick stmt))) := by
  obtain ⟨working, _⟩ := busy.current l rest f rfl rfl
  have calm : Undisturbed w (w.ran env pick stmt) := undisturbed_of_process may working.job alt bare
  have fits : w.Accords (.processing finished (l :: rest) (some f)) := busy
  have kept : (w.ran env pick stmt).Processing finished (l :: rest)
      (some f) := accords_of_undisturbed calm fits
  refine ⟨sound_of_undisturbed calm inv, ?_⟩
  refine busy.move kept.batch kept.ended calm.sink ?_ ?_
  · intro sent
    rw [put_after bare]
    simp
  · exact working_of_undisturbed calm (working_after working may alt bare)

theorem capture_step (busy : w.Processing finished (l :: rest) (some f))
    (may : f.may c (.putResult sent)) :
    World.Processing { w with sink := w.sink ++ [sent] } finished
      (l :: rest) (some (f.after (.putResult sent) (.ok ()))) := by
  obtain ⟨working, puts⟩ := busy.current l rest f rfl rfl
  obtain ⟨bare, own, out⟩ := may
  rw [working.job] at own out
  obtain ⟨_, row, put, st, _⟩ := out
  have same : ∀ eid, Alike w { w with sink := w.sink ++ [sent] } eid := fun _ => ⟨rfl, rfl⟩
  refine ⟨⟨busy.batch.ids, busy.batch.names, busy.batch.queued⟩, ?_, ?_, ?_, ?_⟩
  · intro entry mem
    exact (same _).working (busy.ended entry mem)
  · intro entry mem alt wrote
    exact mem_append_left _ (busy.captured entry mem alt wrote)
  · rintro _ _ _ ⟨⟩ ⟨⟩
    have eq := (same _).working working
    refine ⟨⟨eq.job, eq.shown, eq.fresh, eq.known, eq.inserted, ?_⟩, ?_⟩
    · rintro _ ⟨⟩
      exact ⟨own, row, put, st⟩
    · rintro _ ⟨⟩
      exact mem_append_right _ mem_cons_self
  · intro alt mem
    rcases mem_append.mp mem with was | last
    · rcases busy.owned alt was with shut | ⟨_, _, _, ⟨⟩, ⟨⟩, wrote⟩
      · exact .inl shut
      · rw [bare] at wrote
        cases wrote
    · cases mem_singleton.mp last
      exact .inr ⟨l, rest, _, rfl, rfl, rfl⟩

theorem processed_step (busy : w.Processing finished (l :: rest) (some f)) :
    w.Processing (finished ++ [(l, f)]) rest none := by
  obtain ⟨working, puts⟩ := busy.current l rest f rfl rfl
  refine ⟨?_, ?_, ?_, ?_, ?_⟩
  · have eq : (finished ++ [(l, f)]).map Prod.fst ++ rest =
        finished.map Prod.fst ++ l :: rest := by simp
    rw [eq]
    exact busy.batch
  · intro entry mem
    rcases mem_append.mp mem with was | last
    · exact busy.ended entry was
    · cases mem_singleton.mp last
      exact working
  · intro entry mem sent put
    rcases mem_append.mp mem with was | last
    · exact busy.captured entry was sent put
    · cases mem_singleton.mp last
      exact puts sent put
  · intro _ _ _ _ saw
    cases saw
  · intro sent mem
    left
    rcases busy.owned sent mem with ⟨entry, shut, put⟩ | ⟨_, _, _, ⟨⟩, ⟨⟩, put⟩
    · exact ⟨entry, mem_append_left _ shut, put⟩
    · exact ⟨(l, f), by simp, put⟩

theorem drain_step (busy : w.Processing finished [] print) :
    World.Shipping { w with sink := [] } finished w.sink [] [] where
  ids := by
    have ids := busy.batch.ids
    simpa [Function.comp_def] using ids
  ended := by
    intro entry mem
    have eq : Alike w { w with sink := [] }
        entry.1.candidate.enrollmentID := ⟨rfl, rfl⟩
    exact eq.working (busy.ended entry mem)
  drained := busy.captured
  fitting := by
    intro sent mem
    rcases busy.owned sent mem with ⟨entry, shut, put⟩ | ⟨_, _, _, ⟨⟩, _⟩
    exact (busy.ended entry shut).fitting put
  shown := by
    intro sent mem
    cases mem
  queued := by
    intro entry mem _
    exact busy.batch.queued entry.1 (by simpa using ⟨entry.2, mem⟩)

end

end Harbor.Collect
