import Harbor.Consumer.Leak
import Harbor.Consumer.Poll

/-!
# A candidate that is delivered again

`Process` records the nonce of a candidate before any step that can fail, and
`Drain` gives a candidate back to the queue after a failure.  The module follows
a candidate over any sequence of deliveries.  Until one of them has recorded the
nonce nothing at all has happened; from then on no delivery changes anything,
and one that is not disturbed returns the recorded row or reports a replay.
-/

namespace Harbor.Consumer

open Library Ipam Queue

section

def World.withQueue (world queue : World) : World :=
  { world with items := queue.items, acked := queue.acked }

def World.Alike (first second : World) : Prop :=
  first.withQueue second = second

variable {c : Config} {env : Env} {pick : Choice} {picks : Nat → Choice}
  {first second third w queue : World}

theorem World.alike_withQueue (w queue : World) : w.Alike (w.withQueue queue) := rfl

theorem World.Alike.symm (eq : first.Alike second) :
    second.Alike first := by
  unfold World.Alike at *
  rw [← eq]
  rfl

theorem World.Alike.trans (l : first.Alike second)
    (r : second.Alike third) : first.Alike third := by
  unfold World.Alike at *
  rw [← r, ← l]
  rfl

theorem database_withQueue {V : Type} (pick : Choice)
    {was new move : World} {val : V} (eq : move = new.withQueue queue) :
    pick.database (was.withQueue queue) val move = ((pick.database was val new).1,
        (pick.database was val new).2.withQueue queue) := by
  subst eq
  unfold Choice.database Fault.settle
  cases pick.fault <;> rfl

variable {stmt : Statement}

theorem execute_withQueue (env : Env) (pick : Choice) (w queue : World)
    (away : stmt.writes ≠ some .items) :
    execute env pick (w.withQueue queue) stmt = ((execute env pick w stmt).1,
        (execute env pick w stmt).2.withQueue queue) := by
  cases stmt with
  | claim _ _ | ackItem _ | nackItem _ => exact absurd rfl away
  | observe n =>
    have nonces : (w.withQueue queue).nonces = w.nonces := rfl
    simp only [execute, World.observe, nonces]
    split <;> exact database_withQueue pick rfl
  | createEnrollment row =>
    have rs : (w.withQueue queue).enrollments = w.enrollments := rfl
    simp only [execute, World.createEnrollment, rs]
    split
    · exact database_withQueue pick rfl
    · rfl
  | firstOrCreateDevice name made =>
    have devs : (w.withQueue queue).devices = w.devices := rfl
    simp only [execute, World.firstOrCreateDevice, devs]
    split
    · exact database_withQueue pick rfl
    · split
      · exact database_withQueue pick rfl
      · rfl
  | createAllocation row =>
    have allocs : (w.withQueue queue).allocations = w.allocations := rfl
    simp only [execute, World.createAllocation, allocs]
    split <;> cases pick.fault <;> rfl
  | _ =>
    first
    | rfl
    | exact database_withQueue pick rfl

theorem execute_alike (env : Env) (pick : Choice) (w : World)
    (queues : stmt.writes = some .items) : w.Alike (execute env pick w stmt).2 := by
  have rest := execute_framed env pick w stmt
  rw [queues] at rest
  obtain ⟨rows, joinKeys, nonces, devs, allocs, _, outs⟩ := rest
  generalize (execute env pick w stmt).2 = new at *
  cases new
  cases w
  simp_all [World.Alike, World.withQueue]

theorem writes_of_may {f : Footprint} (may : f.may c stmt) : stmt.writes ≠ some .items := by
  cases stmt with
  | claim _ _ | ackItem _ | nackItem _ => exact False.elim may
  | _ => nofun

theorem run_withQueue {V : Type} {p : Run V} {f : Footprint}
    {ends : Ends V} (goes : p.Follows (discipline c) f ends)
    (env : Env) (picks : Nat → Choice) (w queue : World) :
    p.run (execute env) picks (w.withQueue queue) = ((p.run (execute env) picks w).1,
        (p.run (execute env) picks w).2.withQueue queue) := by
  induction p generalizing f picks w with
  | done val => rfl
  | issue stmt rest ih =>
    unfold Procedure.run
    rw [execute_withQueue env _ w queue (writes_of_may goes.1)]
    exact ih _ (goes.2 _) _ _

theorem handle_run (c : Config) (env : Env) (lent : Leased) (picks : Nat → Choice) (w : World) :
    ((c.handle lent).run (execute env) picks w).1 =
        ((c.process lent.candidate).run (execute env) picks w).1 ∧ World.Alike
        ((c.process lent.candidate).run (execute env) picks w).2
        ((c.handle lent).run (execute env) picks w).2 := by
  unfold Config.handle
  rw [Procedure.run_bind]
  split
  · exact ⟨rfl, execute_alike env _ _ rfl⟩
  · exact ⟨rfl, execute_alike env _ _ rfl⟩

end

section

variable {c : Config} {env : Env} {pick : Choice} {cand : Candidate}
  {good : Verified} {init w : World} {f : Footprint}

def World.Recorded (world : World) (nonce : String) : Prop :=
  world.nonces.find nonce ≠ none

instance (world : World) (nonce : String) : Decidable (world.Recorded nonce) :=
  inferInstanceAs (Decidable (world.nonces.find nonce ≠ none))

theorem observe_cases (env : Env) (pick : Choice) (w : World) (n : String) :
    (∃ ans, w.observe pick env n = (ans, w) ∧ ans ≠ .ok true) ∨
    ∃ ans fin, w.observe pick env n = (ans, fin) ∧ ¬ w.Recorded n ∧ fin.Recorded n := by
  unfold World.observe
  split
  · rename_i nonces put
    obtain ⟨_, away⟩ := Table.insert?_eq_some put
    have new : ¬ w.Recorded n := fun seen => seen away
    have seen : World.Recorded { w with nonces := nonces } n := by
      unfold World.Recorded
      simp [Table.find_insert? put]
    rcases database_cases pick w true { w with nonces := nonces }
      with ended | ended | ended
    · exact .inr ⟨_, _, ended, new, seen⟩
    · exact .inl ⟨_, ended, by rintro ⟨⟩⟩
    · exact .inr ⟨_, _, ended, new, seen⟩
  · rcases database_cases pick w false w with ended | ended | ended
    · exact .inl ⟨_, ended, by rintro ⟨⟩⟩
    · exact .inl ⟨_, ended, by rintro ⟨⟩⟩
    · exact .inl ⟨_, ended, by rintro ⟨⟩⟩

/-- How far a call of `Process` has come: it has done nothing, or it was the
first to record the nonce. -/
structure Attempted (cand : Candidate) (nonce : String) (start world : World)
    (f : Footprint) : Prop where
  job : f.job = .process cand
  empty : f.spent = false → f.held = none ∧ f.inserted = none
  begun : world = start ∨ world.Recorded nonce ∧ ¬ start.Recorded nonce
  spent : f.spent = true → world.Recorded nonce ∧ ¬ start.Recorded nonce
  unused : f.used = false → world.joinKeys = start.joinKeys
  counted : ∀ id, world.joinKeys.usedCount id ≤ start.joinKeys.usedCount id + 1

namespace Attempted

theorem initial (cand : Candidate) (n : String) (init : World) :
    Attempted cand n init init { job := .process cand } where
  job := rfl
  empty := fun _ => ⟨rfl, rfl⟩
  begun := .inl rfl
  spent := nofun
  unused := fun _ => rfl
  counted := fun id => by omega

end Attempted

theorem entry_after (f : Footprint) (s : Statement) (ans : s.Answer) :
    (f.after s ans).job = f.job ∧ (s.writes ≠ some .nonces →
        (f.after s ans).spent = f.spent) ∧ (s.writes ≠ some .joinKeys →
        (f.after s ans).used = f.used) := by
  suffices eq : (f.learn s ans).job = f.job ∧ (s.writes ≠ some .nonces →
        (f.learn s ans).spent = f.spent) ∧ (s.writes ≠ some .joinKeys →
        (f.learn s ans).used = f.used) from eq
  unfold Footprint.learn
  split <;> first
    | exact ⟨rfl, fun _ => rfl, fun _ => rfl⟩
    | exact ⟨rfl, fun alt => absurd rfl alt, fun _ => rfl⟩
    | exact ⟨rfl, fun _ => rfl, fun alt => absurd rfl alt⟩
    | skip
  rename_i ans
  obtain ⟨_, _, eq⟩ := f.read_eq ans
  rw [eq]
  exact ⟨rfl, fun _ => rfl, fun _ => rfl⟩

namespace Attempted

variable {nonce : String} {stmt : Statement} (was : Attempted cand nonce init w f)
include was

theorem spent_of_writes (may : f.may c stmt) (puts : stmt.writes ≠ none)
    (new : stmt.writes ≠ some .nonces) : f.spent = true := by
  by_contra unspent
  rw [Bool.not_eq_true] at unspent
  obtain ⟨unheld, uninserted⟩ := was.empty unspent
  have went : ¬ f.Free := fun fr => by
    simp [fr.entered cand was.job] at unspent
  cases stmt with
  | observe _ => exact new rfl
  | consumeJoinKey _ _ | createEnrollment row => simp [may.1] at unspent
  | claimIssued _ _ =>
    obtain ⟨⟨_, job⟩, _⟩ := may
    simp [was.job] at job
  | claimDenied _ _ _ =>
    obtain ⟨⟨_, _, job⟩, _⟩ := may
    simp [was.job] at job
  | firstOrCreateDevice _ _ | purgeExpiredQuarantine => exact went may
  | createAllocation _ => exact went may.1
  | deleteAllocation _ | quarantineAllocation _ _ =>
    have held := may.1
    rw [unheld] at held
    cases held
  | putResult dlv =>
    obtain ⟨_, _, out⟩ := may
    simp only [was.job] at out
    obtain ⟨_, row, put, _⟩ := out
    simp [uninserted] at put
  | claim _ _ | ackItem _ | nackItem _ => exact may
  | _ => exact puts rfl

theorem keys (env : Env) (pick : Choice) (may : f.may c stmt) : ((f.after stmt
        (execute env pick w stmt).1).used = false →
      (execute env pick w stmt).2.joinKeys = init.joinKeys) ∧
    ∀ id, (execute env pick w stmt).2.joinKeys.usedCount id ≤ init.joinKeys.usedCount id + 1 := by
  by_cases uses : stmt.writes = some .joinKeys
  · cases stmt with
    | consumeJoinKey id cap =>
      obtain ⟨_, unused, _⟩ := may
      have eq := was.unused unused
      refine ⟨nofun, ?_⟩
      intro want
      rcases database_cases pick w (w.joinKeys.consume id cap).1
          { w with joinKeys := (w.joinKeys.consume id cap).2 }
        with ended | ended | ended
      all_goals
        have ans : execute env pick w (.consumeJoinKey id cap) =
          _ := ended
        rw [ans]
      · rw [← eq]
        exact JoinKeys.usedCount_consume_le _ _ _ _
      · exact was.counted want
      · rw [← eq]
        exact JoinKeys.usedCount_consume_le _ _ _ _
    | _ => cases uses
  · rw [(execute_framed env pick w stmt).joinKeys uses, (entry_after f stmt _).2.2 uses]
    exact ⟨was.unused, was.counted⟩

theorem proceed (may : f.may c stmt) (spent : f.spent = true)
    (unobserved : stmt.writes ≠ some .nonces) :
    Attempted cand nonce init (execute env pick w stmt).2
      (f.after stmt (execute env pick w stmt).1) := by
  obtain ⟨job, still, _⟩ := entry_after f stmt (execute env pick w stmt).1
  obtain ⟨rec, fst⟩ := was.spent spent
  have seen : (execute env pick w stmt).2.Recorded nonce := by
    unfold World.Recorded
    rw [(execute_framed env pick w stmt).nonces unobserved]
    exact rec
  exact
    { job := job.trans was.job
      empty := by
        rw [still unobserved, spent]
        nofun
      begun := .inr ⟨seen, fst⟩
      spent := fun _ => ⟨seen, fst⟩
      unused := (was.keys env pick may).1
      counted := (was.keys env pick may).2 }

theorem read (may : f.may c stmt) (reads : stmt.writes = none) :
    Attempted cand nonce init (execute env pick w stmt).2
      (f.after stmt (execute env pick w stmt).1) := by
  obtain ⟨job, still, _⟩ := entry_after f stmt (execute env pick w stmt).1
  have unobserved : stmt.writes ≠ some .nonces := by
    rw [reads]
    nofun
  have l := sameLease_after (f := f) (by rw [reads]; nofun)
    (by rw [reads]; nofun) (execute env pick w stmt).1
  have keys := was.keys env pick may
  rw [execute_read env pick w reads] at keys ⊢
  exact
    { job := job.trans was.job
      empty := by
        rw [still unobserved, l.held, l.inserted]
        exact was.empty
      begun := was.begun
      spent := by
        rw [still unobserved]
        exact was.spent
      unused := keys.1
      counted := keys.2 }

theorem observe {want : String} (ok : c.checkRequest cand = .ok good)
    (own : nonce = good.req.nonce) (may : f.may c (.observe want)) :
    Attempted cand nonce init (execute env pick w (.observe want)).2
      (f.after (.observe want) (execute env pick w (.observe want)).1) := by
  have keys := was.keys env pick may
  obtain ⟨tidy, _, _, job, test, eq⟩ := may
  rw [was.job] at job
  cases job
  rw [ok] at test
  cases test
  rw [← own] at eq
  subst eq
  rcases observe_cases env pick w want with
    ⟨ans, past, alt⟩ | ⟨ans, new, past, unseen, seen⟩
  all_goals
    have res : execute env pick w (.observe want) = _ := past
    rw [res] at keys ⊢
  · have stay : f.after (.observe want) ans = f := by
      match ans, alt with
      | .error _, _ => rfl
      | .ok false, _ => rfl
      | .ok true, alt => exact absurd rfl alt
    rw [stay]
    exact was
  · have fst : ¬ init.Recorded want := by
      rcases was.begun with eq | ⟨already, _⟩
      · rw [← eq]
        exact unseen
      · exact absurd already unseen
    obtain ⟨job, _, _⟩ := entry_after f (.observe want) ans
    exact
      { job := job.trans was.job
        empty := by
          intro _
          rw [tidy]
          match ans with
          | .error _ | .ok false | .ok true => exact ⟨rfl, rfl⟩
        begun := .inr ⟨seen, fst⟩
        spent := fun _ => ⟨seen, fst⟩
        unused := keys.1
        counted := keys.2 }

theorem execute (ok : c.checkRequest cand = .ok good)
    (own : nonce = good.req.nonce) (may : f.may c stmt) :
    Attempted cand nonce init (execute env pick w stmt).2
      (f.after stmt (execute env pick w stmt).1) := by
  by_cases read : stmt.writes = none
  · exact was.read may read
  · by_cases sees : stmt.writes = some .nonces
    · cases stmt with
      | observe want => exact was.observe ok own may
      | _ => cases sees
    · exact was.proceed may (was.spent_of_writes may read sees) sees

end Attempted

theorem process_attempted (ok : c.checkRequest cand = .ok good)
    (env : Env) (sel : Nat → Choice) (init : World) : ∃ last, Attempted cand good.req.nonce init
      ((c.process cand).run (execute env) sel init).2 last := by
  have kept : ∀ idx w (f : Footprint) s, f.may c s →
      Attempted cand good.req.nonce init w f → Attempted cand good.req.nonce init
        (execute env (sel idx) w s).2 (f.after s (execute env (sel idx) w s).1) :=
    fun _ _ _ _ may was => was.execute ok rfl may
  exact ⟨_, (Procedure.run_follows (Attempted cand good.req.nonce init) process_follows
    (.initial cand good.req.nonce init) kept).2⟩

def Config.repeated (cand : Candidate) (world : World) :
    Except Error Result :=
  match world.enrollments.find cand.enrollmentID with
  | some row => .ok
      { enrollmentID := cand.enrollmentID
        status := row.status
        overlayIP := row.overlayIP
        certPEM := row.certPEM }
  | none => .error .replay

section

variable {picks : Nat → Choice} (faultless : ∀ index, (picks index).fault = .ok)
include faultless

omit faultless in
theorem run_clock {V : Type} (next : Int → Run V) :
    (clock >>= next).run (execute env) picks w = (next (picks 0).now).run (execute env)
        (fun idx => picks (idx + 1)) w := rfl

theorem existing_run (eid : String) : (Config.existing eid).run (execute env) picks w =
      ((w.enrollments.find eid).map fun row =>
        { enrollmentID := eid
          status := row.status
          overlayIP := row.overlayIP
          certPEM := row.certPEM }, w) := by
  have read : execute env (picks 0) w (.findEnrollment eid) = (.ok (w.enrollments.find eid), w) :=
    database_ok (faultless 0) w _ w
  cases hit : w.enrollments.find eid with
  | none | some row =>
    rw [hit] at read
    simp [Config.existing, send, Procedure.request, Procedure.run, read]

variable (valid : c.checkRequest cand = .ok good)
  (lifetime : ∀ index, c.codec.verifyNonce good.req.nonce
    (c.codec.pubkeyHash good.pubBytes) (picks index).now = .ok ())
  (recorded : w.Recorded good.req.nonce)
include valid lifetime recorded

theorem verify_repeated : (c.verify cand).run (execute env) picks w = (.error .replay, w) := by
  have observed : execute env (picks 1) w (.observe good.req.nonce) = (.ok false, w) := by
    change w.observe (picks 1) env good.req.nonce = _
    unfold World.observe
    split
    · rename_i put
      exact absurd (Table.insert?_eq_some put).2 recorded
    · exact database_ok (faultless 1) w false w
  unfold Config.verify
  rw [valid]
  dsimp only
  rw [run_clock, lifetime 0]
  simp [send, Procedure.request, Procedure.run, observed]

theorem process_repeated : ((c.process cand).run (execute env) picks w).1 =
      Config.repeated cand w := by
  unfold Config.process Config.repeated
  rw [Procedure.run_bind, existing_run faultless]
  cases w.enrollments.find cand.enrollmentID with
  | some row => rfl
  | none =>
    simp only [Option.map_none]
    rw [Procedure.run_bind, verify_repeated (fun _ => faultless _) valid
      (fun _ => lifetime _) recorded]
    rfl

end

end

section

variable {c : Config} {env : Env} {leased : Leased} {verified : Verified} {init world : World}

def Config.redeliver (c : Config) (env : Env) (leased : Leased) :
    World → List (Nat → Choice) → World :=
  List.foldl fun world choices =>
    ((c.handle leased).run (execute env) choices world).2

inductive Redelivered (nonce : String) (start world : World) : Prop where
  | alike : start.Alike world → Redelivered nonce start world
  | recorded : ¬ start.Recorded nonce → world.Recorded nonce →
      (∀ id, world.joinKeys.usedCount id ≤ start.joinKeys.usedCount id + 1) →
      Redelivered nonce start world

theorem World.Alike.nonces (eq : init.Alike world) : world.nonces = init.nonces :=
  (congrArg World.nonces eq).symm

theorem World.Alike.joinKeys (eq : init.Alike world) : world.joinKeys = init.joinKeys :=
  (congrArg World.joinKeys eq).symm

theorem World.Alike.recorded_iff (eq : init.Alike world)
    (n : String) : world.Recorded n ↔ init.Recorded n := by
  unfold World.Recorded
  rw [eq.nonces]

section

variable (valid : c.checkRequest leased.candidate = .ok verified)
include valid

theorem handle_recorded (env : Env) (sel : Nat → Choice)
    (rec : world.Recorded verified.req.nonce) :
    world.Alike ((c.handle leased).run (execute env) sel world).2 := by
  obtain ⟨_, used⟩ := process_attempted valid env sel world
  have stay := used.begun.resolve_right fun alt =>
    alt.2 rec
  have eq := (handle_run c env leased sel world).2
  rw [stay] at eq
  exact eq

omit valid in
theorem handle_alike (sel : Nat → Choice) (same : init.Alike world) :
    ((c.handle leased).run (execute env) sel world).1 =
        ((c.handle leased).run (execute env) sel init).1 ∧
      World.Alike ((c.handle leased).run (execute env) sel init).2
        ((c.handle leased).run (execute env) sel world).2 := by
  obtain ⟨val, new⟩ := handle_run c env leased sel init
  obtain ⟨alt, move⟩ := handle_run c env leased sel world
  have goes : (c.process leased.candidate).Follows (discipline c) _ _ := process_follows
  have eq := run_withQueue goes env sel init world
  rw [same] at eq
  rw [eq] at alt move
  refine ⟨alt.trans val.symm, new.symm.trans ?_⟩
  exact (World.alike_withQueue _ world).trans move

theorem Redelivered.deliver (was : Redelivered verified.req.nonce init world)
    (sel : Nat → Choice) : Redelivered verified.req.nonce init
      ((c.handle leased).run (execute env) sel world).2 := by
  cases was with
  | recorded fst seen sum =>
    have eq := handle_recorded valid env sel seen
    refine .recorded fst ((eq.recorded_iff _).mpr seen) ?_
    rw [eq.joinKeys]
    exact sum
  | alike eq =>
    have past := (handle_run c env leased sel init).2.trans (handle_alike sel eq).2
    obtain ⟨_, used⟩ := process_attempted valid env sel init
    rcases used.begun with stay | ⟨seen, fst⟩
    · rw [stay] at past
      exact .alike past
    · refine .recorded fst ((past.recorded_iff _).mpr seen) ?_
      rw [past.joinKeys]
      exact used.counted

theorem redelivered (env : Env) (init : World) (deliveries : List (Nat → Choice)) :
    Redelivered verified.req.nonce init (c.redeliver env leased init deliveries) := by
  suffices continued : ∀ world, Redelivered verified.req.nonce init world →
      Redelivered verified.req.nonce init (c.redeliver env leased world deliveries) from
    continued init (.alike rfl)
  induction deliveries with
  | nil => exact fun _ was => was
  | cons sel rest ih =>
    intro world was
    exact ih _ (was.deliver valid sel)

end

end

namespace Example

def leased : Leased where
  id := 1
  candidate := candidate
  attempts := 1

def verified : Verified where
  req := { nonce := "n", method := "token", requestedName := "host" }
  pubBytes := List.replicate 65 0

/-- The nonce's INSERT fails. -/
def unobserved : Nat → Choice :=
  failsAt 2

/-- The SELECT of the join key fails. -/
def unreadKey : Nat → Choice :=
  failsAt 4

def undisturbed : Nat → Choice :=
  fun _ => {}

end Example

open Example

end Harbor.Consumer
