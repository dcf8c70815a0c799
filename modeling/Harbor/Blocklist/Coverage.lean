import Harbor.Blocklist.Moves

/-!
# A version says what its bundles list

The list of a bundle is read after its version.  So a fingerprint that was on
the blocklist when a version started, and has been since, is in every bundle
with that version, provided that no bundle had the version before and the list
could be read.  A change that finds a rollout in flight starts no version: what
it adds may come after the lists that the version was converged on.
-/

namespace Harbor.Blocklist

open Function Library Option

def State.Carries (state : State) (version : Int) : Prop :=
  (∃ assembly host, state.assemblies assembly = .list host version) ∨
  (∃ assembly host bundle, state.assemblies assembly = .assembled host bundle ∧
      bundle.blocklistVersion = version) ∨
  ∃ host bundle, state.hosts host = some bundle ∧ bundle.blocklistVersion = version

structure Sound (state : State) : Prop where
  positive : ∀ id version, Published state.rollouts id version → 0 < version
  carried : ∀ version, state.Carries version →
    version = 0 ∨ ∃ id, Published state.rollouts id version

structure Complete (state : State) (version : Int) (fingerprint : String) : Prop where
  assembled : ∀ assembly host bundle, state.assemblies assembly = .assembled host bundle →
    bundle.blocklistVersion = version → fingerprint ∈ bundle.blocklist
  applied : ∀ host bundle, state.hosts host = some bundle →
    bundle.blocklistVersion = version → fingerprint ∈ bundle.blocklist

section

variable {s fin : State} {ev : Event}

theorem Sound.initial : Sound .initial where
  positive := by
    rintro id ver ⟨r, mem, _⟩
    cases mem
  carried := by
    rintro ver (⟨_, _, pos⟩ | ⟨_, _, _, pos, _⟩ | ⟨_, _, used, _⟩)
    · cases pos
    · cases pos
    · cases used

variable {ver : Int}

theorem carries_puts (had : (s.puts mk pos).Carries ver) :
    s.Carries ver ∨ (∃ h, pos = .list h ver) ∨
      ∃ h pack, pos = .assembled h pack ∧ pack.blocklistVersion = ver := by
  rcases had with ⟨alt, h, hit⟩ | ⟨alt, h, pack, hit, eq⟩ | applied
  · by_cases mine : alt = mk
    · subst alt
      simp only [State.puts, update_self] at hit
      exact .inr (.inl ⟨h, hit⟩)
    · simp only [State.puts, update_of_ne mine] at hit
      exact .inl (.inl ⟨alt, h, hit⟩)
  · by_cases mine : alt = mk
    · subst alt
      simp only [State.puts, update_self] at hit
      exact .inr (.inr ⟨h, pack, hit, eq⟩)
    · simp only [State.puts, update_of_ne mine] at hit
      exact .inl (.inr (.inl ⟨alt, h, pack, hit, eq⟩))
  · exact .inl (.inr (.inr applied))

theorem carries_move (move : Move s ev fin) (had : fin.Carries ver) : s.Carries ver ∨ ver = 0 ∨
      ver = s.rollouts.blocklistVersion := by
  cases move with
  | change me next rs _ went =>
    subst went
    exact .inl had
  | attempt me now f turn hs tgt _ _ went =>
    obtain ⟨db, out, eq⟩ := startRollout_comes s me turn hs tgt now f
    rw [went, eq] at had
    exact .inl had
  | engine db _ went =>
    subst went
    exact .inl had
  | versioned mk h read src went =>
    subst went
    rcases carries_puts had with old | ⟨_, eq⟩ | ⟨_, _, eq, _⟩
    · exact .inl old
    · cases eq
      exact .inr src
    · cases eq
  | listed mk h read f _ pos went =>
    subst went
    rcases carries_puts had with old | ⟨_, eq⟩ | ⟨_, _, eq, rfl⟩
    · exact .inl old
    · cases eq
    · cases eq
      exact .inl (.inl ⟨mk, h, pos⟩)
  | applied mk h pack pos went =>
    subst went
    rcases had with has | assembled | ⟨alt, held, hit, rfl⟩
    · exact .inl (.inl has)
    · exact .inl (.inr (.inl assembled))
    · by_cases mine : alt = h
      · subst alt
        simp only [State.apply, update_self, Option.some.injEq] at hit
        subst hit
        exact .inl (.inr (.inl ⟨mk, h, pack, pos, rfl⟩))
      · simp only [State.apply, update_of_ne mine] at hit
        exact .inl (.inr (.inr ⟨alt, held, hit, rfl⟩))
  | kept went =>
    subst went
    exact .inl had

theorem published_move (move : Move s ev fin) :
    (∀ id ver, Published fin.rollouts id ver ↔ Published s.rollouts id ver) ∨
    ∃ me now f turn hs tgt new, ev = .start me now f ∧ s.changes me = .start turn hs tgt ∧
      (∀ row ∈ s.rollouts.rollouts.rows, row.id < new) ∧
      ∀ id ver, Published fin.rollouts id ver ↔ Published s.rollouts id ver ∨
          id = new ∧ ver = tgt := by
  cases move with
  | attempt me now f turn hs tgt begun pos went =>
    subst went
    rcases published_startRollout s me turn hs tgt now f
      with kept | ⟨new, fresh, pub⟩
    · exact .inl kept
    · exact .inr ⟨me, now, f, turn, hs, tgt, new, begun, pos, fresh, pub⟩
  | engine db pub went =>
    subst went
    exact .inl pub
  | change _ _ _ _ went | versioned _ _ _ _ went | listed _ _ _ _ _ _ went
  | applied _ _ _ _ went | kept went =>
    subst went
    exact .inl fun _ _ => Iff.rfl

theorem published_mono (move : Move s ev fin) {id : Int}
    (pub : Published s.rollouts id ver) : Published fin.rollouts id ver := by
  rcases published_move move with eq | ⟨_, _, _, _, _, _, _, _, _, _, went⟩
  · exact (eq id ver).mpr pub
  · exact (went id ver).mpr (.inl pub)

theorem Sound.blocklistVersion_nonneg (inv : Sound s) : 0 ≤ s.rollouts.blocklistVersion := by
  rcases blocklistVersion_published s.rollouts with none | ⟨id, pub⟩
  · exact none.ge
  · exact (inv.positive id _ pub).le

theorem Sound.step (inv : Sound s) (all : Whole s ev) (move : Move s ev fin) : Sound fin where
  positive := by
    intro id ver pub
    rcases published_move move with eq | ⟨me, now, f, turn, hs, tgt, new, rfl, pos, _, went⟩
    · exact inv.positive id ver ((eq id ver).mp pub)
    · rcases (went id ver).mp pub with old | ⟨_, rfl⟩
      · exact inv.positive id ver old
      · simp only [Whole, pos] at all
        exact inv.blocklistVersion_nonneg.trans_lt all.2.1
  carried := by
    intro ver had
    rcases carries_move move had with old | rfl | rfl
    · rcases inv.carried ver old with zero | ⟨id, pub⟩
      · exact .inl zero
      · exact .inr ⟨id, published_mono move pub⟩
    · exact .inl rfl
    · rcases blocklistVersion_published s.rollouts with zero | ⟨id, pub⟩
      · exact .inl zero
      · exact .inr ⟨id, published_mono move pub⟩

theorem Complete.step {fp : String} (full : Complete s ver fp)
    (positive : ver ≠ 0) (has : s.Listed fp) (all : Whole s ev) (move : Move s ev fin) :
    Complete fin ver fp := by
  cases move with
  | change _ _ _ _ went | engine _ _ went | kept went =>
    subst went
    exact ⟨full.assembled, full.applied⟩
  | attempt me now f turn hs tgt _ _ went =>
    obtain ⟨db, out, eq⟩ := startRollout_comes s me turn hs tgt now f
    rw [went, eq]
    exact ⟨full.assembled, full.applied⟩
  | versioned mk h read src went =>
    subst went
    refine ⟨?_, full.applied⟩
    intro alt tgt pack hit eq
    by_cases mine : alt = mk
    · subst alt
      simp only [State.puts, update_self] at hit
      cases hit
    · simp only [State.puts, update_of_ne mine] at hit
      exact full.assembled alt tgt pack hit eq
  | listed mk h read f begun pos went =>
    subst went begun
    refine ⟨?_, full.applied⟩
    intro alt tgt pack hit eq
    by_cases mine : alt = mk
    · subst alt
      simp only [State.puts, update_self, Assembly.assembled.injEq] at hit
      obtain ⟨_, rfl⟩ := hit
      simp only [Whole, pos] at all
      have reads : f = .ok := by
        refine all.resolve_right ?_
        intro zero
        exact positive (eq.symm.trans zero)
      simp only [reads, if_true]
      exact Revocation.mem_activeFingerprints.mpr has
    · simp only [State.puts, update_of_ne mine] at hit
      exact full.assembled alt tgt pack hit eq
  | applied mk h pack pos went =>
    subst went
    refine ⟨full.assembled, ?_⟩
    intro alt held hit eq
    by_cases mine : alt = h
    · subst alt
      simp only [State.apply, update_self, Option.some.injEq] at hit
      subst hit
      exact full.assembled mk h pack pos eq
    · simp only [State.apply, update_of_ne mine] at hit
      exact full.applied alt held hit eq

theorem Sound.new_version (inv : Sound s) (all : Whole s ev)
    (move : Move s ev fin) {id : Int} (pub : Published fin.rollouts id ver)
    (fresh : ∀ row ∈ s.rollouts.rollouts.rows, row.id ≠ id) : 0 < ver ∧ ¬ fin.Carries ver := by
  have absent : ¬ Published s.rollouts id ver := by
    rintro ⟨row, mem, _, eq, _⟩
    exact fresh row mem eq
  rcases published_move move with eq | ⟨me, now, f, turn, hs, tgt, new, rfl, pos, _, went⟩
  · exact (absent ((eq id ver).mp pub)).elim
  · obtain ⟨_, rfl⟩ := ((went id ver).mp pub).resolve_left absent
    simp only [Whole, pos] at all
    have positive := inv.blocklistVersion_nonneg.trans_lt all.2.1
    refine ⟨positive, ?_⟩
    intro carried
    rcases carries_move move carried with old | zero | highest
    · rcases inv.carried ver old with zero | ⟨alt, seen⟩
      · exact positive.ne' zero
      · exact (seen.le_blocklistVersion.trans_lt all.2.1).false
    · exact positive.ne' zero
    · exact all.2.1.ne' highest

theorem complete_of_not_carries (none : ¬ s.Carries ver) (fp : String) : Complete s ver fp where
  assembled mk h pack hit eq :=
    (none (.inr (.inl ⟨mk, h, pack, hit, eq⟩))).elim
  applied h pack hit eq :=
    (none (.inr (.inr ⟨h, pack, hit, eq⟩))).elim

end

def Covered (known : Rollouts.Database) (version : Int) (state : State) :
    Prop :=
  ∃ id later, Published state.rollouts id later ∧ version < later ∧
    ∀ other, ¬ Published known id other

def Change.Follows (covered : Prop) : Change → Prop
  | .fleet _ | .version _ _ | .start _ _ _ => True
  | .ended outcome => outcome.attempted = true → covered
  | .idle | .lift _ _ _ => False

/-- What is known of a change since the versions were those of `known`. -/
structure Pursued (known : Rollouts.Database) (version : Int) (me : Nat)
    (state : State) : Prop where
  current : ∃ id, Published known id version
  kept : ∀ id version, Published known id version → Published state.rollouts id version
  follows : (state.changes me).Follows (Covered known version state)

section

variable {config : Config} {s after : State} {ev : Event}
  {known : Rollouts.Database} {ver : Int} {me : Nat}

theorem Covered.move (cov : Covered known ver s)
    (move : Move s ev after) : Covered known ver after := by
  obtain ⟨id, late, pub, gt, new⟩ := cov
  exact ⟨id, late, published_mono move pub, gt, new⟩

theorem Change.Follows.imp {ch : Change} {was late : Prop}
    (goes : ch.Follows was) (implies : was → late) :
    ch.Follows late := by
  cases ch with
  | idle | lift => exact goes
  | fleet | version | start => trivial
  | ended out => exact fun used => implies (goes used)

theorem Change.Follows.proceeds {ch next : Change} {was late : Prop}
    (follows : ch.Follows was) (goes : Proceeds ch next) :
    next.Follows late := by
  cases goes with
  | begins | lifts => exact follows.elim
  | reads | aims => trivial
  | fails =>
    intro used
    cases used

theorem comes_self (s : State) (me : Nat) (ch : Change) : (s.comes me ch).changes me = ch :=
  update_self ..

theorem comes_of_ne (s : State) (ne : alt ≠ me) (ch : Change) :
    (s.comes me ch).changes alt = s.changes alt :=
  update_of_ne ne ..

theorem step_add (ran : step config s (.add me addition turn f) = some after) :
    (∃ turn, after.changes me = .fleet turn) ∨ ∃ out, after.changes me = .ended out ∧
        out.attempted = false := by
  simp only [step] at ran
  split at ran
  · rw [Option.some.injEq] at ran
    obtain ⟨next, rs, move, pos⟩ := add_comes config s me addition turn f
    rw [ran.symm.trans move, comes_self]
    exact pos
  · cases ran

theorem changes_move (move : Move s ev after) (me : Nat) :
    after.changes me = s.changes me ∨ Proceeds (s.changes me) (after.changes me) ∨
      ∃ now f turn hs tgt, ev = .start me now f ∧ s.changes me = .start turn hs tgt ∧
        after = startRollout s me turn hs tgt now f := by
  cases move with
  | change alt next rs goes went =>
    subst went
    by_cases mine : me = alt
    · subst me
      rw [comes_self]
      exact .inr (.inl goes)
    · exact .inl (comes_of_ne _ mine _)
  | attempt alt now f turn hs tgt begun pos went =>
    by_cases mine : me = alt
    · subst me
      exact .inr (.inr ⟨now, f, turn, hs, tgt, begun, pos, went⟩)
    · obtain ⟨db, out, eq⟩ :=
        startRollout_comes s alt turn hs tgt now f
      rw [went, eq]
      exact .inl (comes_of_ne _ mine _)
  | engine _ _ went | versioned _ _ _ _ went | listed _ _ _ _ _ _ went
  | applied _ _ _ _ went | kept went =>
    subst went
    exact .inl rfl

theorem published_of_whole {turn : Attempt} {hs : List String}
    {tgt now : Int} {f : Fault} (all : Whole s (.start me now f))
    (pos : s.changes me = .start turn hs tgt) :
    ∃ new, (∀ row ∈ s.rollouts.rollouts.rows, row.id < new) ∧
      Published (startRollout s me turn hs tgt now f).rollouts new tgt := by
  simp only [Whole, pos] at all
  obtain ⟨exec, _, succeeds⟩ := all
  unfold startRollout
  rw [if_neg exec]
  cases went : s.rollouts.start (turn.config hs tgt) now with
  | error err =>
    rw [went] at succeeds
    cases succeeds
  | ok made =>
    obtain ⟨r, move⟩ := made
    obtain ⟨new, fresh, pub⟩ := published_start went
    exact ⟨new, fresh, (pub new tgt).mpr (.inr ⟨rfl, rfl, rfl⟩)⟩

theorem Pursued.step (chased : Pursued known ver me s) (all : Whole s ev) (move : Move s ev after) :
    Pursued known ver me after := by
  refine ⟨chased.current, fun id ver old =>
    published_mono move (chased.kept id ver old), ?_⟩
  rcases changes_move move me with eq | proceeds | ⟨now, f, turn, hs, tgt, rfl, pos, rfl⟩
  · rw [eq]
    exact chased.follows.imp (·.move move)
  · exact chased.follows.proceeds proceeds
  · obtain ⟨new, fresh, pub⟩ := published_of_whole all pos
    have covered : Covered known ver (startRollout s me turn hs tgt now f) := by
      obtain ⟨id, cur⟩ := chased.current
      simp only [Whole, pos] at all
      refine ⟨new, tgt, pub, (chased.kept id ver cur).le_blocklistVersion.trans_lt all.2.1, ?_⟩
      intro alt old
      obtain ⟨row, mem, _, eq, _⟩ := chased.kept new alt old
      exact (fresh row mem).ne eq
    obtain ⟨db, out, eq⟩ := startRollout_comes s me turn hs tgt now f
    have fin : (startRollout s me turn hs tgt now f).changes me = .ended out := by
      rw [eq, comes_self]
    rw [fin]
    exact fun _ => covered

end

def Completed (state : State) (r : Rollouts.Rollout) : Prop :=
  ∃ done ∈ state.rollouts.rollouts.rows, done.id = r.id ∧ done.state = .completed

/-- If the rollout completes and a host reports its version, the bundle of the
host lists what has been on the blocklist since the rollout started. -/
def VersionListed (config : Config) (allowed : State → Event → Prop)
    (started : State) (r : Rollouts.Rollout) : Prop :=
  ∀ fingerprint middle beat after finish, Reaches (step config) (fun state event =>
      allowed state event ∧ state.Listed fingerprint) started middle →
    middle.Listed fingerprint →
    allowed middle (.heartbeat beat) →
    step config middle (.heartbeat beat) = some after →
    beat.appliedBlocklistVersion = r.targetVersion →
    Reaches (step config) (fun state event =>
      allowed state event ∧ state.Listed fingerprint) after finish →
    finish.Listed fingerprint →
    Completed finish r →
    ∃ bundle, middle.hosts beat.overlayIP = some bundle ∧
      bundle.blocklistVersion = r.targetVersion ∧ fingerprint ∈ bundle.blocklist

/-- If the rollout completes, a fingerprint that was added while it was active
has a later version once its attempt has been made. -/
def AdditionsCovered (config : Config) (allowed : State → Event → Prop)
    (started : State) (r : Rollouts.Rollout) : Prop :=
  ∀ middle current me addition attempt fault added finish outcome,
    Reaches (step config) allowed started middle →
    current ∈ middle.rollouts.rollouts.rows → current.id = r.id → current.active = true →
    allowed middle (.add me addition attempt fault) →
    step config middle (.add me addition attempt fault) = some added →
    Reaches (step config) allowed added finish →
    finish.changes me = .ended outcome → outcome.attempted = true → Completed finish r →
    ∃ later ∈ finish.rollouts.rollouts.rows, later.lane = .blocklist ∧
      r.targetVersion < later.targetVersion ∧
      ∀ row ∈ middle.rollouts.rollouts.rows, row.lane = .blocklist → row.id ≠ later.id

section

variable {config : Config} {state started : State} {event : Event} {r : Rollouts.Rollout}

theorem sound_of_reaches (met : Reaches (step config) Whole .initial state) : Sound state :=
  met.invariant Sound .initial fun inv all ran =>
    inv.step all (step_move ran)

theorem versionListed_of_new (pos : 0 < r.targetVersion)
    (none : ¬ started.Carries r.targetVersion) :
    VersionListed config Whole started r := by
  intro fp mid b new finish met has _ ran reports
    _ _ _
  have full : Complete mid r.targetVersion fp :=
    met.invariant (Complete · r.targetVersion fp)
      (complete_of_not_carries none fp) fun full may ran =>
        full.step pos.ne' may.2 may.1 (step_move ran)
  simp only [step] at ran
  split_ifs at ran with honest
  rw [reports] at honest
  cases used : mid.hosts b.overlayIP with
  | none =>
    simp only [State.reported, used, map_none, getD_none] at honest
    exact (pos.ne' honest).elim
  | some pack =>
    simp only [State.reported, used, map_some, getD_some] at honest
    exact ⟨pack, rfl, honest.symm, full.applied b.overlayIP pack used honest.symm⟩

theorem additionsCovered_of_published (pub : Published started.rollouts r.id r.targetVersion) :
    AdditionsCovered config Whole started r := by
  intro mid cur me addition turn f ins finish out met
    _ _ _ _ ran rest past used _
  have cur : Published mid.rollouts r.id r.targetVersion :=
    met.invariant (Published ·.rollouts r.id r.targetVersion) pub
      fun pub _ ran => published_mono (step_move ran) pub
  have chased : Pursued mid.rollouts r.targetVersion me ins := by
    refine ⟨⟨r.id, cur⟩, fun id ver old =>
      published_mono (step_move ran) old, ?_⟩
    rcases step_add ran with ⟨_, pos⟩ | ⟨out, pos, unattempted⟩
    · rw [pos]
      trivial
    · rw [pos]
      intro used
      rw [unattempted] at used
      cases used
  have goes := (rest.invariant (Pursued mid.rollouts r.targetVersion me) chased
      fun chased all ran =>
      chased.step all (step_move ran)).follows
  rw [past] at goes
  obtain ⟨id, ver, ⟨late, mem, l, rfl, rfl⟩, gt, new⟩ := goes used
  refine ⟨late, mem, l, gt, ?_⟩
  intro row had ofLane eq
  exact new row.targetVersion ⟨row, had, ofLane, eq, rfl⟩

/-- In every whole run, a version says what the bundles with it list, and what
is added while its rollout is active has a version of its own. -/
theorem version_implies_content (reached : Reaches (step config) Whole .initial state)
    (whole : Whole state event) (taken : step config state event = some started)
    (member : r ∈ started.rollouts.rollouts.rows) (lane : r.lane = .blocklist)
    (fresh : ∀ row ∈ state.rollouts.rollouts.rows, row.id ≠ r.id) :
    VersionListed config Whole started r ∧
      AdditionsCovered config Whole started r := by
  have published : Published started.rollouts r.id r.targetVersion :=
    ⟨r, member, lane, rfl, rfl⟩
  obtain ⟨positive, none⟩ := (sound_of_reaches reached).new_version whole
    (step_move taken) published fresh
  exact ⟨versionListed_of_new positive none, additionsCovered_of_published published⟩

end

namespace Example

def config : Config where
  fold := .plain
  central _ := false

def ip : String :=
  "10.0.0.7"

def print (digit : Char) : String :=
  String.ofList (List.replicate 64 digit)

def attempt : Attempt :=
  blocklistChange 1 0 100 100

def addition (digit : Char) : Addition where
  fingerprint := print digit
  reason := ""
  actor := ""
  enrollments := .empty
  now := 1

def row (digit : Char) : Revocation.Row where
  fingerprint := print digit
  state := .active
  createdAt := 1
  updatedAt := 1

def fetches (list : Fault) : List Event :=
  [.readVersion 0 ip .ok, .readList 0 list, .fetch 0]

def beat (version : Int) : Rollouts.Beat where
  overlayIP := ip
  appliedBlocklistVersion := version
  lastSeen := 2

def evaluate : Event :=
  .engine (.evaluate .blocklist 3 fun _ => false)

def heard : State :=
  { State.initial with
    rollouts := { Rollouts.Database.empty with
      heartbeats := ⟨[beat 0], List.nodup_singleton _⟩ } }

def listed : State :=
  { heard with
    revocations := ⟨[row 'a'], List.nodup_singleton _⟩ }.comes 0
    (.fleet attempt)

def before : State :=
  (runEvents (step config) listed [.fleet 0 .ok, .version 0 .ok]).getD .initial

def started : State :=
  (step config before (.start 0 1 .ok)).getD .initial

def first : Rollouts.Rollout :=
  (attempt.config [ip] 1).rollout 1 1

def later (events : List Event) : State :=
  (runEvents (step config) started events).getD .initial

def reported (list : Fault) : State :=
  (step config (later (fetches list)) (.heartbeat (beat 1))).getD .initial

def completed (list : Fault) : State :=
  (runEvents (step config) (reported list) [evaluate]).getD .initial

def fetched : State :=
  later (fetches .ok)

def added : State :=
  { fetched with
    revocations := ⟨[row 'a', row 'b'], by decide⟩ }.comes 1
    (.fleet attempt)

def missed : List Event :=
  [.fleet 1 .ok, .version 1 .ok, .start 1 2 .ok, .heartbeat (beat 1), evaluate]

def uncovered : State :=
  (runEvents (step config) added missed).getD .initial

theorem step_addition (normal : Revocation.normFingerprint .plain (print digit) = print digit)
    (ok : Revocation.validFingerprint (print digit) = true) (idle : s.changes me = .idle)
    (shut : Revocation.addTx s.revocations (print digit) "" "" false 1 = .ok rs) :
    step config s (.add me (addition digit) turn .ok) =
      some ({ s with revocations := rs }.comes me (.fleet turn)) := by
  have ne : print digit ≠ "" := by
    intro empty
    rw [empty] at ok
    revert ok
    decide
  have adds : Revocation.add config.fold (addition digit).enrollments
      config.central s.revocations (addition digit).fingerprint
      (addition digit).reason (addition digit).actor (addition digit).now =
      .ok rs := by
    unfold Revocation.add
    simp only [config, addition, normal, ok, ne, if_false, Bool.not_true, Bool.false_eq_true]
    exact shut
  simp only [step, idle, Blocklist.add, adds]

theorem listed_reaches : Reaches (step config) Whole .initial listed := by
  have hears : step config .initial (.heartbeat (beat 0)) = some heard := rfl
  have adds : step config heard (.add 0 (addition 'a') attempt .ok) =
      some listed :=
    step_addition (by decide) (by decide) rfl rfl
  refine .tail (.tail .refl ?_ hears) ?_ adds
  · trivial
  · trivial

theorem before_reaches : Reaches (step config) Whole .initial before :=
  listed_reaches.trans (reaches_getD [Event.fleet 0 .ok, .version 0 .ok] State.initial (by decide))

end Example

open Example

theorem version_implies_content_one_host : ∃ bundle, (later (fetches .ok)).hosts ip = some bundle ∧
      print 'a' ∈ bundle.blocklist := by
  have taken : step config before (.start 0 1 .ok) = some started :=
    step_getD State.initial (by decide)
  have listed := (version_implies_content before_reaches (by decide) taken
    (show Example.first ∈ _ by decide) rfl (by decide)).1
  have first : Reaches (step config) (fun state event => Whole state event ∧
        state.Listed (print 'a')) started (later (fetches .ok)) :=
    reaches_getD (fetches .ok) State.initial (by decide)
  have rest : Reaches (step config) (fun state event => Whole state event ∧
        state.Listed (print 'a')) (reported .ok) (Example.completed .ok) :=
    reaches_getD [evaluate] State.initial (by decide)
  have beaten : step config (later (fetches .ok)) (.heartbeat (beat 1)) = some (reported .ok) :=
    step_getD State.initial (by decide)
  have completed : Completed (Example.completed .ok) Example.first := by
    unfold Completed
    decide
  obtain ⟨bundle, applied, _, lists⟩ := listed (print 'a') _ _ _ _
    first (by decide) trivial beaten rfl rest (by decide)
    completed
  exact ⟨bundle, applied, lists⟩

/-- The list cannot be read for one bundle, and the host reports its version;
and an addition finds the rollout in flight. -/
theorem version_without_content : (¬ ∀ (config : Config) (state started : State) (event : Event)
        (r : Rollouts.Rollout), Reachable (step config) .initial state →
      step config state event = some started →
      r ∈ started.rollouts.rollouts.rows → r.lane = .blocklist →
      (∀ row ∈ state.rollouts.rollouts.rows, row.id ≠ r.id) →
      VersionListed config (fun _ _ => True) started r) ∧
    ¬ ∀ (config : Config) (state started : State) (event : Event) (r : Rollouts.Rollout),
      Reachable (step config) .initial state → step config state event = some started →
      r ∈ started.rollouts.rollouts.rows → r.lane = .blocklist →
      (∀ row ∈ state.rollouts.rollouts.rows, row.id ≠ r.id) →
      AdditionsCovered config (fun _ _ => True) started r := by
  have reached : Reachable (step Example.config) .initial before :=
    before_reaches.imp fun _ => trivial
  have taken : step Example.config before (.start 0 1 .ok) = some Example.started :=
    step_getD State.initial (by decide)
  have member : Example.first ∈ Example.started.rollouts.rollouts.rows := by
    decide
  have fresh : ∀ row ∈ before.rollouts.rollouts.rows, row.id ≠ Example.first.id := by
    decide
  constructor
  · intro claim
    have listed := claim _ _ _ _ _ reached taken member rfl fresh
    have first : Reaches (step Example.config) (fun state _ => True ∧ state.Listed (print 'a'))
        Example.started (Example.later (fetches .failed)) :=
      reaches_getD (fetches .failed) State.initial (by decide)
    have rest : Reaches (step Example.config) (fun state _ => True ∧ state.Listed (print 'a'))
        (reported .failed) (Example.completed .failed) :=
      reaches_getD [evaluate] State.initial (by decide)
    have beaten : step Example.config (Example.later (fetches .failed))
        (.heartbeat (beat 1)) = some (reported .failed) :=
      step_getD State.initial (by decide)
    have completed : Completed (Example.completed .failed) Example.first := by
      unfold Completed
      decide
    obtain ⟨bundle, applied, _, lists⟩ := listed (print 'a') _ _ _ _
      first (by decide) trivial beaten rfl rest (by decide)
      completed
    have empty : (Example.later (fetches .failed)).hosts ip = some ⟨1, []⟩ := by
      decide
    rw [Option.some.inj (applied.symm.trans empty)] at lists
    exact List.not_mem_nil lists
  · intro claim
    have covered := claim _ _ _ _ _ reached taken member rfl fresh
    have first : Reachable (step Example.config) Example.started
        fetched :=
      reachable_getD (fetches .ok) State.initial (by decide)
    have adding : step Example.config fetched (.add 1 (addition 'b') attempt .ok) = some added :=
      step_addition (by decide) (by decide) rfl rfl
    have rest : Reachable (step Example.config) added
        uncovered :=
      reachable_getD missed State.initial (by decide)
    have active : Example.first ∈ fetched.rollouts.rollouts.rows := by
      decide
    have ended : uncovered.changes 1 = .ended .inFlight := by
      decide
    have completed : Completed uncovered Example.first := by
      unfold Completed
      decide
    obtain ⟨later, present, _, above, _⟩ := covered _ _ _ _ _ _ _ _ _ first
      active rfl rfl trivial adding rest ended rfl completed
    have highest : ∀ row ∈ uncovered.rollouts.rollouts.rows,
        row.targetVersion ≤ Example.first.targetVersion := by
      decide
    exact (highest later present).not_gt above

end Harbor.Blocklist
