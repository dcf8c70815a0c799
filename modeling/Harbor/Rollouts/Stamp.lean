import Harbor.Rollouts.Safety

/-!
# Commands and stamps

What Core answers a heartbeat with, and the lane versions of the bundle it
assembles for the same host.  A command is obeyed by fetching that bundle, so
the two should name the same generation.  They do unless the command comes from
a completed policy rollout, from a blocklist rollout below an earlier one, from
a release generation the registry cannot serve, or from a floor that is not the
generation a stopped rollout falls back to.
-/

namespace Harbor.Rollouts

open Library Option List

structure Artifact where
  version : String := ""
  sha256 : String := ""
  url : String := ""
deriving DecidableEq, Repr

/-- `Lookup`: the artifact of a generation for an operating system and an
architecture. -/
abbrev ReleaseSource :=
  Int → String → String → Option Artifact

structure Core where
  nebulaReleases : Option ReleaseSource := none
  pilotReleases : Option ReleaseSource := none
  staticNebula : Artifact := {}
  staticPilot : Artifact := {}

def Core.releases (core : Core) : Lane → Option ReleaseSource
  | .nebula => core.nebulaReleases
  | .pilot => core.pilotReleases
  | .policy | .blocklist => none

structure Caller where
  overlayIP : String
  goos : String := "linux"
  goarch : String := "amd64"

inductive Command where
  | renew
  | applyBundle (lane : Lane) (version : Int)
deriving DecidableEq, Repr

section

variable (core : Core) (db : Database) (caller : Caller)

/-- The lane's part of `floorReconcile`. -/
def floorCommand (lane : Lane) (reported : Int) : Option Int :=
  match core.releases lane with
  | none => none
  | some lookup =>
    (db.floorCatchupGen lane reported).filter fun gen =>
      (lookup gen caller.goos caller.goarch).isSome

def floorReconcile (reported : Lane → Int) : Option Command :=
  match floorCommand core db caller .nebula (reported .nebula) with
  | some gen => some (.applyBundle .nebula gen)
  | none =>
    (floorCommand core db caller .pilot (reported .pilot)).map (.applyBundle .pilot)

/-- The one `apply_bundle` of a heartbeat. -/
def applyBundle (reported : Lane → Int) : Option Command :=
  match lanes.findSome? fun lane =>
      (db.commandForLane lane caller.overlayIP (reported lane)).map (.applyBundle lane) with
  | some command => some command
  | none => floorReconcile core db caller reported

/-- `commandsFor`; `renew` says whether one of the renewal triggers fired. -/
def commandsFor (renew : Bool) (reported : Lane → Int) : List Command :=
  (if renew then [.renew] else []) ++ (applyBundle core db caller reported).toList

end

/-- How `nebulaRelease` and `pilotRelease` choose the tuple they stamp. -/
inductive Stamp where
  | static (artifact : Artifact)
  | unpinned
  | generation (gen : Int) (artifact : Artifact)
  | unserved (gen : Int)
deriving DecidableEq, Repr

def Stamp.Carries : Stamp → Int → Prop
  | .unpinned, version => version = 0
  | .generation gen _, version => gen = version
  | .static _, _ | .unserved _, _ => False

structure Bundle where
  bundleVersion : Int
  blocklistVersion : Int
  nebula : Stamp
  pilot : Stamp
deriving DecidableEq, Repr

def Bundle.Carries (bundle : Bundle) : Lane → Int → Prop
  | .policy, version => bundle.bundleVersion = version
  | .blocklist, version => bundle.blocklistVersion = version
  | .nebula, version => bundle.nebula.Carries version
  | .pilot, version => bundle.pilot.Carries version

section

variable (core : Core) (db : Database) (caller : Caller)

def releaseFor (lane : Lane) (static : Artifact) : Stamp :=
  match core.releases lane with
  | none => .static static
  | some lookup =>
    match db.genForLane lane caller.overlayIP with
    | none => .static static
    | some gen =>
      if gen = 0 then .unpinned
      else
        match lookup gen caller.goos caller.goarch with
        | some artifact => .generation gen artifact
        | none => .unserved gen

def nebulaRelease : Stamp :=
  releaseFor core db caller .nebula core.staticNebula

def pilotRelease : Stamp :=
  releaseFor core db caller .pilot core.staticPilot

def assembleBundle : Bundle where
  bundleVersion := (db.versionFor caller.overlayIP).getD 1
  blocklistVersion := db.blocklistVersion
  nebula := nebulaRelease core db caller
  pilot := pilotRelease core db caller

end

def Database.Member (db : Database) (r : Rollout) (ip : String) : Prop :=
  ∃ wave, db.Placed r.id ip wave

def Database.Touched (db : Database) (r : Rollout) (ip : String) : Prop :=
  ∃ wave, db.Placed r.id ip wave ∧ wave ≤ r.activeWave

def Database.Drives (db : Database) (r : Rollout) (ip : String) (version : Int) : Prop :=
  r.active = true ∧ db.Touched r ip ∧ version = r.targetVersion ∨
  r.state = .completed ∧ db.Member r ip ∧ version = r.targetVersion ∨
  r.state = .rolledBack ∧ r.lane ≠ .blocklist ∧ db.Touched r ip ∧ version = r.prevVersion

section

variable {db : Database} {r : Rollout} {ip : String} {lane : Lane}

theorem member_iff : db.Member r ip ↔ ∃ h, db.host r ip = some h := by
  unfold Database.Member
  simp only [← host_wave_eq_iff, map_eq_some_iff]
  constructor
  · rintro ⟨_, h, hit, _⟩
    exact ⟨h, hit⟩
  · rintro ⟨h, hit⟩
    exact ⟨h.wave, h, hit, rfl⟩

theorem touched_iff : db.Touched r ip ↔ ∃ h, db.host r ip = some h ∧ h.wave ≤ r.activeWave := by
  unfold Database.Touched
  simp only [← host_wave_eq_iff, map_eq_some_iff]
  constructor
  · rintro ⟨_, ⟨h, hit, rfl⟩, cap⟩
    exact ⟨h, hit, cap⟩
  · rintro ⟨h, hit, cap⟩
    exact ⟨h.wave, ⟨h, hit, rfl⟩, cap⟩

theorem Database.Drives.unique
    (runs : db.Drives r ip ver) (also : db.Drives r ip alt) : alt = ver := by
  unfold Database.Drives at runs also
  rcases runs with ⟨live, _, rfl⟩ | ⟨st, _, rfl⟩ | ⟨st, _, _, rfl⟩ <;>
    rcases also with ⟨live', _, eq⟩ | ⟨state', _, eq⟩ |
      ⟨state', _, _, eq⟩ <;> simp_all [Rollout.active]

theorem commandForLane_eq_some_iff : db.commandForLane lane ip said = some ver ↔
      ∃ r, db.current lane = some r ∧ db.Drives r ip ver ∧ said ≠ ver := by
  unfold Database.commandForLane
  cases hit : db.current lane with
  | none => simp
  | some r =>
    obtain ⟨_, rfl, _⟩ := current_eq_some_iff.mp hit
    simp only [Option.some.injEq, exists_eq_left', Database.Drives,
      member_iff, touched_iff, Rollout.active, Bool.or_eq_true, beq_iff_eq]
    cases got : db.host r ip with
    | none => simp
    | some h =>
      cases st : r.state with
      | aborted => simp
      | canary | widening | completed | rolledBack =>
        dsimp only
        grind

theorem commandForLane_eq_none (mute : ∀ r ver, db.current lane = some r →
      db.Drives r ip ver → said = ver) : db.commandForLane lane ip said = none := by
  rw [eq_none_iff_forall_ne_some]
  intro ver told
  obtain ⟨r, hit, runs, past⟩ := Iff.mp commandForLane_eq_some_iff told
  exact past (mute r ver hit runs)

theorem exists_silent (db : Database) (lane : Lane) (ip : String) :
    ∃ said, db.commandForLane lane ip said = none := by
  by_cases driven : ∃ r ver, db.current lane = some r ∧ db.Drives r ip ver
  · obtain ⟨r, ver, hit, runs⟩ := driven
    refine ⟨ver, commandForLane_eq_none ?_⟩
    intro alt want also wants
    rw [hit, Option.some.injEq] at also
    subst also
    exact (runs.unique wants).symm
  · refine ⟨0, commandForLane_eq_none ?_⟩
    intro r ver hit runs
    exact absurd ⟨r, ver, hit, runs⟩ driven

end

section

variable {core : Core} {db : Database} {who : Caller} {lane : Lane}

def Serves (core : Core) (caller : Caller) (lane : Lane) (gen : Int) : Prop :=
  ∃ lookup, core.releases lane = some lookup ∧
    (gen = 0 ∨ (lookup gen caller.goos caller.goarch).isSome = true)

def Database.floor (db : Database) (lane : Lane) : Option Rollout :=
  db.rollouts.latest fun r => r.lane == lane && r.state == .completed

variable {f : Rollout}

theorem floor_eq_some_iff : db.floor lane = some f ↔
      f ∈ db.rollouts.rows ∧ (f.lane = lane ∧ f.state = .completed) ∧ ∀ alt ∈ db.rollouts.rows,
          alt.lane = lane ∧ alt.state = .completed → alt.id ≤ f.id := by
  unfold Database.floor
  rw [Table.latest_eq_some_iff]
  simp

theorem floorCommand_eq_some_iff : floorCommand core db who lane said = some gen ↔
      (∀ r, db.current lane = some r → r.active = false) ∧
        (∃ f, db.floor lane = some f ∧ f.targetVersion = gen) ∧
        gen ≠ 0 ∧ said < gen ∧ Serves core who lane gen := by
  unfold floorCommand Serves Database.floorCatchupGen Database.currentCompletedGen
  change _ ↔ _ ∧ (∃ f, db.rollouts.latest _ = some f ∧ _) ∧ _
  cases src : core.releases lane with
  | none => simp
  | some lookup =>
    cases hit : db.current lane <;>
      cases full : db.rollouts.latest (fun r => r.lane == lane && r.state == .completed) <;>
      simp [filter_eq_some_iff] <;> grind

variable {r : Rollout}

theorem floor_of_completed (hit : db.current lane = some r)
    (full : r.state = .completed) (lo : db.floor lane = some f) : f = r := by
  obtain ⟨mem, ofLane, most⟩ := current_eq_some_iff.mp hit
  obtain ⟨had, ⟨ls, _⟩, latest⟩ := floor_eq_some_iff.mp lo
  exact db.rollouts.row_eq_of_key_eq had mem (le_antisymm (most f had ls)
      (latest r mem ⟨ofLane, full⟩))

theorem current_of_floor (lo : db.floor lane = some f) : ∃ r, db.current lane = some r := by
  obtain ⟨had, ⟨ls, _⟩, _⟩ := floor_eq_some_iff.mp lo
  cases hit : db.current lane with
  | some r => exact ⟨r, rfl⟩
  | none =>
    have empty := argmax_eq_none.mp hit
    have mem : f ∈ db.rollouts.rows.filter fun r => r.lane == lane :=
      mem_filter.mpr ⟨had, by simp [ls]⟩
    rw [empty] at mem
    cases mem

def Issues (core : Core) (db : Database) (caller : Caller) (lane : Lane)
    (reported version : Int) : Prop :=
  db.commandForLane lane caller.overlayIP reported = some version ∨
  db.commandForLane lane caller.overlayIP reported = none ∧
    floorCommand core db caller lane reported = some version

def LaneAgrees (core : Core) (db : Database) (caller : Caller) (lane : Lane) :
    Prop :=
  ∀ reported version, Issues core db caller lane reported version →
    (assembleBundle core db caller).Carries lane version

def PolicySettled (db : Database) (ip : String) : Prop :=
  ∀ r, db.current .policy = some r → r.state = .completed →
    db.Member r ip → r.targetVersion = r.prevVersion

def BlocklistSettled (db : Database) (ip : String) : Prop :=
  ∀ r version, db.current .blocklist = some r → db.Drives r ip version →
    ∀ other ∈ db.rollouts.rows, other.lane = .blocklist → other.targetVersion ≤ version

/-- The host can be served what it is driven to, and after a stopped rollout
the floor is what the lane falls back to; a touched host may also be ahead of
the floor. -/
def ReleaseSettled (core : Core) (db : Database) (caller : Caller) (lane : Lane) : Prop :=
  (∀ r version, db.current lane = some r →
    db.Drives r caller.overlayIP version → Serves core caller lane version) ∧
  ∀ r f, db.current lane = some r →
    r.state = .rolledBack ∨ r.state = .aborted → db.floor lane = some f →
    f.targetVersion ≠ 0 → Serves core caller lane f.targetVersion →
    f.targetVersion = r.prevVersion ∨ r.state = .rolledBack ∧ db.Touched r caller.overlayIP ∧
        f.targetVersion < r.prevVersion

theorem no_floor_of_releases_eq_none (none : core.releases lane = none) :
    floorCommand core db who lane said ≠ some gen := by
  simp [floorCommand, none]

theorem policy_agrees_iff : LaneAgrees core db who .policy ↔ PolicySettled db who.overlayIP := by
  have had : ∀ {ver : Int}, (assembleBundle core db who).Carries .policy ver ↔
        (db.versionFor who.overlayIP).getD 1 = ver := Iff.rfl
  constructor
  · intro agrees r hit full mem
    have runs : db.Drives r who.overlayIP r.targetVersion := .inr (.inl ⟨full, mem, rfl⟩)
    have mark := agrees (r.targetVersion + 1) r.targetVersion
      (.inl (Iff.mpr commandForLane_eq_some_iff ⟨r, hit, runs, by omega⟩))
    rw [had] at mark
    unfold Database.versionFor at mark
    rw [hit] at mark
    obtain ⟨h, got⟩ := member_iff.mp mem
    simp [got, Rollout.active, full] at mark
    exact mark.symm
  · rintro fix said ver (told | ⟨_, lo⟩)
    · obtain ⟨r, hit, runs, _⟩ := Iff.mp commandForLane_eq_some_iff told
      rw [had]
      unfold Database.versionFor
      rw [hit]
      rcases runs with ⟨live, touched, rfl⟩ | ⟨full, mem, rfl⟩ | ⟨halt, _, touched, rfl⟩
      · obtain ⟨h, got, cap⟩ := touched_iff.mp touched
        simp [got, live, cap]
      · obtain ⟨h, got⟩ := member_iff.mp mem
        simp [got, Rollout.active, full, fix r hit full mem]
      · obtain ⟨h, got, cap⟩ := touched_iff.mp touched
        simp [got, Rollout.active, halt]
    · exact absurd lo (no_floor_of_releases_eq_none rfl)

theorem blocklistVersion_eq_iff (mem : r ∈ db.rollouts.rows)
    (ofLane : r.lane = .blocklist) : db.blocklistVersion = r.targetVersion ↔
      ∀ alt ∈ db.rollouts.rows, alt.lane = .blocklist → alt.targetVersion ≤ r.targetVersion := by
  obtain ⟨lt, top, had, lane, highest⟩ := blocklistVersion_spec mem ofLane
  constructor
  · intro eq alt memO ls
    rw [← eq]
    exact (blocklistVersion_spec memO ls).1
  · intro most
    exact le_antisymm (highest ▸ most top had lane) lt

theorem drives_blocklist (ofLane : r.lane = .blocklist) (runs : db.Drives r ip ver) :
    ver = r.targetVersion := by
  rcases runs with ⟨_, _, eq⟩ | ⟨_, _, eq⟩ | ⟨_, alt, _⟩
  · exact eq
  · exact eq
  · exact absurd ofLane alt

theorem blocklist_agrees_iff : LaneAgrees core db who .blocklist ↔
      BlocklistSettled db who.overlayIP := by
  have had : ∀ {ver : Int}, (assembleBundle core db who).Carries .blocklist ver ↔
        db.blocklistVersion = ver := Iff.rfl
  constructor
  · intro agrees r ver hit runs
    obtain ⟨mem, ofLane, _⟩ := current_eq_some_iff.mp hit
    have mark := agrees (ver + 1) ver
      (.inl (Iff.mpr commandForLane_eq_some_iff ⟨r, hit, runs, by omega⟩))
    have tgt := drives_blocklist ofLane runs
    subst tgt
    rw [had, blocklistVersion_eq_iff mem ofLane] at mark
    exact mark
  · rintro fix said ver (told | ⟨_, lo⟩)
    · obtain ⟨r, hit, runs, _⟩ := Iff.mp commandForLane_eq_some_iff told
      obtain ⟨mem, ofLane, _⟩ := current_eq_some_iff.mp hit
      have top := fix r ver hit runs
      have tgt := drives_blocklist ofLane runs
      subst tgt
      rw [had, blocklistVersion_eq_iff mem ofLane]
      exact top
    · exact absurd lo (no_floor_of_releases_eq_none rfl)

end

section

variable {core : Core} {db : Database} {who : Caller} {lane : Lane}
variable {static : Artifact} {r : Rollout} {ver : Int}

theorem releaseFor_carries_iff (hit : db.current lane = some r) :
    (releaseFor core db who lane static).Carries ver ↔ db.genForLane lane who.overlayIP = some ver ∧
        Serves core who lane ver := by
  obtain ⟨gen, law⟩ : ∃ gen, db.genForLane lane who.overlayIP = some gen := by
    unfold Database.genForLane
    rw [hit]
    exact ⟨_, rfl⟩
  unfold releaseFor Serves
  cases src : core.releases lane with
  | none => simp [Stamp.Carries]
  | some lookup =>
    simp only [law, Option.some.injEq, exists_eq_left']
    split
    · rename_i zero
      subst zero
      simp only [Stamp.Carries]
      constructor
      · rintro rfl
        simp
      · rintro ⟨rfl, _⟩
        rfl
    · rename_i pin
      cases served : lookup gen who.goos who.goarch with
      | some artifact =>
        simp only [Stamp.Carries]
        constructor
        · rintro rfl
          simp [served]
        · rintro ⟨rfl, _⟩
          rfl
      | none =>
        simp only [Stamp.Carries, false_iff, not_and, not_or]
        rintro rfl
        simp [pin, served]

theorem genForLane_of_drives (hit : db.current lane = some r) (runs : db.Drives r ip ver) :
    db.genForLane lane ip = some ver := by
  unfold Database.genForLane
  rw [hit]
  rcases runs with ⟨live, touched, rfl⟩ | ⟨full, _, rfl⟩ | ⟨halt, _, _, rfl⟩
  · obtain ⟨h, given, cap⟩ := touched_iff.mp touched
    rcases phase_of_active live with state | state <;>
      simp [state, given, cap]
  · simp [full]
  · simp [halt]

theorem genForLane_of_stopped (hit : db.current lane = some r)
    (halt : r.state = .rolledBack ∨ r.state = .aborted) (ip : String) :
    db.genForLane lane ip = some r.prevVersion := by
  unfold Database.genForLane
  rw [hit]
  rcases halt with state | state <;> simp [state]

theorem drives_of_stopped (halt : r.state = .rolledBack ∨ r.state = .aborted)
    (runs : db.Drives r ip ver) :
    r.state = .rolledBack ∧ db.Touched r ip ∧ ver = r.prevVersion := by
  rcases runs with ⟨live, _, _⟩ | ⟨full, _, _⟩ | ⟨state, _, hit, same⟩
  · rcases halt with state | state <;> simp [Rollout.active, state] at live
  · rcases halt with state | state <;> simp [full] at state
  · exact ⟨state, hit, same⟩

theorem stopped_or_completed (last : r.active = false) :
    (r.state = .rolledBack ∨ r.state = .aborted) ∨ r.state = .completed := by
  cases st : r.state <;> simp_all [Rollout.active]

theorem ReleaseSettled.exists_quiet (fix : ReleaseSettled core db who lane) : ∃ said,
      db.commandForLane lane who.overlayIP said = none ∧
        floorCommand core db who lane said = none := by
  by_cases driven : ∃ r ver, db.current lane = some r ∧ db.Drives r who.overlayIP ver
  · obtain ⟨r, ver, hit, runs⟩ := driven
    refine ⟨ver, commandForLane_eq_none ?_, ?_⟩
    · intro alt want also wants
      rw [hit, Option.some.injEq] at also
      subst also
      exact (runs.unique wants).symm
    · rw [eq_none_iff_forall_ne_some]
      intro gen told
      obtain ⟨idle, ⟨f, lo, rfl⟩, pin, past, served⟩ := Iff.mp floorCommand_eq_some_iff told
      rcases stopped_or_completed (idle r hit) with halt | completed
      · obtain ⟨_, _, rfl⟩ := drives_of_stopped halt runs
        rcases fix.2 r f hit halt lo pin served with
          eq | ⟨_, _, lt⟩ <;> omega
      · have eq := floor_of_completed hit completed lo
        subst eq
        have tgt := genForLane_of_drives hit runs
        simp [Database.genForLane, hit, completed] at tgt
        omega
  · refine ⟨((db.floor lane).map (·.targetVersion)).getD 0, commandForLane_eq_none ?_, ?_⟩
    · intro r ver hit runs
      exact absurd ⟨r, ver, hit, runs⟩ driven
    · rw [eq_none_iff_forall_ne_some]
      intro gen told
      obtain ⟨_, ⟨f, lo, rfl⟩, _, past, _⟩ := Iff.mp floorCommand_eq_some_iff told
      simp [lo] at past

theorem floor_eq_prevVersion {f : Rollout}
    (had : ∀ ver, (assembleBundle core db who).Carries lane ver ↔
        (releaseFor core db who lane static).Carries ver)
    (agrees : LaneAgrees core db who lane) (hit : db.current lane = some r)
    (halt : r.state = .rolledBack ∨ r.state = .aborted)
    (floor : db.floor lane = some f) (pin : f.targetVersion ≠ 0)
    (served : Serves core who lane f.targetVersion)
    (mute : db.commandForLane lane who.overlayIP said = none)
    (past : said < f.targetVersion) : f.targetVersion = r.prevVersion := by
  have idle : ∀ alt, db.current lane = some alt → alt.active = false := by
    intro alt also
    rw [hit, Option.some.injEq] at also
    subst also
    rcases halt with state | state <;> simp [Rollout.active, state]
  have mark := agrees said f.targetVersion (.inr ⟨mute, Iff.mpr floorCommand_eq_some_iff
      ⟨idle, ⟨f, floor, rfl⟩, pin, past, served⟩⟩)
  rw [had, releaseFor_carries_iff hit, genForLane_of_stopped hit halt] at mark
  simpa using mark.1.symm

theorem settled_of_agrees (had : ∀ ver, (assembleBundle core db who).Carries lane ver ↔
        (releaseFor core db who lane static).Carries ver) (agrees : LaneAgrees core db who lane) :
    ReleaseSettled core db who lane := by
  refine ⟨?_, ?_⟩
  · intro r ver hit runs
    have mark := agrees (ver + 1) ver
      (.inl (Iff.mpr commandForLane_eq_some_iff ⟨r, hit, runs, by omega⟩))
    rw [had, releaseFor_carries_iff hit] at mark
    exact mark.2
  · intro r f hit halt floor pin served
    have falls : ∀ said, db.commandForLane lane who.overlayIP said = none →
        said < f.targetVersion → f.targetVersion = r.prevVersion := by
      intro said mute past
      exact floor_eq_prevVersion had agrees hit halt floor pin served mute past
    by_cases driven : r.state = .rolledBack ∧ db.Touched r who.overlayIP
    · by_cases past : r.prevVersion < f.targetVersion
      · left
        refine falls r.prevVersion (commandForLane_eq_none ?_) past
        intro alt ver also runs
        rw [hit, Option.some.injEq] at also
        subst also
        exact (drives_of_stopped halt runs).2.2.symm
      · by_cases same : f.targetVersion = r.prevVersion
        · exact .inl same
        · exact .inr ⟨driven.1, driven.2, by omega⟩
    · left
      refine falls (f.targetVersion - 1) (commandForLane_eq_none ?_) (by omega)
      intro alt ver also runs
      rw [hit, Option.some.injEq] at also
      subst also
      obtain ⟨st, touched, _⟩ := drives_of_stopped halt runs
      exact absurd ⟨st, touched⟩ driven

theorem commanded_back (hit : db.current lane = some r) (st : r.state = .rolledBack)
    (touched : db.Touched r who.overlayIP)
    (free : lane ≠ .blocklist) (past : said < r.prevVersion) :
    db.commandForLane lane who.overlayIP said = some r.prevVersion := by
  have notBlocklist : r.lane ≠ .blocklist := by
    obtain ⟨_, ofLane, _⟩ := current_eq_some_iff.mp hit
    rw [ofLane]
    exact free
  exact Iff.mpr commandForLane_eq_some_iff ⟨r, hit,
    .inr (.inr ⟨st, notBlocklist, touched, rfl⟩), by omega⟩

theorem agrees_of_settled (had : ∀ ver, (assembleBundle core db who).Carries lane ver ↔
        (releaseFor core db who lane static).Carries ver)
    (fix : ReleaseSettled core db who lane) :
    LaneAgrees core db who lane := by
  obtain ⟨serves, falls⟩ := fix
  rintro said ver (told | ⟨mute, lo⟩)
  · obtain ⟨r, hit, runs, _⟩ := Iff.mp commandForLane_eq_some_iff told
    rw [had, releaseFor_carries_iff hit]
    exact ⟨genForLane_of_drives hit runs, serves r ver hit runs⟩
  · obtain ⟨idle, ⟨f, full, rfl⟩, pin, past, served⟩ :=
      Iff.mp floorCommand_eq_some_iff lo
    obtain ⟨r, hit⟩ := current_of_floor full
    rw [had, releaseFor_carries_iff hit]
    refine ⟨?_, served⟩
    rcases stopped_or_completed (idle r hit) with halt | done
    · rw [genForLane_of_stopped hit halt]
      rcases falls r f hit halt full pin served with
        eq | ⟨st, touched, lt⟩
      · rw [eq]
      · have free : lane ≠ .blocklist := by
          obtain ⟨lookup, src, _⟩ := served
          rintro rfl
          cases src
        rw [commanded_back hit st touched free (by omega)] at mute
        cases mute
    · have eq := floor_of_completed hit done full
      subst eq
      unfold Database.genForLane
      rw [hit]
      simp [done]

theorem release_agrees_iff (had : ∀ ver, (assembleBundle core db who).Carries lane ver ↔
        (releaseFor core db who lane static).Carries ver) :
    LaneAgrees core db who lane ↔ ReleaseSettled core db who lane :=
  ⟨settled_of_agrees had, agrees_of_settled had⟩

end

section

variable {core : Core} {db : Database} {who : Caller}
variable {lane : Lane} {ver : Int}

theorem issues_of_applyBundle (told : applyBundle core db who said = some (.applyBundle lane ver)) :
    Issues core db who lane (said lane) ver := by
  unfold applyBundle at told
  split at told
  · rename_i command fst
    cases told
    obtain ⟨alt, _, ord⟩ := exists_of_findSome?_eq_some fst
    obtain ⟨gen, ord, eq⟩ := map_eq_some_iff.mp ord
    cases eq
    exact .inl ord
  · rename_i unanswered
    have mute : ∀ lane, db.commandForLane lane who.overlayIP (said lane) = none := by
      intro lane
      have away := List.findSome?_eq_none_iff.mp unanswered lane (by cases lane <;> decide)
      simpa using away
    unfold floorReconcile at told
    split at told
    · rename_i gen lo
      cases told
      exact .inr ⟨mute _, lo⟩
    · obtain ⟨gen, lo, eq⟩ := map_eq_some_iff.mp told
      cases eq
      exact .inr ⟨mute _, lo⟩

theorem exists_applyBundle_of_command {n : Int}
    (told : db.commandForLane lane who.overlayIP n = some ver) :
    ∃ said, applyBundle core db who said = some (.applyBundle lane ver) := by
  choose mute none using fun lane => exists_silent db lane who.overlayIP
  refine ⟨fun alt => if alt = lane then n else mute alt, ?_⟩
  unfold applyBundle
  cases lane <;> simp [lanes, none, told]

theorem exists_applyBundle_of_floor {n : Int}
    (silentHere : db.commandForLane lane who.overlayIP n = none)
    (lo : floorCommand core db who lane n = some ver) (calm : lane = .pilot → ∃ alt,
      db.commandForLane .nebula who.overlayIP alt = none ∧
        floorCommand core db who .nebula alt = none) :
    ∃ said, applyBundle core db who said = some (.applyBundle lane ver) := by
  choose mute none using fun lane => exists_silent db lane who.overlayIP
  cases lane with
  | policy | blocklist => exact absurd lo (no_floor_of_releases_eq_none rfl)
  | nebula =>
    refine ⟨fun alt => if alt = .nebula then n else mute alt, ?_⟩
    simp [applyBundle, floorReconcile, lanes, none, silentHere, lo]
  | pilot =>
    obtain ⟨alt, command, noFloor⟩ := calm rfl
    refine ⟨fun lane => if lane = .pilot then n else
      if lane = .nebula then alt else mute lane, ?_⟩
    simp [applyBundle, floorReconcile, lanes, none, silentHere, lo, command, noFloor]

end

/-- In a database every command that Core gives a host is carried by the bundle
it assembles for that host exactly when every lane is settled for the host. -/
theorem commands_carried_iff (core : Core) (db : Database) (caller : Caller) :
    (∀ renew reported lane version,
      .applyBundle lane version ∈ commandsFor core db caller renew reported →
        (assembleBundle core db caller).Carries lane version) ↔ PolicySettled db caller.overlayIP ∧
        BlocklistSettled db caller.overlayIP ∧ ReleaseSettled core db caller .nebula ∧
        ReleaseSettled core db caller .pilot := by
  have member : ∀ renew reported lane version,
      .applyBundle lane version ∈ commandsFor core db caller renew reported ↔
        applyBundle core db caller reported = some (.applyBundle lane version) := by
    intro renew reported lane version
    unfold commandsFor
    cases renew <;> simp
  have policyLane : LaneAgrees core db caller .policy ↔ _ := policy_agrees_iff
  have blocklistLane : LaneAgrees core db caller .blocklist ↔ _ :=
    blocklist_agrees_iff
  have nebulaLane : LaneAgrees core db caller .nebula ↔ _ :=
    release_agrees_iff fun _ => Iff.rfl
  have pilotLane : LaneAgrees core db caller .pilot ↔ _ :=
    release_agrees_iff fun _ => Iff.rfl
  constructor
  · intro agrees
    have lane_agrees : ∀ lane, (lane = .pilot → ∃ other,
        db.commandForLane .nebula caller.overlayIP other = none ∧
          floorCommand core db caller .nebula other = none) →
        LaneAgrees core db caller lane := by
      rintro lane quiet n version (commanded | ⟨silent, floor⟩)
      · obtain ⟨reported, ordered⟩ := exists_applyBundle_of_command commanded
        exact agrees false reported lane version ((member _ _ _ _).mpr ordered)
      · obtain ⟨reported, ordered⟩ :=
          exists_applyBundle_of_floor silent floor quiet
        exact agrees false reported lane version ((member _ _ _ _).mpr ordered)
    have nebula := nebulaLane.mp (lane_agrees .nebula nofun)
    exact ⟨policyLane.mp (lane_agrees .policy nofun),
      blocklistLane.mp (lane_agrees .blocklist nofun), nebula,
      pilotLane.mp (lane_agrees .pilot fun _ => nebula.exists_quiet)⟩
  · rintro ⟨policy, blocklist, nebula, pilot⟩ renew reported lane version listed
    have issued := issues_of_applyBundle ((member _ _ _ _).mp listed)
    cases lane with
    | policy => exact policyLane.mpr policy _ _ issued
    | blocklist => exact blocklistLane.mpr blocklist _ _ issued
    | nebula => exact nebulaLane.mpr nebula _ _ issued
    | pilot => exact pilotLane.mpr pilot _ _ issued

namespace Example

def staged : StartConfig where
  targetVersion := 2
  prevVersion := 1
  hosts := ["10.0.0.1", "10.0.0.2"]
  canarySize := 1
  observe := 60
  missingAfter := 30

def completedWithout : Database :=
  (runEvents step Database.empty [.start staged 0, .heartbeat
        { overlayIP := "10.0.0.1"
          appliedBundleVersion := 2
          health := "ok"
          lastSeen := 1 }, .evaluate .policy 1 fun _ => false,
      .evaluate .policy 40 fun _ => false]).getD Database.empty

end Example

/-- The straggler of a completed policy rollout is commanded to the target and
served the previous version. -/
theorem completed_policy_command_not_carried :
    Reachable step Database.empty Example.completedWithout ∧
      commandsFor {} Example.completedWithout { overlayIP := "10.0.0.2" } false
        (fun _ => 1) = [.applyBundle .policy 2] ∧ (assembleBundle {} Example.completedWithout
        { overlayIP := "10.0.0.2" }).bundleVersion = 1 :=
  ⟨reachable_getD _ _ (by decide), by decide, by decide⟩

end Harbor.Rollouts
