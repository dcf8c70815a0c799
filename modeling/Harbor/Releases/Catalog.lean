import Harbor.Library.Run
import Harbor.Library.Text
import Harbor.Rollouts.Engine

/-!
# The release catalogs

`nebularelease` and `pilotrelease` are one registry over two pairs of tables.
A release row is a generation together with the binary of its default
platform, and an artifact row is the binary of one more platform.  Core stamps
a host's bundle from `Lookup` and reads the checksum the host reports back
with `GenForSHA`, and the rollout engine compares the two generations.
-/

namespace Harbor.Releases

open Library Library.Text Rollouts List Table

inductive Registry where
  | nebula
  | pilot
deriving DecidableEq, Repr

namespace Registry

def name : Registry → String
  | .nebula => "nebularelease"
  | .pilot => "pilotrelease"

def lane : Registry → Lane
  | .nebula => .nebula
  | .pilot => .pilot

/-- `ErrInvalid` wrapped around a reason. -/
def errInvalid (registry : Registry) (reason : String) : String :=
  registry.name ++ ": invalid release: " ++ reason

end Registry

def defaultGOOS : String := "linux"

def defaultGOARCH : String := "amd64"

structure Release where
  gen : Int
  version : String
  sha256 : String
  url : String
  goos : String
  goarch : String
  note : String
  createdAt : Int
deriving DecidableEq, Repr

structure Artifact where
  id : Int
  versionID : Int
  goos : String
  goarch : String
  sha256 : String
  url : String
  createdAt : Int
deriving DecidableEq, Repr

/-- The unique index on `version_id`, `goos` and `goarch`. -/
def Artifact.platform (a : Artifact) : Int × String × String :=
  (a.versionID, a.goos, a.goarch)

def normArch (fold : CaseMap) (goos goarch : String) : String × String :=
  let goos := fold.lower (trimSpace goos)
  let goarch := fold.lower (trimSpace goarch)
  (if goos = "" then defaultGOOS else goos,
    if goarch = "" then defaultGOARCH else goarch)

def normSHA (fold : CaseMap) (sha256 : String) : String :=
  fold.lower (trimSpace sha256)

def isHexDigit (c : Char) : Bool :=
  ('0' ≤ c && c ≤ '9') || ('a' ≤ c && c ≤ 'f')

def isHex (text : String) : Bool :=
  text.toList.all isHexDigit

/-- A checksum of 64 hexadecimal digits.  The source counts bytes, and a text
of hexadecimal digits has as many bytes as characters. -/
def fullChecksum (sha256 : String) : Bool :=
  sha256.toList.length == 64 && isHex sha256

/-- `ORDER BY column DESC LIMIT 1`, for a column that rows may share. -/
def greatestBy {Row Column : Type} [LinearOrder Column] (column : Row → Column)
    (rows : List Row) : Option Row :=
  rows.argmax column

structure Catalog where
  releases : Table Release.gen
  artifacts : Table Artifact.platform

namespace Catalog

def empty : Catalog where
  releases := .empty
  artifacts := .empty

variable (registry : Registry) (fold : CaseMap) (catalog : Catalog)

def get (gen : Int) : Option Release :=
  catalog.releases.find gen

/-- `Add`; `dbError` is the error of the insert, if it fails. -/
def add (version goos goarch sha256 url note : String) (now : Int)
    (dbError : Option String) : Except String (Release × Catalog) :=
  let version := trimSpace version
  let sha256 := normSHA fold sha256
  let url := trimSpace url
  let platform := normArch fold goos goarch
  if version = "" ∨ sha256 = "" ∨ url = "" then
    .error (registry.errInvalid "version, sha256 and url are all required")
  else if fullChecksum sha256 = false then
    .error (registry.errInvalid ("sha256 must be 64 hex chars, got " ++ sha256.quote))
  else
    let r : Release :=
      { gen := nextID (catalog.releases.rows.map (·.gen))
        version := version
        sha256 := sha256
        url := url
        goos := platform.1
        goarch := platform.2
        note := note
        createdAt := now }
    match dbError, catalog.releases.insert? r with
    | none, some releases => .ok (r, { catalog with releases := releases })
    | none, none =>
      .error (registry.name ++ ": add: duplicated key not allowed")
    | some text, _ => .error (registry.name ++ ": add: " ++ text)

def addArtifact (gen : Int) (goos goarch sha256 url : String) (now : Int)
    (dbError : Option String) : Except String (Artifact × Catalog) :=
  let sha256 := normSHA fold sha256
  let url := trimSpace url
  let platform := normArch fold goos goarch
  if sha256 = "" ∨ url = "" then
    .error (registry.errInvalid "sha256 and url are required")
  else if fullChecksum sha256 = false then
    .error (registry.errInvalid ("sha256 must be 64 hex chars, got " ++ sha256.quote))
  else
    match catalog.get gen with
    | none => .error (registry.errInvalid s!"no such generation {gen}")
    | some r =>
      if platform = normArch fold r.goos r.goarch then
        .error (registry.errInvalid
          (s!"{platform.1}/{platform.2} is the default artifact for generation {gen}" ++
            " (registered with `add`)"))
      else
        let a : Artifact :=
          { id := nextID (catalog.artifacts.rows.map (·.id))
            versionID := gen
            goos := platform.1
            goarch := platform.2
            sha256 := sha256
            url := url
            createdAt := now }
        match dbError, catalog.artifacts.insert? a with
        | none, some artifacts =>
          .ok (a, { catalog with artifacts := artifacts })
        | none, none =>
          .error (registry.name ++ ": add-artifact: duplicated key not allowed")
        | some text, _ => .error (registry.name ++ ": add-artifact: " ++ text)

structure Pinned where
  version : String
  sha256 : String
  url : String
deriving DecidableEq, Repr

def lookup (gen : Int) (goos goarch : String) : Option Pinned :=
  match catalog.get gen with
  | none => none
  | some r =>
    let platform := normArch fold goos goarch
    if platform = normArch fold r.goos r.goarch then
      some ⟨r.version, r.sha256, r.url⟩
    else
      (catalog.artifacts.find (gen, platform)).map fun a =>
        ⟨r.version, a.sha256, a.url⟩

def newestRelease (sha256 : String) : Int :=
  ((catalog.releases.latest fun r => r.sha256 == sha256).map Release.gen).getD 0

/-- `ORDER BY version_id DESC` over the artifacts that have the checksum. -/
def newestArtifact (sha256 : String) : Option Artifact :=
  greatestBy Artifact.versionID (catalog.artifacts.rows.filter fun a => a.sha256 == sha256)

def genForSHA (sha256 : String) : Int :=
  let sha256 := normSHA fold sha256
  if sha256 = "" then 0
  else
    let gen := catalog.newestRelease sha256
    match catalog.newestArtifact sha256 with
    | some a => if gen < a.versionID then a.versionID else gen
    | none => gen

end Catalog

inductive Event where
  | add (version goos goarch sha256 url note : String) (now : Int) (dbError : Option String)
  | addArtifact (gen : Int) (goos goarch sha256 url : String) (now : Int) (dbError : Option String)

def step (registry : Registry) (fold : CaseMap) (catalog : Catalog) : Event → Option Catalog
  | .add version goos goarch sha256 url note now dbError =>
    match catalog.add registry fold version goos goarch sha256 url note now dbError with
    | .ok added => some added.2
    | .error _ => some catalog
  | .addArtifact gen goos goarch sha256 url now dbError =>
    match catalog.addArtifact registry fold gen goos goarch sha256 url now dbError with
    | .ok added => some added.2
    | .error _ => some catalog

structure Report where
  appliedBundleVersion : Int := 0
  appliedBlocklistVersion : Int := 0
  nebulaSHA256 : String := ""
  pilotSHA256 : String := ""
  health : String := ""

def Report.runningSHA (report : Report) : Registry → String
  | .nebula => report.nebulaSHA256
  | .pilot => report.pilotSHA256

/-- The row `handleHeartbeat` writes; a registry that is not configured
reports generation 0. -/
def Report.beat (report : Report) (fold : CaseMap)
    (catalogs : Registry → Option Catalog) (overlayIP : String) (now : Int) : Beat where
  overlayIP := overlayIP
  appliedBundleVersion := report.appliedBundleVersion
  appliedBlocklistVersion := report.appliedBlocklistVersion
  appliedNebulaVersion :=
    ((catalogs .nebula).map (·.genForSHA fold report.nebulaSHA256)).getD 0
  appliedPilotVersion :=
    ((catalogs .pilot).map (·.genForSHA fold report.pilotSHA256)).getD 0
  health := report.health
  lastSeen := now

theorem Report.appliedFor_beat {report : Report} {fold : CaseMap}
    {catalogs : Registry → Option Catalog} {ip : String} {now : Int}
    {registry : Registry} {cat : Catalog} (configured : catalogs registry = some cat) :
    appliedFor (report.beat fold catalogs ip now) registry.lane =
      cat.genForSHA fold (report.runningSHA registry) := by
  cases registry <;> simp [Registry.lane, appliedFor, beat, configured, runningSHA]

/-! ## Checksums in normal form -/

theorem isHexDigit_code {c : Char} (digit : isHexDigit c = true) :
    (48 ≤ c.toNat ∧ c.toNat ≤ 57) ∨ (97 ≤ c.toNat ∧ c.toNat ≤ 102) := by
  simp only [isHexDigit, Bool.or_eq_true, Bool.and_eq_true, decide_eq_true_eq] at digit
  exact digit

theorem isHexDigit_plain (fold : CaseMap) {c : Char} (digit : isHexDigit c = true) :
    fold.toLower c = c ∧ isSpace c = false := by
  have code := isHexDigit_code digit
  have low : c.toNat < 128 := by omega
  rw [fold.ascii c low]
  have every : ∀ code < 128, isHexDigit (Char.ofNat code) = true →
      (Char.ofNat code).toLower = Char.ofNat code ∧ isSpace (Char.ofNat code) = false := by
    decide
  exact ascii_induction (fun c => isHexDigit c = true → c.toLower = c ∧ isSpace c = false)
    every low digit

theorem trimBoth_of_none (none : ∀ c ∈ t, cut c = false) : trimBoth cut t = t := by
  have kept : ∀ part : List Char, (∀ c ∈ part, cut c = false) → part.dropWhile cut = part := by
    intro part bare
    cases part with
    | nil => rfl
    | cons c rest => exact dropWhile_cons_of_neg (by simp [bare c mem_cons_self])
  unfold trimBoth
  rw [kept t none, kept t.reverse, reverse_reverse]
  intro c mem
  exact none c (mem_reverse.mp mem)

theorem normSHA_of_fullChecksum (full : fullChecksum sha = true) : normSHA fold sha = sha := by
  have digits : ∀ c ∈ sha.toList, isHexDigit c = true := by
    simp only [fullChecksum, isHex, Bool.and_eq_true, all_eq_true] at full
    exact full.2
  have trim : trimSpace sha = sha := by
    unfold trimSpace
    rw [trimBoth_of_none fun c mem =>
      (isHexDigit_plain fold (digits c mem)).2]
    exact String.ofList_toList
  have low : sha.toList.map fold.toLower = sha.toList := by
    refine (map_congr_left ?_).trans (map_id _)
    intro c mem
    exact (isHexDigit_plain fold (digits c mem)).1
  unfold normSHA CaseMap.lower
  rw [trim, low]
  exact String.ofList_toList

theorem fullChecksum_ne_empty (full : fullChecksum sha = true) : sha ≠ "" := by
  intro empty
  subst empty
  exact absurd full (by decide)

/-! ## What the calls store -/

theorem nextID_pos (ids : List Int) : 0 < nextID ids := by
  have gt := (le_foldl_max ids 0).1
  unfold nextID
  omega

/-- What `Add` and `AddArtifact` keep of every row. -/
structure Sound (catalog : Catalog) : Prop where
  releases : ∀ r ∈ catalog.releases.rows, 0 < r.gen ∧ fullChecksum r.sha256 = true
  artifacts : ∀ a ∈ catalog.artifacts.rows, fullChecksum a.sha256 = true

section

variable {registry : Registry} {fold : CaseMap} {cat : Catalog}
variable {fin : Catalog}

theorem add_eq_ok {r : Release} (ins : cat.add registry fold ver goos arch sha url note now
      dbError = .ok (r, fin)) : 0 < r.gen ∧ fullChecksum r.sha256 = true ∧
      fin.releases.rows = cat.releases.rows ++ [r] ∧ fin.artifacts = cat.artifacts := by
  simp only [Catalog.add] at ins
  split_ifs at ins with lacks short
  split at ins
  · rename_i put
    cases ins
    exact ⟨nextID_pos _, by simpa using short, (Table.insert?_eq_some put).1, rfl⟩
  · cases ins
  · cases ins

theorem addArtifact_eq_ok {a : Artifact}
    (ins : cat.addArtifact registry fold gen goos arch sha url now
      dbError = .ok (a, fin)) : fullChecksum a.sha256 = true ∧
      fin.artifacts.rows = cat.artifacts.rows ++ [a] ∧
      fin.releases = cat.releases ∧ (a.goos, a.goarch) = normArch fold goos arch := by
  simp only [Catalog.addArtifact] at ins
  split_ifs at ins with lacks short
  split at ins
  · cases ins
  · split_ifs at ins
    split at ins
    · rename_i put
      cases ins
      refine ⟨by simpa using short, (Table.insert?_eq_some put).1, rfl, ?_⟩
      simp only
    · cases ins
    · cases ins

/-- A call changes nothing or appends one row it has checked. -/
theorem step_cases (ran : step registry fold cat ev = some fin) : fin = cat ∨
      (∃ r, 0 < r.gen ∧ fullChecksum r.sha256 = true ∧
        fin.releases.rows = cat.releases.rows ++ [r] ∧ fin.artifacts = cat.artifacts) ∨
      ∃ a goos arch, fullChecksum a.sha256 = true ∧ fin.artifacts.rows = cat.artifacts.rows ++ [a] ∧
        fin.releases = cat.releases ∧ (a.goos, a.goarch) = normArch fold goos arch := by
  cases ev with
  | add =>
    simp only [step] at ran
    split at ran
    · rename_i ins res
      cases ran
      exact .inr (.inl ⟨ins.1, add_eq_ok res⟩)
    · cases ran
      exact .inl rfl
  | addArtifact gen goos arch =>
    simp only [step] at ran
    split at ran
    · rename_i ins res
      cases ran
      exact .inr (.inr ⟨ins.1, goos, arch, addArtifact_eq_ok res⟩)
    · cases ran
      exact .inl rfl

theorem step_sound (inv : Sound cat) (ran : step registry fold cat ev = some fin) : Sound fin := by
  rcases step_cases ran with rfl | ⟨r, pos, full, rs, eq⟩ | ⟨a, _, _, full, rs, eq, -⟩
  · exact inv
  · refine ⟨?_, eq ▸ inv.artifacts⟩
    intro row mem
    rw [rs, mem_append, mem_singleton] at mem
    rcases mem with old | rfl
    · exact inv.releases row old
    · exact ⟨pos, full⟩
  · refine ⟨eq ▸ inv.releases, ?_⟩
    intro row mem
    rw [rs, mem_append, mem_singleton] at mem
    rcases mem with old | rfl
    · exact inv.artifacts row old
    · exact full

theorem sound_of_reachable (met : Reachable (step registry fold) .empty cat) :
    Sound cat := by
  refine met.invariant Sound ⟨?_, ?_⟩ ?_
  · intro r mem
    cases mem
  · intro a mem
    cases mem
  · intro was ev fin inv _ ran
    exact step_sound inv ran

end

/-! ## From the pinned binary back to its generation -/

def Catalog.Ships (catalog : Catalog) (gen : Int) (sha256 : String) : Prop :=
  (∃ r ∈ catalog.releases.rows, r.gen = gen ∧ r.sha256 = sha256) ∨
    ∃ a ∈ catalog.artifacts.rows, a.versionID = gen ∧ a.sha256 = sha256

section

variable {fold : CaseMap} {cat : Catalog} {gen : Int} {sha : String}

theorem newestRelease_ships (found : cat.newestRelease sha ≠ 0) :
    cat.Ships (cat.newestRelease sha) sha := by
  unfold Catalog.newestRelease at found ⊢
  cases newest : cat.releases.latest fun r => r.sha256 == sha with
  | none =>
    rw [newest] at found
    exact absurd rfl found
  | some r =>
    obtain ⟨member, same, -⟩ := latest_eq_some_iff.mp newest
    exact .inl ⟨r, member, rfl, beq_iff_eq.mp same⟩

theorem le_newestRelease {r : Release} (mem : r ∈ cat.releases.rows)
    (eq : r.sha256 = sha) : r.gen ≤ cat.newestRelease sha := by
  unfold Catalog.newestRelease
  cases hit : cat.releases.latest fun r => r.sha256 == sha with
  | none =>
    have none : cat.releases.rows.filter (fun r => r.sha256 == sha) = [] := argmax_eq_none.mp hit
    have has : r ∈ cat.releases.rows.filter (fun r => r.sha256 == sha) :=
      mem_filter.mpr ⟨mem, beq_iff_eq.mpr eq⟩
    rw [none] at has
    cases has
  | some top => exact (latest_eq_some_iff.mp hit).2.2 r mem (beq_iff_eq.mpr eq)

theorem newestArtifact_eq_some {a : Artifact} (hit : cat.newestArtifact sha = some a) :
    a ∈ cat.artifacts.rows ∧ a.sha256 = sha := by
  obtain ⟨mem, eq⟩ := mem_filter.mp (argmax_mem hit)
  exact ⟨mem, beq_iff_eq.mp eq⟩

theorem exists_newestArtifact {a : Artifact} (mem : a ∈ cat.artifacts.rows) (eq : a.sha256 = sha) :
    ∃ top, cat.newestArtifact sha = some top ∧ a.versionID ≤ top.versionID := by
  have has : a ∈ cat.artifacts.rows.filter (fun a => a.sha256 == sha) :=
    mem_filter.mpr ⟨mem, beq_iff_eq.mpr eq⟩
  cases hit : cat.newestArtifact sha with
  | none =>
    rw [argmax_eq_none.mp hit] at has
    cases has
  | some top => exact ⟨top, rfl, le_of_mem_argmax has hit⟩

theorem genForSHA_cases (full : fullChecksum sha = true) :
    cat.genForSHA fold sha = cat.newestRelease sha ∨
      cat.Ships (cat.genForSHA fold sha) sha := by
  simp only [Catalog.genForSHA, normSHA_of_fullChecksum full, fullChecksum_ne_empty full, if_false]
  cases newest : cat.newestArtifact sha with
  | none => exact .inl rfl
  | some a =>
    obtain ⟨member, same⟩ := newestArtifact_eq_some newest
    dsimp only
    split_ifs
    · exact .inr (.inr ⟨a, member, rfl, same⟩)
    · exact .inl rfl

theorem le_genForSHA (full : fullChecksum sha = true) (ships : cat.Ships gen sha) :
    gen ≤ cat.genForSHA fold sha := by
  simp only [Catalog.genForSHA, normSHA_of_fullChecksum full, fullChecksum_ne_empty full, if_false]
  rcases ships with ⟨r, member, rfl, same⟩ | ⟨a, member, rfl, same⟩
  · have bound := le_newestRelease member same
    cases cat.newestArtifact sha with
    | none => exact bound
    | some a =>
      dsimp only
      split_ifs <;> omega
  · obtain ⟨last, newest, bound⟩ := exists_newestArtifact member same
    rw [newest]
    dsimp only
    split_ifs <;> omega

/-- When several generations share a checksum, the newest wins. -/
theorem genForSHA_eq_iff (full : fullChecksum sha = true) (positive : 0 < gen)
    (ships : cat.Ships gen sha) : cat.genForSHA fold sha = gen ↔
      ∀ later, gen < later → ¬cat.Ships later sha := by
  have bound := @le_genForSHA fold cat gen sha full ships
  constructor
  · intro same later after shipped
    have above := @le_genForSHA fold cat later sha full shipped
    omega
  · intro newest
    have shipped : cat.Ships (cat.genForSHA fold sha) sha := by
      rcases @genForSHA_cases fold cat sha full with same | shipped
      · rw [same] at bound ⊢
        exact newestRelease_ships (by omega)
      · exact shipped
    refine le_antisymm (not_lt.mp fun above => newest _ above shipped) bound

theorem lookup_ships {goos arch : String} {pin : Catalog.Pinned} (inv : Sound cat)
    (hit : cat.lookup fold gen goos arch = some pin) :
    0 < gen ∧ fullChecksum pin.sha256 = true ∧ cat.Ships gen pin.sha256 := by
  unfold Catalog.lookup at hit
  split at hit
  · cases hit
  · rename_i r seen
    obtain ⟨mem, same⟩ := find_eq_some_iff.mp seen
    have pos : 0 < gen := same ▸ (inv.releases r mem).1
    simp only at hit
    split_ifs at hit
    · cases hit
      exact ⟨pos, (inv.releases r mem).2, .inl ⟨r, mem, same, rfl⟩⟩
    · obtain ⟨a, artifact, rfl⟩ := Option.map_eq_some_iff.mp hit
      obtain ⟨has, key⟩ := find_eq_some_iff.mp artifact
      exact ⟨pos, inv.artifacts a has, .inr ⟨a, has, congrArg Prod.fst key, rfl⟩⟩

theorem tally_converged_iff {r : Rollout} {b : Beat} {now : Int}
    (healthy : healthBad b.health = false) (recent : now - r.missingAfter ≤ b.lastSeen) :
    r.tally now (.found b) = .converged ↔ appliedFor b r.lane = r.targetVersion := by
  simp only [Rollout.tally, healthy, recent, and_true, Bool.false_eq_true, if_false]
  split_ifs with applied silent
  · exact ⟨fun _ => applied, fun _ => rfl⟩
  · exact ⟨by rintro ⟨⟩, fun same => absurd same applied⟩
  · exact ⟨by rintro ⟨⟩, fun same => absurd same applied⟩

theorem rows_subset (ran : step registry fold cat ev = some fin) :
    cat.releases.rows ⊆ fin.releases.rows ∧ cat.artifacts.rows ⊆ fin.artifacts.rows := by
  rcases step_cases ran with rfl | ⟨r, _, _, rows, eq⟩ | ⟨a, _, _, _, rows, eq, _⟩
  · exact ⟨Subset.refl _, Subset.refl _⟩
  · rw [rows, eq]
    exact ⟨subset_append_left _ _, Subset.refl _⟩
  · rw [rows, eq]
    exact ⟨Subset.refl _, subset_append_left _ _⟩

/-- The binary pinned for a generation and a platform never changes, whatever
is registered later. -/
theorem lookup_stable {catalog after : Catalog} {gen : Int} {goos goarch : String}
    {pinned : Catalog.Pinned} (found : catalog.lookup fold gen goos goarch = some pinned)
    (reached : Reachable (step registry fold) catalog after) :
    after.lookup fold gen goos goarch = some pinned := by
  refine reached.invariant (fun c => c.lookup fold gen goos goarch = some pinned) found ?_
  intro was new event hit _ ran
  obtain ⟨releases, artifacts⟩ := rows_subset ran
  unfold Catalog.lookup Catalog.get at hit ⊢
  split at hit
  · cases hit
  · rename_i r own
    obtain ⟨mem, same⟩ := find_eq_some_iff.mp own
    rw [find_eq_some_iff.mpr ⟨releases mem, same⟩]
    dsimp only at hit ⊢
    split_ifs at hit ⊢
    · exact hit
    · obtain ⟨a, artifact, rfl⟩ := Option.map_eq_some_iff.mp hit
      obtain ⟨has, key⟩ := find_eq_some_iff.mp artifact
      rw [find_eq_some_iff.mpr ⟨artifacts has, key⟩]
      rfl

end

/-- In every catalog the calls can build, the binary pinned for a generation is
read back as that generation if and only if no later generation ships it too,
and exactly then a healthy host that reports it counts as converged on every
rollout to that generation. -/
theorem pinned_binary_converges (registry : Registry) (fold : CaseMap)
    {catalog : Catalog}
    (reached : Reachable (step registry fold) .empty catalog)
    {gen : Int} {goos goarch : String} {pinned : Catalog.Pinned}
    (found : catalog.lookup fold gen goos goarch = some pinned) :
    (catalog.genForSHA fold pinned.sha256 = gen ↔
        ∀ later, gen < later → ¬catalog.Ships later pinned.sha256) ∧
      ∀ (catalogs : Registry → Option Catalog) (report : Report)
        (r : Rollout) (overlayIP : String) (seen now : Int),
        catalogs registry = some catalog →
        report.runningSHA registry = pinned.sha256 →
        r.lane = registry.lane →
        r.targetVersion = gen →
        healthBad report.health = false →
        now - r.missingAfter ≤ seen →
        (r.tally now (.found (report.beat fold catalogs overlayIP seen)) = .converged ↔
          ∀ later, gen < later → ¬catalog.Ships later pinned.sha256) := by
  obtain ⟨positive, full, ships⟩ :=
    lookup_ships (sound_of_reachable reached) found
  refine ⟨genForSHA_eq_iff full positive ships, ?_⟩
  intro catalogs report r overlayIP seen now configured running lane target healthy recent
  rw [tally_converged_iff healthy recent, lane, Report.appliedFor_beat configured, running, target]
  exact genForSHA_eq_iff full positive ships

def sampleChecksum : String :=
  String.ofList (List.replicate 64 'a')

def rebuildSchedule : List Event :=
  [.add "1.9.0" "" "" sampleChecksum "https://cdn/nebula" "" 1 none,
    .add "1.9.1" "" "" sampleChecksum "https://cdn/nebula" "" 2 none]

def rebuiltCatalog (calls : Nat) : Catalog :=
  (runEvents (step .nebula .plain) .empty (rebuildSchedule.take calls)).getD .empty

theorem rebuiltCatalog_reachable (cs : Nat) (exec : (runEvents (step .nebula .plain) .empty
      (rebuildSchedule.take cs)).isSome = true) :
    Reachable (step .nebula .plain) .empty (rebuiltCatalog cs) :=
  reachable_getD _ _ exec

def firstRollout : Rollout where
  id := 1
  lane := .nebula
  targetVersion := 1
  prevVersion := 0
  state := .canary
  observeWindow := 100
  missingAfter := 50
  waveStartedAt := 10
  createdAt := 10
  updatedAt := 10

def firstReport : Report where
  nebulaSHA256 := sampleChecksum
  health := "healthy"

theorem pinned_binary_converges_alone : (rebuiltCatalog 1).genForSHA .plain sampleChecksum = 1 ∧
      firstRollout.tally 30 (.found (firstReport.beat .plain
        (fun _ => some (rebuiltCatalog 1)) "10.0.0.1" 20)) = .converged := by
  have found : (rebuiltCatalog 1).lookup .plain 1 "" "" =
      some ⟨"1.9.0", sampleChecksum, "https://cdn/nebula"⟩ := by
    decide
  have newest : ∀ later, 1 < later → ¬(rebuiltCatalog 1).Ships later sampleChecksum := by
    intro later above ships
    have rows : (rebuiltCatalog 1).releases.rows.map Release.gen = [1] ∧
        (rebuiltCatalog 1).artifacts.rows = [] := by
      decide
    rcases ships with ⟨r, member, named, -⟩ | ⟨a, member, -⟩
    · have listed := List.mem_map_of_mem (f := Release.gen) member
      rw [rows.1, List.mem_singleton] at listed
      omega
    · rw [rows.2] at member
      cases member
  obtain ⟨closed, loop⟩ := pinned_binary_converges .nebula .plain
    (rebuiltCatalog_reachable 1 (by decide)) found
  exact ⟨closed.mpr newest, (loop _ firstReport firstRollout "10.0.0.1" 20 30 rfl rfl rfl
    rfl (by decide) (by decide)).mpr newest⟩

/-- Registering the same binary as a second generation takes the first away:
its binary is read back as the second, and a healthy host that runs it never
converges on the rollout that pinned it. -/
theorem shared_binary_not_converged : ∃ catalog, Reachable (step .nebula .plain) .empty catalog ∧
      catalog.lookup .plain 1 "" "" = some ⟨"1.9.0", sampleChecksum, "https://cdn/nebula"⟩ ∧
      catalog.genForSHA .plain sampleChecksum = 2 ∧
      firstRollout.tally 30 (.found (firstReport.beat .plain
        (fun _ => some catalog) "10.0.0.1" 20)) = .applying := by
  refine ⟨rebuiltCatalog 2, rebuiltCatalog_reachable 2 ?_, ?_, ?_, ?_⟩
  all_goals decide

theorem lookup_stable_rebuilt : ∃ after, Reachable (step .nebula .plain) (rebuiltCatalog 1) after ∧
      after.releases.rows.length = 2 ∧
      after.lookup .plain 1 "" "" = some ⟨"1.9.0", sampleChecksum, "https://cdn/nebula"⟩ := by
  have reached := @reachable_getD _ _ (step .nebula .plain) (rebuiltCatalog 1)
    (rebuildSchedule.drop 1) .empty (by decide)
  exact ⟨_, reached, by decide, lookup_stable (by decide) reached⟩

end Harbor.Releases
