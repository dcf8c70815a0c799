import Harbor.Data.Enrollment
import Harbor.Releases.Catalog
import Mathlib.Data.List.DropRight

/-!
# Which hosts a generation can serve

`ServableFleet` splits the fleet before a rollout by a set of platforms and one
scan of the enrollments, newest first.  `Lookup` answers for one host from the
two tables when its bundle is stamped.  They agree on every catalog whose
artifacts are in the normal form `AddArtifact` writes.
-/

namespace Harbor.Releases

open Library Library.Text List

structure ExcludedHost where
  overlayIP : String
  goos : String
  goarch : String
deriving DecidableEq, Repr

section

variable (registry : Registry) (fold : CaseMap) (catalog : Catalog) (enrollments : Enrollments)

/-- The platforms of the generation, as the keys of the map `set`. -/
def platformSet (gen : Int) (r : Release) : List (String × String) :=
  normArch fold r.goos r.goarch :: (catalog.artifacts.rows.filter fun a =>
    a.versionID == gen).map fun a => normArch fold a.goos a.goarch

/-- The issued enrollments at the addresses, `ORDER BY id DESC`. -/
def issuedRows (ips : List String) : List Enrollment :=
  (enrollments.rows.filter fun e => ips.contains e.overlayIP && e.status == .issued).mergeSort
    fun left right => decide (right.id ≤ left.id)

/-- The map `archOf`: the first row seen at an address wins. -/
def archOf (rows : List Enrollment) (ip : String) : String × String :=
  ((rows.find? fun e => e.overlayIP == ip).map fun e => normArch fold e.goos e.goarch).getD
    (defaultGOOS, defaultGOARCH)

/-- `ServableFleet`; the two errors are those of the reads, if they fail. -/
def servableFleet (gen : Int) (ips : List String) (artifactsError archError : Option String) :
    Except String (List String × List ExcludedHost) :=
  match catalog.get gen, artifactsError, archError with
  | none, _, _ => .error (registry.name ++ s!": servable fleet: no such generation {gen}")
  | some _, some text, _ => .error (registry.name ++ ": artifacts: " ++ text)
  | some r, none, archError =>
    let set := platformSet fold catalog gen r
    let arch := archOf fold (issuedRows enrollments ips)
    match archError, ips.isEmpty with
    | some text, false => .error (registry.name ++ ": servable fleet: read host arch: " ++ text)
    | _, _ => .ok (ips.filter fun ip => set.contains (arch ip),
        (ips.filter fun ip => !set.contains (arch ip)).map fun ip =>
          ⟨ip, (arch ip).1, (arch ip).2⟩)

/-- The platform of the enrollment `device` resolves an address to. -/
def devicePlatform (ip : String) : String × String :=
  ((enrollments.latest (Enrollment.issuedAt ip)).map fun e => (e.goos, e.goarch)).getD
    (defaultGOOS, defaultGOARCH)

/-- Whether Core has a binary to stamp for the address. -/
def served (gen : Int) (ip : String) : Bool :=
  let platform := devicePlatform enrollments ip
  (catalog.lookup fold gen platform.1 platform.2).isSome

end

/-! ## The newest enrollment -/

section

variable {table : Enrollments} {ips : List String} {ip : String}

theorem issuedRows_sorted : (issuedRows table ips).Pairwise fun l r => r.id ≤ l.id := by
  have ord : (issuedRows table ips).Pairwise fun l r =>
      decide (r.id ≤ l.id) = true :=
    pairwise_mergeSort (by simp; omega) (by simp; omega) _
  exact ord.imp of_decide_eq_true

theorem mem_issuedRows (ask : ip ∈ ips) (e : Enrollment) :
    e ∈ issuedRows table ips ∧ (e.overlayIP == ip) = true ↔
      e ∈ table.rows ∧ Enrollment.issuedAt ip e = true := by
  simp only [issuedRows, mem_mergeSort, mem_filter, Bool.and_eq_true, contains_iff_mem,
    beq_iff_eq, Enrollment.issuedAt]
  exact ⟨fun both => ⟨both.1.1, both.2, both.1.2.2⟩,
    fun both => ⟨⟨both.1, both.2.1 ▸ ask, both.2.2⟩, both.2.1⟩⟩

theorem find_issuedRows (ask : ip ∈ ips) :
    (issuedRows table ips).find? (fun e => e.overlayIP == ip) =
      table.latest (Enrollment.issuedAt ip) := by
  cases hit : (issuedRows table ips).find? fun e => e.overlayIP == ip with
  | none =>
    rw [find?_eq_none] at hit
    cases newest : table.latest (Enrollment.issuedAt ip) with
    | none => rfl
    | some e =>
      obtain ⟨mem, out, -⟩ := Table.latest_eq_some_iff.mp newest
      obtain ⟨has, there⟩ := (mem_issuedRows ask e).mpr ⟨mem, out⟩
      exact absurd there (hit e has)
  | some e =>
    obtain ⟨there, head, back, rs, good⟩ := find?_eq_some_iff_append.mp hit
    have has : e ∈ issuedRows table ips := by simp [rs]
    obtain ⟨mem, out⟩ := (mem_issuedRows ask e).mp ⟨has, there⟩
    refine (Table.latest_eq_some_iff.mpr ⟨mem, out, ?_⟩).symm
    intro alt otherMem otherIssued
    obtain ⟨otherListed, here⟩ := (mem_issuedRows ask alt).mpr ⟨otherMem, otherIssued⟩
    have sorted := @issuedRows_sorted table ips
    rw [rs] at sorted otherListed
    rcases mem_append.mp otherListed with fore | behind
    · simpa [here] using good alt fore
    · rcases mem_cons.mp behind with rfl | behind
      · exact le_refl _
      · exact rel_of_pairwise_cons (pairwise_append.mp sorted).2.1 behind

end

/-! ## Normal forms -/

/-- What Go's tables satisfy: a lower-case letter stays, and case does not make
or remove white space. -/
structure Stable (fold : CaseMap) : Prop where
  lower : ∀ c, fold.toLower (fold.toLower c) = fold.toLower c
  space : ∀ c, isSpace (fold.toLower c) = isSpace c

theorem plain_stable : Stable .plain := by
  have ascii : ∀ code < 128, (Char.ofNat code).toLower.toLower = (Char.ofNat code).toLower ∧
      isSpace (Char.ofNat code).toLower = isSpace (Char.ofNat code) := by decide
  have both : ∀ c : Char, c.toLower.toLower = c.toLower ∧ isSpace c.toLower = isSpace c := by
    intro c
    by_cases low : c.toNat < 128
    · exact ascii_induction (fun c => c.toLower.toLower = c.toLower ∧
        isSpace c.toLower = isSpace c) ascii low
    · have eq : c.toLower = c := by
        refine dif_neg ?_
        rintro ⟨-, high⟩
        exact low (lt_of_le_of_lt (UInt32.le_iff_toNat_le.mp high) (by decide))
      simp [eq]
  exact ⟨fun c => (both c).1, fun c => (both c).2⟩

theorem trimBoth_trimBoth (cut : Char → Bool) (t : List Char) :
    trimBoth cut (trimBoth cut t) = trimBoth cut t := by
  have headed : (trimBoth cut t).dropWhile cut = trimBoth cut t := by
    cases kept : trimBoth cut t with
    | nil => rfl
    | cons c rest =>
      obtain ⟨tail, all⟩ : c :: rest <+: t.dropWhile cut :=
        kept ▸ rdropWhile_prefix cut (t.dropWhile cut)
      have fst := head?_dropWhile_not cut t
      rw [← all] at fst
      exact dropWhile_cons_of_neg (by simpa using fst)
  calc trimBoth cut (trimBoth cut t)
      = ((trimBoth cut t).dropWhile cut).rdropWhile cut := rfl
    _ = (trimBoth cut t).rdropWhile cut := by rw [headed]
    _ = trimBoth cut t := rdropWhile_idempotent cut _

section

variable {fold : CaseMap} (stable : Stable fold)
include stable

theorem lower_trimSpace_twice (t : String) :
    fold.lower (trimSpace (fold.lower (trimSpace t))) = fold.lower (trimSpace t) := by
  have spaces : isSpace ∘ fold.toLower = isSpace := funext stable.space
  have letters : fold.toLower ∘ fold.toLower = fold.toLower := funext stable.lower
  have move : ∀ t : List Char,
      trimBoth isSpace (t.map fold.toLower) = (trimBoth isSpace t).map fold.toLower := by
    intro t
    simp only [trimBoth, dropWhile_map, spaces, ← map_reverse]
  simp only [CaseMap.lower, trimSpace, String.toList_ofList, move, trimBoth_trimBoth, map_map,
    letters]

theorem normArch_twice (goos arch : String) :
    normArch fold (normArch fold goos arch).1 (normArch fold goos arch).2 =
      normArch fold goos arch := by
  have linux : fold.lower (trimSpace defaultGOOS) = defaultGOOS := lower_eq_self fold (by decide)
  have amd64 : fold.lower (trimSpace defaultGOARCH) = defaultGOARCH :=
    lower_eq_self fold (by decide)
  have same : defaultGOOS ≠ "" ∧ defaultGOARCH ≠ "" := by decide
  simp only [normArch]
  split_ifs <;> simp_all [lower_trimSpace_twice stable]

theorem archOf_eq_norm {table : Enrollments} {ips : List String} {ip : String}
    (ask : ip ∈ ips) : archOf fold (issuedRows table ips) ip =
      normArch fold (devicePlatform table ip).1 (devicePlatform table ip).2 := by
  unfold archOf devicePlatform
  rw [find_issuedRows ask]
  cases table.latest (Enrollment.issuedAt ip) with
  | none => exact (normArch_twice stable "" "").symm
  | some e => rfl

end

/-- Every artifact row names its platform in normal form. -/
def Normal (fold : CaseMap) (catalog : Catalog) : Prop :=
  ∀ a ∈ catalog.artifacts.rows, normArch fold a.goos a.goarch = (a.goos, a.goarch)

section

variable {registry : Registry} {fold : CaseMap} (stable : Stable fold) {catalog : Catalog}

include stable in
theorem step_normal {new : Catalog} {ev : Event} (normal : Normal fold catalog)
    (ran : step registry fold catalog ev = some new) : Normal fold new := by
  intro row mem
  rcases step_cases ran with rfl | ⟨_, -, -, -, eq⟩ | ⟨a, goos, arch, -, rs, -, platform⟩
  · exact normal row mem
  · exact normal row (eq ▸ mem)
  · rw [rs, mem_append, mem_singleton] at mem
    rcases mem with old | rfl
    · exact normal row old
    · have dup := normArch_twice stable goos arch
      rwa [← platform] at dup

include stable in
theorem normal_of_reachable (met : Reachable (step registry fold) .empty catalog) :
    Normal fold catalog := by
  refine met.invariant (Normal fold) ?_ ?_
  · intro a mem
    cases mem
  · intro was ev new normal _ ran
    exact step_normal stable normal ran

theorem lookup_isSome_iff {gen : Int} {r : Release} (normal : Normal fold catalog)
    (seen : catalog.get gen = some r) (goos arch : String) :
    (catalog.lookup fold gen goos arch).isSome = true ↔
      normArch fold goos arch ∈ platformSet fold catalog gen r := by
  unfold Catalog.lookup platformSet
  simp only [seen]
  split_ifs with eq
  · simp [eq]
  · simp only [mem_cons, eq, false_or, Option.isSome_map, Option.isSome_iff_exists,
      Table.find_eq_some_iff, mem_map, mem_filter, beq_iff_eq]
    constructor
    · rintro ⟨a, mem, key⟩
      exact ⟨a, ⟨mem, congrArg Prod.fst key⟩, (normal a mem).trans (congrArg Prod.snd key)⟩
    · rintro ⟨a, ⟨mem, rfl⟩, key⟩
      exact ⟨a, mem, by rw [Artifact.platform, ← key, normal a mem]⟩

end

/-- In every catalog the calls can build, the hosts `ServableFleet` keeps are those
for whose latest issued enrollment Core has a binary of the generation. -/
theorem servableFleet_agrees (registry : Registry) {fold : CaseMap} (stable : Stable fold)
    {catalog : Catalog} (reached : Reachable (step registry fold) .empty catalog)
    (enrollments : Enrollments) (gen : Int) (ips : List String) : (∀ r, catalog.get gen = some r →
      servableFleet registry fold catalog enrollments gen ips none none =
        .ok (ips.filter (served fold catalog enrollments gen),
          (ips.filter fun ip => !served fold catalog enrollments gen ip).map fun ip =>
            let platform := devicePlatform enrollments ip
            let arch := normArch fold platform.1 platform.2
            ⟨ip, arch.1, arch.2⟩)) ∧
      (catalog.get gen = none →
        (∃ text, servableFleet registry fold catalog enrollments gen ips none none =
          .error text) ∧ ∀ ip, served fold catalog enrollments gen ip = false) := by
  have normal := normal_of_reachable stable reached
  refine ⟨?_, ?_⟩
  · intro r known
    have agree : ∀ ip ∈ ips, (platformSet fold catalog gen r).contains
        (archOf fold (issuedRows enrollments ips) ip) = served fold catalog enrollments gen ip := by
      intro ip asked
      rw [Bool.eq_iff_iff, contains_iff_mem, archOf_eq_norm stable asked]
      exact (lookup_isSome_iff normal known _ _).symm
    simp only [servableFleet, known]
    rw [filter_congr agree, filter_congr fun ip asked => congrArg not (agree ip asked)]
    refine congrArg Except.ok (congrArg (Prod.mk _) (map_congr_left ?_))
    intro ip mem
    rw [archOf_eq_norm stable (mem_filter.mp mem).1]
  · intro unknown
    refine ⟨⟨_, by simp only [servableFleet, unknown]; rfl⟩, ?_⟩
    intro ip
    simp [served, Catalog.lookup, unknown]

def twoPlatforms : Enrollments where
  rows := [{ id := 1, status := .issued, overlayIP := "10.0.0.1" },
    { id := 2, status := .issued, overlayIP := "10.0.0.2", goarch := "arm64" }]
  nodup := by decide

theorem servableFleet_agrees_split :
    servableFleet .nebula .plain (rebuiltCatalog 1) twoPlatforms 1 ["10.0.0.1", "10.0.0.2"]
      none none = .ok (["10.0.0.1"], [⟨"10.0.0.2", "linux", "arm64"⟩]) := by
  obtain ⟨r, known⟩ : ∃ r, (rebuiltCatalog 1).get 1 = some r :=
    Option.isSome_iff_exists.mp (by decide)
  rw [(servableFleet_agrees .nebula plain_stable (rebuiltCatalog_reachable 1 (by decide))
    twoPlatforms 1 _).1 r known]
  decide

def rawCatalog : Catalog where
  releases := (rebuiltCatalog 1).releases
  artifacts := ⟨[⟨1, 1, "Linux", "arm64", sampleChecksum, "https://cdn/arm", 2⟩], by decide⟩

/-- An artifact row that was not written by `AddArtifact`: the scan normalises its
platform, the lookup does not find it. -/
theorem raw_artifact_disagrees :
    servableFleet .nebula .plain rawCatalog twoPlatforms 1 ["10.0.0.2"] none none =
      .ok (["10.0.0.2"], []) ∧ served .plain rawCatalog twoPlatforms 1 "10.0.0.2" = false := by
  have rows : issuedRows twoPlatforms ["10.0.0.2"] =
      [{ id := 2, status := .issued, overlayIP := "10.0.0.2", goarch := "arm64" }] := by
    simp [issuedRows, twoPlatforms]
  simp only [servableFleet, rows]
  decide

end Harbor.Releases
