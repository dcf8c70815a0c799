import Harbor.Policy.Analysis
import Mathlib.Data.List.Nodup
import Mathlib.Data.Prod.Lex
import Mathlib.Data.String.Basic

/-!
# The difference of two policies as a difference of sets

A policy names a set of tuples: source group, target group, protocol and
canonical port.  `FlowDiff` walks the group pairs of both policies and compares
texts; its two lists are the two differences of these sets.
-/

namespace Harbor.Firewall

open Library List

variable {active draft left right : Policy} {d : FlowDelta}

theorem nodup_deltas (left right : Policy) (pair : String × String) :
    (deltas left right pair).Nodup :=
  ((nodup_distinctBy _ _).filter _).map fun _ _ same => congrArg FlowDelta.flow same

/-! ## The pairs -/

theorem pairLe_iff : pairLe one alt = true ↔ toLex one ≤ toLex alt := by
  rw [Prod.Lex.toLex_le_toLex, pairLe]
  split_ifs with same
  · simp [same]
  · simp [same]

theorem nodup_unionLiteralPairs (active draft : Policy) : (unionLiteralPairs active draft).Nodup :=
  (mergeSort_perm _ _).nodup_iff.mpr (nodup_distinctBy _ _)

theorem unionLiteralPairs_comm :
    unionLiteralPairs draft active = unionLiteralPairs active draft := by
  have total : ∀ one alt, (pairLe one alt || pairLe alt one) = true := by
    intro one alt
    simp only [Bool.or_eq_true, pairLe_iff]
    exact le_total _ _
  have ord : ∀ pairs : List (String × String),
      (pairs.mergeSort pairLe).Pairwise fun one alt => pairLe one alt = true :=
    pairwise_mergeSort (fun _ _ _ fst snd => pairLe_iff.mpr
      (le_trans (pairLe_iff.mp fst) (pairLe_iff.mp snd))) total
  refine Perm.eq_of_pairwise ?_ (ord _) (ord _) ?_
  · intro one alt _ _ fst snd
    exact toLex.injective (le_antisymm (pairLe_iff.mp fst) (pairLe_iff.mp snd))
  · refine (perm_ext_iff_of_nodup (nodup_unionLiteralPairs _ _)
      (nodup_unionLiteralPairs _ _)).mpr ?_
    intro pair
    simp only [unionLiteralPairs, mem_mergeSort, mem_distinctBy_id, map_append, mem_append]
    exact or_comm

/-! ## The two lists -/

theorem mem_flatMap_deltas (okL : validate left = none) (okR : validate right = none)
    (named : ∀ r ∈ left.rules, (r.fromGroup, r.toGroup) ∈ unionLiteralPairs active draft) :
    d ∈ (unionLiteralPairs active draft).flatMap (deltas left right) ↔
      d ∈ tuples left \ tuples right := by
  simp only [mem_flatMap, mem_deltas okL okR]
  constructor
  · rintro ⟨pair, -, -, mem⟩
    exact mem
  · rintro ⟨⟨r, listed, rfl⟩, unnamed⟩
    exact ⟨_, named r listed, rfl, ⟨r, listed, rfl⟩, unnamed⟩

theorem nodup_flatMap_deltas (okL : validate left = none) (okR : validate right = none) :
    ((unionLiteralPairs active draft).flatMap (deltas left right)).Nodup := by
  refine nodup_flatMap.mpr ⟨fun pair _ => nodup_deltas left right pair, ?_⟩
  refine (nodup_unionLiteralPairs active draft).imp ?_
  intro one alt ne d fst snd
  exact ne (((mem_deltas okL okR).mp fst).1.symm.trans ((mem_deltas okL okR).mp snd).1)

section

variable (activeValid : validate active = none) (draftValid : validate draft = none)
include activeValid draftValid

theorem mem_added : d ∈ (flowDiff active draft).added ↔ d ∈ tuples draft \ tuples active :=
  mem_flatMap_deltas draftValid activeValid fun _ mem => mem_unionLiteralPairs (.inr mem)

theorem mem_removed : d ∈ (flowDiff active draft).removed ↔ d ∈ tuples active \ tuples draft :=
  mem_flatMap_deltas activeValid draftValid fun _ mem => mem_unionLiteralPairs (.inl mem)

theorem flowDiff_nodup :
    (flowDiff active draft).added.Nodup ∧ (flowDiff active draft).removed.Nodup :=
  ⟨nodup_flatMap_deltas draftValid activeValid, nodup_flatMap_deltas activeValid draftValid⟩

theorem flowDiff_empty_iff : (flowDiff active draft).added = [] ∧
      (flowDiff active draft).removed = [] ↔ tuples active = tuples draft := by
  simp only [eq_nil_iff_forall_not_mem, mem_added activeValid draftValid,
    mem_removed activeValid draftValid, Set.mem_sdiff, not_and, not_not]
  exact ⟨fun both => Set.Subset.antisymm both.2 both.1,
    fun same => ⟨fun _ mem => same ▸ mem, fun _ mem => same ▸ mem⟩⟩

theorem flowDiff_perm (activeValid' : validate active' = none)
    (draftValid' : validate draft' = none) (sameActive : tuples active' = tuples active)
    (sameDraft : tuples draft' = tuples draft) :
    (flowDiff active' draft').added.Perm (flowDiff active draft).added ∧
      (flowDiff active' draft').removed.Perm (flowDiff active draft).removed := by
  have once := flowDiff_nodup activeValid draftValid
  have onceToo := flowDiff_nodup activeValid' draftValid'
  refine ⟨(perm_ext_iff_of_nodup onceToo.1 once.1).mpr ?_,
    (perm_ext_iff_of_nodup onceToo.2 once.2).mpr ?_⟩
  · intro d
    rw [mem_added activeValid' draftValid', mem_added activeValid draftValid, sameActive, sameDraft]
  · intro d
    rw [mem_removed activeValid' draftValid', mem_removed activeValid draftValid, sameActive,
      sameDraft]

end

theorem flowDiff_swap (active draft : Policy) :
    flowDiff draft active = ⟨(flowDiff active draft).removed, (flowDiff active draft).added⟩ := by
  unfold flowDiff
  rw [unionLiteralPairs_comm]

/-- Between two policies that `Validate` accepts, `FlowDiff` lists exactly the
tuples of one and not of the other, each once. -/
theorem flowDiff_exact {active draft : Policy} (activeValid : validate active = none)
    (draftValid : validate draft = none) :
    ((∀ d, d ∈ (flowDiff active draft).added ↔ d ∈ tuples draft \ tuples active) ∧
      (flowDiff active draft).added.Nodup) ∧
    ((∀ d, d ∈ (flowDiff active draft).removed ↔ d ∈ tuples active \ tuples draft) ∧
      (flowDiff active draft).removed.Nodup) ∧
    flowDiff draft active = ⟨(flowDiff active draft).removed, (flowDiff active draft).added⟩ ∧
    ((flowDiff active draft).added = [] ∧ (flowDiff active draft).removed = [] ↔
      tuples active = tuples draft) ∧
    ∀ active' draft', validate active' = none → validate draft' = none →
      tuples active' = tuples active → tuples draft' = tuples draft →
      (flowDiff active' draft').added.Perm (flowDiff active draft).added ∧
        (flowDiff active' draft').removed.Perm (flowDiff active draft).removed := by
  have once := flowDiff_nodup activeValid draftValid
  refine ⟨⟨fun d => mem_added activeValid draftValid, once.1⟩,
    ⟨fun d => mem_removed activeValid draftValid, once.2⟩, flowDiff_swap active draft,
    flowDiff_empty_iff activeValid draftValid, ?_⟩
  intro active' draft' activeValid' draftValid'
  exact flowDiff_perm activeValid draftValid activeValid' draftValid'

/-- The range of one port and the port are one tuple; another port is added. -/
theorem flowDiff_exact_single_port :
    let active : Policy := ⟨0, [⟨"web", "db", "tcp", "5432"⟩]⟩
    let draft : Policy :=
      ⟨1, [⟨"web", "db", "tcp", "5432-5432"⟩, ⟨"web", "db", "udp", "53"⟩]⟩
    ⟨"web", "db", "udp", "53"⟩ ∈ (flowDiff active draft).added ∧
      ⟨"web", "db", "tcp", "5432"⟩ ∉ (flowDiff active draft).added := by
  intro active draft
  have added := (@flowDiff_exact active draft (by decide) (by decide)).1.1
  have kept : (⟨"web", "db", "tcp", "5432"⟩ : FlowDelta) ∈ tuples active :=
    ⟨_, mem_singleton_self _, by decide⟩
  refine ⟨(added _).mpr ⟨⟨⟨"web", "db", "udp", "53"⟩, by simp [draft], by decide⟩, ?_⟩, ?_⟩
  · rintro ⟨r, listed, same⟩
    rw [mem_singleton.mp listed] at same
    exact absurd same (by decide)
  · intro shown
    exact ((added _).mp shown).2 kept

/-- The protocol `tcp|80` with port `1` has the key of `tcp` with the port `80|1`; neither
passes `Validate`. -/
theorem barred_tuple_missed :
    let active : Policy := ⟨0, [⟨"a", "b", "tcp|80", "1"⟩]⟩
    let draft : Policy := ⟨1, [⟨"a", "b", "tcp", "80|1"⟩]⟩
    ⟨"a", "b", "tcp", "80|1"⟩ ∈ tuples draft \ tuples active ∧
      (flowDiff active draft).added = [] := by
  refine ⟨⟨⟨_, mem_singleton_self _, by decide⟩, ?_⟩, ?_⟩
  · rintro ⟨r, mem, same⟩
    rw [mem_singleton.mp mem] at same
    exact absurd same (by decide)
  · have hidden : deltas ⟨1, [⟨"a", "b", "tcp", "80|1"⟩]⟩ ⟨0, [⟨"a", "b", "tcp|80", "1"⟩]⟩
        ("a", "b") = [] := by decide
    simp [flowDiff, unionLiteralPairs, distinctBy, distinctFrom, hidden]

end Harbor.Firewall
