import Harbor.Library.Glob
import Harbor.Trust.Config

/-!
# Who the allowlist lets in

`matchGlob` compares the first part of a pattern at the start, the last at the
end and takes each part between at its leftmost place.  It accepts exactly the
texts the pattern expands to, so `Check` is membership in the listed languages.
-/

namespace Harbor.AwsAttest

open Library.Text List

theorem matchParts_iff_gaps (late : parts ≠ []) : matchParts parts t = true ↔ Gaps parts t := by
  induction parts generalizing t with
  | nil => exact absurd rfl late
  | cons part parts ih =>
    cases parts with
    | nil =>
      simp only [matchParts, isSuffixOf_iff_suffix, Gaps]
      constructor
      · rintro ⟨filler, rfl⟩
        exact ⟨filler, [], by simp, rfl⟩
      · rintro ⟨filler, rest, rfl, rfl⟩
        exact ⟨filler, by simp⟩
    | cons next parts =>
      have more : next :: parts ≠ [] := cons_ne_nil _ _
      rw [matchParts]
      constructor
      · intro matched
        split at matched
        · cases matched
        · rename_i rest hit
          obtain ⟨filler, rfl⟩ := afterFirst_eq_some hit
          exact ⟨filler, rest, rfl, (ih more).mp matched⟩
      · rintro ⟨filler, rest, rfl, gaps⟩
        obtain ⟨longest, hit, suffix⟩ := exists_afterFirst part filler rest
        rw [hit]
        exact (ih more).mpr (gaps.of_suffix more suffix)
      · exact more

theorem matchGlob_iff_expands (pat t : String) :
    matchGlob pat t = true ↔ Expands '*' pat.toList t.toList := by
  rw [expands_iff_spells, matchGlob]
  split
  · rename_i split
    exact absurd split (splitOn_ne_nil _ _)
  · rename_i only split
    have whole : ['*'].intercalate (pat.toList.splitOn '*') = pat.toList := intercalate_splitOn '*'
    rw [split, intercalate_singleton] at whole
    rw [split, beq_iff_eq, ← String.toList_inj, ← whole]
    simp [Spells, Gaps, eq_comm]
  · rename_i first parts late split
    have more : parts ≠ [] := late
    rw [Bool.and_eq_true, isPrefixOf_iff_prefix, matchParts_iff_gaps more, split]
    constructor
    · rintro ⟨⟨rest, whole⟩, gaps⟩
      rw [← whole, drop_left] at gaps
      exact ⟨rest, whole.symm, gaps⟩
    · rintro ⟨rest, whole, gaps⟩
      rw [whole, drop_left]
      exact ⟨prefix_append _ _, gaps⟩

/-- `matchGlob` accepts a text exactly when it is the pattern with each asterisk
replaced by some text, and `Check` an identity exactly when its account is listed
or none is, and its ARN is such a text of a listed pattern or none is. -/
theorem check_iff_listed :
    (∀ pattern text, matchGlob pattern text = true ↔ Expands '*' pattern.toList text.toList) ∧
      ∀ (gate : Policy) (id : Identity), gate.check id = .ok () ↔
        (gate.accounts = [] ∨ id.account ∈ gate.accounts) ∧ (gate.arnPatterns = [] ∨
            ∃ pattern ∈ gate.arnPatterns, Expands '*' pattern.toList id.arn.toList) := by
  refine ⟨matchGlob_iff_expands, ?_⟩
  intro gate id
  have accounts : (!gate.accounts.isEmpty && !gate.accounts.contains id.account) = true ↔
      ¬(gate.accounts = [] ∨ id.account ∈ gate.accounts) := by simp
  have arns : (!gate.arnPatterns.isEmpty && !gate.arnPatterns.any (matchGlob · id.arn)) = true ↔
      ¬(gate.arnPatterns = [] ∨
        ∃ pattern ∈ gate.arnPatterns, Expands '*' pattern.toList id.arn.toList) := by
    simp [← matchGlob_iff_expands]
  unfold Policy.check
  split_ifs with account arn
  · exact iff_of_false (by simp) fun both => accounts.mp account both.1
  · exact iff_of_false (by simp) fun both => arns.mp arn both.2
  · exact iff_of_true rfl ⟨not_not.mp fun out => account (accounts.mpr out),
      not_not.mp fun out => arn (arns.mpr out)⟩

end Harbor.AwsAttest
