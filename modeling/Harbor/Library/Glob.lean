import Harbor.Library.Text

/-!
# Patterns with wildcards

What a pattern stands for, with a symbol that any text may replace, and the
same language read off the parts between the wildcards.  The first occurrence
of a part leaves the longest rest, so searching from the left misses nothing.
-/

namespace Harbor.Library.Text

open List

variable {Symbol : Type*}

/-- The text a pattern becomes when each `star` is replaced by some text. -/
inductive Expands (star : Symbol) : List Symbol → List Symbol → Prop where
  | done : Expands star [] []
  | star (filler : List Symbol) {pattern text : List Symbol} (rest : Expands star pattern text) :
      Expands star (star :: pattern) (filler ++ text)
  | same {c : Symbol} {pattern text : List Symbol} (literal : c ≠ star)
      (rest : Expands star pattern text) : Expands star (c :: pattern) (c :: text)

/-- The text after the first part: a filler before each of the later ones. -/
def Gaps : List (List Symbol) → List Symbol → Prop
  | [], text => text = []
  | part :: parts, text => ∃ filler rest, text = filler ++ (part ++ rest) ∧ Gaps parts rest

/-- The texts of a pattern with these parts between its wildcards. -/
def Spells : List (List Symbol) → List Symbol → Prop
  | [], _ => False
  | first :: parts, text => ∃ rest, text = first ++ rest ∧ Gaps parts rest

variable {parts : List (List Symbol)} {text : List Symbol}

theorem gaps_iff_spells (late : parts ≠ []) :
    Gaps parts text ↔ ∃ pad tail, text = pad ++ tail ∧ Spells parts tail := by
  cases parts with
  | nil => exact absurd rfl late
  | cons part parts =>
    constructor
    · rintro ⟨pad, rest, rfl, gaps⟩
      exact ⟨pad, _, rfl, rest, rfl, gaps⟩
    · rintro ⟨pad, _, rfl, rest, rfl, gaps⟩
      exact ⟨pad, rest, rfl, gaps⟩

theorem Gaps.of_suffix (late : parts ≠ []) (gaps : Gaps parts text)
    (suffix : text <:+ long) : Gaps parts long := by
  obtain ⟨pad, tail, rfl, spells⟩ := (gaps_iff_spells late).mp gaps
  obtain ⟨front, rfl⟩ := suffix
  exact (gaps_iff_spells late).mpr ⟨front ++ pad, tail, (append_assoc ..).symm, spells⟩

section

variable {star c : Symbol} {pat : List Symbol}

theorem expands_nil : Expands star [] text ↔ text = [] := by
  constructor
  · rintro ⟨⟩
    rfl
  · rintro rfl
    exact .done

theorem expands_star : Expands star (star :: pat) text ↔
      ∃ pad tail, text = pad ++ tail ∧ Expands star pat tail := by
  constructor
  · rintro (_ | ⟨pad, rest⟩ | ⟨literal, _⟩)
    · exact ⟨pad, _, rfl, rest⟩
    · exact absurd rfl literal
  · rintro ⟨pad, tail, rfl, rest⟩
    exact .star pad rest

theorem expands_literal (literal : c ≠ star) : Expands star (c :: pat) text ↔
      ∃ tail, text = c :: tail ∧ Expands star pat tail := by
  constructor
  · rintro (_ | _ | ⟨_, rest⟩)
    · exact absurd rfl literal
    · exact ⟨_, rfl, rest⟩
  · rintro ⟨tail, rfl, rest⟩
    exact .same literal rest

theorem expands_iff_spells [DecidableEq Symbol] :
    Expands star pat text ↔ Spells (pat.splitOn star) text := by
  induction pat generalizing text with
  | nil => simp [expands_nil, Spells, Gaps]
  | cons c pat ih =>
    rw [splitOn_cons_eq_if_modifyHead]
    by_cases wild : c = star
    · subst wild
      rw [if_pos (beq_self_eq_true c), expands_star]
      simp only [ih, ← gaps_iff_spells (splitOn_ne_nil c pat)]
      simp [Spells]
    · rw [if_neg (by simpa using wild), expands_literal wild]
      simp only [ih]
      cases split : pat.splitOn star with
      | nil => exact absurd split (splitOn_ne_nil _ _)
      | cons first parts =>
        constructor
        · rintro ⟨_, rfl, rest, rfl, gaps⟩
          exact ⟨rest, rfl, gaps⟩
        · rintro ⟨rest, rfl, gaps⟩
          exact ⟨_, rfl, rest, rfl, gaps⟩

end

/-! ## The leftmost occurrence -/

section

variable {marker text : List Char}

theorem afterFirst_eq_some (hit : afterFirst marker text = some rest) :
    ∃ pad, text = pad ++ (marker ++ rest) := by
  have cut : ∀ {text : List Char}, marker.isPrefixOf text = true →
      marker ++ text.drop marker.length = text := fun {text} found =>
    prefix_iff_eq_append.mp <| isPrefixOf_iff_prefix.mp found
  induction text with
  | nil =>
    simp only [afterFirst] at hit
    split_ifs at hit with found
    cases hit
    exact ⟨[], by simpa using (cut found).symm⟩
  | cons c text ih =>
    simp only [afterFirst] at hit
    split_ifs at hit with found
    · cases hit
      exact ⟨[], (cut found).symm⟩
    · obtain ⟨pad, rfl⟩ := ih hit
      exact ⟨c :: pad, rfl⟩

/-- The first occurrence leaves a rest that the rest after any other one ends. -/
theorem exists_afterFirst (marker pad rest : List Char) :
    ∃ longest, afterFirst marker (pad ++ (marker ++ rest)) = some longest ∧ rest <:+ longest := by
  induction pad with
  | nil =>
    have hit : marker.isPrefixOf (marker ++ rest) = true := by simp
    refine ⟨rest, ?_, suffix_rfl⟩
    cases whole : marker ++ rest with
    | nil =>
      obtain ⟨rfl, rfl⟩ := append_eq_nil_iff.mp whole
      rfl
    | cons c text => rw [nil_append, afterFirst, if_pos (whole ▸ hit), ← whole, drop_left]
  | cons c pad ih =>
    rw [cons_append, afterFirst]
    split_ifs with hit
    · refine ⟨_, rfl, suffix_of_suffix_length_le
        (show rest <:+ c :: (pad ++ (marker ++ rest)) from ⟨c :: (pad ++ marker), by simp⟩)
        (drop_suffix _ _) ?_⟩
      simp only [length_drop, length_cons, length_append]
      omega
    · exact ih

end

end Harbor.Library.Text
