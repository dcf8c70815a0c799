import Mathlib.Data.List.Infix

/-!
# Name patterns of a bulk regrouping

`regroupCandidates` hands the operator's glob to the database as a `LIKE`
pattern.  Each character of the glob becomes one element of that pattern: a
wildcard, or a character that stands for itself, escaped where it must be.
-/

namespace Harbor.Groups

open List

/-- The names a glob stands for. -/
def Globs : List Char → List Char → Prop
  | [], name => name = []
  | c :: glob, name =>
    if c = '*' then ∃ rest, rest <:+ name ∧ Globs glob rest
    else if c = '?' then ∃ one rest, name = one :: rest ∧ Globs glob rest
    else ∃ rest, name = c :: rest ∧ Globs glob rest

/-- `name LIKE pattern ESCAPE '\'`, case sensitive.  An escape that ends the
pattern matches nothing. -/
def like : List Char → List Char → Bool
  | [], name => name.isEmpty
  | c :: pattern, name =>
    if c = '%' then name.tails.any (like pattern)
    else if c = '_' then
      match name with
      | [] => false
      | _ :: name => like pattern name
    else if c = '\\' then
      match pattern with
      | [] => false
      | literal :: pattern => name.head? == some literal && like pattern name.tail
    else name.head? == some c && like pattern name.tail

def likeOf (r : Char) : List Char :=
  if r = '*' then ['%']
  else if r = '?' then ['_']
  else if r = '%' ∨ r = '_' ∨ r = '\\' then ['\\', r]
  else [r]

def globToLike (glob : String) : String :=
  String.ofList (glob.toList.flatMap likeOf)

section

variable {c : Char} {pat name : List Char}

theorem head?_and_tail {p : List Char → Bool} :
    (name.head? == some c && p name.tail) = true ↔ ∃ rest, name = c :: rest ∧ p rest = true := by
  cases name <;> simp

theorem like_percent :
    like ('%' :: pat) name = true ↔ ∃ rest, rest <:+ name ∧ like pat rest = true := by
  rw [like.eq_def]
  simp

theorem like_underscore : like ('_' :: pat) name = true ↔
    ∃ one rest, name = one :: rest ∧ like pat rest = true := by
  rw [like.eq_def]
  cases name <;> simp

/-- A character that stands for itself is read back by one step of `LIKE`. -/
theorem like_literal (star : c ≠ '*') (question : c ≠ '?') :
    like (likeOf c ++ pat) name = true ↔ ∃ rest, name = c :: rest ∧ like pat rest = true := by
  rw [likeOf, if_neg star, if_neg question]
  split_ifs with special
  · exact head?_and_tail
  · obtain ⟨percent, underscore, escape⟩ : c ≠ '%' ∧ c ≠ '_' ∧ c ≠ '\\' := by
      simpa only [not_or] using special
    rw [singleton_append, like.eq_def]
    simp only [if_neg percent, if_neg underscore, if_neg escape]
    exact head?_and_tail

end

/-- A name matches the `LIKE` pattern made from a glob iff it matches the glob. -/
theorem like_globToLike (glob name : String) :
    like (globToLike glob).toList name.toList = true ↔ Globs glob.toList name.toList := by
  rw [globToLike, String.toList_ofList]
  generalize glob.toList = glob
  generalize name.toList = name
  induction glob generalizing name with
  | nil => exact isEmpty_iff
  | cons c glob ih =>
    rw [flatMap_cons, Globs]
    simp only [← ih]
    split_ifs with star question
    · rw [star]
      exact like_percent
    · rw [question]
      exact like_underscore
    · exact like_literal star question

end Harbor.Groups
