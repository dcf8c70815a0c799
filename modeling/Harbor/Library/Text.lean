import Mathlib.Data.List.Basic

/-!
# Text operations of the Go standard library

The functions of `strings` and `unicode` the modelled packages use, on the
sequence of code points of a string.
-/

namespace Harbor.Library.Text

open List

/-- `unicode.IsSpace`: the Latin-1 spaces and the code points with property
White_Space. -/
def isSpace (c : Char) : Bool :=
  c == '\t' || c == '\n' || c == '\x0b' || c == '\x0c' || c == '\r' ||
    c == ' ' || c == '\u0085' || c == '\u00a0' || c == '\u1680' ||
    ('\u2000' ≤ c && c ≤ '\u200a') || c == '\u2028' || c == '\u2029' ||
    c == '\u202f' || c == '\u205f' || c == '\u3000'

/-- Drop the elements satisfying `drops` from both ends. -/
def trimBoth (drops : Char → Bool) (text : List Char) : List Char :=
  ((text.dropWhile drops).reverse.dropWhile drops).reverse

/-- `strings.TrimSpace`. -/
def trimSpace (text : String) : String :=
  String.ofList (trimBoth isSpace text.toList)

/-- `unicode.ToLower`.  Only its ASCII part is fixed: what the tables say about
other code points is left open. -/
structure CaseMap where
  toLower : Char → Char
  ascii : ∀ c, c.toNat < 128 → toLower c = c.toLower

def CaseMap.plain : CaseMap where
  toLower := Char.toLower
  ascii _ _ := rfl

/-- `strings.ToLower`. -/
def CaseMap.lower (fold : CaseMap) (text : String) : String :=
  String.ofList (text.toList.map fold.toLower)

/-- The text after the first occurrence of `marker`. -/
def afterFirst (marker : List Char) : List Char → Option (List Char)
  | [] => if marker.isPrefixOf [] then some [] else none
  | c :: rest =>
    if marker.isPrefixOf (c :: rest) then
      some ((c :: rest).drop marker.length)
    else afterFirst marker rest

theorem ascii_induction (holds : Char → Prop)
    (all : ∀ code < 128, holds (Char.ofNat code)) {c : Char} (small : c.toNat < 128) : holds c := by
  have atCode := all c.toNat small
  rwa [Char.ofNat_toNat] at atCode

theorem lower_eq_self {text : String} (fold : CaseMap) (small : text.toList.all (fun c =>
      decide (c.toNat < 128) && c.toLower == c) = true) :
    fold.lower text = text := by
  have kept : text.toList.map fold.toLower = text.toList := by
    refine (map_congr_left ?_).trans (map_id _)
    intro c mem
    have both := all_eq_true.mp small c mem
    simp only [Bool.and_eq_true, decide_eq_true_eq, beq_iff_eq] at both
    exact (fold.ascii c both.1).trans both.2
  unfold CaseMap.lower
  rw [kept]
  exact String.ofList_toList

end Harbor.Library.Text
