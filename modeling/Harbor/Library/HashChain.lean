import Mathlib.Data.List.Basic
import Mathlib.Data.List.Induction

/-!
# Hash chains

The rows of a chain are numbered in turn, each carries the hash of the one
before it, and its own hash is the stamp of its content.  When no two rows of
one number share a stamp, a chain is determined by its length and its last hash.
-/

namespace Harbor.Library

open List

variable {Row Digest : Type*}

/-- What a chain reads in a row: its number, the hash it points to, the hash it
carries and the hash its content has. -/
structure ChainView (Row Digest : Type*) where
  number : Row → Int
  previous : Row → Digest
  hash : Row → Digest
  stamp : Row → Digest

namespace ChainView

variable (view : ChainView Row Digest)

def Linked (start : Digest) (next : Int) : List Row → Prop
  | [] => True
  | row :: rest =>
    view.number row = next ∧ view.previous row = start ∧
      view.hash row = view.stamp row ∧ Linked (view.hash row) (next + 1) rest

def tip (start : Digest) (rows : List Row) : Digest :=
  (rows.getLast?.map view.hash).getD start

variable {view} {init : Digest} {next : Int} {rows left right : List Row} {row : Row}

@[simp]
theorem tip_concat : view.tip init (rows ++ [row]) = view.hash row := by
  simp [tip]

@[simp]
theorem tip_cons : view.tip init (row :: rows) = view.tip (view.hash row) rows := by
  cases rows with
  | nil => rfl
  | cons snd rest => simp [tip, List.getLast?_cons]

theorem linked_concat : view.Linked init next (rows ++ [row]) ↔
      view.Linked init next rows ∧ view.number row = next + rows.length ∧
        view.previous row = view.tip init rows ∧ view.hash row = view.stamp row := by
  induction rows generalizing init next with
  | nil => simp [Linked, tip]
  | cons first rest ih =>
    simp only [cons_append, Linked, ih, tip_cons, length_cons]
    have moved : next + 1 + (rest.length : Int) =
        next + ((rest.length + 1 : Nat) : Int) := by omega
    rw [moved]
    simp only [and_assoc]

theorem Linked.number_mem (linked : view.Linked init next rows) (mem : row ∈ rows) :
    next ≤ view.number row ∧ view.number row < next + rows.length := by
  induction rows generalizing init next with
  | nil => cases mem
  | cons first rest ih =>
    obtain ⟨numbered, _, _, others⟩ := linked
    rw [length_cons]
    rcases mem_cons.mp mem with rfl | later
    · omega
    · have bounds := ih others later
      omega

theorem Linked.pairwise_lt (linked : view.Linked init next rows) :
    rows.Pairwise fun left right => view.number left < view.number right := by
  induction rows generalizing init next with
  | nil => exact .nil
  | cons first tail ih =>
    obtain ⟨numbered, _, _, rest⟩ := linked
    refine .cons ?_ (ih rest)
    intro row mem
    have bounds := rest.number_mem mem
    omega

theorem Linked.eq_of_tip_eq (determined : ∀ one ∈ left, ∀ two ∈ right,
      view.number one = view.number two → view.hash one = view.hash two →
      view.stamp one = view.stamp two → one = two) (lLink : view.Linked init next left)
    (rLink : view.Linked init next right) (lengths : left.length = right.length)
    (tips : view.tip init left = view.tip init right) : left = right := by
  induction left using List.reverseRecOn generalizing right with
  | nil => exact (length_eq_zero_iff.mp lengths.symm).symm
  | append_singleton front last ih =>
    rcases eq_nil_or_concat' right with rfl | ⟨rest, final, rfl⟩
    · simp at lengths
    · rw [tip_concat, tip_concat] at tips
      obtain ⟨frontLinked, lastNumber, lastPrevious, lastStamped⟩ := linked_concat.mp lLink
      obtain ⟨othersLinked, finalNumber, finalPrevious, finalStamped⟩ := linked_concat.mp rLink
      have short : front.length = rest.length := by
        simpa using lengths
      have numbers : view.number last = view.number final := by
        rw [lastNumber, finalNumber, short]
      have stamps : view.stamp last = view.stamp final := by
        rw [← lastStamped, ← finalStamped, tips]
      have eq := determined last (by simp) final (by simp) numbers tips stamps
      subst eq
      have fronts := ih (fun one here two there =>
          determined one (mem_append_left _ here) two (mem_append_left _ there))
        frontLinked othersLinked short
        (lastPrevious.symm.trans finalPrevious)
      rw [fronts]

end ChainView

end Harbor.Library
