import Mathlib.Data.List.Basic

/-!
# Keeping the first of each key

A loop that skips an element whose key it has seen, and the keys such loops
build: texts joined by a separator that the leading parts do not contain.
-/

namespace Harbor.Library

open List

variable {Item Key : Type*} [DecidableEq Key]

def distinctFrom (key : Item → Key) : List Key → List Item → List Item
  | _, [] => []
  | seen, item :: rest =>
    if key item ∈ seen then distinctFrom key seen rest
    else item :: distinctFrom key (key item :: seen) rest

def distinctBy (key : Item → Key) (items : List Item) : List Item :=
  distinctFrom key [] items

variable {key : Item → Key} {seen : List Key} {xs : List Item} {item : Item}

theorem mem_of_mem_distinctFrom (mem : item ∈ distinctFrom key seen xs) : item ∈ xs := by
  induction xs generalizing seen with
  | nil => cases mem
  | cons head rest ih =>
    simp only [distinctFrom] at mem
    split at mem
    · exact mem_cons_of_mem _ (ih mem)
    · rcases mem_cons.mp mem with rfl | later
      · exact mem_cons_self
      · exact mem_cons_of_mem _ (ih later)

theorem exists_mem_distinctFrom (mem : item ∈ xs) (new : key item ∉ seen) :
    ∃ kept ∈ distinctFrom key seen xs, key kept = key item := by
  induction xs generalizing seen with
  | nil => cases mem
  | cons head rest ih =>
    simp only [distinctFrom]
    by_cases same : key item = key head
    · rw [if_neg (same ▸ new)]
      exact ⟨head, mem_cons_self, same.symm⟩
    · have later : item ∈ rest := by
        rcases mem_cons.mp mem with rfl | later
        · exact absurd rfl same
        · exact later
      split
      · exact ih later new
      · obtain ⟨kept, listed, named⟩ := ih later (not_mem_cons_of_ne_of_not_mem same new)
        exact ⟨kept, mem_cons_of_mem _ listed, named⟩

theorem key_unseen_of_mem_distinctFrom (mem : item ∈ distinctFrom key seen xs) :
    key item ∉ seen := by
  induction xs generalizing seen with
  | nil => cases mem
  | cons head rest ih =>
    simp only [distinctFrom] at mem
    split at mem
    · exact ih mem
    · rename_i new
      rcases mem_cons.mp mem with rfl | later
      · exact new
      · exact not_mem_of_not_mem_cons (ih later)

theorem distinctFrom_pairwise (key : Item → Key) (seen : List Key) (xs : List Item) :
    (distinctFrom key seen xs).Pairwise fun l r => key l ≠ key r := by
  induction xs generalizing seen with
  | nil => exact .nil
  | cons head rest ih =>
    simp only [distinctFrom]
    split
    · exact ih seen
    · refine .cons ?_ (ih _)
      intro late mem
      exact (ne_of_not_mem_cons (key_unseen_of_mem_distinctFrom mem)).symm

theorem nodup_distinctBy (key : Item → Key) (xs : List Item) : (distinctBy key xs).Nodup :=
  (distinctFrom_pairwise key [] xs).imp fun ne eq => ne (congrArg key eq)

theorem mem_of_mem_distinctBy (mem : item ∈ distinctBy key xs) : item ∈ xs :=
  mem_of_mem_distinctFrom mem

theorem exists_mem_distinctBy (mem : item ∈ xs) : ∃ kept ∈ distinctBy key xs, key kept = key item :=
  exists_mem_distinctFrom mem not_mem_nil

theorem mem_distinctBy_iff (off : ∀ l ∈ xs, ∀ r ∈ xs,
      key l = key r → l = r) : item ∈ distinctBy key xs ↔ item ∈ xs := by
  refine ⟨mem_of_mem_distinctBy, ?_⟩
  intro mem
  obtain ⟨kept, listed, same⟩ := @exists_mem_distinctBy _ _ _ key _ _ mem
  exact off kept (mem_of_mem_distinctBy listed) item mem same ▸ listed

theorem mem_distinctBy_id [DecidableEq Item] : item ∈ distinctBy id xs ↔ item ∈ xs :=
  mem_distinctBy_iff fun _ _ _ _ eq => eq

theorem append_separator_inj {Symbol : Type*} {sep : Symbol}
    {l r leftRest rightRest : List Symbol} (leftClean : sep ∉ l) (rightClean : sep ∉ r)
    (eq : l ++ sep :: leftRest = r ++ sep :: rightRest) : l = r ∧ leftRest = rightRest := by
  induction l generalizing r with
  | nil =>
    cases r with
    | nil => exact ⟨rfl, (List.cons.inj eq).2⟩
    | cons symbol r => exact absurd (List.cons.inj eq).1 (ne_of_not_mem_cons rightClean)
  | cons symbol l ih =>
    cases r with
    | nil => exact absurd (List.cons.inj eq).1.symm (ne_of_not_mem_cons leftClean)
    | cons o r =>
      obtain ⟨rfl, rest⟩ := List.cons.inj eq
      obtain ⟨rfl, tails⟩ := ih (not_mem_of_not_mem_cons leftClean)
        (not_mem_of_not_mem_cons rightClean) rest
      exact ⟨rfl, tails⟩

end Harbor.Library
