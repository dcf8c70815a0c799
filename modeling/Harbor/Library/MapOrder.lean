import Mathlib.Data.List.Induction
import Mathlib.Data.List.Perm.Basic

/-!
# Maps built by iterating another map

A loop `for k, v := range m { out[rename k] = v }` visits the entries of `m`
in an order the runtime chooses, and a later write wins.  `collect` is the map
such a loop builds for one order.  Two loops over the same map may see two
different orders.
-/

namespace Harbor.Library

open List

variable {Key Name Value : Type*} [DecidableEq Name]

def collect (rename : Key → Name) (order : List (Key × Value)) : Name → Option Value :=
  order.foldl (fun built entry => Function.update built (rename entry.1) (some entry.2))
    (fun _ => none)

section

variable {rename : Key → Name} {order : List (Key × Value)} {name : Name}

theorem collect_append_singleton (entry : Key × Value) : collect rename (order ++ [entry]) =
      Function.update (collect rename order) (rename entry.1) (some entry.2) := by
  simp [collect, foldl_append]

theorem mem_of_collect_eq_some (hit : collect rename order name = some val) :
    ∃ entry ∈ order, rename entry.1 = name ∧ entry.2 = val := by
  induction order using List.reverseRecOn with
  | nil => simp [collect] at hit
  | append_singleton order entry ih =>
    rw [collect_append_singleton] at hit
    by_cases eq : name = rename entry.1
    · subst name
      simp only [Function.update_self, Option.some.injEq] at hit
      exact ⟨entry, by simp, rfl, hit⟩
    · rw [Function.update_of_ne eq] at hit
      obtain ⟨old, mem, moved, equality⟩ := ih hit
      exact ⟨old, by simp [mem], moved, equality⟩

theorem collect_eq_none_iff : collect rename order name = none ↔
      ∀ entry ∈ order, rename entry.1 ≠ name := by
  induction order using List.reverseRecOn with
  | nil => simp [collect]
  | append_singleton order entry ih =>
    rw [collect_append_singleton]
    by_cases eq : name = rename entry.1
    · subst name
      constructor
      · intro gone
        simp at gone
      · intro gone
        exact (gone entry (by simp) rfl).elim
    · rw [Function.update_of_ne eq, ih]
      constructor
      · intro gone alt mem
        rcases mem_append.mp mem with old | last
        · exact gone alt old
        · simp only [mem_singleton] at last
          subst alt
          exact Ne.symm eq
      · intro gone alt mem
        exact gone alt (by simp [mem])

end

end Harbor.Library
