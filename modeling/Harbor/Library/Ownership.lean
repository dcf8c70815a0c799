import Mathlib.Logic.Function.Basic
import Mathlib.Tactic.TypeStar

/-!
# Resources owned by calls

A pool of resources that starts with some contents and to which calls add what
they take and from which they remove what they give back.  `Ownership` is the
invariant that every resource in the pool was there at the start or belongs to
exactly one call; `Transfer` lists the steps that keep it.
-/

namespace Harbor.Library

open Function

variable {Resource : Type*}

structure Ownership (start pool : Resource → Prop) (owns : Nat → Option Resource) : Prop where
  accounted : ∀ resource, pool resource ↔ start resource ∨ ∃ call, owns call = some resource
  fresh : ∀ call resource, owns call = some resource → ¬start resource
  apart : ∀ call other resource, owns call = some resource →
    owns other = some resource → call = other

inductive Transfer (before after : Resource → Prop) : Option Resource → Option Resource → Prop where
  | kept {owned : Option Resource} : (∀ resource, after resource ↔ before resource) →
      Transfer before after owned owned
  | taken {resource : Resource} : ¬before resource →
      (∀ other, after other ↔ before other ∨ other = resource) →
      Transfer before after none (some resource)
  | freed {resource : Resource} : (∀ other, after other ↔ before other ∧ other ≠ resource) →
      Transfer before after (some resource) none

namespace Ownership

variable {init pool fin : Resource → Prop} {owns : Nat → Option Resource}
  {call : Nat} {next : Option Resource}

theorem initial (init : Resource → Prop) : Ownership init init fun _ => none where
  accounted := by simp
  fresh := fun _ _ own => nomatch own
  apart := fun _ _ _ own => nomatch own

variable {resource : Resource}

theorem update_eq_some :
    update owns call next who = some resource ↔ who = call ∧ next = some resource ∨
        who ≠ call ∧ owns who = some resource := by
  by_cases eq : who = call
  · subst eq
    simp
  · simp [eq]

theorem take (ownership : Ownership init pool owns) (idle : owns call = none) (fr : ¬pool resource)
    (grew : ∀ alt, fin alt ↔ pool alt ∨ alt = resource) :
    Ownership init fin (update owns call (some resource)) := by
  have solo : ∀ who, owns who ≠ some resource := by
    intro who own
    exact fr ((ownership.accounted _).mpr (.inr ⟨who, own⟩))
  refine ⟨?_, ?_, ?_⟩
  · intro alt
    simp only [grew, ownership.accounted, or_assoc, update_eq_some]
    apply or_congr_right
    constructor
    · rintro (⟨who, own⟩ | rfl)
      · refine ⟨who, .inr ⟨?_, own⟩⟩
        rintro rfl
        rw [idle] at own
        cases own
      · exact ⟨call, .inl ⟨rfl, rfl⟩⟩
    · rintro ⟨who, ⟨_, eq⟩ | ⟨_, own⟩⟩
      · cases eq
        exact .inr rfl
      · exact .inl ⟨who, own⟩
  · intro who alt own
    rcases update_eq_some.mp own with ⟨_, eq⟩ | ⟨_, own⟩
    · cases eq
      exact fun went => fr ((ownership.accounted _).mpr (.inl went))
    · exact ownership.fresh who alt own
  · intro one alt shared fst snd
    rcases update_eq_some.mp fst with ⟨here, eq⟩ | ⟨_, own⟩
    · cases eq
      rcases update_eq_some.mp snd with ⟨there, _⟩ | ⟨_, own⟩
      · rw [here, there]
      · exact absurd own (solo alt)
    · rcases update_eq_some.mp snd with ⟨_, eq⟩ | ⟨_, there⟩
      · cases eq
        exact absurd own (solo one)
      · exact ownership.apart one alt shared own there

theorem free (ownership : Ownership init pool owns) (own : owns call = some resource)
    (shrunk : ∀ alt, fin alt ↔ pool alt ∧ alt ≠ resource) :
    Ownership init fin (update owns call none) := by
  have l : ∀ who alt, update owns call none who = some alt ↔ who ≠ call ∧ owns who = some alt := by
    simp [update_eq_some]
  refine ⟨?_, ?_, ?_⟩
  · intro alt
    simp only [shrunk, ownership.accounted, l]
    constructor
    · rintro ⟨went | ⟨who, here⟩, ne⟩
      · exact .inl went
      · refine .inr ⟨who, ?_, here⟩
        rintro rfl
        rw [own, Option.some.injEq] at here
        exact ne here.symm
    · rintro (went | ⟨who, off, here⟩)
      · refine ⟨.inl went, ?_⟩
        rintro rfl
        exact ownership.fresh call _ own went
      · refine ⟨.inr ⟨who, here⟩, ?_⟩
        rintro rfl
        exact off (ownership.apart who call _ here own)
  · intro who alt here
    exact ownership.fresh who alt ((l _ _).mp here).2
  · intro one alt shared fst snd
    exact ownership.apart one alt shared ((l _ _).mp fst).2 ((l _ _).mp snd).2

theorem step (ownership : Ownership init pool owns)
    (transfer : Transfer pool fin (owns call) next) :
    Ownership init fin (update owns call next) := by
  generalize atCall : owns call = cur at transfer
  cases transfer with
  | kept eq =>
    rw [← atCall, update_eq_self]
    refine ⟨?_, ownership.fresh, ownership.apart⟩
    intro resource
    rw [eq, ownership.accounted]
  | taken gone grew => exact ownership.take atCall gone grew
  | freed shrunk => exact ownership.free atCall shrunk

end Ownership

end Harbor.Library
