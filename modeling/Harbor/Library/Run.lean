import Mathlib.Tactic.TypeStar

/-!
# Runs of partial step functions

A system is a function `step : State → Event → Option State`; `none` says that
the event is not enabled.  `Reaches step allowed` collects the states reached
while every event taken is allowed in the state before it, which is how a
result restricted to well-behaved schedules is stated.  `runEvents` executes a
fixed schedule and supplies concrete reachable states.
-/

namespace Harbor.Library

open Option

variable {State Event : Type*}

/-- Execute a schedule, stopping with `none` at the first disabled event. -/
def runEvents (step : State → Event → Option State) : State → List Event → Option State
  | state, [] => some state
  | state, event :: events =>
    (step state event).bind fun next => runEvents step next events

/-- States reached from `start` by events allowed in the state before them. -/
inductive Reaches (step : State → Event → Option State)
    (allowed : State → Event → Prop) (start : State) : State → Prop where
  | refl : Reaches step allowed start start
  | tail {middle finish : State} {event : Event} : Reaches step allowed start middle →
      allowed middle event → step middle event = some finish → Reaches step allowed start finish

abbrev Reachable (step : State → Event → Option State) (start : State) : State → Prop :=
  Reaches step (fun _ _ => True) start

namespace Reaches

variable {step : State → Event → Option State}
  {allowed : State → Event → Prop} {init finish : State}

theorem invariant (met : Reaches step allowed init finish)
    (has : State → Prop) (initially : has init)
    (kept : ∀ {was new : State} {ev : Event}, has was → allowed was ev →
      step was ev = some new → has new) : has finish := by
  induction met with
  | refl => exact initially
  | tail _ may ran ih => exact kept ih may ran

theorem trans (fst : Reaches step allowed init mid) (snd : Reaches step allowed mid finish) :
    Reaches step allowed init finish := by
  induction snd with
  | refl => exact fst
  | tail _ may ran ih => exact .tail ih may ran

theorem head (may : allowed init ev)
    (ran : step init ev = some mid) (rest : Reaches step allowed mid finish) :
    Reaches step allowed init finish :=
  trans (.tail .refl may ran) rest

theorem imp {weaker : State → Event → Prop} (met : Reaches step allowed init finish)
    (implies : ∀ {s : State} {ev : Event}, allowed s ev → weaker s ev) :
    Reaches step weaker init finish := by
  induction met with
  | refl => exact .refl
  | tail _ may ran ih => exact .tail ih (implies may) ran

end Reaches

def guarded (step : State → Event → Option State)
    (allowed : State → Event → Prop) [∀ state, DecidablePred (allowed state)]
    (state : State) (event : Event) : Option State :=
  if allowed state event then step state event else none

variable {events : List Event}

theorem reaches_of_runEvents {allowed : State → Event → Prop} [∀ s, DecidablePred (allowed s)]
    (exec : runEvents (guarded step allowed) init events = some finish) :
    Reaches step allowed init finish := by
  induction events generalizing init with
  | nil =>
    simp only [runEvents, Option.some.injEq] at exec
    subst finish
    exact .refl
  | cons ev events ih =>
    simp only [runEvents, bind_eq_some_iff] at exec
    obtain ⟨next, ran, rest⟩ := exec
    unfold guarded at ran
    split at ran
    · rename_i may
      exact .head may ran (ih rest)
    · cases ran

theorem runEvents_of_guarded {may : State → Event → Prop} [∀ s, DecidablePred (may s)]
    (exec : runEvents (guarded step may) init events = some finish) :
    runEvents step init events = some finish := by
  induction events generalizing init with
  | nil => exact exec
  | cons ev events ih =>
    simp only [runEvents, bind_eq_some_iff] at exec ⊢
    obtain ⟨next, ran, rest⟩ := exec
    unfold guarded at ran
    split at ran
    · exact ⟨next, ran, ih rest⟩
    · cases ran

theorem reachable_of_runEvents (exec : runEvents step init events = some finish) :
    Reachable step init finish := by
  have unrestricted : guarded step (fun _ _ => True) = step := by
    funext s ev
    simp [guarded]
  exact reaches_of_runEvents (unrestricted.symm ▸ exec)

theorem reachable_getD {step : State → Event → Option State}
    {init : State} (events : List Event) (default : State)
    (exec : (runEvents step init events).isSome = true) :
    Reachable step init ((runEvents step init events).getD default) := by
  obtain ⟨finish, ran⟩ := isSome_iff_exists.mp exec
  rw [ran, getD_some]
  exact reachable_of_runEvents ran

theorem reaches_getD {step : State → Event → Option State}
    {may : State → Event → Prop} [∀ s, DecidablePred (may s)]
    {init : State} (events : List Event) (default : State)
    (exec : (runEvents (guarded step may) init events).isSome = true) :
    Reaches step may init ((runEvents step init events).getD default) := by
  obtain ⟨finish, ran⟩ := isSome_iff_exists.mp exec
  rw [runEvents_of_guarded ran, getD_some]
  exact reaches_of_runEvents ran

theorem step_getD {step : State → Event → Option State} {s : State}
    {ev : Event} (default : State) (enabled : (step s ev).isSome = true) :
    step s ev = some ((step s ev).getD default) := by
  obtain ⟨new, ran⟩ := isSome_iff_exists.mp enabled
  rw [ran, getD_some]

end Harbor.Library
