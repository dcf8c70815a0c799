import Harbor.Library.Procedure

/-!
# Runs of one procedure

`Outcome` relates a procedure and a world to the values and worlds its runs
alone can end with, when the environment keeps to permitted choices.  It is
computed along the text of the procedure, one statement at a time.
-/

namespace Harbor.Library

namespace Procedure

variable {Statement : Type} {Answer : Statement → Type} {Value Other World Choice : Type}

inductive Outcome (execute : Choice → World → (statement : Statement) → Answer statement × World)
    (permits : Choice → Prop) :
    Procedure Statement Answer Value → World → Value → World → Prop where
  | done {value : Value} {world : World} : Outcome execute permits (.done value) world value world
  | issue {statement : Statement} {rest : Answer statement → Procedure Statement Answer Value}
      {world after : World} {value : Value} {choice : Choice} : permits choice →
      Outcome execute permits (rest (execute choice world statement).1)
        (execute choice world statement).2 value after →
      Outcome execute permits (.issue statement rest) world value after

variable {exec : Choice → World → (stmt : Statement) →
    Answer stmt × World} {lets : Choice → Prop}
variable {val : Value} {w fin : World}

@[simp]
theorem outcome_done : Outcome exec lets
      (Procedure.done val : Procedure Statement Answer Value) w past fin ↔
      past = val ∧ fin = w := by
  constructor
  · intro out
    cases out
    exact ⟨rfl, rfl⟩
  · rintro ⟨rfl, rfl⟩
    exact .done

variable {stmt : Statement}

theorem outcome_issue : Outcome exec lets (.issue stmt rest) w val fin ↔ ∃ io, lets io ∧
        Outcome exec lets (rest (exec io w stmt).1) (exec io w stmt).2 val fin := by
  constructor
  · intro out
    cases out with
    | issue may rest => exact ⟨_, may, rest⟩
  · rintro ⟨io, may, out⟩
    exact .issue may out

variable {proc : Procedure Statement Answer Value}

theorem outcome_bind : Outcome exec lets (proc.bind next) w past fin ↔
      ∃ val mid, Outcome exec lets proc w val mid ∧ Outcome exec lets (next val) mid past fin := by
  induction proc generalizing w with
  | done val =>
    simp only [bind, outcome_done]
    constructor
    · intro out
      exact ⟨val, w, ⟨rfl, rfl⟩, out⟩
    · rintro ⟨_, _, ⟨rfl, rfl⟩, out⟩
      exact out
  | issue stmt rest ih =>
    simp only [bind, outcome_issue, ih]
    constructor
    · rintro ⟨io, may, val, mid, fst, snd⟩
      exact ⟨val, mid, ⟨io, may, fst⟩, snd⟩
    · rintro ⟨val, mid, ⟨io, may, fst⟩, snd⟩
      exact ⟨io, may, val, mid, fst, snd⟩

theorem outcome_then : Outcome exec lets (proc >>= next) w past fin ↔
      ∃ val mid, Outcome exec lets proc w val mid ∧ Outcome exec lets (next val) mid past fin :=
  outcome_bind

theorem outcome_send : Outcome exec lets (request stmt >>= next) w val fin ↔
      ∃ io, lets io ∧ Outcome exec lets (next (exec io w stmt).1) (exec io w stmt).2 val fin :=
  outcome_issue

theorem outcome_request : Outcome exec lets (request stmt) w a fin ↔ ∃ io, lets io ∧
        a = (exec io w stmt).1 ∧ fin = (exec io w stmt).2 := by
  simp only [request, outcome_issue, outcome_done]

theorem outcome_of_run (w : World) (may : ∀ idx, lets (sel idx)) :
    Outcome exec lets proc w (proc.run exec sel w).1 (proc.run exec sel w).2 := by
  induction proc generalizing sel w with
  | done val => exact .done
  | issue stmt rest ih =>
    exact .issue (may 0) (ih _ _ fun idx =>
      may (idx + 1))

theorem run_of_outcome (out : Outcome exec lets proc w val fin) (may : lets fallback) :
    ∃ picks : Nat → Choice, (∀ idx, lets (picks idx)) ∧ proc.run exec picks w = (val, fin) := by
  induction out with
  | done => exact ⟨fun _ => fallback, fun _ => may, rfl⟩
  | @issue _ _ _ _ _ io allowed _ ih =>
    obtain ⟨picks, all, ran⟩ := ih
    refine ⟨fun idx => Nat.casesOn (motive := fun _ => Choice) idx io picks, ?_, ran⟩
    intro idx
    cases idx with
    | zero => exact allowed
    | succ idx => exact all idx

section

variable {Source : Type} {Reply : Source → Type}
  {expand : (stmt : Source) →
    Procedure Statement Answer (Reply stmt)}

theorem outcome_translate_send {stmt : Source} {next : Reply stmt → Procedure Source Reply Value} :
    Outcome exec lets ((request stmt >>= next).translate expand) w val fin ↔
      ∃ a mid, Outcome exec lets (expand stmt) w a mid ∧
        Outcome exec lets ((next a).translate expand) mid val
          fin :=
  outcome_bind

theorem outcome_translate_then {proc : Procedure Source Reply Value}
    {next : Value → Procedure Source Reply Other} :
    Outcome exec lets ((proc >>= next).translate expand) w past fin ↔
      ∃ val mid, Outcome exec lets (proc.translate expand) w val mid ∧
        Outcome exec lets ((next val).translate expand) mid past
          fin := by
  rw [translate_bind, outcome_then]

end

end Procedure

end Harbor.Library
