import Mathlib.Tactic.TypeStar

/-!
# Procedures that issue statements

A procedure is a computation that stops at every statement it sends to its
environment and goes on with the answer.  Keeping the rest of the computation
as a value lets one text be run alone (`Procedure.run`) and interleaved with
others.

A `Discipline` describes what a procedure may do as an automaton over its
statements.  `Procedure.Follows` says that a procedure keeps to it whatever the
answers are, and `run_follows` turns that into a statement about whole runs.
-/

namespace Harbor.Library

inductive Fault where
  | ok
  | failed
  | lost
deriving DecidableEq, Repr

def Fault.settle {Value World : Type*} (fault : Fault) (failure : Value)
    (before : World) (effect : Value × World) : Value × World :=
  match fault with
  | .ok => effect
  | .failed => (failure, before)
  | .lost => (failure, effect.2)

theorem Fault.settle_snd {V W : Type*} (f : Fault) (fail : V) (was : W) (eff : V × W) :
    (f.settle fail was eff).2 = was ∨ f ≠ .failed ∧ (f.settle fail was eff).2 = eff.2 := by
  cases f with
  | failed => exact .inl rfl
  | ok | lost => exact .inr ⟨by rintro ⟨⟩, rfl⟩

inductive Procedure (Statement : Type) (Answer : Statement → Type) (Value : Type) : Type where
  | done (value : Value)
  | issue (statement : Statement) (next : Answer statement → Procedure Statement Answer Value)

structure Discipline (Statement : Type) (Answer : Statement → Type) where
  Phase : Type
  may : Phase → Statement → Prop
  after : Phase → (statement : Statement) → Answer statement → Phase

def Discipline.always {Statement : Type} {Answer : Statement → Type}
    (allowed : Statement → Prop) : Discipline Statement Answer where
  Phase := Unit
  may := fun _ => allowed
  after := fun _ _ _ => ()

def Discipline.follow {Statement : Type} {Answer : Statement → Type}
    (discipline : Discipline Statement Answer) (phase : discipline.Phase)
    (trace : List ((statement : Statement) × Answer statement)) :
    discipline.Phase :=
  trace.foldl (fun current entry =>
    discipline.after current entry.1 entry.2) phase

namespace Procedure

variable {Statement : Type} {Answer : Statement → Type} {Value Other World Choice : Type}

def bind : Procedure Statement Answer Value → (Value → Procedure Statement Answer Other) →
    Procedure Statement Answer Other
  | .done value, next => next value
  | .issue statement rest, next =>
    .issue statement fun answer => (rest answer).bind next

instance : Monad (Procedure Statement Answer) where
  pure := .done
  bind := bind

@[simp]
theorem pure_eq (val : Value) : (pure val : Procedure Statement Answer Value) = .done val := rfl

@[simp]
theorem done_bind (val : Value) (next : Value → Procedure Statement Answer Other) :
    (Procedure.done val >>= next) = next val := rfl

@[simp]
theorem issue_bind (s : Statement) (rest : Answer s → Procedure Statement Answer Value)
    (next : Value → Procedure Statement Answer Other) : (Procedure.issue s rest >>= next) =
      .issue s fun ans => rest ans >>= next := rfl

theorem bind_assoc {Last : Type} (p : Procedure Statement Answer Value)
    (next : Value → Procedure Statement Answer Other)
    (last : Other → Procedure Statement Answer Last) : (p.bind next).bind last =
      p.bind fun val => (next val).bind last := by
  induction p with
  | done val => rfl
  | issue s rest ih => simp only [bind, ih]

section

variable {Source : Type} {Reply : Source → Type}
  (expand : (stmt : Source) → Procedure Statement Answer (Reply stmt))

def translate : Procedure Source Reply Value → Procedure Statement Answer Value
  | .done value => .done value
  | .issue statement rest =>
    (expand statement).bind fun answer => translate (rest answer)

theorem translate_bind (p : Procedure Source Reply Value)
    (next : Value → Procedure Source Reply Other) : (p >>= next).translate expand =
      p.translate expand >>= fun val =>
        (next val).translate expand := by
  induction p with
  | done val => rfl
  | issue stmt rest ih =>
    show (expand stmt).bind _ = ((expand stmt).bind _).bind _
    rw [bind_assoc]
    congr 1
    funext ans
    exact ih ans

end

def request (statement : Statement) : Procedure Statement Answer (Answer statement) :=
  .issue statement .done

/-- Whatever the answers, the procedure issues only permitted statements and
ends in a phase that `ends` accepts for its value. -/
def Follows (discipline : Discipline Statement Answer) :
    Procedure Statement Answer Value → discipline.Phase → (Value → discipline.Phase → Prop) → Prop
  | .done value, phase, ends => ends value phase
  | .issue statement rest, phase, ends =>
    discipline.may phase statement ∧ ∀ answer, (rest answer).Follows discipline
        (discipline.after phase statement answer) ends

variable {rule : Discipline Statement Answer}
variable {ph : rule.Phase}

variable {proc : Procedure Statement Answer Value}

theorem Follows.mono {fst snd : Value → rule.Phase → Prop} (goes : proc.Follows rule ph fst)
    (weaker : ∀ val last, fst val last → snd val last) :
    proc.Follows rule ph snd := by
  induction proc generalizing ph with
  | done val => exact weaker val ph goes
  | issue s rest ih =>
    refine ⟨goes.1, ?_⟩
    intro ans
    exact ih ans (goes.2 ans)

theorem Follows.bind {mid : Value → rule.Phase → Prop} {ends : Other → rule.Phase → Prop}
    (fst : proc.Follows rule ph mid) (snd : ∀ val last, mid val last →
      (next val).Follows rule last ends) : (proc >>= next).Follows rule ph ends := by
  induction proc generalizing ph with
  | done val => exact snd val ph fst
  | issue s rest ih =>
    refine ⟨fst.1, ?_⟩
    intro ans
    exact ih ans (fst.2 ans)

theorem follows_request {ends : Answer s → rule.Phase → Prop} (may : rule.may ph s)
    (done : ∀ a, ends a (rule.after ph s a)) : (request s).Follows rule ph ends :=
  ⟨may, done⟩

section

variable {allowed : Statement → Prop}

/-- Whatever the answers, every statement satisfies the condition and the
value at the end satisfies `ends`. -/
def Issues (allowed : Statement → Prop)
    (procedure : Procedure Statement Answer Value) (ends : Value → Prop) :
    Prop :=
  procedure.Follows (Discipline.always allowed) () fun value _ => ends value

theorem Issues.bind {mid : Value → Prop} {ends : Other → Prop} (fst : proc.Issues allowed mid)
    (snd : ∀ val, mid val → (next val).Issues allowed ends) : (proc >>= next).Issues allowed ends :=
  Follows.bind fst fun val _ held => snd val held

theorem issues_send {next : Answer s → Procedure Statement Answer Value}
    {ends : Value → Prop} (may : allowed s) (rest : ∀ a, (next a).Issues allowed ends) :
    (request s >>= next).Issues allowed ends :=
  ⟨may, rest⟩

theorem Issues.map {tell : Value → Other} (issues : proc.Issues allowed fun _ => True) :
    (proc >>= fun val => pure (tell val)).Issues allowed fun _ => True :=
  issues.bind fun _ _ => trivial

end

theorem follows_translate {Source : Type} {Reply : Source → Type}
    {expand : (s : Source) →
      Procedure Statement Answer (Reply s)} (kept : ∀ s ph,
      (expand s).Follows rule ph fun _ _ => True)
    (proc : Procedure Source Reply Value) (ph : rule.Phase) :
    (proc.translate expand).Follows rule ph fun _ _ => True := by
  induction proc generalizing ph with
  | done val => trivial
  | issue s rest ih => exact Follows.bind (kept s ph) fun ans last _ => ih ans last

def run (execute : Choice → World → (statement : Statement) → Answer statement × World) :
    (Nat → Choice) → Procedure Statement Answer Value → World → Value × World
  | _, .done value, world => (value, world)
  | choices, .issue statement rest, world =>
    run execute (fun index => choices (index + 1)) (rest (execute (choices 0) world statement).1)
      (execute (choices 0) world statement).2

def trace (execute : Choice → World → (statement : Statement) → Answer statement × World) :
    (Nat → Choice) → Procedure Statement Answer Value → World →
      List ((statement : Statement) × Answer statement)
  | _, .done _, _ => []
  | choices, .issue statement rest, world =>
    ⟨statement, (execute (choices 0) world statement).1⟩ ::
      trace execute (fun index => choices (index + 1))
        (rest (execute (choices 0) world statement).1) (execute (choices 0) world statement).2

theorem run_bind (execute : Choice → World → (s : Statement) → Answer s × World)
    (proc : Procedure Statement Answer Value) (next : Value → Procedure Statement Answer Other)
    (sel : Nat → Choice) (w : World) : (proc >>= next).run execute sel w =
      (next (proc.run execute sel w).1).run execute (fun idx =>
          sel (idx + (proc.trace execute sel w).length))
        (proc.run execute sel w).2 := by
  induction proc generalizing sel w with
  | done val => rfl
  | issue s rest ih => exact ih _ _ _

theorem run_follows {ends : Value → rule.Phase → Prop}
    (has : World → rule.Phase → Prop) (goes : proc.Follows rule ph ends)
    (initially : has w ph) (kept : ∀ idx w ph s, rule.may ph s → has w ph →
      has (execute (sel idx) w s).2 (rule.after ph s (execute (sel idx) w s).1)) :
    ends (proc.run execute sel w).1 (rule.follow ph (proc.trace execute sel w)) ∧
      has (proc.run execute sel w).2 (rule.follow ph (proc.trace execute sel w)) := by
  induction proc generalizing sel w ph with
  | done val => exact ⟨goes, initially⟩
  | issue s rest ih =>
    apply ih
    · exact goes.2 _
    · exact kept 0 w ph s goes.1 initially
    · intro idx
      exact kept (idx + 1)

end Procedure

end Harbor.Library
