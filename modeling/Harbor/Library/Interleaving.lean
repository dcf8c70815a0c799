import Harbor.Library.Procedure
import Harbor.Library.Run
import Mathlib.Logic.Function.Basic

/-!
# Interleaved procedures

Any number of calls, each running a procedure, share one world; a step executes
the next statement of one call.  To reason about such a system it is enough to
know each procedure's discipline: `Reaches.staged` replaces the rest of every
running procedure by the phase it is in, so an invariant only has to be kept
by the moves of the disciplines.
-/

namespace Harbor.Library

open Function

section

variable {Phase : Type} {phases : Nat → Option Phase} {call : Nat}
  {ph : Phase} {holds : Nat → Phase → Prop}

theorem forall_update_some : (∀ alt cur, update phases call (some ph) alt =
        some cur → holds alt cur) ↔ holds call ph ∧ ∀ alt cur, alt ≠ call →
        phases alt = some cur → holds alt cur := by
  constructor
  · intro all
    refine ⟨all call ph (by simp), ?_⟩
    intro alt cur ne hit
    exact all alt cur (by rwa [update_of_ne ne])
  · rintro ⟨here, apart⟩ alt cur hit
    by_cases eq : alt = call
    · subst alt
      simp only [update_self, Option.some.injEq] at hit
      exact hit ▸ here
    · rw [update_of_ne eq] at hit
      exact apart alt cur eq hit

theorem exists_update_some : (∃ alt cur, update phases call (some ph) alt =
        some cur ∧ holds alt cur) ↔ holds call ph ∨ ∃ alt cur, alt ≠ call ∧
        phases alt = some cur ∧ holds alt cur := by
  constructor
  · rintro ⟨alt, cur, hit, held⟩
    by_cases eq : alt = call
    · subst alt
      simp only [update_self, Option.some.injEq] at hit
      exact .inl (hit ▸ held)
    · rw [update_of_ne eq] at hit
      exact .inr ⟨alt, cur, eq, hit, held⟩
  · rintro (here | ⟨alt, cur, ne, hit, held⟩)
    · exact ⟨call, ph, by simp, here⟩
    · exact ⟨alt, cur, by rwa [update_of_ne ne], held⟩

theorem bind_update_some {View : Type} (view : Phase → Option View) :
    (fun alt => (update phases call (some ph) alt).bind view) =
      update (fun alt => (phases alt).bind view) call (view ph) := by
  funext alt
  exact apply_update (fun _ cur => Option.bind cur view) phases call (some ph) alt

end

structure Service (Request Statement : Type) (Answer : Statement → Type)
    (Value World Choice : Type) where
  procedure : Request → Procedure Statement Answer Value
  execute : Choice → World → (statement : Statement) → Answer statement × World

namespace Service

inductive Call (Request Statement : Type) (Answer : Statement → Type) (Value : Type) where
  | idle
  | running (request : Request) (rest : Procedure Statement Answer Value)
  | returned (request : Request) (value : Value)
  | crashed (request : Request)

inductive Stage (Request Value Phase : Type) where
  | idle
  | running (request : Request) (phase : Phase)
  | returned (request : Request) (value : Value) (phase : Phase)
  | crashed (request : Request) (phase : Phase)

inductive Event (Request Choice : Type) where
  | begin (call : Nat) (request : Request)
  | step (call : Nat) (choice : Choice)
  | crash (call : Nat)

structure State (Request Statement : Type) (Answer : Statement → Type) (Value World : Type) where
  world : World
  calls : Nat → Call Request Statement Answer Value

variable {Request Statement : Type} {Answer : Statement → Type} {Value World Choice : Type}

def State.quiet (world : World) : State Request Statement Answer Value World where
  world := world
  calls := fun _ => .idle

def Call.active : Call Request Statement Answer Value → Option Request
  | .running request _ => some request
  | _ => none

def Stage.active {Phase : Type} : Stage Request Value Phase → Option Request
  | .running request _ => some request
  | _ => none

def Stage.phase {Phase : Type} : Stage Request Value Phase → Option Phase
  | .idle => none
  | .running _ phase | .returned _ _ phase | .crashed _ phase => some phase

def State.Settled (state : State Request Statement Answer Value World) : Prop :=
  ∀ call request rest, state.calls call ≠ .running request rest

def step (service : Service Request Statement Answer Value World Choice)
    (state : State Request Statement Answer Value World) :
    Event Request Choice → Option (State Request Statement Answer Value World)
  | .begin call request =>
    match state.calls call with
    | .idle =>
      some { state with
        calls := update state.calls call
          (.running request (service.procedure request)) }
    | _ => none
  | .step call choice =>
    match state.calls call with
    | .running request (.done value) =>
      some { state with
        calls := update state.calls call
          (.returned request value) }
    | .running request (.issue statement rest) =>
      let outcome := service.execute choice state.world statement
      some
        { world := outcome.2
          calls := update state.calls call
            (.running request (rest outcome.1)) }
    | _ => none
  | .crash call =>
    match state.calls call with
    | .running request _ =>
      some { state with
        calls := update state.calls call (.crashed request) }
    | _ => none

/-- Which requests may be made, which statements a call may execute and with
what choice, given the requests the calls are working on, and whether calls
may crash. -/
structure Permit (Request Statement World Choice : Type) where
  opens : World → Request → Prop := fun _ _ => True
  executes : World → (Nat → Option Request) → Nat → Statement → Choice →
    Prop := fun _ _ _ _ _ => True
  crashes : Prop := True

def Permit.Executes (permit : Permit Request Statement World Choice)
    (world : World) (active : Nat → Option Request) (index : Nat)
    (choice : Choice) : Call Request Statement Answer Value → Prop
  | .running _ (.issue statement _) =>
    permit.executes world active index statement choice
  | _ => True

def Permit.Allows (permit : Permit Request Statement World Choice)
    (state : State Request Statement Answer Value World) : Event Request Choice → Prop
  | .begin _ request => permit.opens state.world request
  | .step call choice =>
    permit.Executes state.world (fun other => (state.calls other).active)
      call choice (state.calls call)
  | .crash _ => permit.crashes

section

variable (permit : Permit Request Statement World Choice)
  [∀ world request, Decidable (permit.opens world request)] [∀ world active call statement choice,
    Decidable (permit.executes world active call statement choice)] [Decidable permit.crashes]

instance (world : World) (active : Nat → Option Request) (index : Nat)
    (choice : Choice) : ∀ call : Call Request Statement Answer Value,
      Decidable (permit.Executes world active index choice call)
  | .idle | .running _ (.done _) => inferInstanceAs (Decidable True)
  | .running _ (.issue statement _) =>
    inferInstanceAs (Decidable (permit.executes world active index statement choice))
  | .returned _ _ | .crashed _ => inferInstanceAs (Decidable True)

instance (state : State Request Statement Answer Value World) : DecidablePred (permit.Allows state)
  | .begin _ request =>
    inferInstanceAs (Decidable (permit.opens state.world request))
  | .step call choice =>
    inferInstanceAs (Decidable (permit.Executes state.world
      (fun other => (state.calls other).active) call choice (state.calls call)))
  | .crash _ => inferInstanceAs (Decidable permit.crashes)

end

def Event.call : Event Request Choice → Nat
  | .begin call _ | .step call _ | .crash call => call

theorem step_calls_of_ne {srv : Service Request Statement Answer Value World Choice}
    {was new : State Request Statement Answer Value World}
    {ev : Event Request Choice} {c : Nat} (ran : srv.step was ev = some new)
    (ne : c ≠ ev.call) : new.calls c = was.calls c := by
  cases ev with
  | begin alt req =>
    simp only [step] at ran
    split at ran <;> cases ran
    exact update_of_ne ne _ _
  | step alt io =>
    simp only [step] at ran
    split at ran <;> cases ran
    · exact update_of_ne ne _ _
    · exact update_of_ne ne _ _
  | crash alt =>
    simp only [step] at ran
    split at ran <;> cases ran
    exact update_of_ne ne _ _

theorem forall_calls_of_runEvents {srv : Service Request Statement Answer Value World Choice}
    {init finish : State Request Statement Answer Value World}
    {evs : List (Event Request Choice)} (cap : Nat)
    (has : Call Request Statement Answer Value → Prop)
    (exec : runEvents srv.step init evs = some finish)
    (mentioned : ∀ ev ∈ evs, ev.call < cap) (beyond : ∀ c, cap ≤ c → has (init.calls c))
    (into : ∀ c < cap, has (finish.calls c)) (c : Nat) : has (finish.calls c) := by
  by_cases lies : c < cap
  · exact into c lies
  · have still : finish.calls c = init.calls c := by
      clear beyond into
      induction evs generalizing init with
      | nil =>
        simp only [runEvents, Option.some.injEq] at exec
        rw [exec]
      | cons ev evs ih =>
        simp only [runEvents, Option.bind_eq_some_iff] at exec
        obtain ⟨next, ran, rest⟩ := exec
        have here : ev.call < cap := mentioned ev List.mem_cons_self
        rw [ih rest fun alt mem =>
          mentioned alt (List.mem_cons_of_mem _ mem)]
        exact step_calls_of_ne ran (by omega)
    rw [still]
    exact beyond c (by omega)

section

variable (service : Service Request Statement Answer Value World Choice)
  (permit : Permit Request Statement World Choice) (discipline : Discipline Statement Answer)
  (start : Request → discipline.Phase) (ends : Request → Value → discipline.Phase → Prop)

inductive Move (world : World) (stages : Nat → Stage Request Value discipline.Phase) :
    World → (Nat → Stage Request Value discipline.Phase) → Prop where
  | begin {call : Nat} {request : Request} : stages call = .idle → permit.opens world request →
      Move world stages world (update stages call (.running request (start request)))
  | execute {call : Nat} {request : Request} {phase : discipline.Phase}
      {statement : Statement} {choice : Choice} : stages call = .running request phase →
      discipline.may phase statement →
      permit.executes world (fun other => (stages other).active) call statement choice →
      Move world stages (service.execute choice world statement).2 (update stages call
          (.running request (discipline.after phase statement
            (service.execute choice world statement).1)))
  | finish {call : Nat} {request : Request} {phase : discipline.Phase} {value : Value} :
      stages call = .running request phase → ends request value phase → Move world stages world
        (update stages call (.returned request value phase))
  | crash {call : Nat} {request : Request} {phase : discipline.Phase} :
      stages call = .running request phase → permit.crashes → Move world stages world
        (update stages call (.crashed request phase))

variable {discipline}

inductive Staged : Call Request Statement Answer Value →
    Stage Request Value discipline.Phase → Prop where
  | idle : Staged .idle .idle
  | running {request : Request} {phase : discipline.Phase}
      {rest : Procedure Statement Answer Value} : rest.Follows discipline phase (ends request) →
      Staged (.running request rest) (.running request phase)
  | returned {request : Request} {value : Value} {phase : discipline.Phase} :
      ends request value phase → Staged (.returned request value) (.returned request value phase)
  | crashed {request : Request} {phase : discipline.Phase} :
      Staged (.crashed request) (.crashed request phase)

variable {service permit start ends}
variable {call : Call Request Statement Answer Value} {stage : Stage Request Value discipline.Phase}

theorem Staged.active_eq (put : Staged ends call stage) : call.active = stage.active := by
  cases put <;> rfl

variable {stages : Nat → Stage Request Value discipline.Phase}

theorem staged_update (put : ∀ alt, Staged ends (cs alt) (stages alt))
    (edit : Staged ends call stage) (alt : Nat) : Staged ends (update cs idx call alt)
      (update stages idx stage alt) := by
  by_cases eq : alt = idx
  · subst alt
    simpa using edit
  · simpa [update_of_ne eq] using put alt

theorem step_staged (goes : ∀ req, (service.procedure req).Follows discipline
      (start req) (ends req)) (put : ∀ call, Staged ends (was.calls call) (stages call))
    (may : permit.Allows was ev) (ran : service.step was ev = some new) :
    ∃ next, Move service permit discipline start ends was.world stages new.world next ∧
      ∀ call, Staged ends (new.calls call) (next call) := by
  cases ev with
  | begin call req =>
    simp only [step] at ran
    split at ran
    · rename_i idle
      cases ran
      have stage := put call
      rw [idle] at stage
      cases here : stages call with
      | idle => exact ⟨_, .begin here may, staged_update put (.running (goes req))⟩
      | _ =>
        rw [here] at stage
        cases stage
    · cases ran
  | step call io =>
    simp only [step] at ran
    have stage := put call
    split at ran
    · rename_i req val here
      cases ran
      rw [here] at stage
      generalize stageAt : stages call = cur at stage
      cases stage with
      | running kept => exact ⟨_, .finish stageAt kept, staged_update put (.returned kept)⟩
    · rename_i req s rest here
      cases ran
      simp only [Permit.Allows, here, (put _).active_eq, Permit.Executes] at may
      rw [here] at stage
      generalize stageAt : stages call = cur at stage
      cases stage with
      | running kept =>
        exact ⟨_, .execute stageAt kept.1 may, staged_update put (.running (kept.2 _))⟩
    · cases ran
  | crash call =>
    simp only [step] at ran
    have stage := put call
    split at ran
    · rename_i req rest here
      cases ran
      rw [here] at stage
      generalize stageAt : stages call = cur at stage
      cases stage with
      | running kept => exact ⟨_, .crash stageAt may, staged_update put .crashed⟩
    · cases ran

variable {initial finish : State Request Statement Answer Value World}

theorem staged_of_reaches (goes : ∀ req, (service.procedure req).Follows discipline
      (start req) (ends req))
    (has : World → (Nat → Stage Request Value discipline.Phase) → Prop) (put : ∀ call,
      Staged ends (initial.calls call) (stages call)) (before : has initial.world stages)
    (kept : ∀ {w next : World} {was new : Nat → Stage Request Value discipline.Phase},
      has w was → Move service permit discipline start ends w was next new →
      has next new) (met : Reaches service.step permit.Allows initial finish) :
    ∃ last, has finish.world last ∧ ∀ call, Staged ends (finish.calls call) (last call) := by
  apply met.invariant fun st => ∃ last, has st.world last ∧
    ∀ call, Staged ends (st.calls call) (last call)
  · exact ⟨stages, before, put⟩
  · intro was new ev ⟨cur, held, currentStaged⟩ may ran
    obtain ⟨next, move, nextStaged⟩ := step_staged goes currentStaged may ran
    exact ⟨next, kept held move, nextStaged⟩

theorem phased_of_reaches (goes : ∀ req, (service.procedure req).Follows discipline
      (start req) (ends req)) (has : World → (Nat → Option discipline.Phase) → Prop)
    (put : ∀ call, Staged ends (initial.calls call) (stages call))
    (init : has initial.world fun call => (stages call).phase)
    (begins : ∀ {w : World} {phases : Nat → Option discipline.Phase}
      {call : Nat} {req : Request}, has w phases → phases call = none →
      permit.opens w req → has w (update phases call (some (start req))))
    (executes : ∀ {w : World} {phases : Nat → Option discipline.Phase}
      {active : Nat → Option Request} {call : Nat} {ph : discipline.Phase}
      {s : Statement} {io : Choice}, has w phases → phases call = some ph →
      discipline.may ph s → permit.executes w active call s io → has (service.execute io w s).2
        (update phases call (some (discipline.after ph s (service.execute io w s).1))))
    (met : Reaches service.step permit.Allows initial finish) :
    ∃ last : Nat → Stage Request Value discipline.Phase,
      (has finish.world fun call => (last call).phase) ∧
      ∀ call, Staged ends (finish.calls call) (last call) := by
  have phase_update : ∀ (was : Nat → Stage Request Value discipline.Phase)
      (call : Nat) (stage : Stage Request Value discipline.Phase),
      (fun alt => (update was call stage alt).phase) = update (fun alt => (was alt).phase) call
          stage.phase := by
    intro was call stage
    funext alt
    exact apply_update (fun _ => Stage.phase) was call stage alt
  apply staged_of_reaches goes (fun w cur => has w fun call => (cur call).phase) put init _ met
  intro w next was new held move
  cases move with
  | begin idle opened =>
    rw [phase_update]
    exact begins held (by rw [idle]; rfl) opened
  | execute live may allowed =>
    rw [phase_update]
    exact executes held (by rw [live]; rfl) may allowed
  | @finish call req ph val live past =>
    rw [phase_update]
    have eq : (was call).phase = some ph := by rw [live]; rfl
    rwa [show (Stage.returned req val ph).phase =
      (was call).phase from eq.symm, update_eq_self call (fun alt => (was alt).phase)]
  | @crash call req ph live crashes =>
    rw [phase_update]
    have eq : (was call).phase = some ph := by rw [live]; rfl
    rwa [show (Stage.crashed req ph : Stage Request Value _).phase =
      (was call).phase from eq.symm, update_eq_self call (fun alt => (was alt).phase)]

theorem phase_of_begun (put : Staged ends call stage) (begun : call ≠ .idle) :
    ∃ ph, stage.phase = some ph := by
  cases put with
  | idle => exact absurd rfl begun
  | running _ | returned _ | crashed => exact ⟨_, rfl⟩

theorem returned_of_settled
    {last : Nat → Stage Request Value discipline.Phase} {call : Nat} {ph : discipline.Phase}
    (put : ∀ call, Staged ends (finish.calls call) (last call)) (fixed : finish.Settled)
    (uncrashed : ∀ call req, finish.calls call ≠ .crashed req) (met : (last call).phase = some ph) :
    ∃ req val, finish.calls call = .returned req val ∧
      ends req val ph := by
  have stage := put call
  generalize here : finish.calls call = cur at stage
  generalize lastCall : last call = final at stage
  rw [lastCall] at met
  cases stage with
  | idle => cases met
  | running _ => exact absurd here (fixed call _ _)
  | returned past =>
    cases met
    exact ⟨_, _, rfl, past⟩
  | crashed => exact absurd here (uncrashed call _)

theorem uncrashed_of_reaches
    (never : ¬permit.crashes) (before : ∀ call req, initial.calls call ≠ .crashed req)
    (met : Reaches service.step permit.Allows initial finish) :
    ∀ call req, finish.calls call ≠ .crashed req := by
  apply met.invariant fun st =>
    ∀ call req, st.calls call ≠ .crashed req
  · exact before
  · intro was new ev held may ran call req
    by_cases alt : call = ev.call
    · cases ev with
      | begin idx opened =>
        cases alt
        simp only [step] at ran
        split at ran <;> cases ran
        simp [Event.call]
      | step idx io =>
        cases alt
        simp only [step] at ran
        split at ran <;> cases ran <;> simp [Event.call]
      | crash idx => exact absurd may never
    · rw [step_calls_of_ne ran alt]
      exact held call req

end

section

def Along (execute : Choice → World → (statement : Statement) →
      Answer statement × World) (allowed : World → Statement → Choice → Prop) :
    (Nat → Choice) → Procedure Statement Answer Value → World → Prop
  | _, .done _, _ => True
  | choices, .issue statement rest, world =>
    allowed world statement (choices 0) ∧ Along execute allowed (fun index => choices (index + 1))
        (rest (execute (choices 0) world statement).1) (execute (choices 0) world statement).2

instance decidableAlong
    {execute : Choice → World → (statement : Statement) →
      Answer statement × World} {allowed : World → Statement → Choice → Prop}
    [∀ world statement choice, Decidable (allowed world statement choice)] :
    (choices : Nat → Choice) → (procedure : Procedure Statement Answer Value) → (world : World) →
    Decidable (Along execute allowed choices procedure world)
  | _, .done _, _ => inferInstanceAs (Decidable True)
  | choices, .issue statement rest, world =>
    @instDecidableAnd _ _ inferInstance (decidableAlong (fun index => choices (index + 1))
        (rest (execute (choices 0) world statement).1) (execute (choices 0) world statement).2)

variable {choices : Nat → Choice}

theorem Along.mono
    {execute : Choice → World → (s : Statement) →
      Answer s × World} {fst snd : World → Statement → Choice → Prop}
    {p : Procedure Statement Answer Value}
    (along : Along execute fst choices p w) (weaker : ∀ w s io, fst w s io → snd w s io) :
    Along execute snd choices p w := by
  induction p generalizing choices w with
  | done val => trivial
  | issue s rest ih => exact ⟨weaker _ _ _ along.1, ih _ along.2⟩

theorem along_true
    {execute : Choice → World → (s : Statement) →
      Answer s × World} (choices : Nat → Choice)
    (p : Procedure Statement Answer Value) (w : World) :
    Along execute (fun _ _ _ => True) choices p w := by
  induction p generalizing choices w with
  | done val => trivial
  | issue s rest ih => exact ⟨trivial, ih _ _ _⟩

variable {srv : Service Request Statement Answer Value World Choice}
  {permit : Permit Request Statement World Choice}

theorem reaches_returned (rest : Procedure Statement Answer Value)
    (may : Along srv.execute (fun w s io =>
      permit.executes w (update (fun alt => (cs alt).active) c (some req)) c s io) choices rest w) :
    Reaches srv.step permit.Allows ⟨w, update cs c (.running req rest)⟩
      ⟨(rest.run srv.execute choices w).2, update cs c
          (.returned req (rest.run srv.execute choices w).1)⟩ := by
  have live : ∀ cur : Procedure Statement Answer Value,
      (fun alt => (update cs c (.running req cur) alt).active) =
      update (fun alt => (cs alt).active) c (some req) := by
    intro cur
    funext alt
    exact apply_update (fun _ => Call.active) cs c (.running req cur) alt
  induction rest generalizing choices w with
  | done val =>
    refine Reaches.head (?_ : permit.Allows _ (.step c (choices 0))) ?_ .refl
    · simp [Permit.Allows, Permit.Executes]
    · simp [step, Procedure.run]
  | issue s rest ih =>
    refine Reaches.head (?_ : permit.Allows _ (.step c (choices 0))) ?_ (ih _ may.2)
    · simp only [Permit.Allows, update_self, Permit.Executes, live]
      exact may.1
    · simp [step]

theorem reaches_alone (idle : st.calls c = .idle) (opened : permit.opens st.world req)
    (may : Along srv.execute (fun w s io =>
      permit.executes w (update (fun alt => (st.calls alt).active) c (some req)) c
        s io) choices (srv.procedure req) st.world) :
    Reaches srv.step permit.Allows st ⟨((srv.procedure req).run srv.execute choices st.world).2,
        update st.calls c (.returned req
          ((srv.procedure req).run srv.execute choices st.world).1)⟩ := by
  have begins : permit.Allows st (.begin c req) := opened
  refine Reaches.head begins ?_ (reaches_returned (srv.procedure req) may)
  simp [step, idle]

end

end Service

end Harbor.Library
