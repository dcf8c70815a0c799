import Harbor.Library.Run

/-!
# Pools of calls

Any number of calls share some data and take turns, one statement at a time.
A `Machine` says where a request starts and what the next statement of a call
does; the calls of a pool are numbered in the order they were made.

Two rules cover the invariants of such systems.  `Reaches.rely` keeps a
condition on the shared data together with one on each call that the statements
of the other calls do not disturb.  `total_set` follows a weight summed over
all calls.
-/

namespace Harbor.Library

open List

structure Pool (Shared Call : Type*) where
  shared : Shared
  calls : List Call

/-- Where a request starts, and one statement of the call with this number;
`none` when the statement has to wait or there is none. -/
structure Machine (Shared Request Io Call : Type*) where
  accept : Shared → Request → Call
  advance : Nat → Shared → Io → Call → Option (Shared × Call)

namespace Pool

variable {Shared Req Io Call : Type*}

inductive Event (Request Io : Type*) where
  | request (request : Request)
  | statement (index : Nat) (io : Io)

def quiet (shared : Shared) : Pool Shared Call :=
  ⟨shared, []⟩

def All (pool : Pool Shared Call) (holds : Nat → Call → Prop) : Prop :=
  ∀ index call, pool.calls[index]? = some call → holds index call

def total (pool : Pool Shared Call) (weight : Call → Int) : Int :=
  pool.calls.foldr (fun call rest => weight call + rest) 0

end Pool

namespace Machine

variable {Shared Request Io Call : Type*}

def step (machine : Machine Shared Request Io Call) (pool : Pool Shared Call) :
    Pool.Event Request Io → Option (Pool Shared Call)
  | .request request =>
    some { pool with
      calls := pool.calls ++ [machine.accept pool.shared request] }
  | .statement index io =>
    match pool.calls[index]? with
    | none => none
    | some call =>
      (machine.advance index pool.shared io call).map fun (shared, next) =>
        ⟨shared, pool.calls.set index next⟩

inductive Move (machine : Machine Shared Request Io Call) (pool : Pool Shared Call) :
    Pool.Event Request Io → Pool Shared Call → Prop where
  | requested (request : Request) : Move machine pool (.request request)
        { pool with
          calls := pool.calls ++ [machine.accept pool.shared request] }
  | advanced {index : Nat} {io : Io} {call next : Call} {shared : Shared}
      (here : pool.calls[index]? = some call)
      (ran : machine.advance index pool.shared io call = some (shared, next)) :
      Move machine pool (.statement index io) ⟨shared, pool.calls.set index next⟩

variable {machine : Machine Shared Request Io Call} {pool fin init finish : Pool Shared Call}
  {ev : Pool.Event Request Io} {allowed : Pool Shared Call → Pool.Event Request Io → Prop}

theorem step_move (did : machine.step pool ev = some fin) :
    Move machine pool ev fin := by
  cases ev with
  | request req =>
    cases did
    exact .requested req
  | statement idx io =>
    simp only [step] at did
    split at did
    · cases did
    · rename_i c here
      obtain ⟨⟨both, next⟩, ran, rfl⟩ := Option.map_eq_some_iff.mp did
      exact .advanced here ran

end Machine

section

variable {Call : Type*} {calls : List Call} {index : Nat} {call next : Call}

theorem getElem?_append_last (here : (calls ++ [next])[alt]? = some hit) :
    calls[alt]? = some hit ∨ alt = calls.length ∧ hit = next := by
  rcases Nat.lt_trichotomy alt calls.length with lies | rfl | beyond
  · rw [List.getElem?_append_left lies] at here
    exact .inl here
  · rw [List.getElem?_concat_length, Option.some.injEq] at here
    exact .inr ⟨rfl, here.symm⟩
  · rw [List.getElem?_eq_none (by simp; omega)] at here
    cases here

theorem getElem?_set_cases
    (here : (calls.set index next)[alt]? = some hit) : alt = index ∧ hit = next ∨
      alt ≠ index ∧ calls[alt]? = some hit := by
  by_cases eq : alt = index
  · subst alt
    rw [List.getElem?_set_self'] at here
    obtain ⟨_, _, rfl⟩ := Option.map_eq_some_iff.mp here
    exact .inl ⟨rfl, rfl⟩
  · rw [List.getElem?_set_ne (Ne.symm eq)] at here
    exact .inr ⟨eq, here⟩

end

namespace Pool

variable {Shared Call : Type*} {pool : Pool Shared Call} {index : Nat} {call next : Call}

@[simp]
theorem total_quiet (both : Shared) (wt : Call → Int) :
    (quiet both : Pool Shared Call).total wt = 0 :=
  rfl

theorem foldr_weight (wt : Call → Int) (cs : List Call) (init : Int) :
    cs.foldr (fun call rest => wt call + rest) init =
      cs.foldr (fun call rest => wt call + rest) 0 + init := by
  induction cs with
  | nil => simp
  | cons head rest ih =>
    simp only [foldr_cons, ih]
    omega

theorem total_append (both : Shared) (wt : Call → Int) :
    (⟨both, pool.calls ++ [next]⟩ : Pool Shared Call).total wt = pool.total wt + wt next := by
  simp only [total, foldr_append, foldr_cons, foldr_nil]
  rw [foldr_weight, Int.add_zero]

theorem total_set (both : Shared) (wt : Call → Int) (here : pool.calls[index]? = some call) :
    (⟨both, pool.calls.set index next⟩ : Pool Shared Call).total wt =
      pool.total wt - wt call + wt next := by
  obtain ⟨old, cs⟩ := pool
  simp only [total] at here ⊢
  induction cs generalizing index with
  | nil => cases here
  | cons head rest ih =>
    cases index with
    | zero =>
      simp only [List.getElem?_cons_zero, Option.some.injEq] at here
      subst head
      simp only [set_cons_zero, foldr_cons]
      omega
    | succ index =>
      rw [List.getElem?_cons_succ] at here
      simp only [set_cons_succ, foldr_cons, ih here]
      omega

theorem total_nonneg (nn : ∀ call ∈ pool.calls, 0 ≤ wt call) : 0 ≤ pool.total wt := by
  obtain ⟨both, cs⟩ := pool
  simp only [total] at nn ⊢
  induction cs with
  | nil => exact Int.le_refl 0
  | cons head tail ih =>
    have fst := nn head mem_cons_self
    have rest := ih fun call mem =>
      nn call (mem_cons_of_mem _ mem)
    rw [foldr_cons]
    omega

theorem total_eq_zero (zero : ∀ call ∈ pool.calls, wt call = 0) : pool.total wt = 0 := by
  obtain ⟨both, cs⟩ := pool
  simp only [total] at zero ⊢
  induction cs with
  | nil => rfl
  | cons head tail ih =>
    have fst := zero head mem_cons_self
    have rest := ih fun call mem =>
      zero call (mem_cons_of_mem _ mem)
    rw [foldr_cons]
    omega

end Pool

section

variable {Shared Req Io Call : Type*} {machine : Machine Shared Req Io Call}
  {init finish : Pool Shared Call} {allowed : Pool Shared Call → Pool.Event Req Io → Prop}

theorem Reaches.rely (met : Reaches machine.step allowed init finish)
    (common : Shared → Prop) (own : Shared → Nat → Call → Prop)
    (was : common init.shared ∧ init.All (own init.shared))
    (took : ∀ {both : Shared} (idx : Nat) (req : Req),
      common both → own both idx (machine.accept both req))
    (went : ∀ {p : Pool Shared Call} {idx : Nat} {io : Io} {c next : Call} {both : Shared},
      allowed p (.statement idx io) → p.calls[idx]? = some c →
      common p.shared → own p.shared idx c → machine.advance idx p.shared io c = some (both, next) →
      common both ∧ own both idx next ∧ ∀ alt there, alt ≠ idx → p.calls[alt]? = some there →
          own p.shared alt there → own both alt there) :
    common finish.shared ∧ finish.All (own finish.shared) := by
  refine met.invariant (fun p => common p.shared ∧ p.All (own p.shared)) was ?_
  rintro p new ev ⟨both, all⟩ may did
  cases Machine.step_move did with
  | requested req =>
    refine ⟨both, ?_⟩
    intro idx c there
    rcases getElem?_append_last there with old | ⟨_, rfl⟩
    · exact all idx c old
    · exact took idx req both
  | advanced here ran =>
    obtain ⟨kept, move, rest⟩ := went may here both (all _ _ here) ran
    refine ⟨kept, ?_⟩
    intro alt there hit
    rcases getElem?_set_cases hit with ⟨rfl, rfl⟩ | ⟨ne, old⟩
    · exact move
    · exact rest alt there ne old (all alt there old)

end

end Harbor.Library
