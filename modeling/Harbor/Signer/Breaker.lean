import Harbor.Library.Table

/-!
# The signing circuit breaker

The breaker counts the issuances of the last window and latches open when there
are as many as its limit.  `SQLBreaker` keeps the latch and the issuances of all
lanes in two tables; `breaker` keeps those of one process in memory.
-/

namespace Harbor.Signer

open Library List

structure Ceiling where
  max : Int
  window : Int

/-- A row of `signer_breaker`. -/
structure Latch where
  lane : String
  isOpen : Bool := false
  openedAt : Int := 0
deriving DecidableEq, Repr

/-- A row of `signer_issuance`. -/
structure Issuance where
  lane : String
  ts : Int
deriving DecidableEq, Repr

/-- What `acquire` returns. -/
structure Answer where
  allowed : Bool
  justTripped : Bool
deriving DecidableEq, Repr

namespace Answer

def granted : Answer := ⟨true, false⟩

def tripped : Answer := ⟨false, true⟩

def refused : Answer := ⟨false, false⟩

end Answer

structure Board where
  latches : Table Latch.lane
  issuances : List Issuance

namespace Board

variable (board : Board) (ceiling : Ceiling) (lane : String)

def empty : Board where
  latches := .empty
  issuances := []

def isOpen : Bool :=
  ((board.latches.find lane).map (·.isOpen)).getD false

/-- `lane = ? AND ts > ?`, counted. -/
def recent (cutoff : Int) : Nat :=
  board.issuances.countP fun row =>
    row.lane == lane && decide (cutoff < row.ts)

def upsertLatch (row : Latch) : Board :=
  { board with
    latches := board.latches.upsert row
      (fun old => { old with isOpen := row.isOpen, openedAt := row.openedAt })
      fun _ => rfl }

/-- The transaction of `acquire` at one reading of the clock. -/
def acquire (now : Int) : Board × Answer :=
  if ceiling.max ≤ 0 then (board, .granted)
  else if board.isOpen lane then (board, .refused)
  else if ceiling.max ≤ board.recent lane (now - ceiling.window) then
    (board.upsertLatch { lane := lane, isOpen := true, openedAt := now }, .tripped)
  else
    ({ board with issuances := board.issuances ++ [⟨lane, now⟩] }, .granted)

def reset : Board :=
  { board with
    issuances := board.issuances.filter fun row => row.lane != lane
    }.upsertLatch { lane := lane }

/-- The sweep of `maybeGC`, by the reading it has taken. -/
def collect (reading : Int) : Board :=
  { board with
    issuances := board.issuances.filter fun row =>
      !(row.lane == lane && decide (row.ts < reading - ceiling.window)) }

end Board

structure Memory where
  events : List Int := []
  isOpen : Bool := false
deriving DecidableEq, Repr

namespace Memory

/-- `acquire`, which reads the clock once for the cutoff and once more for the
event. -/
def acquire (memory : Memory) (ceiling : Ceiling) (first second : Int) : Memory × Answer :=
  if memory.isOpen then (memory, .refused)
  else if ceiling.max ≤ 0 then (memory, .granted)
  else
    let kept := memory.events.filter fun event =>
      decide (first - ceiling.window < event)
    if ceiling.max ≤ kept.length then
      ({ events := kept, isOpen := true }, .tripped)
    else ({ memory with events := kept ++ [second] }, .granted)

def reset (_ : Memory) : Memory := {}

end Memory

section

variable {board : Board} {cap : Ceiling} {lane alt : String}

theorem isOpen_upsertLatch (row : Latch) : (board.upsertLatch row).isOpen lane =
      if lane = row.lane then row.isOpen else board.isOpen lane := by
  unfold Board.isOpen Board.upsertLatch
  rw [Table.find_upsert]
  split_ifs with same
  · cases board.latches.find lane with
    | none => rfl
    | some old => rfl
  · rfl

theorem isOpen_reset : (board.reset alt).isOpen lane =
      if lane = alt then false else board.isOpen lane := by
  unfold Board.reset
  rw [isOpen_upsertLatch]
  rfl

variable {cutoff : Int}

theorem recent_append :
    ({ board with issuances := board.issuances ++ [⟨alt, ts⟩] } : Board).recent lane cutoff =
      board.recent lane cutoff +
        if alt = lane ∧ cutoff < ts then 1 else 0 := by
  unfold Board.recent
  rw [countP_append, countP_singleton]
  simp only [Bool.and_eq_true, beq_iff_eq, decide_eq_true_eq]

theorem recent_reset : (board.reset alt).recent lane cutoff =
      if lane = alt then 0 else board.recent lane cutoff := by
  show (board.issuances.filter fun row => row.lane != alt).countP _ = _
  rw [countP_filter]
  split_ifs with same
  · subst same
    rw [countP_eq_zero]
    intro row _ chosen
    simp only [Bool.and_eq_true, beq_iff_eq, bne_iff_ne] at chosen
    exact chosen.2 chosen.1.1
  · refine countP_congr ?_
    intro row _
    by_cases named : row.lane = lane
    · simp [named, same]
    · simp [named]

theorem recent_collect (early : lane = alt → reading - cap.window ≤ cutoff) :
    (board.collect cap alt reading).recent lane cutoff =
      board.recent lane cutoff := by
  show (board.issuances.filter _).countP _ = _
  rw [countP_filter]
  refine countP_congr ?_
  intro row _
  by_cases counts : row.lane = lane ∧ cutoff < row.ts
  · obtain ⟨rfl, late⟩ := counts
    have kept : (row.lane == alt &&
        decide (row.ts < reading - cap.window)) = false := by
      rw [Bool.and_eq_false_iff, beq_eq_false_iff_ne, decide_eq_false_iff_not,
        ← not_and_or]
      intro swept
      have bound := early swept.1
      omega
    simp [late, kept]
  · simp only [not_and] at counts
    simp only [Bool.and_eq_true, beq_iff_eq, decide_eq_true_eq]
    exact ⟨fun both => both.1, fun both => absurd both.2 (counts both.1)⟩

end

section

variable {board : Board} {memory : Memory} {cap : Ceiling} {lane : String}
  {now first second : Int}

theorem Board.acquire_latched (pos : 0 < cap.max) (latched : board.isOpen lane = true) :
    board.acquire cap lane now = (board, .refused) := by
  unfold Board.acquire
  rw [if_neg (not_le.mpr pos), if_pos latched]

theorem Board.acquire_full (pos : 0 < cap.max) (shut : board.isOpen lane = false)
    (full : cap.max ≤ board.recent lane (now - cap.window)) : board.acquire cap lane now =
      (board.upsertLatch { lane := lane, isOpen := true, openedAt := now }, .tripped) := by
  unfold Board.acquire
  rw [if_neg (not_le.mpr pos), if_neg (Bool.eq_false_iff.mp shut), if_pos full]

theorem Board.acquire_room (pos : 0 < cap.max) (shut : board.isOpen lane = false)
    (room : ¬ cap.max ≤ board.recent lane (now - cap.window)) :
    board.acquire cap lane now = ({ board with issuances := board.issuances ++ [⟨lane, now⟩] },
        .granted) := by
  unfold Board.acquire
  rw [if_neg (not_le.mpr pos), if_neg (Bool.eq_false_iff.mp shut), if_neg room]

def Memory.kept (memory : Memory) (ceiling : Ceiling) (first : Int) :
    List Int :=
  memory.events.filter fun event => decide (first - ceiling.window < event)

theorem Memory.acquire_latched (latched : memory.isOpen = true) :
    memory.acquire cap first second = (memory, .refused) := by
  unfold Memory.acquire
  rw [if_pos latched]

theorem Memory.acquire_full (pos : 0 < cap.max) (shut : memory.isOpen = false)
    (full : cap.max ≤ (memory.kept cap first).length) : memory.acquire cap first second =
      ({ events := memory.kept cap first, isOpen := true }, .tripped) := by
  unfold Memory.acquire
  rw [if_neg (Bool.eq_false_iff.mp shut), if_neg (not_le.mpr pos)]
  exact if_pos full

theorem Memory.acquire_room (pos : 0 < cap.max) (shut : memory.isOpen = false)
    (room : ¬ cap.max ≤ (memory.kept cap first).length) : memory.acquire cap first second =
      ({ memory with events := memory.kept cap first ++ [second] }, .granted) := by
  unfold Memory.acquire
  rw [if_neg (Bool.eq_false_iff.mp shut), if_neg (not_le.mpr pos)]
  exact if_neg room

end

end Harbor.Signer
