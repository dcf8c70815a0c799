import Harbor.Data.JoinKey
import Harbor.Library.Pool
import Harbor.Library.Procedure

/-!
# The use limit of a join key

A caller looks a key up and takes a use of it later, by a conditional update
that compares the stored counter with the limit the `Lookup` has read.  In
between an administrator may edit or revoke the key.  The update sees the state
and the counter as they are then, but not the limit: a use is within the stored
limit as long as the one the caller carries is no weaker.
-/

namespace Harbor.JoinKeys

open Library List

/-- The columns an administrator may edit; `none` leaves one as it is. -/
structure UpdateParams where
  groups : Option (List String) := none
  subRange : Option String := none
  maxUses : Option Int := none
  quotaPerHour : Option Int := none
  autoIssue : Option Bool := none
  ephemeral : Option Bool := none
  /-- A duration from now; none or a negative one clears the expiry. -/
  ttl : Option Int := none

namespace UpdateParams

def isEmpty (params : UpdateParams) : Bool :=
  params.groups.isNone && params.subRange.isNone && params.maxUses.isNone &&
    params.quotaPerHour.isNone && params.autoIssue.isNone &&
    params.ephemeral.isNone && params.ttl.isNone

def edit (params : UpdateParams) (now : Int) (row : JoinKey) : JoinKey :=
  { row with
    groups := params.groups.getD row.groups
    subRange := params.subRange.getD row.subRange
    maxUses := params.maxUses.getD row.maxUses
    quotaPerHour := params.quotaPerHour.getD row.quotaPerHour
    autoIssue := params.autoIssue.getD row.autoIssue
    ephemeral := params.ephemeral.getD row.ephemeral
    expiresAt :=
      match params.ttl with
      | none => row.expiresAt
      | some ttl => if 0 < ttl then now + ttl else 0 }

end UpdateParams

structure Ledger where
  keys : JoinKeys
  uses : List (Nat × JoinKey)

structure LedgerIo where
  fault : Fault := .ok
  text : String := ""

inductive LedgerRequest where
  | use (secret : String) (now : Int)
  | update (name : String) (params : UpdateParams) (now : Int)
  | revoke (name : String)

inductive LedgerError where
  | key (error : JoinKey.Error)
  | database (text : String)
deriving DecidableEq, Repr

inductive LedgerCall where
  | lookup (secret : String) (now : Int)
  | consume (key : JoinKey)
  | update (name : String) (params : UpdateParams) (now : Int)
  | reread (name : String)
  | revoke (name : String)
  | used (key : JoinKey)
  | updated (key : JoinKey)
  | revoked
  | refused (error : LedgerError)

/-- `name = ? AND state = 'active'`. -/
def isActive (name : String) (row : JoinKey) : Bool :=
  row.name == name && row.state == .active

namespace Ledger

variable (sha256 : String → Bytes) (ledger : Ledger) (io : LedgerIo)

def settled (label : String) (affected : Nat) (missing : JoinKey.Error)
    (next : LedgerCall) : LedgerCall :=
  if io.fault ≠ .ok then .refused (.database (label ++ io.text))
  else if affected = 0 then .refused (.key missing)
  else next

def lookup (secret : String) (now : Int) : LedgerCall :=
  if io.fault ≠ .ok then .refused (.database ("joinkey: lookup: " ++ io.text))
  else
    match ledger.keys.findActive (sha256 secret) with
    | none => .refused (.key .notFound)
    | some row =>
      match row.check now with
      | .error error => .refused (.key error)
      | .ok key => .consume key

def consume (index : Nat) (key : JoinKey) : Ledger × LedgerCall :=
  if io.fault = .failed then
    (ledger, .refused (.database ("joinkey: consume: " ++ io.text)))
  else
    let consumed := ledger.keys.consume key.id key.maxUses
    ({ keys := consumed.2
       uses := ledger.uses ++ (ledger.keys.rows.filter
        (consumable key.id key.maxUses)).map (index, ·) },
      settled io "joinkey: consume: " consumed.1 .exhausted
        (.used { key with usedCount := key.usedCount + 1 }))

def write (name : String) (change : JoinKey → JoinKey)
    (keepsKey : ∀ row, (change row).id = row.id) : Ledger :=
  if io.fault = .failed then ledger
  else
    { ledger with keys := ledger.keys.update (isActive name) change keepsKey }

def update (name : String) (params : UpdateParams) (now : Int) : Ledger × LedgerCall :=
  if params.isEmpty then (ledger, .reread name)
  else
    (ledger.write io name (params.edit now) fun _ => rfl,
      settled io "joinkey: update: " (ledger.keys.affected (isActive name))
        .notFound (.reread name))

def reread (name : String) : LedgerCall :=
  if io.fault ≠ .ok then
    .refused (.database ("joinkey: update reread: " ++ io.text))
  else
    match ledger.keys.rows.find? (isActive name) with
    | none => .refused (.key .notFound)
    | some row => .updated row

def revoke (name : String) : Ledger × LedgerCall :=
  (ledger.write io name (fun row => { row with state := .revoked }) fun _ => rfl,
    settled io "joinkey: revoke: " (ledger.keys.affected (isActive name)) .notFound .revoked)

def advance (index : Nat) : LedgerCall → Option (Ledger × LedgerCall)
  | .lookup secret now => some (ledger, ledger.lookup sha256 io secret now)
  | .consume key => some (ledger.consume io index key)
  | .update name params now => some (ledger.update io name params now)
  | .reread name => some (ledger, ledger.reread io name)
  | .revoke name => some (ledger.revoke io name)
  | _ => none

end Ledger

def machine (sha256 : String → Bytes) : Machine Ledger LedgerRequest LedgerIo LedgerCall where
  accept _
    | .use secret now => .lookup secret now
    | .update name params now => .update name params now
    | .revoke name => .revoke name
  advance index ledger io call := ledger.advance sha256 io index call

def Ledger.current (ledger : Ledger) : LedgerCall → Bool
  | .consume key =>
    ledger.keys.rows.all fun row =>
      row.id != key.id || decide (row.maxUses ≤ 0) ||
        decide (0 < key.maxUses) && decide (key.maxUses ≤ row.maxUses)
  | _ => true

def Current (pool : Pool Ledger LedgerCall) : Pool.Event LedgerRequest LedgerIo → Prop
  | .statement index _ => pool.calls[index]?.all pool.shared.current = true
  | .request _ => True

instance (pool : Pool Ledger LedgerCall) : DecidablePred (Current pool)
  | .statement index _ =>
    inferInstanceAs (Decidable (pool.calls[index]?.all pool.shared.current = true))
  | .request _ => inferInstanceAs (Decidable True)

structure Usable (row : JoinKey) : Prop where
  active : row.state = .active
  left : 0 < row.maxUses → row.usedCount < row.maxUses

def LedgerCall.Recorded (ledger : Ledger) (index : Nat) : LedgerCall → Prop
  | .used key => ∃ row, (index, row) ∈ ledger.uses ∧ row.id = key.id
  | _ => True

section

variable {sha : String → Bytes} {log fin : Ledger} {io : LedgerIo}
  {idx : Nat} {call next : LedgerCall}

inductive Entry (ledger : Ledger) (index : Nat) : LedgerCall → Ledger → Prop
    where
  | still {call : LedgerCall} : Entry ledger index call ledger
  | edited {call : LedgerCall} {name : String} {change : JoinKey → JoinKey}
      {keepsKey : ∀ row, (change row).id = row.id}
      (keepsCount : ∀ row, (change row).usedCount = row.usedCount) : Entry ledger index call
        { ledger with
          keys := ledger.keys.update (isActive name) change keepsKey }
  | consumed {key : JoinKey} : Entry ledger index (.consume key)
        { keys := (ledger.keys.consume key.id key.maxUses).2
          uses := ledger.uses ++ (ledger.keys.rows.filter
            (consumable key.id key.maxUses)).map (index, ·) }

theorem write_entry (n : String) (ch : JoinKey → JoinKey) (keep : ∀ row, (ch row).id = row.id)
    (num : ∀ row, (ch row).usedCount = row.usedCount) :
    Entry log idx call (log.write io n ch keep) := by
  unfold Ledger.write
  split
  · exact .still
  · exact .edited num

theorem advance_entry (ran : log.advance sha io idx call = some (fin, next)) :
    Entry log idx call fin := by
  cases call with
  | lookup secret now =>
    cases ran
    exact .still
  | consume key =>
    simp only [Ledger.advance, Ledger.consume, Option.some.injEq] at ran
    split_ifs at ran
    · cases ran
      exact .still
    · cases ran
      exact .consumed
  | update n params now =>
    simp only [Ledger.advance, Ledger.update, Option.some.injEq] at ran
    split_ifs at ran
    · cases ran
      exact .still
    · cases ran
      exact write_entry n _ _ fun _ => rfl
  | reread n =>
    cases ran
    exact .still
  | revoke n =>
    cases ran
    exact write_entry n _ _ fun _ => rfl
  | _ => cases ran

theorem usable_of_consumable (cur : log.current (.consume key) = true) (mem : row ∈ log.keys.rows)
    (pick : consumable key.id key.maxUses row = true) : Usable row := by
  simp only [consumable, Bool.and_eq_true, Bool.or_eq_true, beq_iff_eq, decide_eq_true_eq] at pick
  obtain ⟨⟨named, live⟩, into⟩ := pick
  refine ⟨live, ?_⟩
  intro few
  simp only [Ledger.current, all_eq_true, Bool.or_eq_true, bne_iff_ne,
    Bool.and_eq_true, decide_eq_true_eq] at cur
  rcases cur row mem with (alt | unlimited) | ⟨pos, lower⟩
  · exact absurd named alt
  · exact absurd few (not_lt.mpr unlimited)
  · rcases into with unlimited | below
    · exact absurd pos (not_lt.mpr unlimited)
    · exact lt_of_lt_of_le below lower

theorem Entry.usable (entry : Entry log idx call fin) (cur : log.current call = true)
    (fit : ∀ use ∈ log.uses, Usable use.2) : ∀ use ∈ fin.uses, Usable use.2 := by
  cases entry with
  | still | edited => exact fit
  | consumed =>
    intro use mem
    rcases mem_append.mp mem with old | fresh
    · exact fit use old
    · obtain ⟨row, pick, rfl⟩ := mem_map.mp fresh
      obtain ⟨lies, sel⟩ := mem_filter.mp pick
      exact usable_of_consumable cur lies sel

theorem Entry.uses_mono (entry : Entry log idx call fin) : ∀ use ∈ log.uses, use ∈ fin.uses := by
  intro use mem
  cases entry with
  | still | edited => exact mem
  | consumed => exact mem_append_left _ mem

theorem Entry.within (entry : Entry log idx call fin)
    (cur : log.current call = true) (hit : fin.keys.find row.id = some row)
    (raised : log.keys.usedCount row.id < row.usedCount)
    (few : 0 < row.maxUses) : row.usedCount ≤ row.maxUses := by
  unfold usedCount at raised
  cases entry with
  | still =>
    rw [hit] at raised
    exact absurd raised (lt_irrefl _)
  | edited num =>
    rw [Table.find_update, Option.map_eq_some_iff] at hit
    obtain ⟨old, was, edit⟩ := hit
    rw [was] at raised
    rw [← edit] at raised
    simp only [Option.map_some, Option.getD_some] at raised
    split_ifs at raised
    · rw [num] at raised
      exact absurd raised (lt_irrefl _)
    · exact absurd raised (lt_irrefl _)
  | @consumed key =>
    simp only [consume] at hit
    rw [Table.find_update, Option.map_eq_some_iff] at hit
    obtain ⟨old, was, edit⟩ := hit
    rw [was] at raised
    obtain ⟨mem, _⟩ := Table.find_eq_some_iff.mp was
    split_ifs at edit with pick
    · subst edit
      have fit := usable_of_consumable cur mem pick
      exact fit.left few
    · subst edit
      exact absurd raised (lt_irrefl _)

theorem settled_recorded (note : affected ≠ 0 → next.Recorded log idx) :
    (Ledger.settled io label affected lacks next).Recorded log
      idx := by
  unfold Ledger.settled
  split
  · trivial
  · split
    · trivial
    · rename_i edit
      exact note edit

theorem LedgerCall.Recorded.mono (note : call.Recorded log idx)
    (uses : ∀ use ∈ log.uses, use ∈ fin.uses) :
    call.Recorded fin idx := by
  cases call with
  | used key =>
    obtain ⟨row, mem, same⟩ := note
    exact ⟨row, uses _ mem, same⟩
  | _ => trivial

theorem advance_recorded (ran : log.advance sha io idx call = some (fin, next)) :
    next.Recorded fin idx := by
  cases call with
  | lookup secret now =>
    cases ran
    unfold Ledger.lookup
    split
    · trivial
    · split
      · trivial
      · split <;> trivial
  | consume key =>
    simp only [Ledger.advance, Ledger.consume, Option.some.injEq] at ran
    split_ifs at ran
    · cases ran
      trivial
    · cases ran
      refine settled_recorded ?_
      intro edit
      simp only [consume, Table.affected, ne_eq, countP_eq_zero, not_forall, not_not] at edit
      obtain ⟨row, mem, pick⟩ := edit
      refine ⟨row, ?_, ?_⟩
      · exact mem_append_right _ (mem_map.mpr ⟨row, mem_filter.mpr ⟨mem, pick⟩, rfl⟩)
      · simp only [consumable, Bool.and_eq_true, beq_iff_eq] at pick
        exact pick.1.1
  | update n params now =>
    simp only [Ledger.advance, Ledger.update, Option.some.injEq] at ran
    split_ifs at ran
    · cases ran
      trivial
    · cases ran
      exact settled_recorded fun _ => trivial
  | reread n =>
    cases ran
    unfold Ledger.reread
    split
    · trivial
    · split <;> trivial
  | revoke n =>
    cases ran
    exact settled_recorded fun _ => trivial
  | _ => cases ran

end

section

variable {sha256 : String → Bytes} {keys : JoinKeys} {pool after : Pool Ledger LedgerCall}
  {event : Pool.Event LedgerRequest LedgerIo}

theorem current_of_permitted
    (may : Current pool (.statement idx io)) (here : pool.calls[idx]? = some c) :
    pool.shared.current c = true := by
  have all : pool.calls[idx]?.all pool.shared.current = true := may
  rwa [here] at all

theorem usable_of_reaches (met : Reaches (machine sha256).step Current (.quiet ⟨keys, []⟩)
      pool) : (∀ use ∈ pool.shared.uses, Usable use.2) ∧
      pool.All fun idx c => c.Recorded pool.shared idx := by
  refine met.rely (fun log => ∀ use ∈ log.uses, Usable use.2)
    (fun log idx c => c.Recorded log idx) ?_ ?_ ?_
  · refine ⟨?_, ?_⟩
    · intro use mem
      cases mem
    · intro idx c there
      cases there
  · intro log idx req _
    cases req <;> trivial
  · intro pool idx io c next log may here fit _ ran
    have entry := advance_entry ran
    refine ⟨entry.usable (current_of_permitted may here) fit, advance_recorded ran, ?_⟩
    intro alt there _ _ note
    exact note.mono entry.uses_mono

/-- Every use that is granted is on record with the row its update found, and
that row was active and below its stored limit; a counter that a statement
raises stays within the limit stored then.  Both hold in every run in which a
use is taken with a limit no weaker than the one stored. -/
theorem uses_within_limit (reached : Reaches (machine sha256).step Current (.quiet ⟨keys, []⟩)
      pool) : (∀ index key, pool.calls[index]? = some (.used key) →
      ∃ row, (index, row) ∈ pool.shared.uses ∧ row.id = key.id ∧ Usable row) ∧
    ∀ event after, Current pool event → (machine sha256).step pool event = some after →
      ∀ row, after.shared.keys.find row.id = some row →
        pool.shared.keys.usedCount row.id < row.usedCount →
        0 < row.maxUses → row.usedCount ≤ row.maxUses := by
  obtain ⟨usable, recorded⟩ := usable_of_reaches reached
  refine ⟨?_, ?_⟩
  · intro index key here
    obtain ⟨row, member, named⟩ := recorded index _ here
    exact ⟨row, member, named, usable _ member⟩
  · intro event after permitted taken row found raised limited
    cases Machine.step_move taken with
    | requested request =>
      have same : pool.shared.keys.find row.id = some row := found
      rw [usedCount, same] at raised
      exact absurd raised (lt_irrefl _)
    | advanced here ran =>
      exact (advance_entry ran).within (current_of_permitted permitted here) found raised limited

end

namespace Example

def keys : JoinKeys where
  rows := [{ id := 1, name := "k", maxUses := 10, usedCount := 2 }]
  nodup := by decide

def hashed (_ : String) : Bytes := []

def raised : List (Pool.Event LedgerRequest LedgerIo) :=
  [.request (.use "s" 0), .statement 0 {},
    .request (.update "k" { maxUses := some 20 } 0), .statement 1 {},
    .statement 1 {}, .statement 0 {}]

def lowered : List (Pool.Event LedgerRequest LedgerIo) :=
  [.request (.use "s" 0), .statement 0 {},
    .request (.update "k" { maxUses := some 1 } 0), .statement 1 {}, .statement 1 {}]

end Example

open Example

theorem uses_within_limit_raised : ∃ pool, Reaches (machine hashed).step Current
        (.quiet ⟨keys, []⟩) pool ∧
      ∃ row, (0, row) ∈ pool.shared.uses ∧ row.id = 1 ∧ Usable row := by
  have reached := @reaches_getD _ _ (machine hashed).step Current _
    (.quiet ⟨keys, []⟩) raised (.quiet ⟨.empty, []⟩) (by decide)
  exact ⟨_, reached, (uses_within_limit reached).1 0
    { id := 1, name := "k", maxUses := 10, usedCount := 3 } rfl⟩

/-- The limit is lowered to one between a `Lookup` and its `Consume`, which
still takes a third use. -/
theorem lowered_limit_exceeded : ∃ pool after row,
      Reachable (machine hashed).step (.quiet ⟨keys, []⟩) pool ∧
      (machine hashed).step pool (.statement 0 {}) = some after ∧
      after.shared.keys.find row.id = some row ∧ pool.shared.keys.usedCount row.id < row.usedCount ∧
      0 < row.maxUses ∧ row.maxUses < row.usedCount := by
  have reached := @reachable_getD _ _ (machine hashed).step
    (.quiet ⟨keys, []⟩) lowered (.quiet ⟨.empty, []⟩) (by decide)
  have taken := @step_getD _ _ (machine hashed).step _
    (.statement 0 {}) (.quiet ⟨.empty, []⟩) (show ((machine hashed).step
      ((runEvents (machine hashed).step (.quiet ⟨keys, []⟩)
        lowered).getD (.quiet ⟨.empty, []⟩)) (.statement 0 {})).isSome = true by decide)
  exact ⟨_, _, { id := 1, name := "k", maxUses := 1, usedCount := 3 },
    reached, taken, by decide, by decide, by decide, by decide⟩

end Harbor.JoinKeys
