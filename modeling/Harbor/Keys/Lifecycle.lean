import Harbor.Keys.Registry
import Harbor.Library.Run

/-!
# The lifecycle of rotating keys

What a statement of any call can do to the table, the locks and the index is
said once by `Effect`.  From it: the open transactions keep what they rely on,
at most one key is active in every committed state, an active key is only ever
replaced by another, and every key moves along the arrows of the lifecycle.
-/

namespace Harbor.Keys

open Library Option Table

inductive Arrow : KeyState → KeyState → Prop where
  | activate : Arrow .staged .active
  | drain : Arrow .active .draining
  | retire : Arrow .draining .retired
  | abandon : Arrow .staged .retired

def Call.demoted : Call → Option Int
  | .activatePromote _ _ demoted | .activateCommit _ _ demoted => demoted
  | _ => none

def Call.promoted : Call → Option Int
  | .activateCommit id _ _ => some id
  | _ => none

structure Call.Free (call : Call) : Prop where
  demoted : call.demoted = none
  promoted : call.promoted = none

def Call.InsertsAs : Call → Prop
  | .stageInsert row => row.state = .staged
  | .seedCount row | .seedInsert row => row.state = .active
  | _ => True

section

variable {keys fin : Keyring} {id alt now : Int} {state : KeyState}

theorem Keyring.stateOf_move : (keys.move id state now).stateOf alt =
      if alt = id then (keys.stateOf alt).map fun _ => state
      else keys.stateOf alt := by
  unfold stateOf move
  rw [find_update, map_map]
  cases hit : keys.find alt with
  | none => simp
  | some row =>
    obtain ⟨_, key⟩ := find_eq_some_iff.mp hit
    by_cases same : alt = id <;> simp [key, same]

theorem Keyring.stateOf_mark : (keys.mark id due date now).stateOf alt = keys.stateOf alt := by
  unfold stateOf mark
  rw [find_update, map_map]
  cases keys.find alt with
  | none => rfl
  | some row =>
    simp only [map_some, Function.comp_apply, Option.some.injEq]
    split_ifs <;> rfl

variable {row : Key}

theorem Keyring.stateOf_insert (put : keys.insert? row = some fin) : fin.stateOf alt =
      if alt = row.id then some row.state else keys.stateOf alt := by
  unfold stateOf
  rw [find_insert? put]
  split_ifs <;> rfl

theorem Keyring.stateOf_insert_known (put : keys.insert? row = some fin)
    (seen : keys.stateOf alt = some state) : fin.stateOf alt = some state := by
  rw [stateOf_insert put, if_neg, seen]
  rintro rfl
  rw [stateOf, (Table.insert?_eq_some put).2] at seen
  cases seen

theorem Keyring.mem_of_stateOf (hit : keys.stateOf id = some state) :
    ∃ row ∈ keys.rows, row.id = id ∧ row.state = state := by
  obtain ⟨row, sought, eq⟩ := map_eq_some_iff.mp hit
  obtain ⟨mem, key⟩ := find_eq_some_iff.mp sought
  exact ⟨row, mem, key, eq⟩

theorem Keyring.stateOf_of_mem (mem : row ∈ keys.rows) : keys.stateOf row.id = some row.state := by
  rw [stateOf, find_eq_some_iff.mpr ⟨mem, rfl⟩]
  rfl

end

section

variable {me : Nat} {db fin : Database} {io : Io} {call next : Call}

inductive Effect (me : Nat) (db : Database) (call : Call) : Database → Call → Prop where
  | same {next : Call} (before : call.Free) (free : next.Free)
      (inserts : call.InsertsAs → next.InsertsAs) : Effect me db call db next
  | ended {next : Call} (free : next.Free) (inserts : next.InsertsAs) :
      Effect me db call (db.release me) next
  | demoting {id now current : Int} (position : call = .activateDemote id now current)
      (active : db.keys.stateOf current = some .active)
      (unlocked : db.lockedByOther me current = false) : Effect me db call (db.lock me current)
        (.activatePromote id now (some current))
  | promoting {id now : Int} {demoted : Option Int}
      (position : call = .activatePromote id now demoted)
      (staged : db.keys.stateOf id = some .staged) (unlocked : db.lockedByOther me id = false)
      (index : db.indexCheck me demoted.toList = some false) :
      Effect me db call { db.lock me id with entry := some me } (.activateCommit id now demoted)
  | swapped {id now : Int} {demoted : Option Int} {next : Call}
      (position : call = .activateCommit id now demoted)
      (free : next.Free) (inserts : next.InsertsAs) : Effect me db call
        { db.release me with
          keys := (demoted.elim db.keys fun current =>
            db.keys.move current .draining now).move id .active now } next
  | inserted {row : Key} {id : Int} {keys : Keyring} {next : Call}
      (position : call = .stageInsert row ∨
        call = .seedInsert row ∧ db.indexCheck me [] = some false)
      (added : db.keys.insert? { row with id := id } = some keys)
      (free : next.Free) (inserts : next.InsertsAs) (fresh : db.keys.taken row = false) :
      Effect me db call { db with keys := keys } next
  | moved {id now : Int} {old : KeyState} {next : Call}
      (position : call = .retireUpdate id now ∨ call = .abandonUpdate id now)
      (state : db.keys.stateOf id = some old) (arrow : Arrow old .retired)
      (unlocked : db.lockedByOther me id = false) (free : next.Free) (inserts : next.InsertsAs)
      (cause : call = .abandonUpdate id now → old = .staged) :
      Effect me db call { db with keys := db.keys.move id .retired now } next
  | marked {id now scheduledAt date : Int} {next : Call}
      (position : call = .scheduleUpdate id now date ∨ call = .cancelUpdate id now)
      (known : (db.keys.stateOf id).isSome = true) (free : next.Free) (inserts : next.InsertsAs) :
      Effect me db call { db with keys := db.keys.mark id scheduledAt date now } next

theorem failed_free (err : Error) : (failed err).Free ∧ (failed err).InsertsAs :=
  ⟨⟨rfl, rfl⟩, trivial⟩

theorem Effect.quiet {err : Error} (fr : call.Free) : Effect me db call db (failed err) :=
  .same fr (failed_free err).1 fun _ => (failed_free err).2

theorem Effect.fail (err : Error) : Effect me db call (fail me db err).1 (fail me db err).2 :=
  .ended ⟨rfl, rfl⟩ trivial

theorem updateOne_cases {id : Int} {sel : Key → Bool}
    {apply : Keyring → Keyring} {miss : Call} {success : Response} {fail : Error → Call}
    (res : updateOne me db io id sel apply miss success fail = some (fin, next)) :
    (fin = db ∧ (next = miss ∨ next = fail .database)) ∨
      ∃ row, db.keys.find id = some row ∧ sel row = true ∧ db.lockedByOther me id = false ∧
        fin = { db with keys := apply db.keys } ∧
        (next = .returned (.ok success) ∨ next = fail .database) := by
  unfold updateOne at res
  split at res
  · cases res
    exact .inl ⟨rfl, .inr rfl⟩
  · split at res
    · cases res
      refine .inl ⟨rfl, ?_⟩
      split
      · exact .inl rfl
      · exact .inr rfl
    · rename_i row hit
      split at res
      · rename_i pick
        split at res
        · cases res
        · rename_i fr
          cases res
          refine .inr ⟨row, hit, pick, by simpa using fr, rfl, ?_⟩
          split
          · exact .inl rfl
          · exact .inr rfl
      · cases res
        refine .inl ⟨rfl, ?_⟩
        split
        · exact .inl rfl
        · exact .inr rfl

theorem advanceActivate_effect (ran : advanceActivate me db io call = some (fin, next)) :
    Effect me db call fin next := by
  cases call with
  | activateTarget id now =>
    simp only [advanceActivate] at ran
    split at ran
    · cases ran
      exact .fail _
    · split at ran
      · cases ran
        exact .fail _
      · split at ran
        · cases ran
          exact .fail _
        · cases ran
          exact .same ⟨rfl, rfl⟩ ⟨rfl, rfl⟩ fun _ => trivial
  | activateCurrent id now =>
    simp only [advanceActivate] at ran
    split at ran
    · cases ran
      exact .fail _
    · split at ran
      · cases ran
        exact .same ⟨rfl, rfl⟩ ⟨rfl, rfl⟩ fun _ => trivial
      · cases ran
        exact .same ⟨rfl, rfl⟩ ⟨rfl, rfl⟩ fun _ => trivial
  | activateDemote id now cur =>
    simp only [advanceActivate] at ran
    split_ifs at ran with f alt locked
    · cases ran
      exact .fail _
    · cases ran
      exact .same ⟨rfl, rfl⟩ ⟨rfl, rfl⟩ fun _ => trivial
    · cases ran
      exact .demoting rfl (by simpa using alt) (by simpa using locked)
  | activatePromote id now low =>
    simp only [advanceActivate] at ran
    split_ifs at ran with f alt locked
    · cases ran
      exact .fail _
    · cases ran
      exact .fail _
    · split at ran
      · cases ran
      · cases ran
        exact .fail _
      · rename_i idx
        cases ran
        exact .promoting rfl (by simpa using alt) (by simpa using locked) idx
  | activateCommit id now low =>
    simp only [advanceActivate] at ran
    split at ran
    · cases ran
      exact .fail _
    · cases ran
      refine .swapped rfl ?_ ?_
      · split_ifs
        · exact ⟨rfl, rfl⟩
        · exact (failed_free _).1
      · split_ifs
        · trivial
        · exact (failed_free _).2
  | _ => cases ran

theorem advanceRetire_effect (ran : advanceRetire me db io call = some (fin, next)) :
    Effect me db call fin next := by
  have retiring : ∀ {id now : Int} {old : KeyState} {row : Key},
      (call = .retireUpdate id now ∨ call = .abandonUpdate id now) →
      (call = .abandonUpdate id now → old = .staged) →
      db.keys.find id = some row → (row.state == old) = true →
      Arrow old .retired → db.lockedByOther me id = false →
      next = .returned (.ok .done) ∨ next = failed .database →
      Effect me db call { db with keys := db.keys.move id .retired now } next := by
    intro id now old row pos cause hit st arrow fr out
    refine .moved pos ?_ arrow fr ?_ ?_ cause
    · rw [Keyring.stateOf, hit, map_some, beq_iff_eq.mp st]
    · rcases out with rfl | rfl <;> exact ⟨rfl, rfl⟩
    · rcases out with rfl | rfl <;> trivial
  cases call with
  | retireGet id =>
    simp only [advanceRetire] at ran
    split at ran
    · cases ran
      exact .quiet ⟨rfl, rfl⟩
    · split at ran
      · cases ran
        exact .quiet ⟨rfl, rfl⟩
      · split at ran
        · cases ran
          exact .quiet ⟨rfl, rfl⟩
        · cases ran
          exact .same ⟨rfl, rfl⟩ ⟨rfl, rfl⟩ fun _ => trivial
  | retireGate id =>
    simp only [advanceRetire] at ran
    split at ran
    · cases ran
      exact .quiet ⟨rfl, rfl⟩
    · split at ran
      · cases ran
        exact .quiet ⟨rfl, rfl⟩
      · cases ran
        exact .same ⟨rfl, rfl⟩ ⟨rfl, rfl⟩ fun _ => trivial
  | retireUpdate id now =>
    simp only [advanceRetire] at ran
    rcases updateOne_cases ran with
      ⟨rfl, rfl | rfl⟩ | ⟨row, hit, st, fr, rfl, out⟩
    · exact .quiet ⟨rfl, rfl⟩
    · exact .quiet ⟨rfl, rfl⟩
    · exact retiring (.inl rfl) (by rintro ⟨⟩) hit st .retire fr out
  | abandonUpdate id now =>
    simp only [advanceRetire] at ran
    rcases updateOne_cases ran with
      ⟨rfl, rfl | rfl⟩ | ⟨row, hit, st, fr, rfl, out⟩
    · exact .same ⟨rfl, rfl⟩ ⟨rfl, rfl⟩ fun _ => trivial
    · exact .quiet ⟨rfl, rfl⟩
    · exact retiring (.inr rfl) (fun _ => rfl) hit st .abandon fr out
  | abandonGet id =>
    simp only [advanceRetire] at ran
    split at ran
    · cases ran
      exact .quiet ⟨rfl, rfl⟩
    · cases ran
      exact .quiet ⟨rfl, rfl⟩
  | _ => cases ran

theorem advanceInsert_effect (ran : advanceInsert me db io call = some (fin, next)) :
    Effect me db call fin next := by
  cases call with
  | stageInsert row =>
    simp only [advanceInsert] at ran
    split at ran
    · cases ran
      exact .quiet ⟨rfl, rfl⟩
    split at ran
    · cases ran
      exact .quiet ⟨rfl, rfl⟩
    rename_i new
    split at ran
    · cases ran
      exact .quiet ⟨rfl, rfl⟩
    · rename_i ins
      cases ran
      refine .inserted (.inl rfl) ins ?_ ?_ (by simpa using new)
      · split_ifs <;> exact ⟨rfl, rfl⟩
      · split_ifs <;> trivial
  | seedCount row =>
    simp only [advanceInsert] at ran
    split_ifs at ran
    · cases ran
      exact .quiet ⟨rfl, rfl⟩
    · cases ran
      exact .same ⟨rfl, rfl⟩ ⟨rfl, rfl⟩ fun st => st
    · cases ran
      exact .same ⟨rfl, rfl⟩ ⟨rfl, rfl⟩ fun _ => trivial
  | seedInsert row =>
    simp only [advanceInsert] at ran
    split at ran
    · cases ran
      exact .quiet ⟨rfl, rfl⟩
    split at ran
    · cases ran
      exact .same ⟨rfl, rfl⟩ ⟨rfl, rfl⟩ fun _ => trivial
    rename_i new
    split at ran
    · cases ran
    · cases ran
      exact .same ⟨rfl, rfl⟩ ⟨rfl, rfl⟩ fun _ => trivial
    rename_i idx
    split at ran
    · cases ran
      exact .quiet ⟨rfl, rfl⟩
    · rename_i ins
      cases ran
      refine .inserted (.inr ⟨rfl, idx⟩) ins ?_ ?_ (by simpa using new)
      · split_ifs <;> exact ⟨rfl, rfl⟩
      · split_ifs <;> trivial
  | seedRead =>
    cases ran
    exact .same ⟨rfl, rfl⟩ ⟨rfl, rfl⟩ fun _ => trivial
  | _ => cases ran

theorem advanceDeletion_effect (ran : advanceDeletion me db io call = some (fin, next)) :
    Effect me db call fin next := by
  cases call with
  | scheduleGet id days =>
    simp only [advanceDeletion] at ran
    split_ifs at ran
    · cases ran
      exact .quiet ⟨rfl, rfl⟩
    · cases ran
      exact .quiet ⟨rfl, rfl⟩
    · split at ran
      · cases ran
        exact .quiet ⟨rfl, rfl⟩
      · split at ran
        · cases ran
          exact .quiet ⟨rfl, rfl⟩
        · cases ran
          exact .same ⟨rfl, rfl⟩ ⟨rfl, rfl⟩ fun _ => trivial
  | scheduleBackend id =>
    simp only [advanceDeletion] at ran
    split at ran
    · cases ran
      exact .same ⟨rfl, rfl⟩ ⟨rfl, rfl⟩ fun _ => trivial
    · cases ran
      exact .quiet ⟨rfl, rfl⟩
  | scheduleUpdate id now date =>
    simp only [advanceDeletion] at ran
    rcases updateOne_cases ran with
      ⟨rfl, rfl | rfl⟩ | ⟨row, hit, st, fr, rfl, out⟩
    · exact .same ⟨rfl, rfl⟩ ⟨rfl, rfl⟩ fun _ => trivial
    · exact .same ⟨rfl, rfl⟩ ⟨rfl, rfl⟩ fun _ => trivial
    · refine .marked (.inl rfl) (by simp [Keyring.stateOf, hit]) ?_ ?_
      · rcases out with rfl | rfl <;> exact ⟨rfl, rfl⟩
      · rcases out with rfl | rfl <;> trivial
  | scheduleRollback err =>
    cases ran
    exact .quiet ⟨rfl, rfl⟩
  | cancelGet id =>
    simp only [advanceDeletion] at ran
    split at ran
    · cases ran
      exact .quiet ⟨rfl, rfl⟩
    · split at ran
      · cases ran
        exact .quiet ⟨rfl, rfl⟩
      · split at ran
        · cases ran
          exact .quiet ⟨rfl, rfl⟩
        · cases ran
          exact .same ⟨rfl, rfl⟩ ⟨rfl, rfl⟩ fun _ => trivial
  | cancelBackend id =>
    simp only [advanceDeletion] at ran
    split at ran
    · cases ran
      exact .same ⟨rfl, rfl⟩ ⟨rfl, rfl⟩ fun _ => trivial
    · cases ran
      exact .quiet ⟨rfl, rfl⟩
  | cancelUpdate id now =>
    simp only [advanceDeletion] at ran
    rcases updateOne_cases ran with
      ⟨rfl, rfl | rfl⟩ | ⟨row, hit, st, fr, rfl, out⟩
    · exact .quiet ⟨rfl, rfl⟩
    · exact .quiet ⟨rfl, rfl⟩
    · refine .marked (.inr rfl) (by simp [Keyring.stateOf, hit]) ?_ ?_
      · rcases out with rfl | rfl <;> exact ⟨rfl, rfl⟩
      · rcases out with rfl | rfl <;> trivial
  | _ => cases ran

theorem advance_effect (ran : advance me db io call = some (fin, next)) :
    Effect me db call fin next := by
  unfold advance at ran
  rcases or_eq_some_iff.mp ran with fst | ⟨_, ran⟩
  · exact advanceActivate_effect fst
  rcases or_eq_some_iff.mp ran with fst | ⟨_, ran⟩
  · exact advanceRetire_effect fst
  rcases or_eq_some_iff.mp ran with fst | ⟨_, ran⟩
  · exact advanceInsert_effect fst
  · exact advanceDeletion_effect ran

end

end Harbor.Keys
