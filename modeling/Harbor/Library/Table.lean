import Mathlib.Data.List.MinMax
import Mathlib.Data.List.Nodup

/-!
# Keyed tables

A `Table key` is a list of rows whose keys are pairwise distinct: the primary
key constraint is part of the value.  The operations are the statements a
program issues: read the row with the greatest key satisfying a condition,
update the rows satisfying a condition, insert a row with a fresh key, and
delete rows.
-/

namespace Harbor.Library

open List

structure Table {Row Key : Type*} (key : Row → Key) where
  rows : List Row
  nodup : (rows.map key).Nodup

namespace Table

variable {Row Key : Type*} {key : Row → Key}

def empty : Table key :=
  ⟨[], List.nodup_nil⟩

theorem row_eq_of_key_eq (tbl : Table key) (memL : l ∈ tbl.rows) (memR : r ∈ tbl.rows)
    (eq : key l = key r) : l = r :=
  inj_on_of_nodup_map tbl.nodup memL memR eq

/-- `UPDATE … WHERE`: rewrite the selected rows, leaving keys alone. -/
def update (table : Table key) (selected : Row → Bool) (change : Row → Row)
    (keepsKey : ∀ row, key (change row) = key row) : Table key where
  rows := table.rows.map fun row => if selected row then change row else row
  nodup := by
    have sameKeys : (table.rows.map fun row => if selected row then change row else row).map
            key = table.rows.map key := by
      rw [List.map_map]
      apply List.map_congr_left
      intro row _
      by_cases chosen : selected row <;> simp [chosen, keepsKey]
    rw [sameKeys]
    exact table.nodup

variable {tbl : Table key} {sel : Row → Bool} {ch : Row → Row}

theorem mem_update : row ∈ (tbl.update sel ch keep).rows ↔
      ∃ old ∈ tbl.rows, (if sel old then ch old else old) = row := by
  simp [update]

def affected (table : Table key) (selected : Row → Bool) : Nat :=
  table.rows.countP selected

theorem update_of_affected_eq_zero (keep : ∀ row, key (ch row) = key row)
    (none : tbl.affected sel = 0) : tbl.update sel ch keep = tbl := by
  cases tbl with
  | mk rs nodup =>
    simp only [affected, countP_eq_zero] at none
    simp only [update, mk.injEq]
    have eq : ∀ row ∈ rs, (if sel row then ch row else row) = id row := by
      intro row mem
      simp [none row mem]
    rw [map_congr_left eq, map_id]

theorem affected_le_update (keep : ∀ row, key (ch row) = key row)
    (counts : ∀ row, tally (ch row) = true) : tbl.affected tally ≤
      (tbl.update sel ch keep).affected tally := by
  simp only [affected, update, countP_map]
  apply countP_mono_left
  intro row _ tally
  simp only [Function.comp_apply]
  split_ifs
  · exact counts row
  · exact tally

section

variable [DecidableEq Key]

def find (table : Table key) (wanted : Key) : Option Row :=
  table.rows.find? fun row => key row == wanted

variable {tbl : Table key} {want : Key} {row : Row}

theorem find_eq_some_iff : tbl.find want = some row ↔ row ∈ tbl.rows ∧ key row = want := by
  constructor
  · intro hit
    have eq := List.find?_some hit
    simp only [beq_iff_eq] at eq
    exact ⟨mem_of_find?_eq_some hit, eq⟩
  · rintro ⟨mem, eq⟩
    cases hit : tbl.find want with
    | none =>
      have gone := List.find?_eq_none.mp hit row mem
      simp [eq] at gone
    | some actual =>
      have actualSame := List.find?_some hit
      simp only [beq_iff_eq] at actualSame
      rw [tbl.row_eq_of_key_eq (mem_of_find?_eq_some hit) mem (actualSame.trans eq.symm)]

theorem find_eq_none_iff : tbl.find want = none ↔ ∀ row ∈ tbl.rows, key row ≠ want := by
  simp [find]

variable {ch : Row → Row}

@[simp]
theorem find_update (keep : ∀ row, key (ch row) = key row) :
    (tbl.update sel ch keep).find want = (tbl.find want).map fun row =>
        if sel row then ch row else row := by
  have keyEq : ∀ row : Row, key (if sel row then ch row else row) = key row := by
    intro row
    by_cases io : sel row <;> simp [io, keep]
  cases hit : tbl.find want with
  | none =>
    apply find_eq_none_iff.mpr
    intro row mem
    obtain ⟨old, oldMem, rfl⟩ := mem_update.mp mem
    rw [keyEq]
    exact find_eq_none_iff.mp hit old oldMem
  | some row =>
    obtain ⟨mem, eq⟩ := find_eq_some_iff.mp hit
    apply find_eq_some_iff.mpr
    exact ⟨mem_update.mpr ⟨row, mem, rfl⟩, (keyEq row).trans eq⟩

theorem affected_le_update_add_one (keep : ∀ row, key (ch row) = key row) :
    tbl.affected tally ≤ (tbl.update (fun row => key row == want) ch keep).affected tally + 1 := by
  cases tbl with
  | mk rs nodup =>
    simp only [affected, update]
    induction rs with
    | nil => simp
    | cons head rest ih =>
      rw [map_cons, nodup_cons] at nodup
      obtain ⟨new, uniq⟩ := nodup
      rw [map_cons, countP_cons, countP_cons]
      by_cases eq : key head = want
      · have still : rest.map (fun row =>
            if key row == want then ch row else row) = rest := by
          conv_rhs => rw [← map_id rest]
          apply map_congr_left
          intro row mem
          have ne : key row ≠ want := by
            rintro rfl
            exact new (eq ▸ mem_map_of_mem mem)
          simp [ne]
        rw [still]
        split_ifs <;> omega
      · have kept := ih uniq
        have unsel : (key head == want) = false := by
          simpa using eq
        simp only [unsel, Bool.false_eq_true, if_false]
        omega

/-- `INSERT`: refused when the key is taken. -/
def insert? (table : Table key) (row : Row) : Option (Table key) :=
  if fresh : key row ∉ table.rows.map key then
    some
      { rows := table.rows ++ [row]
        nodup := by
          rw [List.map_append]
          refine List.Nodup.append table.nodup (by simp) ?_
          intro other member last
          simp only [List.map_cons, List.map_nil, List.mem_singleton] at last
          subst other
          exact fresh member }
  else none

theorem exists_insert? (tbl : Table key) (row : Row) (new : key row ∉ tbl.rows.map key) :
    ∃ post, tbl.insert? row = some post := by
  unfold insert?
  rw [dif_pos new]
  exact ⟨_, rfl⟩

theorem insert?_eq_some {new : Table key} (put : tbl.insert? row = some new) :
    new.rows = tbl.rows ++ [row] ∧ tbl.find (key row) = none := by
  unfold insert? at put
  split at put
  · rename_i fresh
    cases put
    refine ⟨rfl, find_eq_none_iff.mpr ?_⟩
    intro alt mem eq
    exact fresh (mem_map.mpr ⟨alt, mem, eq⟩)
  · cases put

theorem find_insert? {new : Table key} (put : tbl.insert? row = some new) : new.find want =
      if want = key row then some row else tbl.find want := by
  obtain ⟨rs, gone⟩ := insert?_eq_some put
  split_ifs with eq
  · subst want
    exact find_eq_some_iff.mpr ⟨by simp [rs], rfl⟩
  · have notLast : (key row == want) = false := by
      simpa using Ne.symm eq
    simp [find, rs, List.find?_append, notLast]

/-- `INSERT … ON CONFLICT DO UPDATE`: insert the row, or change the row that
has its key. -/
def upsert (table : Table key) (row : Row) (change : Row → Row)
    (keepsKey : ∀ old, key (change old) = key old) : Table key :=
  match table.insert? row with
  | some after => after
  | none => table.update (fun old => key old == key row) change keepsKey

theorem find_upsert (keep : ∀ old, key (ch old) = key old) (want : Key) :
    (tbl.upsert row ch keep).find want =
      if want = key row then
        some (((tbl.find want).map ch).getD row)
      else tbl.find want := by
  unfold upsert
  cases put : tbl.insert? row with
  | some new =>
    obtain ⟨_, gone⟩ := insert?_eq_some put
    simp only [find_insert? put]
    split_ifs with eq
    · rw [eq, gone]
      rfl
    · rfl
  | none =>
    simp only [find_update]
    cases hit : tbl.find want with
    | some old =>
      obtain ⟨_, sameOld⟩ := find_eq_some_iff.mp hit
      subst sameOld
      by_cases eq : key old = key row <;> simp [eq]
    | none =>
      split_ifs with eq
      · subst want
        have fresh : key row ∉ tbl.rows.map key := by
          intro mem
          obtain ⟨alt, had, keyEq⟩ := mem_map.mp mem
          exact find_eq_none_iff.mp hit alt had keyEq
        simp [insert?, fresh] at put
      · rfl

theorem mem_upsert {keep : ∀ old, key (ch old) = key old}
    (mem : row ∈ (tbl.upsert new ch keep).rows) : row ∈ tbl.rows ∨ row = new ∨
      ∃ old ∈ tbl.rows, key old = key new ∧ row = ch old := by
  unfold upsert at mem
  split at mem
  · rename_i post put
    rw [(insert?_eq_some put).1] at mem
    rcases mem_append.mp mem with earlier | last
    · exact .inl earlier
    · exact .inr (.inl (mem_singleton.mp last))
  · obtain ⟨old, had, rfl⟩ := mem_update.mp mem
    split_ifs with io
    · exact .inr (.inr ⟨old, had, by simpa using io, rfl⟩)
    · exact .inl had

end

/-- `DELETE`: keep the rows satisfying the condition. -/
def keep (table : Table key) (kept : Row → Bool) : Table key where
  rows := table.rows.filter kept
  nodup := table.nodup.sublist (List.filter_sublist.map key)

section

variable [LinearOrder Key]

/-- `ORDER BY key DESC LIMIT 1`: the selected row with the greatest key. -/
def latest (table : Table key) (selected : Row → Bool) : Option Row :=
  (table.rows.filter selected).argmax key

theorem latest_eq_some_iff : tbl.latest sel = some row ↔ row ∈ tbl.rows ∧ sel row = true ∧
        ∀ alt ∈ tbl.rows, sel alt = true → key alt ≤ key row := by
  constructor
  · intro hit
    have mem : row ∈ tbl.rows.filter sel := argmax_mem hit
    obtain ⟨inTable, io⟩ := mem_filter.mp mem
    refine ⟨inTable, io, ?_⟩
    intro alt memO otherChosen
    exact le_of_mem_argmax (mem_filter.mpr ⟨memO, otherChosen⟩) hit
  · rintro ⟨inTable, io, most⟩
    cases hit : tbl.latest sel with
    | none =>
      have empty : tbl.rows.filter sel = [] := argmax_eq_none.mp hit
      have mem : row ∈ tbl.rows.filter sel := mem_filter.mpr ⟨inTable, io⟩
      simp [empty] at mem
    | some actual =>
      have mem : actual ∈ tbl.rows.filter sel := argmax_mem hit
      obtain ⟨actualMember, actualChosen⟩ := mem_filter.mp mem
      have rowBelow : key row ≤ key actual := le_of_mem_argmax (mem_filter.mpr ⟨inTable, io⟩) hit
      have actualBelow : key actual ≤ key row := most actual actualMember actualChosen
      rw [tbl.row_eq_of_key_eq actualMember inTable (le_antisymm actualBelow rowBelow)]

theorem latest_update (keep : ∀ row, key (ch row) = key row)
    (keepsSelected : ∀ row, sel (ch row) = sel row) (found : tbl.latest sel = some row) :
    (tbl.update upd ch keep).latest sel = some (if upd row then ch row else row) := by
  obtain ⟨mem, io, most⟩ := latest_eq_some_iff.mp found
  have keyEq : ∀ old : Row, key (if upd old then ch old else old) = key old := by
    intro old
    by_cases hit : upd old <;> simp [hit, keep]
  have selEq : ∀ old : Row, sel (if upd old then ch old else old) = sel old := by
    intro old
    by_cases hit : upd old <;> simp [hit, keepsSelected]
  refine latest_eq_some_iff.mpr ⟨mem_update.mpr ⟨row, mem, rfl⟩, ?_, ?_⟩
  · rw [selEq, io]
  · intro alt memO otherChosen
    obtain ⟨old, oldMem, rfl⟩ := mem_update.mp memO
    rw [selEq] at otherChosen
    rw [keyEq, keyEq]
    exact most old oldMem otherChosen

end

end Table

/-- The next value of an `id` column. -/
def nextID (ids : List Int) : Int :=
  ids.foldl max 0 + 1

theorem le_foldl_max (values : List Int) (init : Int) : init ≤ values.foldl max init ∧
      ∀ value ∈ values, value ≤ values.foldl max init := by
  induction values generalizing init with
  | nil => simp
  | cons head rest ih =>
    obtain ⟨above, cap⟩ := ih (max init head)
    refine ⟨le_trans (le_max_left _ _) above, ?_⟩
    intro value mem
    rcases mem_cons.mp mem with rfl | later
    · exact le_trans (le_max_right _ _) above
    · exact cap value later

theorem lt_nextID {ids : List Int} {id : Int} (mem : id ∈ ids) : id < nextID ids := by
  have cap := (le_foldl_max ids 0).2 id mem
  unfold nextID
  omega

end Harbor.Library
