import Harbor.Keys.Succession

/-!
# Where the rows of a registry come from

No statement rewrites the text or the fingerprint of a key, and a fingerprint
is inserted once: a retired key never serves again under another row.
-/

namespace Harbor.Keys

open Function Library List

def Call.insertRow : Call → Option Key
  | .stageInsert row | .seedCount row | .seedInsert row => some row
  | _ => none

def Keyring.texts (keys : Keyring) : List (Int × String × String) :=
  keys.rows.map fun row => (row.id, row.pem, row.fingerprint)

def Keyring.Known (keys : Keyring) (fingerprint : String) : Prop :=
  ∃ row ∈ keys.rows, row.fingerprint = fingerprint

def Keyring.Serving (keys : Keyring) (fingerprint : String) : Prop :=
  ∃ row ∈ keys.rows, row.fingerprint = fingerprint ∧ row.state ≠ .retired

structure Genuine (registry : Registry) (state : State) : Prop where
  rows : ∀ row ∈ state.db.keys.rows, registry.parse row.pem = .ok row.fingerprint
  inserts : ∀ me row, (state.calls me).insertRow = some row →
    registry.parse row.pem = .ok row.fingerprint

section

variable {keys : Keyring}

theorem Keyring.texts_update
    (key : ∀ row, (ch row).id = row.id) (pem : ∀ row, (ch row).pem = row.pem)
    (fp : ∀ row, (ch row).fingerprint = row.fingerprint) :
    Keyring.texts (keys.update sel ch key) = keys.texts := by
  unfold texts Table.update
  rw [map_map]
  refine map_congr_left ?_
  intro row _
  simp only [comp_apply]
  split_ifs
  · rw [key, pem, fp]
  · rfl

variable {id : Int}

theorem Keyring.texts_move : (keys.move id s now).texts = keys.texts := by
  unfold move
  exact texts_update _ (fun _ => rfl) fun _ => rfl

theorem Keyring.texts_mark : (keys.mark id due date now).texts = keys.texts := by
  unfold mark
  exact texts_update _ (fun _ => rfl) fun _ => rfl

theorem Keyring.mem_texts :
    (id, pem, fp) ∈ keys.texts ↔ ∃ row ∈ keys.rows, row.id = id ∧ row.pem = pem ∧
        row.fingerprint = fp := by
  simp [texts]

end

section

variable {me : Nat} {db fin : Database} {io : Io} {call next : Call}

theorem advanceActivate_insertRow (ran : advanceActivate me db io call = some (fin, next)) :
    next.insertRow = none := by
  cases call <;> simp only [advanceActivate, reduceCtorEq] at ran
  all_goals
    repeat' split at ran
    all_goals first
      | (cases ran; done)
      | (cases ran; rfl)

theorem advanceRetire_insertRow (ran : advanceRetire me db io call = some (fin, next)) :
    next.insertRow = none := by
  cases call <;> simp only [advanceRetire, updateOne, reduceCtorEq] at ran
  all_goals
    repeat' split at ran
    all_goals first
      | (cases ran; done)
      | (cases ran; rfl)

theorem advanceDeletion_insertRow (ran : advanceDeletion me db io call = some (fin, next)) :
    next.insertRow = none := by
  cases call <;>
    simp only [advanceDeletion, updateOne, reduceCtorEq] at ran
  all_goals
    repeat' split at ran
    all_goals first
      | (cases ran; done)
      | (cases ran; rfl)

theorem advanceInsert_insertRow (ran : advanceInsert me db io call = some (fin, next))
    (puts : next.insertRow = some row) : ∃ old, call.insertRow = some old ∧ old.pem = row.pem ∧
      old.fingerprint = row.fingerprint := by
  cases call with
  | stageInsert wait =>
    simp only [advanceInsert] at ran
    repeat' split at ran
    all_goals
      cases ran
      cases puts
  | seedCount wait =>
    simp only [advanceInsert] at ran
    split_ifs at ran
    · cases ran
      cases puts
    · cases ran
      cases puts
      exact ⟨wait, rfl, rfl, rfl⟩
    · cases ran
      cases puts
  | seedInsert wait =>
    simp only [advanceInsert] at ran
    repeat' split at ran
    all_goals first
      | (cases ran; done)
      | (cases ran; cases puts)
  | seedRead =>
    simp only [advanceInsert, Option.some.injEq, Prod.mk.injEq] at ran
    obtain ⟨_, rfl⟩ := ran
    cases puts
  | _ => cases ran

theorem advance_insertRow (went : advance me db io call = some (fin, next))
    (adds : next.insertRow = some row) : ∃ old, call.insertRow = some old ∧ old.pem = row.pem ∧
      old.fingerprint = row.fingerprint := by
  rcases Option.or_eq_some_iff.mp went with ran | ⟨_, rest⟩
  · rw [advanceActivate_insertRow ran] at adds
    cases adds
  rcases Option.or_eq_some_iff.mp rest with ran | ⟨_, rest⟩
  · rw [advanceRetire_insertRow ran] at adds
    cases adds
  rcases Option.or_eq_some_iff.mp rest with ran | ⟨_, ran⟩
  · exact advanceInsert_insertRow ran adds
  · rw [advanceDeletion_insertRow ran] at adds
    cases adds

theorem Effect.texts (eff : Effect me db call fin next) : fin.keys.texts = db.keys.texts ∨
      ∃ row id, call.insertRow = some row ∧ db.keys.taken row = false ∧ fin.keys.texts =
          db.keys.texts ++ [(id, row.pem, row.fingerprint)] := by
  cases eff with
  | same | ended | demoting | promoting => exact .inl rfl
  | @swapped id now demoted =>
    left
    simp only [Keyring.texts_move]
    cases demoted with
    | none => rfl
    | some cur => exact Keyring.texts_move
  | @inserted row id keys _ pos added _ _ new =>
    right
    refine ⟨row, id, ?_, new, ?_⟩
    · rcases pos with rfl | ⟨rfl, _⟩ <;> rfl
    · simp only [Keyring.texts, (Table.insert?_eq_some added).1, map_append, map_cons, map_nil]
  | moved => exact .inl Keyring.texts_move
  | marked => exact .inl Keyring.texts_mark

end

section

variable {reg : Registry} {s fin : State} {e : Event} {fp : String}

theorem step_texts (ran : reg.step s e = some fin) :
    fin.db.keys.texts = s.db.keys.texts ∨ ∃ me row id, (s.calls me).insertRow = some row ∧
        s.db.keys.taken row = false ∧ fin.db.keys.texts =
          s.db.keys.texts ++ [(id, row.pem, row.fingerprint)] := by
  obtain ⟨me, next, eff, _⟩ := step_effect ran
  rcases eff.texts with eq | ⟨row, id, adds, new, ins⟩
  · exact .inl eq
  · exact .inr ⟨me, row, id, adds, new, ins⟩

theorem Genuine.initial : Genuine reg .initial := by
  refine ⟨?_, ?_⟩
  · intro row mem
    cases mem
  · intro me row adds
    cases adds

variable {row : Key}

theorem accept_insertRow (adds : (reg.accept req).insertRow = some row) :
    reg.parse row.pem = .ok row.fingerprint := by
  cases req with
  | stage n pem kms who now =>
    simp only [Registry.accept] at adds
    split_ifs at adds
    · cases adds
    · split at adds
      · cases adds
      · rename_i read
        cases adds
        exact read
  | seedActive n pem kms who =>
    simp only [Registry.accept] at adds
    split at adds
    · cases adds
    · rename_i read
      cases adds
      exact read
  | _ => cases adds

theorem Genuine.step (real : Genuine reg s) (did : reg.step s e = some fin) :
    Genuine reg fin := by
  refine ⟨?_, ?_⟩
  · intro row mem
    have entry : (row.id, row.pem, row.fingerprint) ∈ fin.db.keys.texts :=
      Keyring.mem_texts.mpr ⟨row, mem, rfl, rfl, rfl⟩
    rcases step_texts did with eq | ⟨me, new, id, adds, _, ins⟩
    · rw [eq] at entry
      obtain ⟨old, had, _, pem, fp⟩ := Keyring.mem_texts.mp entry
      rw [← pem, ← fp]
      exact real.rows old had
    · rw [ins] at entry
      rcases mem_append.mp entry with earlier | last
      · obtain ⟨old, had, _, pem, fp⟩ :=
          Keyring.mem_texts.mp earlier
        rw [← pem, ← fp]
        exact real.rows old had
      · simp only [mem_singleton, Prod.mk.injEq] at last
        obtain ⟨_, pem, fp⟩ := last
        rw [pem, fp]
        exact real.inserts me new adds
  · intro me row adds
    cases e with
    | request c req =>
      simp only [Registry.step] at did
      split at did
      · cases did
        by_cases mine : me = c
        · subst me
          simp only [update_self] at adds
          exact accept_insertRow adds
        · simp only [update_of_ne mine] at adds
          exact real.inserts me row adds
      · cases did
    | statement c io =>
      simp only [Registry.step] at did
      obtain ⟨⟨db, next⟩, ran, rfl⟩ := Option.map_eq_some_iff.mp did
      by_cases mine : me = c
      · subst me
        simp only [update_self] at adds
        obtain ⟨old, was, pem, fp⟩ := advance_insertRow ran adds
        rw [← pem, ← fp]
        exact real.inserts c old was
      · simp only [update_of_ne mine] at adds
        exact real.inserts me row adds
    | crash c =>
      cases did
      by_cases mine : me = c
      · subst me
        simp only [update_self] at adds
        cases adds
      · simp only [update_of_ne mine] at adds
        exact real.inserts me row adds

theorem row_step (ran : reg.step s e = some fin)
    (mem : row ∈ s.db.keys.rows) : ∃ move ∈ fin.db.keys.rows, move.id = row.id ∧
      move.fingerprint = row.fingerprint := by
  have was : (row.id, row.pem, row.fingerprint) ∈ s.db.keys.texts :=
    Keyring.mem_texts.mpr ⟨row, mem, rfl, rfl, rfl⟩
  have entry : (row.id, row.pem, row.fingerprint) ∈ fin.db.keys.texts := by
    rcases step_texts ran with kept | ⟨_, _, _, _, _, ins⟩
    · rwa [kept]
    · rw [ins]
      exact mem_append_left _ was
  obtain ⟨move, had, id, _, fp⟩ := Keyring.mem_texts.mp entry
  exact ⟨move, had, id, fp⟩

theorem known_step (ran : reg.step s e = some fin) (seen : s.db.keys.Known fp) :
    fin.db.keys.Known fp := by
  obtain ⟨row, mem, eq⟩ := seen
  obtain ⟨move, had, _, fp⟩ := row_step ran mem
  exact ⟨move, had, fp.trans eq⟩

def Keyring.Distinct (keys : Keyring) : Prop :=
  (keys.rows.map Key.fingerprint).Nodup

theorem Keyring.map_fingerprint (keys : Keyring) :
    keys.rows.map Key.fingerprint = keys.texts.map fun entry => entry.2.2 := by
  simp [texts]

theorem distinct_step (ran : reg.step s e = some fin)
    (uniq : s.db.keys.Distinct) : fin.db.keys.Distinct := by
  unfold Keyring.Distinct at uniq ⊢
  rw [Keyring.map_fingerprint] at uniq ⊢
  rcases step_texts ran with kept | ⟨_, new, id, _, fresh, ins⟩
  · rwa [kept]
  · rw [ins, map_append]
    refine List.Nodup.append uniq (nodup_singleton _) ?_
    intro seen mem last
    simp only [map_cons, map_nil, mem_singleton] at last
    rw [← Keyring.map_fingerprint] at mem
    obtain ⟨alt, had, eq⟩ := mem_map.mp mem
    have differs := any_eq_false.mp fresh alt had
    simp [eq, last] at differs

def Keyring.Past (keys : Keyring) (fingerprint : String) : Prop :=
  keys.Known fingerprint ∧ ∀ row ∈ keys.rows, row.fingerprint = fingerprint →
    row.state = .draining ∨ row.state = .retired

theorem row_back (inv : Sound s) (ran : reg.step s e = some fin)
    (seen : s.db.keys.Known fp) (mem : row ∈ fin.db.keys.rows)
    (eq : row.fingerprint = fp) : ∃ old ∈ s.db.keys.rows, old.id = row.id ∧
      old.fingerprint = fp ∧ (row.state = old.state ∨ Arrow old.state row.state) := by
  have entry : (row.id, row.pem, row.fingerprint) ∈ fin.db.keys.texts :=
    Keyring.mem_texts.mpr ⟨row, mem, rfl, rfl, rfl⟩
  have was : (row.id, row.pem, row.fingerprint) ∈
      s.db.keys.texts := by
    rcases step_texts ran with kept | ⟨me, new, id, _, fresh, ins⟩
    · rwa [kept] at entry
    · rw [ins] at entry
      rcases mem_append.mp entry with earlier | last
      · exact earlier
      · simp only [mem_singleton, Prod.mk.injEq] at last
        obtain ⟨alt, had, same⟩ := seen
        have uniq := any_eq_false.mp fresh alt had
        simp [same, ← eq, last.2.2] at uniq
  obtain ⟨old, had, key, _, fp⟩ := Keyring.mem_texts.mp was
  refine ⟨old, had, key, fp.trans eq, ?_⟩
  obtain ⟨s, hit, move⟩ := (inv.step ran).2.arrow old.id old.state (Keyring.stateOf_of_mem had)
  have cur := Keyring.stateOf_of_mem mem
  rw [← key, hit] at cur
  rw [← Option.some.inj cur]
  exact move

theorem serving_back (inv : Sound s) (ran : reg.step s e = some fin)
    (seen : s.db.keys.Known fp) (serves : fin.db.keys.Serving fp) :
    s.db.keys.Serving fp := by
  obtain ⟨row, mem, eq, live⟩ := serves
  obtain ⟨old, had, _, fp, move⟩ := row_back inv ran seen mem eq
  refine ⟨old, had, fp, ?_⟩
  intro gone
  rw [gone] at move
  rcases move with eq | arrow
  · exact live eq
  · generalize row.state = s at arrow
    cases arrow

theorem past_step (inv : Sound s) (ran : reg.step s e = some fin) (past : s.db.keys.Past fp) :
    fin.db.keys.Past fp := by
  refine ⟨known_step ran past.1, ?_⟩
  intro row mem eq
  obtain ⟨old, had, _, fp, move⟩ := row_back inv ran past.1 mem eq
  have was := past.2 old had fp
  generalize old.state = earlier at was move
  generalize row.state = late at move
  rcases move with rfl | arrow
  · exact was
  · rcases was with rfl | rfl
    · cases arrow
      exact .inr rfl
    · cases arrow

end

end Harbor.Keys
