import Harbor.Keys.Lifecycle

/-!
# One active key, always succeeded

The invariant of the interleaved calls and what follows from it over whole
runs of either registry.
-/

namespace Harbor.Keys

open Function Library List Option Keyring

structure Holding (db : Database) (me : Nat) (call : Call) : Prop where
  demoted : ∀ id, call.demoted = some id → db.locks id = some me ∧ db.keys.stateOf id = some .active
  promoted : ∀ id, call.promoted = some id →
    db.locks id = some me ∧ db.keys.stateOf id = some .staged ∧ db.entry = some me ∧
      ∀ other, db.keys.stateOf other = some .active → call.demoted = some other

def Lone (keys : Keyring) : Prop :=
  ∀ left right, keys.stateOf left = some .active → keys.stateOf right = some .active → left = right

structure Sound (state : State) : Prop where
  lone : Lone state.db.keys
  holding : ∀ me, Holding state.db me (state.calls me)
  inserts : ∀ me, (state.calls me).InsertsAs

structure Succeeds (before after : Keyring) : Prop where
  arrow : ∀ id old, before.stateOf id = some old →
    ∃ new, after.stateOf id = some new ∧ (new = old ∨ Arrow old new)
  active : (∃ id, before.stateOf id = some .active) → ∃ id, after.stateOf id = some .active

theorem Call.Free.holding {c : Call} (fr : c.Free) (db : Database)
    (me : Nat) : Holding db me c := by
  refine ⟨?_, ?_⟩
  · intro id low
    rw [fr.demoted] at low
    cases low
  · intro id promoted
    rw [fr.promoted] at promoted
    cases promoted

section

variable {me : Nat} {db fin : Database} {call next : Call}
variable {alt : Nat} {id : Int}

theorem Database.not_locked_by (fr : db.lockedByOther me id = false)
    (held : db.locks id = some alt) : alt = me := by
  simpa [lockedByOther, held] using fr

theorem Database.indexCheck_clear {goes : List Int} (free : db.indexCheck me goes = some false) :
    (∀ id, db.keys.stateOf id = some .active → id ∈ goes) ∧
      ∀ alt, db.entry = some alt → alt = me := by
  unfold indexCheck at free
  split at free
  · split at free <;> cases free
  · rename_i away
    split at free
    · cases free
    rename_i fr
    refine ⟨?_, ?_⟩
    · intro id live
      obtain ⟨row, mem, rfl, s⟩ := mem_of_stateOf live
      have unmatched := List.find?_eq_none.mp away row mem
      simpa [s] using unmatched
    · intro alt went
      simpa [entryOfOther, went] using fr

theorem Holding.stateOf_swapped {now alt : Int} {low : Option Int}
    (held : Holding db me (.activateCommit id now low)) : ((low.elim db.keys fun cur =>
        db.keys.move cur .draining now).move id .active now).stateOf alt =
      if alt = id then some .active
      else if low = some alt then some .draining
      else db.keys.stateOf alt := by
  obtain ⟨_, put, _, _⟩ := held.promoted id rfl
  cases low with
  | none =>
    rw [elim_none, stateOf_move]
    by_cases eq : alt = id
    · rw [if_pos eq, if_pos eq, eq, put]
      rfl
    · simp [eq]
  | some cur =>
    obtain ⟨_, live⟩ := held.demoted cur rfl
    rw [elim_some, stateOf_move, stateOf_move]
    have ne : id ≠ cur := by
      rintro rfl
      rw [put] at live
      cases live
    by_cases tgt : alt = id
    · subst alt
      simp [ne, put]
    · by_cases goes : alt = cur
      · subst alt
        simp [tgt, live]
      · simp [tgt, goes, Ne.symm goes]

theorem Holding.active_swapped {now alt : Int} {low : Option Int}
    (held : Holding db me (.activateCommit id now low)) (live : ((low.elim db.keys fun cur =>
      db.keys.move cur .draining now).move id .active now).stateOf alt =
        some .active) : alt = id := by
  rw [held.stateOf_swapped] at live
  split_ifs at live with tgt goes
  · exact tgt
  · cases live
  · exact (goes ((held.promoted id rfl).2.2.2 alt live)).elim

theorem Effect.stateOf_of_locked (eff : Effect me db call fin next)
    (holds : Holding db me call) (ne : alt ≠ me) (held : db.locks id = some alt)
    (s : db.keys.stateOf id = some old) : fin.keys.stateOf id = some old := by
  cases eff with
  | same | ended | demoting | promoting => exact s
  | @swapped tgt now low _ pos =>
    subst pos
    have notTarget : id ≠ tgt := by
      rintro rfl
      rw [(holds.promoted id rfl).1] at held
      exact ne (Option.some.inj held).symm
    have notDemoted : low ≠ some id := by
      rintro rfl
      rw [(holds.demoted id rfl).1] at held
      exact ne (Option.some.inj held).symm
    rw [holds.stateOf_swapped, if_neg notTarget, if_neg notDemoted, s]
  | inserted _ ins => exact stateOf_insert_known ins s
  | moved _ _ _ fr =>
    rw [stateOf_move, if_neg, s]
    rintro rfl
    exact ne (Database.not_locked_by fr held)
  | marked => rw [stateOf_mark, s]

theorem Effect.locks_of_other (eff : Effect me db call fin next) (ne : alt ≠ me)
    (held : db.locks id = some alt) : fin.locks id = some alt := by
  have free : (db.release me).locks id = some alt := by
    simp [Database.release, held, ne]
  have locked : ∀ {row : Int}, db.lockedByOther me row = false →
      (db.lock me row).locks id = some alt := by
    intro row fr
    have off : id ≠ row := by
      rintro rfl
      exact ne (Database.not_locked_by fr held)
    simp only [Database.lock, update_of_ne off, held]
  cases eff with
  | same | inserted | moved | marked => exact held
  | ended | swapped => exact free
  | demoting _ _ fr | promoting _ _ fr => exact locked fr

theorem Effect.entry_of_other (eff : Effect me db call fin next)
    (ne : alt ≠ me) (went : db.entry = some alt) : fin.entry = some alt := by
  have free : (db.release me).entry = some alt := by
    simp [Database.release, went, ne]
  cases eff with
  | same | inserted | moved | marked | demoting => exact went
  | ended | swapped => exact free
  | promoting _ _ _ idx => exact (ne ((Database.indexCheck_clear idx).2 alt went)).elim

theorem Effect.active_cases (eff : Effect me db call fin next)
    (adds : call.InsertsAs) (held : Holding db me call)
    (live : fin.keys.stateOf id = some .active) :
    db.keys.stateOf id = some .active ∨ db.entry = some me ∨
      (∀ alt, db.keys.stateOf alt ≠ some .active) ∧ ∀ alt, db.entry = some alt → alt = me := by
  cases eff with
  | same | ended | demoting | promoting => exact .inl live
  | swapped pos =>
    subst pos
    exact .inr (.inl (held.promoted _ rfl).2.2.1)
  | inserted pos ins =>
    rw [stateOf_insert ins] at live
    split_ifs at live with new
    · rcases pos with rfl | ⟨rfl, free⟩
      · rw [show _ = KeyState.staged from adds] at live
        cases live
      · obtain ⟨rs, entry⟩ := Database.indexCheck_clear free
        refine .inr (.inr ⟨?_, entry⟩)
        intro alt seen
        exact (not_mem_nil (rs alt seen)).elim
    · exact .inl live
  | moved _ s =>
    rw [stateOf_move] at live
    split_ifs at live with move
    · rw [move, s] at live
      cases live
    · exact .inl live
  | marked =>
    rw [stateOf_mark] at live
    exact .inl live

theorem Effect.holding_other (eff : Effect me db call fin next)
    (puts : call.InsertsAs) (mine : Holding db me call) (ne : alt ≠ me)
    (holds : Holding db alt otherCall) :
    Holding fin alt otherCall := by
  refine ⟨?_, ?_⟩
  · intro id low
    obtain ⟨held, s⟩ := holds.demoted id low
    exact ⟨eff.locks_of_other ne held, eff.stateOf_of_locked mine ne held s⟩
  · intro id promoted
    obtain ⟨held, s, went, lone⟩ := holds.promoted id promoted
    refine ⟨eff.locks_of_other ne held, eff.stateOf_of_locked mine ne held s,
      eff.entry_of_other ne went, ?_⟩
    intro row live
    rcases eff.active_cases puts mine live with
      was | entry | ⟨_, entry⟩
    · exact lone row was
    · rw [went] at entry
      exact (ne (Option.some.inj entry)).elim
    · exact (ne (entry alt went)).elim

theorem Effect.holding_next (eff : Effect me db call fin next)
    (holds : Holding db me call) : Holding fin me next := by
  cases eff with
  | same _ fr | ended fr | swapped _ fr | inserted _ _ fr => exact fr.holding _ _
  | moved _ _ _ _ fr | marked _ _ fr => exact fr.holding _ _
  | demoting pos live unlocked =>
    refine ⟨?_, ?_⟩
    · intro row low
      obtain rfl := Option.some.inj low
      exact ⟨by simp [Database.lock], live⟩
    · intro row promoted
      cases promoted
  | @promoting id now low pos put unlocked idx =>
    subst pos
    refine ⟨?_, ?_⟩
    · intro row goes
      obtain ⟨held, live⟩ := holds.demoted row goes
      refine ⟨?_, live⟩
      by_cases eq : row = id
      · simp [Database.lock, eq]
      · simp only [Database.lock, update_of_ne eq, held]
    · intro row promoted
      obtain rfl := Option.some.inj promoted
      refine ⟨by simp [Database.lock], put, rfl, ?_⟩
      intro alt live
      have goes := (Database.indexCheck_clear idx).1 alt live
      simpa [Call.demoted] using goes

theorem Effect.lone (eff : Effect me db call fin next)
    (adds : call.InsertsAs) (held : Holding db me call) (lone : Lone db.keys) : Lone fin.keys := by
  cases eff with
  | same | ended | demoting | promoting => exact lone
  | swapped pos =>
    subst pos
    intro l r liveL rightActive
    rw [held.active_swapped liveL, held.active_swapped rightActive]
  | inserted pos ins =>
    intro l r liveL rightActive
    rw [stateOf_insert ins] at liveL rightActive
    rcases pos with rfl | ⟨rfl, free⟩
    · have put : _ = KeyState.staged := adds
      simp only [put] at liveL rightActive
      split_ifs at liveL
      · cases liveL
      split_ifs at rightActive
      · cases rightActive
      exact lone l r liveL rightActive
    · have empty := (Database.indexCheck_clear free).1
      split_ifs at liveL with leftNew
      · split_ifs at rightActive with rightNew
        · rw [leftNew, rightNew]
        · exact (not_mem_nil (empty r rightActive)).elim
      · exact (not_mem_nil (empty l liveL)).elim
  | moved _ s =>
    intro l r liveL rightActive
    rw [stateOf_move] at liveL rightActive
    split_ifs at liveL with leftMoved
    · rw [leftMoved, s] at liveL
      cases liveL
    split_ifs at rightActive with rightMoved
    · rw [rightMoved, s] at rightActive
      cases rightActive
    exact lone l r liveL rightActive
  | marked =>
    intro l r liveL rightActive
    rw [stateOf_mark] at liveL rightActive
    exact lone l r liveL rightActive

theorem Effect.succeeds (eff : Effect me db call fin next)
    (holds : Holding db me call) : Succeeds db.keys fin.keys := by
  have stay : Succeeds db.keys db.keys := ⟨fun _ old s => ⟨old, s, .inl rfl⟩, fun live => live⟩
  cases eff with
  | same | ended | demoting | promoting => exact stay
  | @swapped id now low _ pos =>
    subst pos
    obtain ⟨_, put, _, _⟩ := holds.promoted id rfl
    refine ⟨?_, fun _ => ⟨id, by simp [holds.stateOf_swapped]⟩⟩
    intro row old s
    rw [holds.stateOf_swapped]
    split_ifs with target goes
    · rw [target, put] at s
      cases s
      exact ⟨_, rfl, .inr .activate⟩
    · rw [(holds.demoted row goes).2] at s
      cases s
      exact ⟨_, rfl, .inr .drain⟩
    · exact ⟨old, s, .inl rfl⟩
  | inserted _ ins =>
    refine ⟨?_, ?_⟩
    · intro row old s
      exact ⟨old, stateOf_insert_known ins s, .inl rfl⟩
    · rintro ⟨row, live⟩
      exact ⟨row, stateOf_insert_known ins live⟩
  | @moved id now old _ _ s arrow =>
    refine ⟨?_, ?_⟩
    · intro row was known
      rw [stateOf_move]
      split_ifs with moved
      · rw [moved, s] at known
        cases known
        rw [moved, s]
        exact ⟨_, rfl, .inr arrow⟩
      · exact ⟨was, known, .inl rfl⟩
    · rintro ⟨row, live⟩
      refine ⟨row, ?_⟩
      rw [stateOf_move, if_neg, live]
      rintro rfl
      rw [s] at live
      cases live
      cases arrow
  | marked =>
    refine ⟨?_, ?_⟩
    · intro row old s
      exact ⟨old, by rw [stateOf_mark, s], .inl rfl⟩
    · rintro ⟨row, live⟩
      exact ⟨row, by rw [stateOf_mark, live]⟩

theorem Effect.inserts_next (eff : Effect me db call fin next)
    (adds : call.InsertsAs) : next.InsertsAs := by
  cases eff with
  | same _ _ had => exact had adds
  | ended _ had | swapped _ _ had | inserted _ _ _ had => exact had
  | moved _ _ _ _ _ had | marked _ _ _ had => exact had
  | demoting | promoting => trivial

end

section

variable {registry : Registry} {state after start finish : State} {event : Event}

theorem accept_free (req : Request) :
    (registry.accept req).Free ∧ (registry.accept req).InsertsAs := by
  cases req with
  | stage n pem kmsKeyID who now =>
    simp only [Registry.accept]
    split_ifs
    · exact failed_free _
    · split
      · exact failed_free _
      · exact ⟨⟨rfl, rfl⟩, rfl⟩
  | seedActive n pem kmsKeyID who =>
    simp only [Registry.accept]
    split
    · exact failed_free _
    · exact ⟨⟨rfl, rfl⟩, rfl⟩
  | _ => exact ⟨⟨rfl, rfl⟩, trivial⟩

theorem step_effect (did : registry.step state event = some after) :
    ∃ me next, Effect me state.db (state.calls me) after.db next ∧
      after.calls = update state.calls me next := by
  cases event with
  | request c req =>
    simp only [Registry.step] at did
    split at did
    · rename_i idle
      cases did
      obtain ⟨fr, adds⟩ := @accept_free registry req
      refine ⟨c, _, .same ?_ fr fun _ => adds, rfl⟩
      rw [idle]
      exact ⟨rfl, rfl⟩
    · cases did
  | statement c io =>
    simp only [Registry.step] at did
    obtain ⟨⟨db, next⟩, ran, rfl⟩ := map_eq_some_iff.mp did
    exact ⟨c, next, advance_effect ran, rfl⟩
  | crash c =>
    simp only [Registry.step, Option.some.injEq] at did
    subst after
    exact ⟨c, _, .ended (failed_free _).1 (failed_free _).2, rfl⟩

theorem Sound.initial : Sound .initial := by
  refine ⟨?_, fun me => Call.Free.holding ⟨rfl, rfl⟩ _ me, fun _ => trivial⟩
  intro l _ live
  cases live

theorem Sound.step (inv : Sound state) (ran : registry.step state event = some after) :
    Sound after ∧ Succeeds state.db.keys after.db.keys := by
  obtain ⟨me, next, eff, cs⟩ := step_effect ran
  have mine := inv.holding me
  refine ⟨⟨eff.lone (inv.inserts me) mine inv.lone, ?_, ?_⟩, eff.succeeds mine⟩
  · intro alt
    rw [cs]
    by_cases eq : alt = me
    · subst alt
      rw [update_self]
      exact eff.holding_next mine
    · rw [update_of_ne eq]
      exact eff.holding_other (inv.inserts me) mine eq (inv.holding alt)
  · intro alt
    rw [cs]
    by_cases eq : alt = me
    · subst alt
      rw [update_self]
      exact eff.inserts_next (inv.inserts me)
    · rw [update_of_ne eq]
      exact inv.inserts alt

theorem sound_of_reaches {may : State → Event → Prop}
    (met : Reaches registry.step may .initial finish) : Sound finish :=
  met.invariant Sound .initial fun inv _ ran => (inv.step ran).1

theorem active_of_reaches (inv : Sound start) (met : Reachable registry.step start finish)
    (live : ∃ id, start.db.keys.stateOf id = some .active) :
    ∃ id, finish.db.keys.stateOf id = some .active := by
  have both := met.invariant (fun state => Sound state ∧
      ∃ id, state.db.keys.stateOf id = some .active) ⟨inv, live⟩ (by
      rintro was after event ⟨inv, live⟩ _ ran
      obtain ⟨next, succeeds⟩ := inv.step ran
      exact ⟨next, succeeds.active live⟩)
  exact both.2

theorem mem_trusted {keys : Keyring} {row : Key} (mem : row ∈ keys.rows)
    (serves : row.state ≠ .retired) : row.pem ∈ keys.trusted := by
  unfold Keyring.trusted
  rw [mem_insertionSort]
  refine mem_map.mpr ⟨row, mem_filter.mpr ⟨mem, ?_⟩, rfl⟩
  simpa using serves

/-- In every interleaving of calls on either registry: at most one key is
active in a committed state, and exactly one once any has been; a step leaves
every key where it is or moves it along an arrow of the lifecycle; and the
advertised set has the text of every active and every draining key. -/
theorem lifecycle_sound {middle : State}
    (first : Reachable registry.step .initial middle)
    (rest : Reachable registry.step middle finish) :
    Lone finish.db.keys ∧
      ((∃ row ∈ middle.db.keys.rows, row.state = .active) →
        ∃ row ∈ finish.db.keys.rows, row.state = .active ∧
          ∀ other ∈ finish.db.keys.rows, other.state = .active → other = row) ∧
      (∀ event after, registry.step finish event = some after →
        ∀ row ∈ finish.db.keys.rows,
          ∃ moved ∈ after.db.keys.rows, moved.id = row.id ∧
            (moved.state = row.state ∨ Arrow row.state moved.state)) ∧
      ∀ row ∈ finish.db.keys.rows,
        row.state = .active ∨ row.state = .draining →
        row.pem ∈ finish.db.keys.trusted := by
  have sound := sound_of_reaches (first.trans rest)
  refine ⟨sound.lone, ?_, ?_, ?_⟩
  · rintro ⟨key, member, active⟩
    have seen := Keyring.stateOf_of_mem member
    rw [active] at seen
    obtain ⟨id, found⟩ := active_of_reaches (sound_of_reaches first) rest ⟨key.id, seen⟩
    obtain ⟨row, present, same, state⟩ := Keyring.mem_of_stateOf found
    refine ⟨row, present, state, ?_⟩
    intro other otherPresent otherActive
    have otherState := Keyring.stateOf_of_mem otherPresent
    rw [otherActive] at otherState
    exact finish.db.keys.row_eq_of_key_eq otherPresent present
      (sound.lone other.id row.id otherState (same ▸ found))
  · intro event after taken row member
    obtain ⟨new, found, moves⟩ := (sound.step taken).2.arrow row.id row.state
      (Keyring.stateOf_of_mem member)
    obtain ⟨moved, present, same, state⟩ := Keyring.mem_of_stateOf found
    exact ⟨moved, present, same, state ▸ moves⟩
  · intro row member serving
    apply mem_trusted member
    rcases serving with active | draining
    · rw [active]
      rintro ⟨⟩
    · rw [draining]
      rintro ⟨⟩

end

namespace Example

def registry : Registry where
  parse := .ok

/-- A call that runs alone with the clock at `now`. -/
def alone (call : Nat) (request : Request) (statements : Nat) (io : Io) :
    List Event :=
  .request call request :: List.replicate statements (.statement call io)

def setUp : List Event :=
  alone 0 (.seedActive "one" "k1" "" "") 2 { now := 1, id := 1 } ++
    alone 1 (.stage "two" "k2" "" "" 2) 1 { id := 2 }

def cutOver : List Event :=
  alone 2 (.activate 2 3) 5 {}

def prepared : State :=
  (runEvents registry.step .initial setUp).getD .initial

def rotated : State :=
  (runEvents registry.step prepared cutOver).getD .initial

theorem prepared_reachable : Reachable registry.step .initial prepared :=
  reachable_getD setUp .initial (by decide)

theorem rotated_reachable : Reachable registry.step prepared rotated :=
  reachable_getD cutOver .initial (by decide)

end Example

open Example

theorem lifecycle_sound_rotation : (rotated.db.keys.rows.map fun row => (row.pem, row.state)) =
        [("k1", .draining), ("k2", .active)] ∧ "k1" ∈ rotated.db.keys.trusted := by
  have rows : (rotated.db.keys.rows.map fun row =>
      (row.pem, row.state)) = [("k1", .draining), ("k2", .active)] := by
    decide
  refine ⟨rows, ?_⟩
  obtain ⟨_, _, _, advertised⟩ := lifecycle_sound prepared_reachable rotated_reachable
  have member : ("k1", KeyState.draining) ∈
      rotated.db.keys.rows.map fun row => (row.pem, row.state) := by
    rw [rows]
    exact List.mem_cons_self
  obtain ⟨row, present, same⟩ := List.mem_map.mp member
  obtain ⟨pem, state⟩ := Prod.mk.inj same
  exact pem ▸ advertised row present (.inr state)

end Harbor.Keys
