import Harbor.Keys.Succession

/-!
# The generation of a registry

`Generation` is the latest `updated_at` of the table, so it follows the clocks
of the processes that write.  Where every write is stamped later than the
table's latest stamp, the generation never decreases and grows with every
change of the trusted set; a process whose clock is behind breaks both.
-/

namespace Harbor.Keys

open Library List

/-- The statement about to be executed writes a stamp that is not behind the
generation, and is ahead of it where the trusted set may change. -/
def Ahead (state : State) : Event → Prop
  | .statement me _ =>
    match state.calls me with
    | .stageInsert row => state.db.keys.generation < row.updatedAt
    | .seedInsert row => state.db.keys.generation < row.updatedAt
    | .retireUpdate _ now => state.db.keys.generation < now
    | .abandonUpdate _ now => state.db.keys.generation < now
    | .activateCommit _ now _ => state.db.keys.generation ≤ now
    | .scheduleUpdate _ now _ => state.db.keys.generation ≤ now
    | .cancelUpdate _ now => state.db.keys.generation ≤ now
    | _ => True
  | _ => True

instance (state : State) : DecidablePred (Ahead state) := by
  intro event
  unfold Ahead
  split
  · split <;> infer_instance
  · infer_instance

structure Newer (before after : Keyring) : Prop where
  monotone : before.generation ≤ after.generation
  strict : before.trusted ≠ after.trusted → before.generation < after.generation

theorem Newer.refl (keys : Keyring) : Newer keys keys :=
  ⟨le_rfl, fun ne => (ne rfl).elim⟩

theorem Newer.trans {fst snd trd : Keyring} (l : Newer fst snd)
    (r : Newer snd trd) : Newer fst trd := by
  refine ⟨l.monotone.trans r.monotone, ?_⟩
  intro ne
  by_cases eq : fst.trusted = snd.trusted
  · rw [eq] at ne
    exact lt_of_le_of_lt l.monotone (r.strict ne)
  · exact lt_of_lt_of_le (l.strict eq) r.monotone

section

variable {keys : Keyring} {id now : Int}

theorem Keyring.le_generation (mem : row ∈ keys.rows) : row.updatedAt ≤ keys.generation := by
  have mapped : row.updatedAt ∈ keys.rows.map Key.updatedAt := mem_map.mpr ⟨row, mem, rfl⟩
  unfold generation
  cases stamps : keys.rows.map Key.updatedAt with
  | nil =>
    rw [stamps] at mapped
    cases mapped
  | cons first rest =>
    rw [stamps] at mapped
    obtain ⟨above, bound⟩ := le_foldl_max rest first
    rcases mem_cons.mp mapped with same | later
    · exact same ▸ above
    · exact bound _ later

theorem Keyring.le_generation_move {s : KeyState} (seen : (keys.stateOf id).isSome = true) :
    now ≤ (keys.move id s now).generation := by
  obtain ⟨old, hit⟩ := Option.isSome_iff_exists.mp seen
  obtain ⟨row, mem, eq, _⟩ := mem_of_stateOf hit
  have put : { row with state := s, updatedAt := now } ∈ (keys.move id s now).rows :=
    Table.mem_update.mpr ⟨row, mem, by simp [eq]⟩
  exact le_generation put

theorem Keyring.le_generation_mark {due date : Int} (seen : (keys.stateOf id).isSome = true) :
    now ≤ (keys.mark id due date now).generation := by
  obtain ⟨old, hit⟩ := Option.isSome_iff_exists.mp seen
  obtain ⟨row, mem, eq, _⟩ := mem_of_stateOf hit
  have put : row.marked due date now ∈ (keys.mark id due date now).rows :=
    Table.mem_update.mpr ⟨row, mem, by simp [eq]⟩
  exact le_generation put

theorem Keyring.trusted_update (pem : ∀ row, (ch row).pem = row.pem)
    (serves : ∀ row ∈ keys.rows, sel row = true →
      ((ch row).state = .retired ↔ row.state = .retired)) :
    trusted (keys.update sel ch keep) = keys.trusted := by
  unfold trusted Table.update
  rw [filter_map, map_map]
  have sameRows : keys.rows.filter ((fun row : Key => row.state != .retired) ∘
        fun row => if sel row then ch row else row) =
      keys.rows.filter fun row => row.state != .retired := by
    apply filter_congr
    intro row mem
    by_cases io : sel row = true
    · have eq := serves row mem io
      simp only [Function.comp_apply, io, if_true]
      rw [Bool.eq_iff_iff]
      simp [eq]
    · simp [io]
  rw [sameRows]
  congr 1
  apply map_congr_left
  intro row _
  simp only [Function.comp_apply]
  split_ifs
  · exact pem row
  · rfl

theorem Keyring.trusted_mark {due date : Int} :
    (keys.mark id due date now).trusted = keys.trusted :=
  trusted_update (fun _ => rfl) fun _ _ _ => Iff.rfl

theorem Keyring.trusted_move {old new : KeyState}
    (s : keys.stateOf id = some old) (was : old ≠ .retired) (post : new ≠ .retired) :
    (keys.move id new now).trusted = keys.trusted := by
  refine trusted_update (fun _ => rfl) ?_
  intro row mem io
  have key : row.id = id := by simpa using io
  have hit := stateOf_of_mem mem
  rw [key, s] at hit
  have eq : old = row.state := Option.some.inj hit
  constructor
  · intro gone
    exact (post gone).elim
  · intro gone
    exact (was (eq.trans gone)).elim

end

section

variable {me : Nat} {db : Database}

theorem Holding.trusted_swapped {id now : Int} {low : Option Int}
    (held : Holding db me (.activateCommit id now low)) : ((low.elim db.keys fun cur =>
      db.keys.move cur .draining now).move id .active now).trusted =
        db.keys.trusted := by
  obtain ⟨_, put, _, _⟩ := held.promoted id rfl
  cases low with
  | none => exact Keyring.trusted_move put (by rintro ⟨⟩) (by rintro ⟨⟩)
  | some cur =>
    obtain ⟨_, live⟩ := held.demoted cur rfl
    have ne : id ≠ cur := by
      rintro rfl
      rw [put] at live
      cases live
    have same : (db.keys.move cur .draining now).stateOf id = some .staged := by
      rw [Keyring.stateOf_move, if_neg ne, put]
    rw [Option.elim_some, Keyring.trusted_move same (by rintro ⟨⟩) (by rintro ⟨⟩),
      Keyring.trusted_move live (by rintro ⟨⟩) (by rintro ⟨⟩)]

theorem Holding.le_generation_swapped {id now : Int} {low : Option Int}
    (held : Holding db me (.activateCommit id now low)) : now ≤ ((low.elim db.keys fun cur =>
      db.keys.move cur .draining now).move id .active now).generation := by
  apply Keyring.le_generation_move
  have live : ((low.elim db.keys fun cur =>
      db.keys.move cur .draining now).move id .active now).stateOf id = some .active := by
    rw [held.stateOf_swapped, if_pos rfl]
  rw [Keyring.stateOf_move, if_pos rfl] at live
  obtain ⟨old, hit, _⟩ := Option.map_eq_some_iff.mp live
  rw [hit]
  rfl

end

section

variable {registry : Registry} {state after middle finish : State} {event : Event}

theorem Keyring.newer_insert {keys after : Keyring} {row : Key}
    (put : keys.insert? row = some after)
    (fore : keys.generation < row.updatedAt) : Newer keys after := by
  have mem : row ∈ after.rows := by
    rw [(Table.insert?_eq_some put).1]
    exact mem_append_right _ (mem_singleton_self row)
  have late := lt_of_lt_of_le fore (le_generation mem)
  exact ⟨late.le, fun _ => late⟩

theorem newer_step (sound : Sound state) (ahead : Ahead state event)
    (hop : registry.step state event = some after) : Newer state.db.keys after.db.keys := by
  cases event with
  | request c req =>
    simp only [Registry.step] at hop
    split at hop <;> cases hop
    exact .refl _
  | crash c =>
    simp only [Registry.step, Option.some.injEq] at hop
    subst after
    exact .refl _
  | statement me io =>
    simp only [Registry.step] at hop
    obtain ⟨⟨db, next⟩, ran, rfl⟩ := Option.map_eq_some_iff.mp hop
    have holds := sound.holding me
    simp only [Ahead] at ahead
    generalize state.calls me = c at ran holds ahead
    cases advance_effect ran with
    | same | ended | demoting | promoting => exact .refl _
    | swapped pos =>
      subst pos
      refine ⟨le_trans ahead holds.le_generation_swapped, ?_⟩
      intro ne
      exact (ne holds.trusted_swapped.symm).elim
    | inserted pos ins =>
      rcases pos with rfl | ⟨rfl, _⟩
      · exact Keyring.newer_insert ins ahead
      · exact Keyring.newer_insert ins ahead
    | @moved id now _ _ pos known =>
      have late : now ≤ (state.db.keys.move id .retired now).generation :=
        Keyring.le_generation_move (by rw [known]; rfl)
      rcases pos with rfl | rfl
      · exact ⟨ahead.le.trans late, fun _ => lt_of_lt_of_le ahead late⟩
      · exact ⟨ahead.le.trans late, fun _ => lt_of_lt_of_le ahead late⟩
    | marked pos known =>
      refine ⟨?_, fun ne => (ne Keyring.trusted_mark.symm).elim⟩
      rcases pos with rfl | rfl
      · exact le_trans ahead (Keyring.le_generation_mark known)
      · exact le_trans ahead (Keyring.le_generation_mark known)

/-- In every run whose writes are all stamped ahead of the table, the
generation never decreases, and when the trusted set has changed it is
greater than it was. -/
theorem generation_monotone (first : Reaches registry.step Ahead .initial middle)
    (rest : Reaches registry.step Ahead middle finish) :
    middle.db.keys.generation ≤ finish.db.keys.generation ∧
      (middle.db.keys.trusted ≠ finish.db.keys.trusted →
        middle.db.keys.generation < finish.db.keys.generation) := by
  have both := rest.invariant (fun state => Sound state ∧ Newer middle.db.keys state.db.keys)
    ⟨sound_of_reaches first, .refl _⟩ (by
      rintro before after event ⟨sound, newer⟩ ahead taken
      exact ⟨(sound.step taken).1, newer.trans (newer_step sound ahead taken)⟩)
  exact ⟨both.2.monotone, both.2.strict⟩

end

theorem generation_monotone_rotation : Example.prepared.db.keys.generation = 2 ∧
      Example.prepared.db.keys.generation ≤
        Example.rotated.db.keys.generation := by
  have prepared : Reaches Example.registry.step Ahead .initial
      Example.prepared := by
    have executed : (runEvents (guarded Example.registry.step Ahead) .initial
        Example.setUp).isSome = true := by
      decide
    obtain ⟨reached, ran⟩ := Option.isSome_iff_exists.mp executed
    have same : Example.prepared = reached := by
      rw [Example.prepared, runEvents_of_guarded ran]
      rfl
    exact same ▸ reaches_of_runEvents ran
  have rotated : Reaches Example.registry.step Ahead Example.prepared
      Example.rotated := by
    have executed : (runEvents (guarded Example.registry.step Ahead)
        Example.prepared Example.cutOver).isSome = true := by
      decide
    obtain ⟨reached, ran⟩ := Option.isSome_iff_exists.mp executed
    have same : Example.rotated = reached := by
      rw [Example.rotated, runEvents_of_guarded ran]
      rfl
    exact same ▸ reaches_of_runEvents ran
  exact ⟨by decide, (generation_monotone prepared rotated).1⟩

/-- Two processes: one seeds and activates with a clock at 100 and 60, the
other stages at 50.  The trusted set grows under the same generation, and the
activation takes the generation back. -/
theorem generation_decreases : ¬ ∀ (middle finish : State),
      Reachable Example.registry.step .initial middle →
      Reachable Example.registry.step middle finish →
      middle.db.keys.generation ≤ finish.db.keys.generation ∧
        (middle.db.keys.trusted ≠ finish.db.keys.trusted →
          middle.db.keys.generation < finish.db.keys.generation) := by
  intro claim
  let seeding := Example.alone 0 (.seedActive "one" "k1" "" "") 2 { now := 100, id := 1 }
  let seeded := (runEvents Example.registry.step .initial seeding).getD .initial
  let behind := Example.alone 1 (.stage "two" "k2" "" "" 50) 1 { id := 2 } ++
    Example.alone 2 (.activate 2 60) 5 {}
  let finish := (runEvents Example.registry.step seeded behind).getD .initial
  have first : Reachable Example.registry.step .initial seeded :=
    reachable_getD seeding .initial (by decide)
  have rest : Reachable Example.registry.step seeded finish :=
    reachable_getD behind .initial (by decide)
  have order : ¬ seeded.db.keys.generation ≤ finish.db.keys.generation := by
    decide
  exact order (claim seeded finish first rest).1

end Harbor.Keys
