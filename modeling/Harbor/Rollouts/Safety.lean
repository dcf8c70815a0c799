import Harbor.Rollouts.Silence

/-!
# Staged rollout safety

The invariant of the engine has three parts: host rows belong to a rollout, an
active rollout is the latest of its lane, and the waves of a rollout are
numbered from 0 without a gap up to one that is not below the active wave.  The
safety of a reachable database follows from it together with `step_effect`.
-/

namespace Harbor.Rollouts

open Library List

section

theorem exists_eq_of_climb {f : Nat → Nat} (starts : f 0 = 0)
    (climbs : ∀ idx, f (idx + 1) ≤ f idx + 1)
    (lt : wave ≤ f last) : ∃ idx ≤ last, f idx = wave := by
  induction last with
  | zero => exact ⟨0, le_rfl, by omega⟩
  | succ last induction =>
    by_cases old : wave ≤ f last
    · obtain ⟨idx, cap, eq⟩ := induction old
      exact ⟨idx, by omega, eq⟩
    · have climb := climbs last
      exact ⟨last + 1, le_rfl, by omega⟩

variable {cfg : StartConfig}

theorem canary_pos (ne : cfg.hosts ≠ []) : 0 < cfg.canary := by
  have length := length_pos_of_ne_nil ne
  unfold StartConfig.canary
  dsimp only
  split_ifs <;> omega

theorem waveOf_zero (ne : cfg.hosts ≠ []) : cfg.waveOf 0 = 0 := by
  unfold StartConfig.waveOf
  rw [if_pos (canary_pos ne)]

theorem waveOf_succ (idx : Nat) : cfg.waveOf idx ≤ cfg.waveOf (idx + 1) ∧
      cfg.waveOf (idx + 1) ≤ cfg.waveOf idx + 1 := by
  unfold StartConfig.waveOf
  by_cases fst : idx < cfg.canary
  · have boundary : idx + 1 - cfg.canary = 0 := by omega
    simp only [if_pos fst, boundary, Nat.zero_div]
    split_ifs <;> omega
  · have late : ¬ idx + 1 < cfg.canary := by omega
    simp only [if_neg fst, if_neg late]
    split_ifs with flat
    · omega
    · have rest : idx + 1 - cfg.canary = idx - cfg.canary + 1 := by omega
      have step : (idx - cfg.canary + 1) / cfg.waveSize.toNat = _ := Nat.succ_div
      rw [rest]
      split_ifs at step <;> omega

theorem exists_waveOf_iff (ne : cfg.hosts ≠ []) :
    (∃ ip idx, cfg.hosts[idx]? = some ip ∧ wave = cfg.waveOf idx) ↔
      wave ≤ cfg.waveOf (cfg.hosts.length - 1) := by
  have length := length_pos_of_ne_nil ne
  constructor
  · rintro ⟨ip, idx, hit, rfl⟩
    obtain ⟨cap, _⟩ := List.getElem?_eq_some_iff.mp hit
    exact monotone_nat_of_le_succ (fun idx => (waveOf_succ idx).1) (by omega)
  · intro lt
    obtain ⟨idx, cap, eq⟩ := exists_eq_of_climb (waveOf_zero ne)
      (fun idx => (waveOf_succ idx).2) lt
    exact ⟨_, idx, List.getElem?_eq_getElem (by omega), eq.symm⟩

end

/-- The waves of the rollout are those up to `last`. -/
def Database.WavesUpTo (db : Database) (r : Rollout) (last : Nat) : Prop :=
  ∀ wave, (∃ ip, db.Placed r.id ip wave) ↔ wave ≤ last

structure Sound (db : Database) : Prop where
  hosted : ∀ {id : Int} {ip : String} {wave : Nat}, db.Placed id ip wave →
    ∃ r ∈ db.rollouts.rows, r.id = id
  latest : ∀ r ∈ db.rollouts.rows, r.active = true → db.current r.lane = some r
  waves : ∀ r ∈ db.rollouts.rows, ∃ last, r.activeWave ≤ last ∧ db.WavesUpTo r last

section

variable {was fin : Database} {ev : Event} {r next : Rollout}

theorem sound_empty : Sound Database.empty where
  hosted put := by
    simp [Database.Placed, Database.empty, Table.empty] at put
  latest r member := by
    simp [Database.empty, Table.empty] at member
  waves r member := by
    simp [Database.empty, Table.empty] at member

theorem SamePlaces.wavesUpTo_iff (eq : SamePlaces was fin) {last : Nat} :
    fin.WavesUpTo r last ↔ was.WavesUpTo r last := by
  unfold Database.WavesUpTo
  simp only [eq.placed_iff]

theorem mem_of_activeCurrent (on : was.activeCurrent l = some r) :
    r ∈ was.rollouts.rows ∧ r.active = true := by
  obtain ⟨hit, live⟩ := activeCurrent_eq_some_iff.mp on
  exact ⟨(current_eq_some_iff.mp hit).1, live⟩

theorem current_of_replaces (swap : Replaces r next was fin)
    (idEq : next.id = r.id) (ls : next.lane = r.lane)
    (hit : was.current r.lane = some r) : fin.current next.lane = some next := by
  obtain ⟨mem, _, most⟩ := current_eq_some_iff.mp hit
  refine current_eq_some_iff.mpr ⟨(swap next).mpr (.inr rfl), rfl, ?_⟩
  intro alt had ofLane
  rcases (swap alt).mp had with ⟨old, _⟩ | rfl
  · rw [idEq]
    exact most alt old (ofLane.trans ls)
  · exact le_rfl

theorem current_of_replaces_other (swap : Replaces r next was fin)
    (idEq : next.id = r.id) (ls : next.lane = r.lane)
    (mem : r ∈ was.rollouts.rows) (alt : row.id ≠ r.id)
    (hit : was.current row.lane = some row) : fin.current row.lane = some row := by
  obtain ⟨had, _, most⟩ := current_eq_some_iff.mp hit
  refine current_eq_some_iff.mpr ⟨(swap row).mpr (.inl ⟨had, alt⟩), rfl, ?_⟩
  intro c has ofLane
  rcases (swap c).mp has with ⟨old, _⟩ | rfl
  · exact most c old ofLane
  · rw [idEq]
    exact most r mem (ls.symm.trans ofLane)

theorem Sound.replace (inv : Sound was) (on : was.activeCurrent r.lane = some r)
    (swap : Replaces r next was fin) (idEq : next.id = r.id)
    (ls : next.lane = r.lane) (puts : SamePlaces was fin)
    (into : ∀ last, r.activeWave ≤ last → was.WavesUpTo r last →
      next.activeWave ≤ last) : Sound fin := by
  obtain ⟨hit, _⟩ := activeCurrent_eq_some_iff.mp on
  obtain ⟨mem, _⟩ := current_eq_some_iff.mp hit
  refine ⟨?_, ?_, ?_⟩
  · intro id ip wave put
    obtain ⟨row, had, rfl⟩ := inv.hosted (puts.placed_iff.mp put)
    by_cases eq : row.id = r.id
    · exact ⟨next, (swap next).mpr (.inr rfl), idEq.trans eq.symm⟩
    · exact ⟨row, (swap row).mpr (.inl ⟨had, eq⟩), rfl⟩
  · intro row had live
    rcases (swap row).mp had with ⟨old, alt⟩ | rfl
    · exact current_of_replaces_other swap idEq ls mem alt (inv.latest row old live)
    · exact current_of_replaces swap idEq ls hit
  · intro row had
    rcases (swap row).mp had with ⟨old, _⟩ | rfl
    · obtain ⟨last, cap, ws⟩ := inv.waves row old
      exact ⟨last, cap, puts.wavesUpTo_iff.mpr ws⟩
    · obtain ⟨last, cap, ws⟩ := inv.waves r mem
      refine ⟨last, into last cap ws, puts.wavesUpTo_iff.mpr ?_⟩
      unfold Database.WavesUpTo
      rw [idEq]
      exact ws

theorem Sound.insert (inv : Sound was) {cfg : StartConfig} {id now : Int}
    (nonempty : cfg.hosts ≠ []) (idle : was.activeCurrent r.lane = none)
    (row : r = cfg.rollout id now) (new : ∀ row ∈ was.rollouts.rows, row.id < r.id)
    (rs : fin.rollouts.rows = was.rollouts.rows ++ [r])
    (put : ∀ id ip wave, fin.Placed id ip wave ↔ was.Placed id ip wave ∨ id = r.id ∧
        ∃ idx, cfg.hosts[idx]? = some ip ∧ wave = cfg.waveOf idx) :
    Sound fin := by
  have members : ∀ alt, alt ∈ fin.rollouts.rows ↔ alt ∈ was.rollouts.rows ∨ alt = r := by
    intro alt
    rw [rs, mem_append, mem_singleton]
  refine ⟨?_, ?_, ?_⟩
  · intro id ip wave had
    rcases (put id ip wave).mp had with old | ⟨rfl, _⟩
    · obtain ⟨alt, mem, eq⟩ := inv.hosted old
      exact ⟨alt, (members alt).mpr (.inl mem), eq⟩
    · exact ⟨r, (members r).mpr (.inr rfl), rfl⟩
  · intro alt had live
    rcases (members alt).mp had with old | rfl
    · have head := inv.latest alt old live
      obtain ⟨_, _, most⟩ := current_eq_some_iff.mp head
      refine current_eq_some_iff.mpr ⟨had, rfl, ?_⟩
      intro c has ofLane
      rcases (members c).mp has with older | rfl
      · exact most c older ofLane
      · have busy := activeCurrent_eq_some_iff.mpr ⟨head, live⟩
        rw [← ofLane, idle] at busy
        cases busy
    · refine current_eq_some_iff.mpr ⟨had, rfl, ?_⟩
      intro c has _
      rcases (members c).mp has with older | rfl
      · exact (new c older).le
      · exact le_rfl
  · intro alt had
    rcases (members alt).mp had with old | rfl
    · obtain ⟨last, cap, ws⟩ := inv.waves alt old
      refine ⟨last, cap, ?_⟩
      intro wave
      rw [← ws wave]
      refine exists_congr fun ip => ?_
      rw [put]
      have ne := (new alt old).ne
      simp [ne]
    · refine ⟨cfg.waveOf (cfg.hosts.length - 1), ?_, ?_⟩
      · rw [row]
        exact Nat.zero_le _
      · intro wave
        rw [← exists_waveOf_iff nonempty]
        refine exists_congr fun ip => ?_
        rw [put]
        constructor
        · rintro (old | ⟨_, hit⟩)
          · obtain ⟨h, mem, eq⟩ := inv.hosted old
            exact absurd eq (new h mem).ne
          · exact hit
        · intro hit
          exact .inr ⟨rfl, hit⟩

theorem Sound.effect (inv : Sound was) (eff : Effect was ev fin) : Sound fin := by
  cases eff with
  | kept rollouts puts =>
    refine ⟨?_, ?_, ?_⟩
    · intro id ip wave put
      rw [rollouts]
      exact inv.hosted (puts.placed_iff.mp put)
    · intro r mem live
      unfold Database.current
      rw [rollouts] at mem ⊢
      exact inv.latest r mem live
    · intro r mem
      rw [rollouts] at mem
      obtain ⟨last, cap, ws⟩ := inv.waves r mem
      exact ⟨last, cap, puts.wavesUpTo_iff.mpr ws⟩
  | started cfg r _ ne idle row new rs put =>
    obtain ⟨id, row⟩ := row
    exact inv.insert ne idle row new rs put
  | stopped r _ on swap puts => exact inv.replace on swap rfl rfl puts fun last cap _ => cap
  | advanced r _ on _ move swap puts =>
    rcases move with ⟨_, rfl⟩ | ⟨⟨ip, wave, put, late⟩, rfl⟩
    · exact inv.replace on swap rfl rfl puts fun last cap _ => cap
    · refine inv.replace on swap rfl rfl puts ?_
      intro last _ ws
      have cap : wave ≤ last := (ws wave).mp ⟨ip, put⟩
      exact Nat.succ_le_of_lt (lt_of_lt_of_le late cap)

theorem sound_of_reachable (met : Reachable step Database.empty db) : Sound db :=
  met.invariant Sound sound_empty fun inv _ ran =>
    inv.effect (step_effect ran)

end

section

variable {was fin : Database} {ev : Event} {r : Rollout}

theorem Effect.keeps_final (eff : Effect was ev fin)
    (mem : r ∈ was.rollouts.rows) (last : r.active = false) : r ∈ fin.rollouts.rows := by
  have alt : ∀ {l : Lane} {cur : Rollout}, was.activeCurrent l = some cur → r.id ≠ cur.id := by
    intro l cur on eq
    obtain ⟨had, live⟩ := mem_of_activeCurrent on
    rw [was.rollouts.row_eq_of_key_eq mem had eq, live] at last
    cases last
  cases eff with
  | kept rollouts _ =>
    rw [rollouts]
    exact mem
  | started _ _ _ _ _ _ _ rs =>
    rw [rs]
    exact mem_append_left _ mem
  | stopped _ _ on swap | advanced _ _ on _ _ swap => exact (swap r).mpr (.inl ⟨mem, alt on⟩)

theorem final_of_reachable (mem : r ∈ was.rollouts.rows)
    (last : r.active = false) (met : Reachable step was fin) : r ∈ fin.rollouts.rows :=
  met.invariant (fun db => r ∈ db.rollouts.rows) mem
    fun had _ ran => (step_effect ran).keeps_final had last

theorem converged_of_advance (ne : readings ≠ []) (canary : r.activeWave = 0)
    (judged : r.judge now readings = .advance) : ∃ entry ∈ readings, r.Good now entry.2 := by
  by_contra none
  have converged : (readings.map fun read =>
      r.tally now read.2).count .converged = 0 := by
    rw [count_eq_zero, mem_map]
    rintro ⟨entry, mem, eq⟩
    exact none ⟨entry, mem, tally_eq_converged_iff.mp eq⟩
  have length := length_pos_of_ne_nil ne
  unfold Rollout.judge at judged
  simp only [converged, canary, true_and] at judged
  split_ifs at judged
  all_goals omega

theorem Sound.waveHosts_ne_nil (inv : Sound was) (mem : r ∈ was.rollouts.rows)
    (cap : wave ≤ r.activeWave) : was.waveHosts r wave ≠ [] := by
  obtain ⟨last, into, ws⟩ := inv.waves r mem
  obtain ⟨ip, put⟩ := (ws wave).mpr (cap.trans into)
  obtain ⟨h, has, _⟩ := exists_waveHosts_iff.mpr put
  exact ne_nil_of_mem has

theorem Sound.validated (inv : Sound was) (eff : Effect was ev fin)
    (mem : r ∈ was.rollouts.rows) (live : r.active = true) (canary : r.activeWave = 0)
    {next : Rollout} (had : next ∈ fin.rollouts.rows) (eq : next.id = r.id)
    (move : next.activeWave ≠ 0 ∨ next.state = .completed) :
    ∃ now deaf, ev = .evaluate r.lane now deaf ∧ ∃ h ∈ was.waveHosts r 0,
        r.Good now (was.read deaf h.overlayIP) := by
  have unmoved : next ≠ r := by
    rintro rfl
    rcases move with ok | completed
    · exact ok canary
    · simp [Rollout.active, completed] at live
  have kept : ∀ {table : Table Rollout.id}, table = was.rollouts →
      next ∈ table.rows → False := by
    rintro _ rfl had
    exact unmoved (was.rollouts.row_eq_of_key_eq had mem eq)
  cases eff with
  | kept rollouts _ => exact (kept rollouts had).elim
  | started cfg started _ _ _ _ new rs =>
    rw [rs, mem_append, mem_singleton] at had
    rcases had with old | rfl
    · exact (kept rfl old).elim
    · exact absurd eq (new r mem).ne'
  | stopped halt _ _ swap =>
    rcases (swap next).mp had with ⟨old, _⟩ | rfl
    · exact (kept rfl old).elim
    · obtain ⟨hit, _⟩ := mem_of_activeCurrent ‹_›
      have rs := was.rollouts.row_eq_of_key_eq hit mem eq
      subst rs
      rcases move with ok | completed
      · exact absurd canary ok
      · cases completed
  | advanced went caused on judged diff swap =>
    rcases (swap next).mp had with ⟨old, _⟩ | rfl
    · exact (kept rfl old).elim
    · obtain ⟨hit, _⟩ := mem_of_activeCurrent on
      have idEq : went.id = r.id := by
        rcases diff with ⟨_, rfl⟩ | ⟨_, rfl⟩ <;> exact eq
      have rs := was.rollouts.row_eq_of_key_eq hit mem idEq
      subst rs
      refine ⟨_, _, caused, ?_⟩
      have ne := inv.waveHosts_ne_nil mem le_rfl
      obtain ⟨entry, has, good⟩ := converged_of_advance
        (by simpa [Database.readings] using ne) canary judged
      obtain ⟨h, inWave, rfl⟩ := mem_map.mp has
      rw [canary] at inWave
      exact ⟨h, inWave, good⟩

end

section

variable {db : Database} {r : Rollout} {ip : String}

def Database.HeldBack (db : Database) (r : Rollout) (ip : String) : Prop :=
  ∀ wave, db.Placed r.id ip wave → r.activeWave < wave

theorem not_touched_of_heldBack (held : db.HeldBack r ip) {h : Host}
    (hit : db.host r ip = some h) : ¬ h.wave ≤ r.activeWave := by
  have put : db.Placed r.id ip h.wave := host_wave_eq_iff.mp (by rw [hit]; rfl)
  exact not_le.mpr (held h.wave put)

theorem phase_of_active (live : r.active = true) : r.state = .canary ∨ r.state = .widening := by
  simpa [Rollout.active] using live

theorem command_of_heldBack (hit : db.current r.lane = some r)
    (live : r.active = true) (held : db.HeldBack r ip) (said : Int) :
    db.commandForLane r.lane ip said = none ∧ db.floorCatchupGen r.lane said = none := by
  constructor
  · unfold Database.commandForLane
    rw [hit]
    cases got : db.host r ip with
    | none => simp [got]
    | some h =>
      have beyond := not_touched_of_heldBack held got
      rcases phase_of_active live with s | s <;>
        simp [got, s, beyond]
  · unfold Database.floorCatchupGen
    rw [hit]
    simp [live]

theorem stamp_of_heldBack (hit : db.current r.lane = some r)
    (live : r.active = true) (held : db.HeldBack r ip) :
    (r.lane = .policy → db.versionFor ip = some r.prevVersion) ∧
      db.genForLane r.lane ip = some r.prevVersion := by
  constructor
  · intro policy
    rw [policy] at hit
    unfold Database.versionFor
    rw [hit]
    cases got : db.host r ip with
    | none => simp [got]
    | some h =>
      have beyond := not_touched_of_heldBack held got
      simp [got, beyond]
  · unfold Database.genForLane
    rw [hit]
    cases got : db.host r ip with
    | none =>
      rcases phase_of_active live with s | s <;>
        simp [s, got]
    | some h =>
      have beyond := not_touched_of_heldBack held got
      rcases phase_of_active live with s | s <;>
        simp [s, got, beyond]

end

structure Database.Safe (db : Database) : Prop where
  exclusive : ∀ r ∈ db.rollouts.rows, ∀ other ∈ db.rollouts.rows,
    r.active = true → other.active = true → other.lane = r.lane → other = r
  waves : ∀ r ∈ db.rollouts.rows, ∃ last, r.activeWave ≤ last ∧ db.WavesUpTo r last
  final : ∀ r ∈ db.rollouts.rows, r.active = false →
    ∀ after, Reachable step db after → r ∈ after.rollouts.rows
  staged : ∀ r ∈ db.rollouts.rows, r.active = true → r.lane ≠ .blocklist →
    r.targetVersion ≠ r.prevVersion → ∀ ip, db.HeldBack r ip → (∀ reported,
        db.commandForLane r.lane ip reported ≠ some r.targetVersion ∧
          db.floorCatchupGen r.lane reported ≠ some r.targetVersion) ∧
      (r.lane = .policy → db.versionFor ip ≠ some r.targetVersion) ∧
      db.genForLane r.lane ip ≠ some r.targetVersion
  validated : ∀ r ∈ db.rollouts.rows, r.active = true → r.activeWave = 0 →
    ∀ event after, step db event = some after → ∀ next ∈ after.rollouts.rows, next.id = r.id →
        next.activeWave ≠ 0 ∨ next.state = .completed →
        ∃ now unreadable, event = .evaluate r.lane now unreadable ∧ ∃ h ∈ db.waveHosts r 0,
            r.Good now (db.read unreadable h.overlayIP)

/-- Every database that the engine can reach is safe. -/
theorem safe_of_reachable {db : Database}
    (reached : Reachable step Database.empty db) : db.Safe := by
  have sound := sound_of_reachable reached
  refine ⟨?_, sound.waves, ?_, ?_, ?_⟩
  · intro r member other present live otherLive sameLane
    have head := sound.latest other present otherLive
    rw [sameLane, sound.latest r member live, Option.some.injEq] at head
    exact head.symm
  · intro r member final after later
    exact final_of_reachable member final later
  · intro r member live _ changed ip held
    have found := sound.latest r member live
    obtain ⟨policy, release⟩ := stamp_of_heldBack found live held
    refine ⟨?_, ?_, ?_⟩
    · intro reported
      obtain ⟨command, floor⟩ := command_of_heldBack found live held reported
      simp [command, floor]
    · intro ofPolicy
      rw [policy ofPolicy]
      simpa using Ne.symm changed
    · rw [release]
      simpa using Ne.symm changed
  · intro r member live canary event after taken next present same moved
    exact sound.validated (step_effect taken) member live canary present same moved

theorem safe_of_last_heard : (Example.lastHeard "ok").activeCurrent .policy =
        some (Example.pair.rollout 1 0) ∧ (Example.lastHeard "ok").Safe := by
  exact ⟨by decide, safe_of_reachable (reachable_getD _ _ (by decide))⟩

end Harbor.Rollouts
