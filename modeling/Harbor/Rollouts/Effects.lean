import Harbor.Rollouts.Engine
import Harbor.Library.Run

/-!
# What the operations change

Every operation writes to the current rollout of one lane, and of the host rows
it changes only the status.  The inversion lemma `step_effect` says so once for
all events; what holds of single lanes and of runs is read off it.
-/

namespace Harbor.Rollouts

open Library List Table

def Host.place (h : Host) : Int × String × Nat :=
  (h.rolloutID, h.overlayIP, h.wave)

def Database.Placed (db : Database) (id : Int) (ip : String) (wave : Nat) :
    Prop :=
  (id, ip, wave) ∈ db.hosts.rows.map Host.place

section

variable {db : Database} {lane : Lane} {r : Rollout}

theorem current_eq_some_iff : db.current lane = some r ↔ r ∈ db.rollouts.rows ∧ r.lane = lane ∧
        ∀ alt ∈ db.rollouts.rows, alt.lane = lane → alt.id ≤ r.id := by
  unfold Database.current
  rw [latest_eq_some_iff]
  simp

theorem activeCurrent_eq_some_iff : db.activeCurrent lane = some r ↔
      db.current lane = some r ∧ r.active = true := by
  unfold Database.activeCurrent
  rw [Option.filter_eq_some_iff]

theorem host_wave_eq_iff : (db.host r ip).map (·.wave) = some wave ↔ db.Placed r.id ip wave := by
  unfold Database.host Database.Placed
  rw [Option.map_eq_some_iff, mem_map]
  constructor
  · rintro ⟨h, hit, rfl⟩
    obtain ⟨mem, key⟩ := find_eq_some_iff.mp hit
    simp only [Host.key, Prod.mk.injEq] at key
    exact ⟨h, mem, by simp [Host.place, key]⟩
  · rintro ⟨h, mem, spot⟩
    simp only [Host.place, Prod.mk.injEq] at spot
    obtain ⟨idEq, ipEq, waveEq⟩ := spot
    exact ⟨h, find_eq_some_iff.mpr ⟨mem, by simp [Host.key, idEq, ipEq]⟩, waveEq⟩

theorem exists_waveHosts_iff :
    (∃ h ∈ db.waveHosts r wave, h.overlayIP = ip) ↔ db.Placed r.id ip wave := by
  unfold Database.waveHosts Database.Placed
  simp only [mem_filter, Bool.and_eq_true, beq_iff_eq, mem_map, Host.place, Prod.mk.injEq]
  constructor
  · rintro ⟨h, ⟨mem, idEq, waveEq⟩, ipEq⟩
    exact ⟨h, mem, idEq, ipEq, waveEq⟩
  · rintro ⟨h, mem, idEq, ipEq, waveEq⟩
    exact ⟨h, ⟨mem, idEq, waveEq⟩, ipEq⟩

end

def SamePlaces (before after : Database) : Prop :=
  after.hosts.rows.map Host.place = before.hosts.rows.map Host.place

/-- The row of `r` has become `next`; the other rollouts are as before. -/
def Replaces (r next : Rollout) (before after : Database) : Prop :=
  ∀ row, row ∈ after.rollouts.rows ↔ (row ∈ before.rollouts.rows ∧ row.id ≠ r.id) ∨ row = next

section

variable {was new : Database} {r : Rollout}

theorem SamePlaces.placed_iff (eq : SamePlaces was new) {id : Int}
    {ip : String} {wave : Nat} : new.Placed id ip wave ↔ was.Placed id ip wave := by
  unfold Database.Placed
  rw [eq]

theorem samePlaces_update (db : Database) (sel : Host → Bool) (st : HostStatus) (now : Int) :
    SamePlaces db { db with
      hosts := db.hosts.update sel
        (fun h => { h with status := st, updatedAt := now })
        fun _ => rfl } := by
  unfold SamePlaces Table.update
  rw [map_map]
  apply map_congr_left
  intro h _
  simp only [Function.comp_apply]
  split <;> rfl

theorem replaces_setRollout {next : Rollout} {ch : Rollout → Rollout}
    {keeps : ∀ row, (ch row).id = row.id} (mem : r ∈ was.rollouts.rows)
    (same : new.rollouts = was.rollouts) (edit : ch r = next) :
    Replaces r next was (new.setRollout r.id ch keeps) := by
  intro row
  unfold Database.setRollout
  rw [mem_update, same]
  constructor
  · rintro ⟨old, had, rfl⟩
    by_cases eq : old.id = r.id
    · have rows := was.rollouts.row_eq_of_key_eq had mem eq
      subst rows
      simp [edit]
    · left
      simp [eq, had]
  · rintro (⟨had, alt⟩ | rfl)
    · exact ⟨row, had, by simp [alt]⟩
    · exact ⟨r, mem, by simp [edit]⟩

end

inductive Effect (before : Database) (event : Event) (after : Database) : Prop where
  | kept : after.rollouts = before.rollouts → SamePlaces before after → Effect before event after
  | started (cfg : StartConfig) (r : Rollout) {now : Int} : event = .start cfg now →
      cfg.hosts ≠ [] → before.activeCurrent r.lane = none → (∃ id, r = cfg.rollout id now) →
      (∀ row ∈ before.rollouts.rows, row.id < r.id) →
      after.rollouts.rows = before.rollouts.rows ++ [r] → (∀ id ip wave, after.Placed id ip wave ↔
        before.Placed id ip wave ∨ id = r.id ∧
          ∃ index, cfg.hosts[index]? = some ip ∧ wave = cfg.waveOf index) →
      Effect before event after
  | stopped (r : Rollout) {now : Int} {note : String} :
      (event = .abort r.lane now ∨ ∃ unreadable trigger, event = .evaluate r.lane now unreadable ∧
          r.judge now (before.readings r unreadable) = .rollback trigger) →
      before.activeCurrent r.lane = some r → Replaces r
        { r with state := .rolledBack, updatedAt := now, note := note } before after →
      SamePlaces before after → Effect before event after
  | advanced (r : Rollout) {now : Int} {unreadable : String → Bool} {next : Rollout} :
      event = .evaluate r.lane now unreadable → before.activeCurrent r.lane = some r →
      r.judge now (before.readings r unreadable) = .advance →
      ((∀ ip wave, before.Placed r.id ip wave → wave ≤ r.activeWave) ∧
        next = { r with
          state := .completed
          updatedAt := now
          note := "all waves converged" } ∨
        (∃ ip wave, before.Placed r.id ip wave ∧ r.activeWave < wave) ∧
        next = { r with
          state := .widening
          activeWave := r.activeWave + 1
          waveStartedAt := now
          updatedAt := now }) →
      Replaces r next before after →
      SamePlaces before after →
      Effect before event after

section

variable {was new : Database} {ev : Event}
variable {now : Int}

theorem insertHosts_places {cfg : StartConfig} {id : Int}
    {ips : List String} {hosts put : Table Host.key} {fst : Nat}
    (done : cfg.insertHosts id now fst ips hosts = some put) (place : Int × String × Nat) :
    place ∈ put.rows.map Host.place ↔ place ∈ hosts.rows.map Host.place ∨
        ∃ idx ip, ips[idx]? = some ip ∧ place = (id, ip, cfg.waveOf (fst + idx)) := by
  induction ips generalizing fst hosts with
  | nil =>
    simp only [StartConfig.insertHosts, Option.some.injEq] at done
    subst done
    simp
  | cons ip rest ih =>
    simp only [StartConfig.insertHosts, Option.bind_eq_some_iff] at done
    obtain ⟨mid, ran, done⟩ := done
    obtain ⟨rows, _⟩ := Table.insert?_eq_some ran
    rw [ih done, rows]
    simp only [map_append, map_cons, map_nil, mem_append, mem_singleton, or_assoc]
    refine or_congr_right ?_
    constructor
    · rintro (rfl | ⟨idx, alt, hit, rfl⟩)
      · exact ⟨0, ip, rfl, rfl⟩
      · exact ⟨idx + 1, alt, by simpa using hit, by
          rw [Nat.add_right_comm, Nat.add_assoc]⟩
    · rintro ⟨idx, alt, hit, rfl⟩
      cases idx with
      | zero =>
        left
        simp only [List.getElem?_cons_zero, Option.some.injEq] at hit
        subst hit
        rfl
      | succ idx =>
        right
        refine ⟨idx, alt, by simpa using hit, ?_⟩
        rw [Nat.add_right_comm, Nat.add_assoc]

variable {r : Rollout}

theorem start_effect {cfg : StartConfig}
    (went : was.start cfg now = .ok (r, new)) : Effect was (.start cfg now) new := by
  unfold Database.start at went
  split at went
  · cases went
  · rename_i ne
    split at went
    · cases went
    · rename_i inactive
      dsimp only at went
      split at went
      · rename_i rollouts hs put placed
        cases went
        obtain ⟨rs, _⟩ := Table.insert?_eq_some put
        refine .started cfg _ rfl ne inactive ⟨_, rfl⟩ ?_ rs ?_
        · intro row mem
          exact lt_nextID (mem_map_of_mem mem)
        · intro id ip wave
          have spec := insertHosts_places placed (id, ip, wave)
          simp only [Nat.zero_add, Prod.mk.injEq] at spec
          unfold Database.Placed
          rw [spec]
          refine or_congr_right ⟨?_, ?_⟩
          · rintro ⟨idx, alt, hit, rfl, rfl, rfl⟩
            exact ⟨rfl, idx, hit, rfl⟩
          · rintro ⟨rfl, idx, hit, rfl⟩
            exact ⟨idx, ip, hit, rfl, rfl, rfl⟩
      · cases went

theorem affected_later_eq_zero_iff {db : Database} : db.hosts.affected (fun h =>
        h.rolloutID == r.id && decide (r.activeWave < h.wave)) = 0 ↔
      ∀ ip wave, db.Placed r.id ip wave → wave ≤ r.activeWave := by
  unfold Table.affected Database.Placed
  simp only [countP_eq_zero, Bool.and_eq_true, beq_iff_eq,
    decide_eq_true_eq, not_and, not_lt, mem_map, Host.place, Prod.mk.injEq]
  constructor
  · rintro none ip wave ⟨h, mem, eq, _, rfl⟩
    exact none h mem eq
  · intro none h mem eq
    exact none h.overlayIP h.wave ⟨h, mem, eq, rfl, rfl⟩

theorem advance_effect {l : Lane} {deaf : String → Bool} (live : was.activeCurrent l = some r)
    (judged : r.judge now (was.readings r deaf) = .advance) :
    Effect was (.evaluate l now deaf) (was.advance r now) := by
  obtain ⟨hit, _⟩ := activeCurrent_eq_some_iff.mp live
  obtain ⟨mem, rfl, _⟩ := current_eq_some_iff.mp hit
  have puts : SamePlaces was (was.setWaveStatus r .converged now) := samePlaces_update was _ _ now
  unfold Database.advance
  dsimp only
  split
  · rename_i none
    refine .advanced r rfl live judged (.inl ⟨?_, rfl⟩) (replaces_setRollout mem rfl rfl) puts
    intro ip wave put
    exact affected_later_eq_zero_iff.mp none ip wave (puts.placed_iff.mpr put)
  · rename_i some
    refine .advanced r rfl live judged (.inr ⟨?_, rfl⟩) (replaces_setRollout mem rfl rfl) puts
    rw [affected_later_eq_zero_iff] at some
    push Not at some
    obtain ⟨ip, wave, put, late⟩ := some
    exact ⟨ip, wave, puts.placed_iff.mp put, late⟩

theorem evaluateLane_effect (db : Database) (l : Lane) (now : Int) (deaf : String → Bool) :
    Effect db (.evaluate l now deaf) (db.evaluateLane l now deaf).2 := by
  unfold Database.evaluateLane
  split
  · exact .kept rfl rfl
  · rename_i r live
    obtain ⟨hit, _⟩ := activeCurrent_eq_some_iff.mp live
    obtain ⟨mem, rfl, _⟩ := current_eq_some_iff.mp hit
    split
    · rename_i trigger judged
      exact .stopped r (.inr ⟨deaf, trigger, rfl, judged⟩) live
        (replaces_setRollout mem rfl rfl) (samePlaces_update db _ _ now)
    · rename_i judged
      exact advance_effect live judged
    · exact .kept rfl rfl

theorem step_effect (ran : step was ev = some new) :
    Effect was ev new := by
  cases ev with
  | start cfg now =>
    simp only [step] at ran
    split at ran
    · rename_i r put went
      cases ran
      exact start_effect went
    · cases ran
      exact .kept rfl rfl
  | evaluate l now deaf =>
    cases ran
    exact evaluateLane_effect was l now deaf
  | abort l now =>
    simp only [step, Database.abortLane] at ran
    split at ran
    · rename_i aborted
      split at aborted
      · cases aborted
      · rename_i r live
        cases aborted
        cases ran
        obtain ⟨hit, _⟩ := activeCurrent_eq_some_iff.mp live
        obtain ⟨mem, rfl, _⟩ := current_eq_some_iff.mp hit
        exact .stopped r (.inl rfl) live (replaces_setRollout mem rfl rfl) rfl
    · cases ran
      exact .kept rfl rfl
  | heartbeat b =>
    cases ran
    exact .kept rfl rfl
  | command l ip said now =>
    simp only [step, Option.some.injEq] at ran
    subst ran
    unfold Database.markReverted
    split
    · exact .kept rfl rfl
    · split
      · exact .kept rfl (samePlaces_update was _ _ now)
      · exact .kept rfl rfl

theorem Effect.row (eff : Effect was ev new) (mem : r ∈ was.rollouts.rows) :
    ∃ next ∈ new.rollouts.rows, next.id = r.id ∧ next.lane = r.lane := by
  have swap : ∀ {alt next : Rollout}, alt ∈ was.rollouts.rows →
      Replaces alt next was new → next.id = alt.id → next.lane = alt.lane →
      ∃ next ∈ new.rollouts.rows, next.id = r.id ∧ next.lane = r.lane := by
    intro alt next had swap idEq ls
    by_cases eq : r.id = alt.id
    · have rs := was.rollouts.row_eq_of_key_eq mem had eq
      subst rs
      exact ⟨next, (swap next).mpr (.inr rfl), idEq, ls⟩
    · exact ⟨r, (swap r).mpr (.inl ⟨mem, eq⟩), rfl, rfl⟩
  cases eff with
  | kept rollouts _ => exact ⟨r, by rw [rollouts]; exact mem, rfl, rfl⟩
  | started _ _ _ _ _ _ _ rs => exact ⟨r, by rw [rs]; exact mem_append_left _ mem, rfl, rfl⟩
  | stopped alt _ live replaces =>
    obtain ⟨hit, _⟩ := activeCurrent_eq_some_iff.mp live
    obtain ⟨had, _, _⟩ := current_eq_some_iff.mp hit
    exact swap had replaces rfl rfl
  | advanced alt _ live _ move replaces =>
    obtain ⟨hit, _⟩ := activeCurrent_eq_some_iff.mp live
    obtain ⟨had, _, _⟩ := current_eq_some_iff.mp hit
    rcases move with ⟨_, rfl⟩ | ⟨_, rfl⟩ <;>
      exact swap had replaces rfl rfl

end

section

variable {db : Database} {r : Rollout}

theorem blocklistVersion_spec (mem : r ∈ db.rollouts.rows) (ofLane : r.lane = .blocklist) :
    r.targetVersion ≤ db.blocklistVersion ∧ ∃ top ∈ db.rollouts.rows, top.lane = .blocklist ∧
        top.targetVersion = db.blocklistVersion := by
  unfold Database.blocklistVersion
  have has : r.targetVersion ∈ (db.rollouts.rows.filter fun r => r.lane == .blocklist).map
        (·.targetVersion) :=
    mem_map_of_mem (mem_filter.mpr ⟨mem, by simp [ofLane]⟩)
  cases highest : ((db.rollouts.rows.filter fun r =>
      r.lane == .blocklist).map (·.targetVersion)).max? with
  | none =>
    rw [List.max?_eq_none_iff] at highest
    rw [highest] at has
    cases has
  | some v =>
    obtain ⟨had, gt⟩ := List.max?_eq_some_iff.mp highest
    obtain ⟨top, io, eq⟩ := mem_map.mp had
    obtain ⟨topMember, l⟩ := mem_filter.mp io
    exact ⟨gt _ has, top, topMember, beq_iff_eq.mp l, eq⟩

theorem blocklistVersion_eq_zero (none : ∀ r ∈ db.rollouts.rows, r.lane ≠ .blocklist) :
    db.blocklistVersion = 0 := by
  have empty : (db.rollouts.rows.filter fun r => r.lane == .blocklist) = [] := by
    rw [filter_eq_nil_iff]
    intro r mem
    simpa using none r mem
  rw [Database.blocklistVersion, empty]
  rfl

end

structure Frame (lane : Lane) (before after : Database) : Prop where
  rows : ∀ row, row.lane = lane → (row ∈ after.rollouts.rows ↔ row ∈ before.rollouts.rows)
  places : SamePlaces before after
  beats : after.heartbeats = before.heartbeats

namespace Frame

variable {lane : Lane} {was middle new : Database}

theorem refl (db : Database) : Frame lane db db :=
  ⟨fun _ _ => Iff.rfl, rfl, rfl⟩

theorem trans (fst : Frame lane was middle) (snd : Frame lane middle new) : Frame lane was new where
  rows row same := (snd.rows row same).trans (fst.rows row same)
  places := Eq.trans snd.places fst.places
  beats := snd.beats.trans fst.beats

theorem current_eq (rest : Frame lane was new) : new.current lane = was.current lane := by
  ext r
  rw [current_eq_some_iff, current_eq_some_iff]
  constructor
  · rintro ⟨mem, eq, most⟩
    exact ⟨(rest.rows r eq).mp mem, eq, fun alt had ls =>
      most alt ((rest.rows alt ls).mpr had) ls⟩
  · rintro ⟨mem, eq, most⟩
    exact ⟨(rest.rows r eq).mpr mem, eq, fun alt had ls =>
      most alt ((rest.rows alt ls).mp had) ls⟩

theorem activeCurrent_eq (rest : Frame lane was new) :
    new.activeCurrent lane = was.activeCurrent lane := by
  unfold Database.activeCurrent
  rw [rest.current_eq]

theorem find_eq (rest : Frame lane was new) {r : Rollout}
    (mem : r ∈ was.rollouts.rows) (eq : r.lane = lane) :
    new.rollouts.find r.id = was.rollouts.find r.id := by
  rw [find_eq_some_iff.mpr ⟨mem, rfl⟩]
  exact find_eq_some_iff.mpr ⟨(rest.rows r eq).mpr mem, rfl⟩

theorem readings_eq (rest : Frame lane was new) (r : Rollout) (deaf : String → Bool) :
    new.readings r deaf = was.readings r deaf := by
  have byPlace : ∀ db : Database, db.readings r deaf =
      ((db.hosts.rows.map Host.place).filter fun spot =>
        spot.1 == r.id && spot.2.2 == r.activeWave).map fun spot =>
          (spot.2.1, db.read deaf spot.2.1) := by
    intro db
    unfold Database.readings Database.waveHosts
    rw [filter_map, map_map]
    rfl
  have sameRead : ∀ ip, new.read deaf ip =
      was.read deaf ip := by
    intro ip
    unfold Database.read
    rw [rest.beats]
  rw [byPlace, byPlace, rest.places]
  simp only [sameRead]

end Frame

section

variable {lane : Lane} {r : Rollout}

theorem frame_of_replaces {was new : Database} {next : Rollout}
    (mem : r ∈ was.rollouts.rows) (alt : r.lane ≠ lane)
    (swap : Replaces r next was new) (nextLane : next.lane = r.lane)
    (puts : SamePlaces was new) (bs : new.heartbeats = was.heartbeats) :
    Frame lane was new := by
  refine ⟨?_, puts, bs⟩
  intro row eq
  rw [swap row]
  constructor
  · rintro (⟨had, _⟩ | rfl)
    · exact had
    · exact absurd (nextLane.symm.trans eq) alt
  · intro had
    refine .inl ⟨had, ?_⟩
    intro idEq
    have rs := was.rollouts.row_eq_of_key_eq had mem idEq
    subst rs
    exact alt eq

theorem evaluateLane_heartbeats (db : Database) (lane : Lane) (now : Int) (deaf : String → Bool) :
    (db.evaluateLane lane now deaf).2.heartbeats = db.heartbeats := by
  unfold Database.evaluateLane
  split
  · rfl
  · split
    · rfl
    · unfold Database.advance
      dsimp only
      split <;> rfl
    · rfl

theorem evaluateLane_frame (db : Database) (ne : alt ≠ lane) (now : Int) (deaf : String → Bool) :
    Frame lane db (db.evaluateLane alt now deaf).2 := by
  have bs := evaluateLane_heartbeats db alt now deaf
  cases evaluateLane_effect db alt now deaf with
  | kept rs puts => exact ⟨fun _ _ => by rw [rs], puts, bs⟩
  | started cfg r caused => cases caused
  | stopped r caused live swap puts =>
    obtain ⟨hit, _⟩ := activeCurrent_eq_some_iff.mp live
    obtain ⟨mem, _, _⟩ := current_eq_some_iff.mp hit
    rcases caused with caused | ⟨_, _, caused, _⟩
    · cases caused
    · cases caused
      exact frame_of_replaces mem ne swap rfl puts bs
  | advanced r caused live judged move swap puts =>
    obtain ⟨hit, _⟩ := activeCurrent_eq_some_iff.mp live
    obtain ⟨mem, _, _⟩ := current_eq_some_iff.mp hit
    cases caused
    rcases move with ⟨_, rfl⟩ | ⟨_, rfl⟩ <;>
      exact frame_of_replaces mem ne swap rfl puts bs

theorem sweep_frame (now : Lane → Int) (deaf : Lane → String → Bool)
    {swept : List Lane} (gone : lane ∉ swept) (db : Database) :
    Frame lane db (swept.foldl (fun db lane =>
      (db.evaluateLane lane (now lane) (deaf lane)).2) db) := by
  induction swept generalizing db with
  | nil => exact .refl db
  | cons alt rest ih =>
    rw [mem_cons, not_or] at gone
    obtain ⟨ne, gone⟩ := gone
    exact (evaluateLane_frame db (Ne.symm ne) _ _).trans (ih gone _)

theorem evaluate_frame (db : Database) (lane : Lane) (now : Lane → Int)
    (blind : Lane → String → Bool) : ∃ mid, Frame lane db mid ∧ Frame lane
        (mid.evaluateLane lane (now lane) (blind lane)).2 (db.evaluate now blind) := by
  have split : ∃ fst rest, lanes = fst ++ lane :: rest ∧ lane ∉ fst ∧ lane ∉ rest := by
    cases lane with
    | policy => exact ⟨[], [.blocklist, .nebula, .pilot], by decide⟩
    | blocklist => exact ⟨[.policy], [.nebula, .pilot], by decide⟩
    | nebula => exact ⟨[.policy, .blocklist], [.pilot], by decide⟩
    | pilot => exact ⟨[.policy, .blocklist, .nebula], [], by decide⟩
  obtain ⟨fst, rest, ord, notFirst, notRest⟩ := split
  unfold Database.evaluate
  rw [ord, foldl_append, foldl_cons]
  exact ⟨_, sweep_frame now blind notFirst db, sweep_frame now blind notRest _⟩

end

end Harbor.Rollouts
