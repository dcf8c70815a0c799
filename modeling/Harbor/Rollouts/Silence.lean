import Harbor.Rollouts.Effects

/-!
# Hosts that have gone silent

A host of the active wave that has not been heard from is meant to be left out
of the judgement of the wave.  The switch in `evaluateLane` looks at the health
of the last heartbeat before it looks at its age, so a silent host is left out
only when that heartbeat was not a bad one.
-/

namespace Harbor.Rollouts

open Library List

variable {r : Rollout} {now : Int}

def Rollout.Good (r : Rollout) (now : Int) : Reading → Prop
  | .found beat =>
    healthBad beat.health = false ∧ appliedFor beat r.lane = r.targetVersion ∧
      now - r.missingAfter ≤ beat.lastSeen
  | _ => False

def Rollout.Silent (r : Rollout) (now : Int) : Reading → Prop
  | .found beat => beat.lastSeen < now - r.missingAfter
  | .absent => True
  | .failed => False

def Bad : Reading → Prop
  | .found beat => healthBad beat.health = true
  | _ => False

instance (r : Rollout) (now : Int) : DecidablePred (r.Good now)
  | .found _ => inferInstanceAs (Decidable (_ ∧ _))
  | .absent | .failed => inferInstanceAs (Decidable False)

instance (r : Rollout) (now : Int) : DecidablePred (r.Silent now)
  | .found _ => inferInstanceAs (Decidable (_ < _))
  | .absent => inferInstanceAs (Decidable True)
  | .failed => inferInstanceAs (Decidable False)

variable {read : Reading}

theorem tally_eq_failed_iff : r.tally now read = .failed ↔ Bad read := by
  cases read with
  | found b =>
    simp only [Rollout.tally, Bad]
    split
    · simp_all
    · split
      · simp_all
      · split <;> simp_all
  | absent | failed =>
    unfold Rollout.tally Bad
    split_ifs <;> simp

theorem tally_eq_converged_iff : r.tally now read = .converged ↔ r.Good now read := by
  cases read with
  | found b =>
    simp only [Rollout.tally, Rollout.Good]
    split
    · simp_all
    · split
      · simp_all
      · split <;> simp_all
  | absent | failed =>
    unfold Rollout.tally Rollout.Good
    split_ifs <;> simp

theorem tally_of_silent (mute : r.Silent now read) (fine : ¬ Bad read) : r.tally now read =
      if now - r.waveStartedAt < r.missingAfter then .applying
      else .missing := by
  cases read with
  | failed => exact mute.elim
  | absent =>
    unfold Rollout.tally Rollout.isMissing
    split_ifs <;> simp_all
  | found b =>
    have old : ¬ now - r.missingAfter ≤ b.lastSeen := by
      exact not_le.mpr mute
    have healthy : healthBad b.health = false := by
      simpa [Bad] using fine
    have stale : b.lastSeen < now - r.missingAfter := mute
    unfold Rollout.tally Rollout.isMissing
    split_ifs <;> simp_all

section

variable {reads : List (String × Reading)}

def Rollout.GoodOrSilent (r : Rollout) (now : Int) (readings : List (String × Reading)) : Prop :=
  ∀ entry ∈ readings, r.Good now entry.2 ∨ r.Silent now entry.2

theorem rollback_of_bad (bad : ∃ entry ∈ reads, Bad entry.2) :
    ∃ trigger, r.judge now reads = .rollback trigger := by
  obtain ⟨entry, mem, bad⟩ := bad
  have sum : 0 < (reads.map fun read =>
      r.tally now read.2).count .failed := by
    rw [count_pos_iff, mem_map]
    exact ⟨entry, mem, tally_eq_failed_iff.mpr bad⟩
  unfold Rollout.judge
  simp only [if_pos sum]
  exact ⟨_, rfl⟩

theorem count_failed_eq_zero (fine : ∀ entry ∈ reads, ¬ Bad entry.2) :
    (reads.map fun read => r.tally now read.2).count .failed = 0 := by
  rw [count_eq_zero, mem_map]
  rintro ⟨entry, mem, failed⟩
  exact fine entry mem (tally_eq_failed_iff.mp failed)

theorem count_converged_add_missing (cov : r.GoodOrSilent now reads)
    (fine : ∀ entry ∈ reads, ¬ Bad entry.2) (due : ¬ now - r.waveStartedAt < r.missingAfter) :
    (reads.map fun read => r.tally now read.2).count .converged +
      (reads.map fun read => r.tally now read.2).count .missing =
      reads.length := by
  induction reads with
  | nil => rfl
  | cons entry rest ih =>
    have late := ih (fun alt mem => cov alt (mem_cons_of_mem _ mem))
      (fun alt mem => fine alt (mem_cons_of_mem _ mem))
    have kind : r.tally now entry.2 = .converged ∨ r.tally now entry.2 = .missing := by
      rcases cov entry mem_cons_self with good | silent
      · exact .inl (tally_eq_converged_iff.mpr good)
      · right
        rw [tally_of_silent silent (fine entry mem_cons_self), if_neg due]
    simp only [map_cons, count_cons, length_cons]
    rcases kind with same | same <;> rw [same] <;> simp <;> omega

theorem judge_ne_rollback (window : r.missingAfter ≤ r.observeWindow)
    (cov : r.GoodOrSilent now reads) (validated : ∃ entry ∈ reads, r.Good now entry.2)
    (fine : ∀ entry ∈ reads, ¬ Bad entry.2) (trigger : String) :
    r.judge now reads ≠ .rollback trigger := by
  obtain ⟨entry, mem, good⟩ := validated
  have converged : 0 < (reads.map fun read =>
      r.tally now read.2).count .converged := by
    rw [count_pos_iff, mem_map]
    exact ⟨entry, mem, tally_eq_converged_iff.mpr good⟩
  unfold Rollout.judge
  simp only [count_failed_eq_zero fine, lt_irrefl, if_false]
  rw [if_neg (by omega)]
  by_cases due : now - r.waveStartedAt < r.missingAfter
  · have soon : ¬ r.observeWindow ≤ now - r.waveStartedAt := by omega
    simp only [if_neg soon]
    split_ifs <;> simp
  · have sum := count_converged_add_missing cov fine due
    rw [if_pos]
    · nofun
    · split <;> omega

end

section

variable {db : Database} {lane : Lane}

theorem find_of_replaces {new : Database} {next : Rollout}
    (swap : Replaces r next db new) (eq : next.id = r.id) : new.rollouts.find r.id = some next :=
  Table.find_eq_some_iff.mpr ⟨(swap next).mpr (.inr rfl), eq⟩

theorem mem_readings {h : Host} (mem : h ∈ db.waveHosts r r.activeWave)
    (unreadable : String → Bool) : (h.overlayIP, db.read unreadable h.overlayIP) ∈
      db.readings r unreadable :=
  mem_map.mpr ⟨h, mem, rfl⟩

theorem evaluateLane_rolledBack_iff (on : db.activeCurrent lane = some r)
    (deaf : String → Bool) : ((db.evaluateLane lane now deaf).2.rollouts.find r.id).map
        (·.state) = some .rolledBack ↔ ∃ trigger, r.judge now (db.readings r deaf) =
        .rollback trigger := by
  obtain ⟨hit, live⟩ := activeCurrent_eq_some_iff.mp on
  obtain ⟨mem, _, _⟩ := current_eq_some_iff.mp hit
  unfold Database.evaluateLane
  rw [on]
  dsimp only
  split
  · rename_i trigger judged
    have swap : Replaces r _ db (db.rollback r now trigger) := replaces_setRollout mem rfl rfl
    rw [find_of_replaces swap rfl, judged]
    simp
  · rename_i judged
    rw [judged]
    unfold Database.advance
    dsimp only
    split <;> simp [Database.setRollout, Database.setWaveStatus,
      Table.find_eq_some_iff.mpr ⟨mem, rfl⟩]
  · rename_i judged
    rw [judged]
    simp only [Table.find_eq_some_iff.mpr ⟨mem, rfl⟩, Option.map_some,
      Option.some.injEq, reduceCtorEq, exists_false, iff_false]
    intro past
    simp [Rollout.active, past] at live

theorem evaluate_rolledBack_iff (live : db.activeCurrent lane = some r)
    (now : Lane → Int) (deaf : Lane → String → Bool) :
    ((db.evaluate now deaf).rollouts.find r.id).map (·.state) = some .rolledBack ↔
      ∃ trigger, r.judge (now lane) (db.readings r (deaf lane)) =
        .rollback trigger := by
  obtain ⟨mid, was, new⟩ := evaluate_frame db lane now deaf
  have same : mid.activeCurrent lane = some r := was.activeCurrent_eq.trans live
  obtain ⟨hit, _⟩ := activeCurrent_eq_some_iff.mp same
  obtain ⟨mem, ofLane, _⟩ := current_eq_some_iff.mp hit
  obtain ⟨next, had, idEq, ls⟩ := (evaluateLane_effect mid lane (now lane) (deaf lane)).row mem
  have sameRow := new.find_eq had (ls.trans ofLane)
  rw [idEq] at sameRow
  rw [sameRow, ← was.readings_eq r]
  exact evaluateLane_rolledBack_iff same _

/-- A sweep over a wave of good and silent hosts, at least one of them good,
leaves the rollout standing exactly when no host's last heartbeat, however old,
reported bad health. -/
theorem evaluate_spares_iff (db : Database) (lane : Lane) (r : Rollout)
    (now : Lane → Int) (active : db.activeCurrent lane = some r)
    (window : r.missingAfter ≤ r.observeWindow) (validated : ∃ h ∈ db.waveHosts r r.activeWave,
      r.Good (now lane) (db.read (fun _ => false) h.overlayIP))
    (covered : ∀ h ∈ db.waveHosts r r.activeWave,
      r.Good (now lane) (db.read (fun _ => false) h.overlayIP) ∨
        r.Silent (now lane) (db.read (fun _ => false) h.overlayIP)) :
    ((db.evaluate now fun _ _ => false).rollouts.find r.id).map (·.state) ≠ some .rolledBack ↔
      ∀ h ∈ db.waveHosts r r.activeWave, ¬ Bad (db.read (fun _ => false) h.overlayIP) := by
  rw [ne_eq, evaluate_rolledBack_iff active, not_exists]
  constructor
  · intro spared h member bad
    obtain ⟨trigger, judged⟩ := rollback_of_bad ⟨_, mem_readings member fun _ => false, bad⟩
    exact spared trigger judged
  · intro fine trigger
    obtain ⟨h, member, good⟩ := validated
    refine judge_ne_rollback window ?_ ⟨_, mem_readings member _, good⟩ ?_ trigger
    · intro entry listed
      obtain ⟨other, present, rfl⟩ := List.mem_map.mp listed
      exact covered other present
    · intro entry listed
      obtain ⟨other, present, rfl⟩ := List.mem_map.mp listed
      exact fine other present

end

namespace Example

def pair : StartConfig where
  targetVersion := 2
  prevVersion := 1
  hosts := ["10.0.0.1", "10.0.0.2"]
  canarySize := 2
  observe := 60
  missingAfter := 30

def lastHeard (health : String) : Database :=
  (runEvents step Database.empty [.start pair 0, .heartbeat
        { overlayIP := "10.0.0.2"
          appliedBundleVersion := 1
          health := health
          lastSeen := 1 }, .heartbeat
        { overlayIP := "10.0.0.1"
          appliedBundleVersion := 2
          health := "ok"
          lastSeen := 40 }]).getD Database.empty

end Example

open Example

theorem evaluate_spares_silent : ((((lastHeard "ok").evaluate (fun _ => 40)
      fun _ _ => false).rollouts.find 1).map (·.state) ≠ some .rolledBack ↔
        ∀ h ∈ (lastHeard "ok").waveHosts (pair.rollout 1 0) 0,
          ¬ Bad ((lastHeard "ok").read (fun _ => false) h.overlayIP)) ∧
      ((((lastHeard "ok").evaluate (fun _ => 40)
        fun _ _ => false).rollouts.find 1).map (·.state) = some .completed) := by
  refine ⟨?_, by decide⟩
  exact evaluate_spares_iff (lastHeard "ok") .policy
    (pair.rollout 1 0) (fun _ => 40) (by decide) (by decide) (by decide) (by decide)

/-- The second host has been silent for longer than the window when the sweep
comes, but its last heartbeat fails the rollout. -/
theorem silent_host_fails_rollout : (lastHeard "unhealthy").activeCurrent .policy =
        some (pair.rollout 1 0) ∧ pair.missingAfter ≤ pair.observe ∧
      (∃ h ∈ (lastHeard "unhealthy").waveHosts (pair.rollout 1 0) 0,
          (pair.rollout 1 0).Good 40 ((lastHeard "unhealthy").read (fun _ => false)
              h.overlayIP)) ∧ (∀ h ∈ (lastHeard "unhealthy").waveHosts
        (pair.rollout 1 0) 0, (pair.rollout 1 0).Good 40
            ((lastHeard "unhealthy").read (fun _ => false) h.overlayIP) ∨
          (pair.rollout 1 0).Silent 40
            ((lastHeard "unhealthy").read (fun _ => false) h.overlayIP)) ∧
      (((lastHeard "unhealthy").evaluate (fun _ => 40)
        fun _ _ => false).rollouts.find 1).map (·.state) = some .rolledBack := by
  decide

end Harbor.Rollouts
