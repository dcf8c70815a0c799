import Harbor.Fleet.Reclaim

/-!
# The reaper spares hosts that report

A pass selects rows by address and marks devices by name, and it acts on rows
it has read before.  No reporting host is reaped as long as the devices it
loads report from one address each and stay silent until it is done with them.
-/

namespace Harbor.Fleet

open Library Ipam List

def Target.window (target : Target) (cfg : Config) : Int :=
  match target.reason with
  | .certExpired => target.candidate.grace cfg
  | .silent => cfg.silentAfter

def Pass.pending : Pass → List Candidate
  | .select cands => cands
  | .reap _ _ target rest => target.candidate :: rest.map Target.candidate
  | _ => []

def Pass.judged : Pass → Option (Int × List Target)
  | .reap _ now target rest => some (now, target :: rest)
  | _ => none

def Overdue (config : Config) (state : State) (target : Target) (name : String) : Prop :=
  ∀ beat ∈ state.db.heartbeats.rows, beat.deviceName = name →
    beat.lastSeen < state.clock - target.window config.withDefaults

/-- A device that is loaded reports from one address only, and no heartbeat
arrives at the address or under the name of a host the pass is not done
with. -/
def Undisturbed (config : Config) (state : State) (event : Event) : Prop :=
  (match state.pass, event with
    | .load, .passStatement _ =>
      ∀ c ∈ loadCandidates config.withDefaults state.clock state.db,
      ∀ beat ∈ state.db.heartbeats.rows, beat.deviceName = c.deviceName →
        beat.overlayIP = c.overlayIP
    | _, _ => True) ∧
  match state.records event with
  | some beat => ∀ c ∈ state.pass.pending,
      beat.overlayIP ≠ c.overlayIP ∧ beat.deviceName ≠ c.deviceName
  | none => True

instance (config : Config) (state : State) : DecidablePred (Undisturbed config state) := by
  intro event
  unfold Undisturbed
  refine @instDecidableAnd _ _ ?_ ?_
  · generalize state.pass = pass
    cases pass with
    | load =>
      cases event with
      | passStatement fault =>
        exact inferInstanceAs (Decidable (∀ c ∈ _, ∀ beat ∈ _, _ → _ = _))
      | _ => exact instDecidableTrue
    | _ => exact instDecidableTrue
  · exact
      match state.records event with
      | some _ => inferInstanceAs (Decidable (∀ c ∈ _, _ ≠ _ ∧ _ ≠ _))
      | none => instDecidableTrue

def Unchanged (db : Database) (c : Candidate) : Prop :=
  ∀ beat ∈ db.heartbeats.rows, beat.overlayIP = c.overlayIP ∨ beat.deviceName = c.deviceName →
      beat.deviceName = c.deviceName ∧ beat.lastSeen = c.lastSeen

structure Current (config : Config) (state : State) : Prop where
  unchanged : ∀ c ∈ state.pass.pending, Unchanged state.db c
  due : ∀ now judged, state.pass.judged = some (now, judged) →
    now ≤ state.clock ∧ ∀ target ∈ judged, target.candidate.lastSeen <
        now - target.window config.withDefaults

section

variable {cfg : Config} {clock now : Int} {db fin : Database}
  {fault : Fault} {pass next : Pass}

theorem reason_overdue {tgt : Target} (said : tgt.candidate.reason now cfg = some tgt.reason) :
    tgt.candidate.lastSeen < now - tgt.window cfg := by
  unfold Candidate.reason at said
  split_ifs at said with expired mute
  · simp only [Target.window, ← Option.some.inj said]
    exact expired.2.2
  · simp only [Target.window, ← Option.some.inj said]
    exact mute.2.2.2

theorem Pass.pending_next : (Pass.next now rest).pending = rest.map Target.candidate := by
  cases rest with
  | nil => rfl
  | cons => rfl

theorem Pass.judged_next {rest said : List Target}
    (seen : (Pass.next now rest).judged = some (t, said)) : t = now ∧ said = rest := by
  cases rest with
  | nil => cases seen
  | cons =>
    cases seen
    exact ⟨rfl, rfl⟩

theorem advancePass_pending (ran : advancePass cfg clock db fault pass = some (fin, next))
    {c : Candidate} (mem : c ∈ next.pending) : c ∈ pass.pending ∨
      pass = .load ∧ c ∈ loadCandidates cfg.withDefaults clock db := by
  cases advancePass_passes ran with
  | ended => cases mem
  | loaded => exact .inr ⟨rfl, mem⟩
  | selected cs =>
    rw [Pass.pending_next] at mem
    obtain ⟨tgt, io, rfl⟩ := mem_map.mp mem
    exact .inl (target_reason io).1
  | released | forgot => exact .inl mem
  | stamped =>
    rw [Pass.pending_next] at mem
    exact .inl (mem_cons_of_mem _ mem)

theorem advancePass_judged (ran : advancePass cfg clock db fault pass = some (fin, next))
    {t : Int} {said : List Target} (seen : next.judged = some (t, said)) :
    (∃ old, pass.judged = some (t, old) ∧ ∀ tgt ∈ said, tgt ∈ old) ∨
      t = clock ∧ ∀ tgt ∈ said, tgt.candidate.lastSeen < clock - tgt.window cfg.withDefaults := by
  cases advancePass_passes ran with
  | ended | loaded => cases seen
  | selected cs =>
    obtain ⟨rfl, rfl⟩ := Pass.judged_next seen
    exact .inr ⟨rfl, fun tgt mem =>
      reason_overdue (target_reason mem).2⟩
  | released | forgot => exact .inl ⟨_, seen, fun _ mem => mem⟩
  | stamped =>
    obtain ⟨rfl, rfl⟩ := Pass.judged_next seen
    exact .inl ⟨_, rfl, fun _ mem => mem_cons_of_mem _ mem⟩

theorem advancePass_forgets (ran : advancePass cfg clock db fault pass = some (fin, next))
    (had : row ∈ db.heartbeats.rows) (gone : row ∉ fin.heartbeats.rows) :
    ∃ now tgt rest, pass = .reap .delete now tgt rest ∧
      row.overlayIP = tgt.candidate.overlayIP := by
  cases advancePass_passes ran with
  | ended | loaded | selected => exact (gone had).elim
  | released now tgt rest put | stamped now tgt rest put =>
    rcases put with rfl | rfl <;> exact (gone had).elim
  | forgot now tgt rest put =>
    refine ⟨now, tgt, rest, rfl, ?_⟩
    rcases put with rfl | rfl
    · exact (gone had).elim
    · by_contra ne
      apply gone
      exact mem_filter.mpr ⟨had, by simpa using ne⟩

theorem advancePass_stamps (ran : advancePass cfg clock db fault pass = some (fin, next))
    (had : row ∈ db.devices.rows) (edit : row ∉ fin.devices.rows) :
    ∃ now tgt rest, pass = .reap .stamp now tgt rest ∧ row.name = tgt.candidate.deviceName := by
  cases advancePass_passes ran with
  | ended | loaded | selected => exact (edit had).elim
  | released now tgt rest put | forgot now tgt rest put =>
    rcases put with rfl | rfl <;> exact (edit had).elim
  | stamped now tgt rest put =>
    refine ⟨now, tgt, rest, rfl, ?_⟩
    rcases put with rfl | rfl
    · exact (edit had).elim
    · by_contra alt
      apply edit
      simp only [Database.stamp]
      refine Table.mem_update.mpr ⟨row, had, ?_⟩
      simp [alt]

end

section

variable {config : Config} {state after : State} {event : Event}

theorem Unchanged.step {c : Candidate} (stay : Unchanged state.db c)
    (did : config.step state event = some after) (calm : ∀ beat, state.records event = some beat →
      beat.overlayIP ≠ c.overlayIP ∧ beat.deviceName ≠ c.deviceName) : Unchanged after.db c := by
  intro beat mem related
  rcases step_beat did mem with old | noted
  · exact stay beat old related
  · obtain ⟨ne, alt⟩ := calm beat noted
    rcases related with same | same
    · exact (ne same).elim
    · exact (alt same).elim

theorem unchanged_of_loaded {c : Candidate} (got : c ∈ loadCandidates cfg now db)
    (solo : ∀ beat ∈ db.heartbeats.rows, beat.deviceName = c.deviceName →
      beat.overlayIP = c.overlayIP) : Unchanged db c := by
  obtain ⟨src, had, ipEq, sameName, sameSeen⟩ := candidate_beat got
  intro beat mem related
  have spot : beat.overlayIP = c.overlayIP := by
    rcases related with same | same
    · exact same
    · exact solo beat mem same
  have same : beat = src := db.heartbeats.row_eq_of_key_eq mem had (spot.trans ipEq)
  rw [same]
  exact ⟨sameName.symm, sameSeen.symm⟩

theorem Current.step (cur : Current config state) (undisturbed : Undisturbed config state event)
    (hop : config.step state event = some after) :
    Current config after := by
  have quiet : ∀ c ∈ state.pass.pending, Unchanged after.db c := by
    intro c mem
    refine (cur.unchanged c mem).step hop ?_
    intro b noted
    have apart := undisturbed.2
    rw [noted] at apart
    exact apart c mem
  have late : ∀ now said, state.pass.judged = some (now, said) →
      now ≤ after.clock ∧ ∀ tgt ∈ said, tgt.candidate.lastSeen <
        now - tgt.window config.withDefaults := by
    intro now said known
    obtain ⟨good, due⟩ := cur.due now said known
    exact ⟨good.trans (step_clock hop), due⟩
  rcases step_pass hop with eq | started | ended | ⟨f, rfl⟩
  · rw [← eq] at quiet late
    exact ⟨quiet, late⟩
  · refine ⟨?_, ?_⟩
    · rw [started]
      intro c mem
      cases mem
    · rw [started]
      intro now said known
      cases known
  · refine ⟨?_, ?_⟩
    · rw [ended]
      intro c mem
      cases mem
    · rw [ended]
      intro now said known
      cases known
  · obtain ⟨_, _, t, ran⟩ := passStatement_move hop
    refine ⟨?_, ?_⟩
    · intro c mem
      rcases advancePass_pending ran mem with idle | ⟨pos, loaded⟩
      · exact quiet c idle
      · have alone := undisturbed.1
        rw [pos] at alone
        exact (unchanged_of_loaded loaded (alone c loaded)).step hop (by intro b noted; cases noted)
    · intro now said known
      rcases advancePass_judged ran known with ⟨old, was, kept⟩ | ⟨rfl, due⟩
      · obtain ⟨good, due⟩ := late now old was
        exact ⟨good, fun tgt mem => due tgt (kept tgt mem)⟩
      · exact ⟨le_of_eq t.symm, due⟩

theorem Current.overdue (cur : Current config state) (pos : state.pass = .reap lvl now tgt rest) :
    Overdue config state tgt tgt.candidate.deviceName := by
  intro b mem same
  have wait : tgt.candidate ∈ state.pass.pending := by
    rw [pos]
    exact mem_cons_self
  obtain ⟨_, seen⟩ := cur.unchanged _ wait b mem (.inr same)
  obtain ⟨good, due⟩ := cur.due now (tgt :: rest) (by rw [pos]; rfl)
  have mute := due tgt mem_cons_self
  omega

variable {db : Database} {clock : Int} {fault : Fault}

/-- In every undisturbed run from any database, when a pass deletes a heartbeat
row or stamps a device, no heartbeat row of that device is in the window of the
trigger. -/
theorem reaper_spares_reporting
    (reached : Reaches config.step (Undisturbed config) (.quiet db clock) state)
    (taken : config.step state (.passStatement fault) = some after) :
    (∀ row ∈ state.db.heartbeats.rows, row ∉ after.db.heartbeats.rows →
      ∃ now target rest, state.pass = .reap .delete now target rest ∧
        Overdue config state target row.deviceName) ∧
    ∀ row ∈ state.db.devices.rows, row ∉ after.db.devices.rows →
      ∃ now target rest, state.pass = .reap .stamp now target rest ∧
        Overdue config state target row.name := by
  have current : Current config state := by
    refine reached.invariant (Current config) ?_ ?_
    · refine ⟨?_, ?_⟩
      · intro c member
        cases member
      · intro now judged known
        cases known
    · intro before next event kept undisturbed moved
      exact kept.step undisturbed moved
  obtain ⟨_, _, _, advanced⟩ := passStatement_move taken
  refine ⟨?_, ?_⟩
  · intro row present removed
    obtain ⟨now, target, rest, position, located⟩ :=
      advancePass_forgets advanced present removed
    refine ⟨now, target, rest, position, ?_⟩
    have pending : target.candidate ∈ state.pass.pending := by
      rw [position]
      exact List.mem_cons_self
    rw [(current.unchanged _ pending row present (.inl located)).1]
    exact current.overdue position
  · intro row present changed
    obtain ⟨now, target, rest, position, named⟩ :=
      advancePass_stamps advanced present changed
    refine ⟨now, target, rest, position, ?_⟩
    rw [named]
    exact current.overdue position

end

namespace Example

def forgotten : State :=
  run (silence ++ approach ++ List.replicate 2 (.passStatement .ok))

def moved : List Event :=
  enroll 0 "alice" 10 ++ heartbeat 1 10 ++ enroll 2 "alice" 11 ++
    [.tick (8 * 24 * hour)] ++ heartbeat 3 11 ++ approach ++ [.passStatement .ok]

end Example

open Example

theorem reaper_spares_reporting_silent_host : Example.forgotten.db.heartbeats.rows = [] ∧
      ∃ row ∈ reclaimed.db.heartbeats.rows, ∃ now target rest,
        reclaimed.pass = .reap .delete now target rest ∧
          Overdue config reclaimed target row.deviceName := by
  have reached : Reaches config.step (Undisturbed config)
      start reclaimed :=
    reaches_getD (silence ++ approach ++ [.passStatement .ok]) start (by decide)
  have taken : config.step reclaimed (.passStatement .ok) = some Example.forgotten := by
    rfl
  have row : (⟨10, "alice", 1, 0⟩ : Heartbeat) ∈
      reclaimed.db.heartbeats.rows := by
    decide
  have forgotten : Example.forgotten.db.heartbeats.rows = [] := by
    decide
  refine ⟨forgotten, _, row, ?_⟩
  refine (reaper_spares_reporting reached taken).1 _ row ?_
  rw [forgotten]
  exact List.not_mem_nil

/-- A reporting device loses the heartbeat row at its former address, and is
stamped next. -/
theorem moved_device_reaped :
    ¬ ∀ (config : Config) (db : Database) (clock : Int) (state after : State)
        (fault : Fault), Reachable config.step (.quiet db clock) state →
      config.step state (.passStatement fault) = some after →
      (∀ row ∈ state.db.heartbeats.rows, row ∉ after.db.heartbeats.rows →
        ∃ now target rest, state.pass = .reap .delete now target rest ∧
          Overdue config state target row.deviceName) ∧
      ∀ row ∈ state.db.devices.rows, row ∉ after.db.devices.rows →
        ∃ now target rest, state.pass = .reap .stamp now target rest ∧
          Overdue config state target row.name := by
  intro claim
  let state := run moved
  let after := run (moved ++ [.passStatement .ok])
  have reached : Reachable Example.config.step start state :=
    reachable_getD moved start (by decide)
  have taken : Example.config.step state (.passStatement .ok) =
      some after := by
    rfl
  have rows : state.db.heartbeats.rows =
      [⟨10, "alice", 1, 0⟩, ⟨11, "alice", 1, 8 * 24 * hour⟩] := by
    decide
  have kept : after.db.heartbeats.rows = [⟨11, "alice", 1, 8 * 24 * hour⟩] := by
    decide
  obtain ⟨now, target, rest, position, overdue⟩ :=
    (claim _ _ _ state after .ok reached taken).1 ⟨10, "alice", 1, 0⟩
      (by rw [rows]; exact List.mem_cons_self) (by rw [kept]; decide)
  have fresh := overdue ⟨11, "alice", 1, 8 * 24 * hour⟩ (by rw [rows]; decide) rfl
  have reaping : state.pass.judged.map (fun judged =>
      judged.2.map fun target => target.window Example.config.withDefaults) =
      some [7 * 24 * hour] := by
    decide
  rw [position] at reaping
  simp only [Pass.judged, Option.map_some, List.map_cons, Option.some.injEq,
    List.cons.injEq] at reaping
  rw [reaping.1] at fresh
  revert fresh
  decide

end Harbor.Fleet
