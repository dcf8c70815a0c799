import Harbor.Fleet.Reclaim

/-!
# A heartbeat keeps its address

A heartbeat takes the lease of its host's address again when it finds none.
The owner lookup does not look at the state of the row it finds, so a row in
quarantine counts as a lease, although the next purge after its window frees
the address.
-/

namespace Harbor.Fleet

open Library Ipam List

def Leased (db : Database) (ip : Addr) : Prop :=
  ∃ row ∈ db.allocations.rows, row.ip = ip ∧ row.state = .allocated

def Unquarantined (db : Database) : Prop :=
  ∀ row ∈ db.allocations.rows, row.state = .allocated

def Keeps (ip : Addr) (state : State) (event : Event) : Prop :=
  state.releases event ≠ some ip

instance (ip : Addr) (state : State) : DecidablePred (Keeps ip state) := by
  intro event
  unfold Keeps
  infer_instance

section

variable {config : Config} {state after : State} {event : Event}

theorem Unquarantined.step (free : Unquarantined state.db)
    (direct : config.quarantineTTL ≤ 0) (ran : config.step state event = some after) :
    Unquarantined after.db := by
  have move := step_allocations ran
  unfold Unquarantined
  generalize after.db.allocations = allocs at move
  intro row mem
  cases move with
  | same => exact free row mem
  | purged => exact free row (mem_filter.mp mem).1
  | released =>
    simp only [Database.release, if_pos direct] at mem
    exact free row (mem_filter.mp mem).1
  | inserted pos ins =>
    rw [(Table.insert?_eq_some ins).1] at mem
    rcases mem_append.mp mem with old | last
    · exact free row old
    · rw [mem_singleton] at last
      rw [last]
      rfl

theorem Leased.step (leased : Leased state.db ip) (soon : config.quarantineTTL ≤ 0)
    (kept : Keeps ip state event) (hop : config.step state event = some after) :
    Leased after.db ip := by
  obtain ⟨row, had, spot, allocated⟩ := leased
  have moved := step_allocations hop
  unfold Leased
  generalize after.db.allocations = allocations at moved
  refine ⟨row, ?_, spot, allocated⟩
  cases moved with
  | same => exact had
  | purged => exact mem_filter.mpr ⟨had, by simp [allocated]⟩
  | @released o pos =>
    simp only [Database.release, if_pos soon]
    have apart : row.ip ≠ o := by
      rintro rfl
      exact kept (spot ▸ pos)
    exact mem_filter.mpr ⟨had, by simpa using apart⟩
  | inserted pos ins =>
    rw [(Table.insert?_eq_some ins).1]
    exact mem_append_left _ had

theorem Leased.no_insert (lent : Leased state.db ip)
    (immediate : config.quarantineTTL ≤ 0) (ran : config.step state event = some after) :
    ∀ row ∈ after.db.allocations.rows, row.ip = ip → row ∈ state.db.allocations.rows := by
  obtain ⟨held, had, located, _⟩ := lent
  have move := step_allocations ran
  generalize after.db.allocations = allocs at move
  intro row mem eq
  cases move with
  | same => exact mem
  | purged => exact (mem_filter.mp mem).1
  | released =>
    simp only [Database.release, if_pos immediate] at mem
    exact (mem_filter.mp mem).1
  | @inserted ran _ id _ pos ins =>
    obtain ⟨rs, gone⟩ := Table.insert?_eq_some ins
    rw [rs] at mem
    rcases mem_append.mp mem with old | last
    · exact old
    · rw [mem_singleton] at last
      have clash : held.ip = (leaseRow state.clock ran id).ip := by
        rw [located, ← eq, last]
      exact (Table.find_eq_none_iff.mp gone held had clash).elim

theorem reasserted_row (b : config.step state (.statement me io) = some after)
    (reasserted : after.calls me = .beatRecord dev exp true) :
    ∃ row ∈ after.db.allocations.rows, row.ip = dev.overlayIP := by
  simp only [Config.step] at b
  obtain ⟨⟨db, next⟩, ran, rfl⟩ := Option.map_eq_some_iff.mp b
  simp only [Function.update_self] at reasserted
  subst next
  generalize state.calls me = c at ran
  cases (advance_move ran).2 with
  | owned _ _ row | leased _ _ _ row => exact row

variable {db : Database} {clock : Int} {before finish : State} {me : Nat}
  {io : Io} {dev : Issued} {certNotAfter : Int}

/-- Without quarantine, once a heartbeat has found or made the lease of its
host's address no call is given that address until it is released. -/
theorem address_held_after_heartbeat
    (immediate : config.quarantineTTL ≤ 0) (unquarantined : Unquarantined db)
    (first : Reachable config.step (.quiet db clock) before)
    (beat : config.step before (.statement me io) = some state)
    (reasserted : state.calls me = .beatRecord dev certNotAfter true)
    (own : LeasedTo state.db dev.overlayIP dev.deviceName)
    (rest : Reaches config.step (Keeps dev.overlayIP) state finish)
    (taken : config.step finish event = some after) :
    ∀ row ∈ after.db.allocations.rows, row.ip = dev.overlayIP → row ∈ finish.db.allocations.rows ∧
        after.db.owner row = some dev.deviceName := by
  have allocated : Unquarantined state.db := by
    refine Unquarantined.step ?_ immediate beat
    refine first.invariant (fun state => Unquarantined state.db) unquarantined ?_
    intro earlier later step quiet _ moved
    exact quiet.step immediate moved
  have leased : Leased state.db dev.overlayIP := by
    obtain ⟨row, present, located⟩ := reasserted_row beat reasserted
    exact ⟨row, present, located, allocated row present⟩
  have held := rest.invariant (fun state => Leased state.db dev.overlayIP ∧
      LeasedTo state.db dev.overlayIP dev.deviceName) ⟨leased, own⟩ (by
      rintro earlier later step ⟨leased, own⟩ quiet moved
      refine ⟨leased.step immediate quiet moved, ?_⟩
      intro row member located
      have old := leased.no_insert immediate moved row member located
      exact (step_keepsNames moved).owner (own row old located))
  intro row member located
  have old := held.1.no_insert immediate taken row member located
  exact ⟨old, (step_keepsNames taken).owner (held.2 row old located)⟩

end

namespace Example

def returning : List Event :=
  silence ++ approach ++ [.passStatement .ok] ++ .request 2 (.heartbeat 10 1) :: statements 2 4 10

def back : State :=
  run (returning ++ statements 2 1 10)

def joining : List Event :=
  .request 3 (.enroll { name := "bob" }) :: statements 3 3 11

def quarantining : Config :=
  { config with quarantineTTL := 10 }

def quarantined : List Event :=
  silence ++ approach ++ [.passStatement .ok] ++ .request 2 (.heartbeat 10 1) :: statements 2 1 10

def taking : List Event :=
  .tick (8 * 24 * hour + 10) :: .request 3 (.enroll { name := "bob" }) :: statements 3 3 10

end Example

open Example

theorem address_held_after_heartbeat_returning_host : ∃ after, config.step
        (run (returning ++ statements 2 1 10 ++ joining)) (.statement 3 { ip := 11 }) = some after ∧
      (∃ row ∈ after.db.allocations.rows, row.ip = 10) ∧
      ∀ row ∈ after.db.allocations.rows, row.ip = 10 → after.db.owner row = some "alice" := by
  let finish := run (returning ++ statements 2 1 10 ++ joining)
  let after := run (returning ++ statements 2 1 10 ++ joining ++ [.statement 3 { ip := 11 }])
  let dev : Issued := { id := 1, overlayIP := 10, deviceName := "alice" }
  have first : Reachable config.step start (run returning) :=
    reachable_getD returning start (by decide)
  have beat : config.step (run returning) (.statement 2 { ip := 10 }) = some back := by
    rfl
  have reasserted : back.calls 2 = .beatRecord dev 1 true := by
    decide
  have own : LeasedTo back.db 10 "alice" := by
    decide
  have rest : Reaches config.step (Keeps 10) back finish :=
    reaches_getD joining start (by decide)
  have taken : config.step finish (.statement 3 { ip := 11 }) =
      some after := by
    rfl
  have unquarantined : Unquarantined Database.empty := by
    intro row member
    cases member
  have present : ∃ row ∈ after.db.allocations.rows, row.ip = 10 := by
    decide
  have held := address_held_after_heartbeat (by decide) unquarantined first
    beat reasserted own rest taken
  exact ⟨after, taken, present, fun row member located =>
    (held row member located).2⟩

/-- A heartbeat finds the row of its host in quarantine and leaves it; after
the quarantine the address goes to another device. -/
theorem quarantined_address_taken : ¬ ∀ (config : Config) (db : Database) (clock : Int)
        (before state finish after : State) (me : Nat) (io : Io)
        (dev : Issued) (certNotAfter : Int) (event : Event),
      Unquarantined db → Reachable config.step (.quiet db clock) before →
      config.step before (.statement me io) = some state →
      state.calls me = .beatRecord dev certNotAfter true →
      LeasedTo state.db dev.overlayIP dev.deviceName →
      Reaches config.step (Keeps dev.overlayIP) state finish → Keeps dev.overlayIP finish event →
      config.step finish event = some after →
      ∀ row ∈ after.db.allocations.rows, row.ip = dev.overlayIP → row ∈ finish.db.allocations.rows ∧
          after.db.owner row = some dev.deviceName := by
  intro claim
  let step := quarantining.step
  let before := (runEvents step start quarantined).getD start
  let state := (step before (.statement 2 {})).getD start
  let finish := (runEvents step state taking).getD start
  let after := (step finish (.statement 3 {})).getD start
  let dev : Issued := { id := 1, overlayIP := 10, deviceName := "alice" }
  have first : Reachable step start before :=
    reachable_getD quarantined start (by decide)
  have rest : Reaches step (Keeps 10) state finish :=
    reaches_getD taking start (by decide)
  have unquarantined : Unquarantined Database.empty := by
    intro row member
    cases member
  have beat : step before (.statement 2 {}) = some state :=
    step_getD start (by decide)
  have reasserted : state.calls 2 = .beatRecord dev 1 true := by
    decide
  have own : LeasedTo state.db 10 "alice" := by
    decide
  have kept : Keeps 10 finish (.statement 3 {}) := by
    decide
  have taken : step finish (.statement 3 {}) = some after :=
    step_getD start (by decide)
  have member : leaseRow (8 * 24 * hour + 10) 10 2 ∈
      after.db.allocations.rows := by
    decide
  have owned := (claim quarantining .empty 0 before state finish after
    2 {} dev 1 (.statement 3 {}) unquarantined first beat reasserted own rest
    kept taken _ member rfl).2
  revert owned
  decide

end Harbor.Fleet
