import Harbor.CaDrain.System

/-!
# What the rows know

A host uses a leaf that the rows of its address describe, unless a recorded
leaf is still on its way to it.
-/

namespace Harbor.CaDrain

open Function Library Keys List Option Table

section

variable {reg : Registry} {s fin : State} {ev : Event}

inductive Move (registry : Registry) (state : State) (event : Event) (after : State) : Prop where
  | tick (now : Int) : state.clock ≤ now → after = { state with clock := now } →
      Move registry state event after
  | registry (inner : Keys.Event) (moved : Keys.State) : event = .registry inner →
      registry.step state.registry (state.gated inner) = some moved →
      after = { state with registry := moved } → Move registry state event after
  | poll (signer : Nat) (active : Key) : state.registry.db.keys.current = some active →
      after = { state with
        signers := state.signers.set signer active.fingerprint } →
      Move registry state event after
  | issue (flight : Flight) : flight.leaf.ca ∈ state.signers → 0 < flight.leaf.notAfter →
      (∀ id, flight.renews = some id → ∃ row ∈ state.enrollments.rows,
        row.id = id ∧ row.overlayIP = flight.host) →
      after = { state with flights := flight :: state.flights } → Move registry state event after
  | drop (flight : Flight) : flight.stage = .signed ∨ event = .lose flight →
      after = { state with flights := state.flights.erase flight } → Move registry state event after
  | record (flight : Flight) (enrollments : Table Issued.id) : flight ∈ state.flights →
      state.recordLeaf flight = some enrollments →
      after = { state with
        enrollments := enrollments
        flights := State.proceed state.flights flight .recorded } →
      Move registry state event after
  | stamp (flight : Flight) (heartbeats : Table Heartbeat.overlayIP) : flight ∈ state.flights →
      (∀ host, host ≠ flight.host → heartbeats.find host = state.heartbeats.find host) →
      after = { state with
        heartbeats := heartbeats
        flights := State.proceed state.flights flight .answered } →
      Move registry state event after
  | deliver (flight : Flight) : event = .deliver flight → flight ∈ state.flights →
      after = { state with
        hosts := update state.hosts flight.host (some flight.leaf)
        flights := state.flights.erase flight } →
      Move registry state event after
  | heartbeat (host : Nat) (leaf : Leaf) : state.hosts host = some leaf →
      after = { state with
        heartbeats := state.heartbeats.upsert
          { overlayIP := host, certNotAfter := leaf.notAfter }
          (fun row => { row with certNotAfter := leaf.notAfter })
          fun _ => rfl } →
      Move registry state event after

theorem step_move (ran : step reg s ev = some fin) :
    Move reg s ev fin := by
  cases ev with
  | tick now =>
    simp only [step] at ran
    split_ifs at ran with late
    cases ran
    exact .tick now late rfl
  | registry inner =>
    simp only [step] at ran
    obtain ⟨move, hop, rfl⟩ := map_eq_some_iff.mp ran
    exact .registry inner move rfl hop rfl
  | poll signer =>
    simp only [step] at ran
    split at ran
    · cases ran
    · rename_i live cur
      cases ran
      exact .poll signer live cur rfl
  | issue h signer notAfter renewal =>
    simp only [step] at ran
    split at ran
    · cases ran
    · rename_i ca ss
      split_ifs at ran with expired renews
      · obtain ⟨dev, hit, rfl⟩ := map_eq_some_iff.mp ran
        obtain ⟨mem, addr, _⟩ := latest_eq_some_iff.mp hit
        refine .issue _ (mem_of_getElem? ss) (not_le.mp expired) ?_
          rfl
        intro id eq
        cases eq
        exact ⟨dev, mem, rfl, by simpa using addr⟩
      · cases ran
        refine .issue _ (mem_of_getElem? ss) (not_le.mp expired) ?_
          rfl
        intro id eq
        cases eq
  | record trip f =>
    simp only [step] at ran
    split_ifs at ran with due fail
    · cases ran
      exact .drop trip (.inl due.2) rfl
    · obtain ⟨rows, made, rfl⟩ := map_eq_some_iff.mp ran
      exact .record trip rows due.1 made rfl
  | stamp trip f =>
    simp only [step] at ran
    split at ran
    · rename_i due
      cases ran
      refine .stamp trip _ due.1 ?_ rfl
      intro h own
      split_ifs
      · rfl
      · rw [find_update]
        cases hit : s.heartbeats.find h with
        | none => rfl
        | some b =>
          have addr := (find_eq_some_iff.mp hit).2
          simp [addr, own]
    · cases ran
  | deliver trip =>
    simp only [step] at ran
    split_ifs at ran with due
    cases ran
    exact .deliver trip rfl due.1 rfl
  | lose trip =>
    simp only [step] at ran
    split_ifs at ran
    cases ran
    exact .drop trip (.inr rfl) rfl
  | heartbeat h =>
    simp only [step] at ran
    obtain ⟨l, uses, rfl⟩ := map_eq_some_iff.mp ran
    exact .heartbeat h l uses rfl

theorem Move.registry_cases (move : Move reg s ev fin) :
    fin.registry = s.registry ∨ ∃ inner went, ev = .registry inner ∧
      reg.step s.registry (s.gated inner) = some went ∧ fin = { s with registry := went } := by
  cases move with
  | registry inner went requested hop res => exact .inr ⟨inner, went, requested, hop, res⟩
  | tick _ _ res | poll _ _ _ res | issue _ _ _ _ res
  | drop _ _ res | record _ _ _ _ res | stamp _ _ _ _ res
  | deliver _ _ _ res | heartbeat _ _ _ res =>
    subst res
    exact .inl rfl

end

structure Recorded (state : State) : Prop where
  renews : ∀ flight ∈ state.flights, ∀ id, flight.renews = some id →
    ∃ row ∈ state.enrollments.rows, row.id = id ∧ row.overlayIP = flight.host
  positive : (∀ flight ∈ state.flights, 0 < flight.leaf.notAfter) ∧
    ∀ host leaf, state.hosts host = some leaf → 0 < leaf.notAfter
  described : ∀ host leaf, state.hosts host = some leaf →
    (∃ flight ∈ state.flights, flight.host = host ∧ flight.stage ≠ .signed) ∨
      Described state host leaf

section

variable {reg : Registry} {s fin : State} {ev : Event} {trip : Flight}

theorem mem_proceed (mem : other ∈ State.proceed trips trip stage) :
    other = { trip with stage := stage } ∨ other ∈ trips := by
  rcases mem_cons.mp mem with same | later
  · exact .inl same
  · exact .inr (mem_of_mem_erase later)

variable {rows : Table Issued.id}

theorem recordLeaf_other (renews : ∀ id, trip.renews = some id →
      ∃ row ∈ s.enrollments.rows, row.id = id ∧ row.overlayIP = trip.host)
    (made : s.recordLeaf trip = some rows)
    (mem : row ∈ s.enrollments.rows) (off : row.overlayIP ≠ trip.host) : row ∈ rows.rows := by
  unfold State.recordLeaf at made
  split at made
  · rename_i id renewal
    cases made
    obtain ⟨own, had, idEq, spot⟩ := renews id renewal
    refine mem_update.mpr ⟨row, mem, ?_⟩
    have ne : row.id ≠ id := by
      intro eq
      have equal := s.enrollments.row_eq_of_key_eq mem had (eq.trans idEq.symm)
      exact off (equal ▸ spot)
    simp [ne]
  · rw [(Table.insert?_eq_some made).1]
    exact mem_append_left _ mem

theorem recordLeaf_located (made : s.recordLeaf trip = some rows)
    (mem : row ∈ s.enrollments.rows) : ∃ kept ∈ rows.rows, kept.id = row.id ∧
      kept.overlayIP = row.overlayIP := by
  unfold State.recordLeaf at made
  split at made
  · rename_i id renewal
    cases made
    refine ⟨_, mem_update.mpr ⟨row, mem, rfl⟩, ?_⟩
    split_ifs <;> exact ⟨rfl, rfl⟩
  · refine ⟨row, ?_, rfl, rfl⟩
    rw [(Table.insert?_eq_some made).1]
    exact mem_append_left _ mem

variable {host : Nat}

theorem pending_erase {runs : List Flight} (spared : trip.host = host → trip.stage = .signed)
    (due : ∃ alt ∈ runs, alt.host = host ∧ alt.stage ≠ .signed) :
    ∃ alt ∈ runs.erase trip, alt.host = host ∧ alt.stage ≠ .signed := by
  obtain ⟨alt, mem, eq, lvl⟩ := due
  refine ⟨alt, (mem_erase_of_ne ?_).mpr mem, eq, lvl⟩
  rintro rfl
  exact lvl (spared eq)

theorem Recorded.drop (note : Recorded s) (sig : trip.stage = .signed) :
    Recorded { s with flights := s.flights.erase trip } := by
  refine ⟨?_, ⟨?_, note.positive.2⟩, ?_⟩
  · intro alt mem
    exact note.renews alt (mem_of_mem_erase mem)
  · intro alt mem
    exact note.positive.1 alt (mem_of_mem_erase mem)
  · intro host l uses
    rcases note.described host l uses with due | described
    · exact .inl (pending_erase (fun _ => sig) due)
    · exact .inr described

theorem Recorded.proceed (note : Recorded s) (mem : trip ∈ s.flights) (late : lvl ≠ .signed)
    (located : ∀ row ∈ s.enrollments.rows, ∃ kept ∈ rows.rows,
      kept.id = row.id ∧ kept.overlayIP = row.overlayIP)
    (rest : ∀ host l, host ≠ trip.host → Described s host l →
      Described { s with
        enrollments := rows, heartbeats := heartbeats } host l) :
    Recorded { s with
      enrollments := rows
      heartbeats := heartbeats
      flights := State.proceed s.flights trip lvl } := by
  have eq : ∀ alt ∈ State.proceed s.flights trip lvl, ∃ old ∈ s.flights, old.renews = alt.renews ∧
        old.host = alt.host ∧ old.leaf = alt.leaf := by
    intro alt had
    rcases mem_proceed had with rfl | old
    · exact ⟨trip, mem, rfl, rfl, rfl⟩
    · exact ⟨alt, old, rfl, rfl, rfl⟩
  refine ⟨?_, ⟨?_, note.positive.2⟩, ?_⟩
  · intro alt had id renewal
    obtain ⟨old, oldMember, renews, host, _⟩ := eq alt had
    obtain ⟨row, rowMember, idEq, addr⟩ := note.renews old oldMember id (renews.trans renewal)
    obtain ⟨kept, keptMember, keptId, keptAddress⟩ := located row rowMember
    exact ⟨kept, keptMember, keptId.trans idEq, keptAddress.trans (addr.trans host)⟩
  · intro alt had
    obtain ⟨old, oldMember, _, _, l⟩ := eq alt had
    rw [← l]
    exact note.positive.1 old oldMember
  · intro host l uses
    by_cases own : host = trip.host
    · exact .inl ⟨_, mem_cons_self, own.symm, late⟩
    · rcases note.described host l uses with due | described
      · obtain ⟨alt, had, tail⟩ := pending_erase (fun eq => absurd eq.symm own) due
        exact .inl ⟨alt, mem_cons_of_mem _ had, tail⟩
      · exact .inr (rest host l own described)

theorem described_of_beats (described : Described s host l)
    (eq : heartbeats.find host = s.heartbeats.find host) :
    Described { s with heartbeats := heartbeats } host l := by
  obtain ⟨row, mem, addr, chains, expires⟩ := described
  refine ⟨row, mem, addr, chains, ?_⟩
  rw [← expires]
  simp only [State.expiry, addr, eq]

theorem Recorded.issue (note : Recorded s) (pos : 0 < trip.leaf.notAfter)
    (renews : ∀ id, trip.renews = some id → ∃ row ∈ s.enrollments.rows, row.id = id ∧
        row.overlayIP = trip.host) : Recorded { s with flights := trip :: s.flights } := by
  refine ⟨?_, ⟨?_, note.positive.2⟩, ?_⟩
  · intro alt mem
    rcases mem_cons.mp mem with rfl | old
    · exact renews
    · exact note.renews alt old
  · intro alt mem
    rcases mem_cons.mp mem with rfl | old
    · exact pos
    · exact note.positive.1 alt old
  · intro host l uses
    rcases note.described host l uses with
      ⟨alt, mem, rest⟩ | described
    · exact .inl ⟨alt, mem_cons_of_mem _ mem, rest⟩
    · exact .inr described

theorem Recorded.deliver (noted : Recorded s) (mem : trip ∈ s.flights)
    (described : Described s trip.host trip.leaf) :
    Recorded { s with
      hosts := update s.hosts trip.host (some trip.leaf)
      flights := s.flights.erase trip } := by
  refine ⟨?_, ⟨?_, ?_⟩, ?_⟩
  · intro other had
    exact noted.renews other (mem_of_mem_erase had)
  · intro other had
    exact noted.positive.1 other (mem_of_mem_erase had)
  · intro host leaf uses
    by_cases own : host = trip.host
    · subst host
      simp only [update_self, Option.some.injEq] at uses
      rw [← uses]
      exact noted.positive.1 trip mem
    · simp only [update_of_ne own] at uses
      exact noted.positive.2 host leaf uses
  · intro host leaf uses
    by_cases own : host = trip.host
    · subst host
      simp only [update_self, Option.some.injEq] at uses
      exact .inr (uses ▸ described)
    · simp only [update_of_ne own] at uses
      rcases noted.described host leaf uses with due | other
      · exact .inl (pending_erase (fun same => absurd same.symm own) due)
      · exact .inr other

theorem Recorded.heartbeat (note : Recorded s) (uses : s.hosts host = some leaf) :
    Recorded { s with
      heartbeats := s.heartbeats.upsert
        { overlayIP := host, certNotAfter := leaf.notAfter }
        (fun row => { row with certNotAfter := leaf.notAfter })
        fun _ => rfl } := by
  refine ⟨note.renews, note.positive, ?_⟩
  intro alt used otherUses
  rcases note.described alt used otherUses with due | described
  · exact .inl due
  · right
    by_cases own : alt = host
    · subst alt
      rw [uses] at otherUses
      cases otherUses
      obtain ⟨row, mem, addr, chains, _⟩ := described
      refine ⟨row, mem, addr, chains, ?_⟩
      have pos := note.positive.2 host leaf uses
      simp only [State.expiry, find_upsert, addr, if_true]
      cases s.heartbeats.find host with
      | none | some beat => simp [pos]
    · refine described_of_beats described ?_
      rw [find_upsert, if_neg own]

theorem Recorded.step (note : Recorded s) (fix : Settled s ev)
    (move : Move reg s ev fin) : Recorded fin := by
  cases move with
  | tick _ _ went | registry _ _ _ _ went | poll _ _ _ went =>
    subst went
    exact ⟨note.renews, note.positive, note.described⟩
  | issue trip _ pos renews went =>
    subst went
    exact note.issue pos renews
  | drop trip src went =>
    subst went
    rcases src with sig | rfl
    · exact note.drop sig
    · exact note.drop fix
  | record trip rows mem made went =>
    subst went
    refine note.proceed mem (by simp) (fun row had => recordLeaf_located made had) ?_
    rintro host l own ⟨row, had, addr, described⟩
    exact ⟨row, recordLeaf_other (note.renews trip mem) made had (addr ▸ own), addr, described⟩
  | stamp trip heartbeats mem eq went =>
    subst went
    refine note.proceed mem (by simp) (fun row had => ⟨row, had, rfl, rfl⟩) ?_
    intro host l own described
    exact described_of_beats described (eq host own)
  | deliver trip sent mem went =>
    subst sent went
    exact note.deliver mem fix
  | heartbeat host l uses went =>
    subst went
    exact note.heartbeat uses

end

end Harbor.CaDrain
