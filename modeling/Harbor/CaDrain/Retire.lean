import Harbor.CaDrain.Recorded

/-!
# Retiring without dependents

A call of `Retire` that has passed its gate has counted no leaf of its CA.  In
a settled run nothing depends on the CA from then on: no signer has it, no leaf
of it is under way, and those that hosts use have expired.
-/

namespace Harbor.CaDrain

open Function Library Keys List Option

structure Forsaken (state : State) (fingerprint : String) : Prop where
  past : state.registry.db.keys.Past fingerprint
  signers : ∀ signer ∈ state.signers, signer ≠ fingerprint
  flights : ∀ flight ∈ state.flights, flight.leaf.ca ≠ fingerprint
  hosts : ∀ host leaf, state.hosts host = some leaf →
    leaf.ca = fingerprint → leaf.notAfter ≤ state.clock

/-- Where a `Retire` call stands with its CA. -/
structure Tracked (state : State) : Prop where
  sound : Keys.Sound state.registry
  distinct : state.registry.db.keys.Distinct
  gates : ∀ me id, state.registry.calls me = .retireGate id →
    ∃ past, state.registry.db.keys.stateOf id = some past ∧ (past = .draining ∨ past = .retired)
  updates : ∀ me id now, state.registry.calls me = .retireUpdate id now →
    ∃ row ∈ state.registry.db.keys.rows, row.id = id ∧ Forsaken state row.fingerprint

section

variable {me : Nat} {db fin : Keys.Database} {io : Io} {call next : Keys.Call}

/-- The CA a `Retire` call is past its first read of. -/
def retiring : Keys.Call → Option Int
  | .retireGate id | .retireUpdate id _ => some id
  | _ => none

theorem advanceActivate_retiring (ran : advanceActivate me db io call = some (fin, next)) :
    retiring next = none := by
  cases call <;> simp only [advanceActivate, reduceCtorEq] at ran
  all_goals
    repeat' split at ran
    all_goals first
      | (cases ran; done)
      | (cases ran; rfl)

theorem advanceInsert_retiring (ran : advanceInsert me db io call = some (fin, next)) :
    retiring next = none := by
  cases call <;> simp only [advanceInsert, reduceCtorEq] at ran
  all_goals
    repeat' split at ran
    all_goals first
      | (cases ran; done)
      | (cases ran; rfl)

theorem advanceDeletion_retiring (ran : advanceDeletion me db io call = some (fin, next)) :
    retiring next = none := by
  cases call <;>
    simp only [advanceDeletion, updateOne, reduceCtorEq] at ran
  all_goals
    repeat' split at ran
    all_goals first
      | (cases ran; done)
      | (cases ran; rfl)

theorem advanceRetire_retiring (ran : advanceRetire me db io call = some (fin, next)) :
    retiring next = none ∨ (∃ id row, next = .retireGate id ∧ db.keys.find id = some row ∧
        row.state = .draining) ∨ ∃ id now, next = .retireUpdate id now ∧ call = .retireGate id ∧
        io.gate = some 0 := by
  cases call with
  | retireGet id =>
    simp only [advanceRetire] at ran
    split_ifs at ran
    · cases ran
      exact .inl rfl
    · split at ran
      · cases ran
        exact .inl rfl
      · rename_i row hit
        split_ifs at ran with dries
        · cases ran
          exact .inl rfl
        · cases ran
          exact .inr (.inl ⟨id, row, rfl, hit, not_not.mp dries⟩)
  | retireGate id =>
    simp only [advanceRetire] at ran
    split at ran
    · cases ran
      exact .inl rfl
    · rename_i count gate
      split_ifs at ran with stop
      · cases ran
        exact .inl rfl
      · cases ran
        have zero : count = 0 := Nat.eq_zero_of_not_pos stop
        exact .inr (.inr ⟨id, io.now, rfl, rfl, zero ▸ gate⟩)
  | retireUpdate id now | abandonUpdate id now =>
    simp only [advanceRetire] at ran
    rcases updateOne_cases ran with
      ⟨_, rfl | rfl⟩ | ⟨_, _, _, _, _, rfl | rfl⟩ <;> exact .inl rfl
  | abandonGet id =>
    simp only [advanceRetire] at ran
    split_ifs at ran <;> cases ran <;> exact .inl rfl
  | _ => cases ran

theorem advance_retiring (went : advance me db io call = some (fin, next)) :
    retiring next = none ∨ (∃ id row, next = .retireGate id ∧ db.keys.find id = some row ∧
        row.state = .draining) ∨ ∃ id now, next = .retireUpdate id now ∧ call = .retireGate id ∧
        io.gate = some 0 := by
  rcases or_eq_some_iff.mp went with ran | ⟨_, rest⟩
  · exact .inl (advanceActivate_retiring ran)
  rcases or_eq_some_iff.mp rest with ran | ⟨_, rest⟩
  · exact advanceRetire_retiring ran
  rcases or_eq_some_iff.mp rest with ran | ⟨_, ran⟩
  · exact .inl (advanceInsert_retiring ran)
  · exact .inl (advanceDeletion_retiring ran)

theorem retired_by {reg : Registry} {s moved : Keys.State}
    {ev : Keys.Event} {id : Int} (sound : Keys.Sound s) (hop : reg.step s ev = some moved)
    (dries : s.db.keys.stateOf id = some .draining)
    (gone : moved.db.keys.stateOf id = some .retired) :
    ∃ me now, s.calls me = .retireUpdate id now := by
  obtain ⟨me, next, eff, cs⟩ := step_effect hop
  have mine := sound.holding me
  generalize moved.db = db at eff gone
  generalize call : s.calls me = pos at eff mine
  have stay : db.keys.stateOf id = s.db.keys.stateOf id → False := by
    intro eq
    rw [eq, dries] at gone
    cases gone
  cases eff with
  | same | ended | demoting | promoting => exact (stay rfl).elim
  | swapped here =>
    subst here
    simp only [mine.stateOf_swapped, dries] at gone
    split_ifs at gone <;> cases gone
  | inserted _ ins => exact (stay ((Keyring.stateOf_insert_known ins dries).trans dries.symm)).elim
  | @moved tgt now old _ cause known arrow _ _ _ abandoned =>
    simp only [Keyring.stateOf_move] at gone
    split_ifs at gone with eq
    · subst tgt
      rcases cause with retires | abandons
      · exact ⟨me, now, call.trans retires⟩
      · rw [abandoned abandons, dries] at known
        cases known
    · rw [dries] at gone
      cases gone
  | marked => exact (stay Keyring.stateOf_mark).elim

end

section

variable {reg : Registry} {s fin : State} {ev : Event} {fp : String}

theorem current_ne_of_past {keys : Keyring} {live : Key}
    (past : keys.Past fp) (cur : keys.current = some live) : live.fingerprint ≠ fp := by
  intro eq
  have had := mem_of_find?_eq_some cur
  have isActive := List.find?_some cur
  simp only [beq_iff_eq] at isActive
  rcases past.2 live had eq with gone | gone <;>
    rw [isActive] at gone <;> cases gone

theorem Forsaken.step (left : Forsaken s fp) (inv : Keys.Sound s.registry)
    (move : Move reg s ev fin) :
    Forsaken fin fp := by
  obtain ⟨past, sigs, runs, hs⟩ := left
  have goes : ∀ {trip : Flight} {lvl : Stage}, trip ∈ s.flights →
      ∀ alt ∈ State.proceed s.flights trip lvl, alt.leaf.ca ≠ fp := by
    intro trip lvl mem alt had
    rcases mem_proceed had with rfl | old
    · exact runs trip mem
    · exact runs alt old
  have cut : ∀ trip, ∀ alt ∈ s.flights.erase trip, alt.leaf.ca ≠ fp := fun trip alt mem =>
    runs alt (mem_of_mem_erase mem)
  cases move with
  | tick now late went =>
    subst went
    exact ⟨past, sigs, runs, fun h l uses chains =>
      (hs h l uses chains).trans late⟩
  | registry inner registryAfter _ hop went =>
    subst went
    exact ⟨past_step inv hop past, sigs, runs, hs⟩
  | poll signer live cur went =>
    subst went
    refine ⟨past, ?_, runs, hs⟩
    intro ident mem
    rcases mem_or_eq_of_mem_set mem with old | rfl
    · exact sigs ident old
    · exact current_ne_of_past past cur
  | issue trip ss _ _ went =>
    subst went
    refine ⟨past, sigs, ?_, hs⟩
    intro alt mem
    rcases mem_cons.mp mem with rfl | old
    · exact sigs _ ss
    · exact runs alt old
  | drop trip _ went =>
    subst went
    exact ⟨past, sigs, cut trip, hs⟩
  | record trip _ mem _ went | stamp trip _ mem _ went =>
    subst went
    exact ⟨past, sigs, goes mem, hs⟩
  | deliver trip _ mem went =>
    subst went
    refine ⟨past, sigs, cut trip, ?_⟩
    intro h l uses chains
    by_cases own : h = trip.host
    · subst h
      simp only [update_self, Option.some.injEq] at uses
      exact (runs trip mem (uses ▸ chains)).elim
    · simp only [update_of_ne own] at uses
      exact hs h l uses chains
  | heartbeat _ _ _ went =>
    subst went
    exact ⟨past, sigs, runs, hs⟩

theorem forsaken_of_gate (note : Recorded s) (uniq : s.registry.db.keys.Distinct)
    (mem : row ∈ s.registry.db.keys.rows) (past : row.state = .draining ∨ row.state = .retired)
    (none : s.liveDependents row.fingerprint = 0)
    (sigs : ∀ signer ∈ s.signers, signer ≠ row.fingerprint)
    (runs : ∀ trip ∈ s.flights, trip.leaf.ca ≠ row.fingerprint ∧
      trip.stage = .signed) : Forsaken s row.fingerprint := by
  refine ⟨⟨⟨row, mem, rfl⟩, ?_⟩, sigs, fun trip had => (runs trip had).1, ?_⟩
  · intro alt had eq
    rw [inj_on_of_nodup_map uniq had mem eq]
    exact past
  · intro h l uses chains
    rcases note.described h l uses with
      ⟨trip, had, _, recordedAlready⟩ |
      ⟨dev, had, _, chainsTo, ends⟩
    · exact (recordedAlready (runs trip had).2).elim
    · by_contra live
      have sum : dev ∈ s.enrollments.rows.filter fun row' =>
          State.chainsTo row' == row.fingerprint &&
            decide (s.clock < s.expiry row') := by
        refine mem_filter.mpr ⟨had, ?_⟩
        rw [chainsTo, chains, ends]
        simpa using live
      rw [State.liveDependents, length_eq_zero_iff] at none
      rw [none] at sum
      cases sum

theorem accept_retiring (req : Request) : retiring (reg.accept req) = none := by
  cases req with
  | stage n pem kms who now =>
    simp only [Registry.accept]
    split_ifs
    · rfl
    · split <;> rfl
  | seedActive n pem kms who =>
    simp only [Registry.accept]
    split <;> rfl
  | _ => rfl

theorem gated_statement (s : State) (me : Nat) (io : Keys.Io) :
    ∃ ask, s.gated (.statement me io) = .statement me ask ∧
      ∀ id count, s.registry.calls me = .retireGate id → ask.gate = some count →
        ∃ row, s.registry.db.keys.find id = some row ∧
          s.liveDependents row.fingerprint = count := by
  simp only [State.gated]
  split
  · rename_i idle pos
    refine ⟨_, rfl, ?_⟩
    intro id count eq ans
    rw [pos] at eq
    cases eq
    obtain ⟨_, _, sum⟩ := bind_eq_some_iff.mp ans
    exact map_eq_some_iff.mp sum
  · rename_i ne
    refine ⟨io, rfl, ?_⟩
    intro id count eq
    exact (ne id eq).elim

theorem gated_retiring {ev : Keys.Event} {move : Keys.State}
    (hop : reg.step s.registry (s.gated ev) = some move) (me : Nat) :
    move.calls me = s.registry.calls me ∨ retiring (move.calls me) = none ∨
      (∃ id row, move.calls me = .retireGate id ∧ s.registry.db.keys.find id = some row ∧
        row.state = .draining) ∨ ∃ id now row io, move.calls me = .retireUpdate id now ∧
        ev = .statement me io ∧ s.registry.calls me = .retireGate id ∧
        s.registry.db.keys.find id = some row ∧ s.liveDependents row.fingerprint = 0 := by
  cases ev with
  | request c req =>
    simp only [State.gated, Registry.step] at hop
    split at hop
    · cases hop
      by_cases mine : me = c
      · subst me
        simp only [update_self]
        exact .inr (.inl (accept_retiring req))
      · simp only [update_of_ne mine]
        exact .inl trivial
    · cases hop
  | statement c io =>
    obtain ⟨ask, eq, gate⟩ := gated_statement s c io
    rw [eq] at hop
    obtain ⟨⟨db, next⟩, ran, rfl⟩ := map_eq_some_iff.mp hop
    by_cases mine : me = c
    · subst me
      simp only [update_self]
      rcases advance_retiring ran with idle | waits | ⟨id, now, update, waiting, zero⟩
      · exact .inr (.inl idle)
      · exact .inr (.inr (.inl waits))
      · obtain ⟨row, hit, none⟩ := gate id 0 waiting zero
        exact .inr (.inr (.inr ⟨id, now, row, io, update, rfl, waiting, hit, none⟩))
    · simp only [update_of_ne mine]
      exact .inl trivial
  | crash c =>
    cases hop
    by_cases mine : me = c
    · subst me
      simp only [update_self]
      exact .inr (.inl rfl)
    · simp only [update_of_ne mine]
      exact .inl trivial

theorem Tracked.other (logs : Tracked s) (move : Move reg s ev fin)
    (eq : fin.registry = s.registry) : Tracked fin := by
  refine ⟨eq ▸ logs.sound, eq ▸ logs.distinct, eq ▸ logs.gates, ?_⟩
  intro me id now pos
  rw [eq] at pos ⊢
  obtain ⟨row, mem, key, left⟩ := logs.updates me id now pos
  exact ⟨row, mem, key, left.step logs.sound move⟩

theorem past_stateOf {was move : Keys.State} {ev : Keys.Event} (inv : Keys.Sound was)
    (hop : reg.step was ev = some move) {id : Int}
    (past : ∃ past, was.db.keys.stateOf id = some past ∧ (past = .draining ∨ past = .retired)) :
    ∃ past, move.db.keys.stateOf id = some past ∧ (past = .draining ∨ past = .retired) := by
  obtain ⟨old, seen, gone⟩ := past
  obtain ⟨new, hit, arrow⟩ := (inv.step hop).2.arrow id old seen
  refine ⟨new, hit, ?_⟩
  rcases arrow with rfl | arrow
  · exact gone
  · rcases gone with rfl | rfl
    · cases arrow
      exact .inr rfl
    · cases arrow

section

variable {inner : Keys.Event} {moved : Keys.State}

theorem Tracked.gates_step (logs : Tracked s)
    (hop : reg.step s.registry (s.gated inner) = some moved) {me : Nat} {id : Int}
    (pos : moved.calls me = .retireGate id) : ∃ past, moved.db.keys.stateOf id = some past ∧
      (past = .draining ∨ past = .retired) := by
  refine past_stateOf logs.sound hop ?_
  rcases gated_retiring hop me with eq | idle |
    ⟨alt, row, gate, hit, dries⟩ | ⟨_, _, _, _, update, _⟩
  · exact logs.gates me id (eq.symm.trans pos)
  · rw [pos] at idle
    cases idle
  · rw [pos] at gate
    cases gate
    refine ⟨row.state, ?_, .inl dries⟩
    rw [Keyring.stateOf, hit]
    rfl
  · rw [pos] at update
    cases update

theorem Tracked.passed (logs : Tracked s) (note : Recorded s) (fix : Settled s (.registry inner))
    (hop : reg.step s.registry (s.gated inner) =
      some moved) {me : Nat} {id now : Int} (pos : moved.calls me = .retireUpdate id now) :
    ∃ row ∈ s.registry.db.keys.rows, row.id = id ∧ Forsaken s row.fingerprint := by
  rcases gated_retiring hop me with eq | idle | ⟨_, _, gate, _⟩ |
    ⟨alt, _, row, io, update, rfl, due, hit, none⟩
  · exact logs.updates me id now (eq.symm.trans pos)
  · rw [pos] at idle
    cases idle
  · rw [pos] at gate
    cases gate
  · rw [pos] at update
    cases update
    obtain ⟨mem, key⟩ := Table.find_eq_some_iff.mp hit
    simp only [Settled, due] at fix
    obtain ⟨sigs, runs⟩ := fix row mem key
    obtain ⟨was, seen, gone⟩ := logs.gates me id due
    rw [Keyring.stateOf, hit, map_some, Option.some.injEq] at seen
    exact ⟨row, mem, key, forsaken_of_gate note logs.distinct mem (seen ▸ gone) none sigs runs⟩

end

theorem Tracked.step (logs : Tracked s) (note : Recorded s)
    (fix : Settled s ev) (move : Move reg s ev fin) : Tracked fin := by
  rcases move.registry_cases with eq | ⟨inner, went, rfl, hop, rfl⟩
  · exact logs.other move eq
  · refine ⟨(logs.sound.step hop).1, distinct_step hop logs.distinct,
      fun me id => logs.gates_step hop, ?_⟩
    intro me id now pos
    obtain ⟨row, mem, key, left⟩ := logs.passed note fix hop pos
    obtain ⟨kept, had, keyEq, fp⟩ := row_step hop mem
    refine ⟨kept, had, keyEq.trans key, ?_⟩
    rw [fp]
    exact left.step logs.sound move

theorem Tracked.forsaken (logs : Tracked s) (move : Move reg s ev fin) {id : Int} {row : Key}
    (hit : s.registry.db.keys.find id = some row) (dries : row.state = .draining)
    (gone : fin.registry.db.keys.stateOf id = some .retired) : Forsaken fin row.fingerprint := by
  have seen : s.registry.db.keys.stateOf id = some .draining := by
    rw [Keyring.stateOf, hit, map_some, dries]
  rcases move.registry_cases with eq | ⟨inner, went, rfl, hop, rfl⟩
  · rw [eq, seen] at gone
    cases gone
  · obtain ⟨me, now, pos⟩ :=
      retired_by logs.sound hop seen gone
    obtain ⟨own, mem, key, forsaken⟩ := logs.updates me id now pos
    obtain ⟨had, rowKey⟩ := Table.find_eq_some_iff.mp hit
    rw [← s.registry.db.keys.row_eq_of_key_eq mem had (key.trans rowKey.symm)]
    exact forsaken.step logs.sound move

end

section

variable {registry : Registry} {signers : List String} {state after : State} {event : Event}

theorem invariant_of_reaches (met : Reaches (step registry) Settled (.initial signers) state) :
    Tracked state ∧ Recorded state := by
  refine met.invariant (fun state => Tracked state ∧ Recorded state)
    ⟨⟨.initial, nodup_nil, ?_, ?_⟩, ⟨?_, ⟨?_, ?_⟩, ?_⟩⟩ ?_
  · intro me id pos
    cases pos
  · intro me id now pos
    cases pos
  · intro trip mem
    cases mem
  · intro trip mem
    cases mem
  · intro h l uses
    cases uses
  · intro h l uses
    cases uses
  · rintro was next event ⟨logs, note⟩ fix ran
    have move := step_move ran
    exact ⟨logs.step note fix move, note.step fix move⟩

/-- In every settled run, when a draining CA is retired no host uses an
unexpired leaf that chains to it, and no process issues one afterwards. -/
theorem retired_without_dependents {id : Int} {row : Key}
    (reached : Reaches (step registry) Settled (.initial signers) state)
    (taken : step registry state event = some after) (settled : Settled state event)
    (found : state.registry.db.keys.find id = some row) (draining : row.state = .draining)
    (retired : after.registry.db.keys.stateOf id = some .retired) :
    (∀ host leaf, after.hosts host = some leaf →
      leaf.ca = row.fingerprint → leaf.notAfter ≤ after.clock) ∧
    ∀ finish, Reaches (step registry) Settled after finish → ∀ host signer notAfter renewal next,
        step registry finish (.issue host signer notAfter renewal) = some next →
        finish.signers[signer]? ≠ some row.fingerprint := by
  obtain ⟨tracked, recorded⟩ := invariant_of_reaches reached
  have move := step_move taken
  have forsaken := tracked.forsaken move found draining retired
  refine ⟨forsaken.hosts, ?_⟩
  intro finish rest
  have kept := rest.invariant (fun state => (Tracked state ∧ Recorded state) ∧
      Forsaken state row.fingerprint)
    ⟨⟨tracked.step recorded settled move, recorded.step settled move⟩, forsaken⟩ (by
      rintro before next event ⟨⟨tracked, recorded⟩, forsaken⟩ settled taken
      have move := step_move taken
      exact ⟨⟨tracked.step recorded settled move,
        recorded.step settled move⟩, forsaken.step tracked.sound move⟩)
  intro host signer notAfter renewal next issued signs
  exact kept.2.signers _ (List.mem_of_getElem? signs) rfl

end

namespace Example

def alone (call : Nat) (request : Request) (count : Nat) (io : Io) :
    List Event :=
  (Keys.Example.alone call request count io).map .registry

def flight (ca : String) (notAfter : Int) (renews : Option Int) (stage : Stage) : Flight :=
  ⟨7, ⟨ca, notAfter⟩, renews, stage⟩

def issued (ca : String) (notAfter : Int) (renews : Option Int) :
    List Event :=
  [.issue 7 0 notAfter renews.isSome, .record (flight ca notAfter renews .signed) .ok,
    .stamp (flight ca notAfter renews .recorded) .ok]

def succession : List Event :=
  alone 0 (.seedActive "one" "k1" "" "") 2 { now := 1, id := 1 } ++
    issued "k1" 100 none ++ [.deliver (flight "k1" 100 none .answered)] ++
    alone 1 (.stage "two" "k2" "" "" 2) 1 { id := 2 } ++
    alone 2 (.activate 2 3) 5 {} ++ [.poll 0, .poll 1, .heartbeat 7] ++ issued "k2" 200 (some 1)

/-- `Retire` of the first CA up to its update. -/
def drained : List Event :=
  alone 3 (.retire 1) 2 { now := 4, gate := some 0 }

def update : Event :=
  .registry (.statement 3 {})

def renewed : List Event :=
  succession ++ [.deliver (flight "k2" 200 (some 1) .answered)] ++ drained

def lost : List Event :=
  succession ++ [.lose (flight "k2" 200 (some 1) .answered)] ++ drained

def run (events : List Event) : State :=
  (runEvents (step Keys.Example.registry) (.initial ["k1", "k1"]) events).getD (.initial [])

def first : Key where
  id := 1
  name := "one"
  fingerprint := "k1"
  pem := "k1"
  state := .draining
  createdAt := 1
  updatedAt := 3

end Example

open Example

/-- The host has renewed when the first CA is retired. -/
theorem retired_without_dependents_renewed_host :
    ∃ after, step Keys.Example.registry (run renewed) update = some after ∧
      after.registry.db.keys.stateOf 1 = some .retired ∧
      ∀ host leaf, after.hosts host = some leaf → leaf.ca = "k1" → leaf.notAfter ≤ after.clock := by
  have reached : Reaches (step Keys.Example.registry) Settled
      (.initial ["k1", "k1"]) (run renewed) :=
    reaches_getD renewed (State.initial []) (by decide)
  have ends : (step Keys.Example.registry (run renewed)
      update).map (fun after => after.registry.db.keys.stateOf 1) = some (some .retired) := by
    decide
  obtain ⟨after, taken, retired⟩ := Option.map_eq_some_iff.mp ends
  have found : (run renewed).registry.db.keys.find 1 = some first := by
    decide
  exact ⟨after, taken, retired, (retired_without_dependents reached taken
    (by decide) found rfl retired).1⟩

/-- The response to the renewal is lost after the row names the second CA: the
first one is retired while the host uses its leaf. -/
theorem lost_renewal_strands_host :
    ¬ ∀ (registry : Registry) (signers : List String) (state after : State)
        (event : Event) (id : Int) (row : Key), Reachable (step registry) (.initial signers) state →
      step registry state event = some after →
      state.registry.db.keys.find id = some row → row.state = .draining →
      after.registry.db.keys.stateOf id = some .retired →
      (∀ host leaf, after.hosts host = some leaf →
        leaf.ca = row.fingerprint → leaf.notAfter ≤ after.clock) ∧
      ∀ finish, Reachable (step registry) after finish → ∀ host signer notAfter renewal next,
          step registry finish (.issue host signer notAfter renewal) = some next →
          finish.signers[signer]? ≠ some row.fingerprint := by
  intro claim
  have reached : Reachable (step Keys.Example.registry) (.initial ["k1", "k1"]) (run lost) :=
    reachable_getD lost (State.initial []) (by decide)
  have ends : (step Keys.Example.registry (run lost) update).map (fun after =>
        (after.registry.db.keys.stateOf 1, after.hosts 7, after.clock)) =
      some (some .retired, some ⟨"k1", 100⟩, 0) := by
    decide
  obtain ⟨after, taken, results⟩ := Option.map_eq_some_iff.mp ends
  simp only [Prod.mk.injEq] at results
  obtain ⟨retired, uses, clock⟩ := results
  have found : (run lost).registry.db.keys.find 1 = some first := by
    decide
  have expired := (claim Keys.Example.registry _ _ after _ 1 _ reached taken
    found rfl retired).1 7 _ uses rfl
  rw [clock] at expired
  revert expired
  decide

end Harbor.CaDrain
