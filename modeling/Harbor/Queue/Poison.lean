import Harbor.Queue.Consumers

/-!
# Poison messages

Each lease of a message raises its attempts by one, and a `Nack` that finds them
at the limit sets the message aside.  The reclaim of a `Claim` does not look at
the attempts.  A message is delivered at most as often as its attempts say, and
those stay within the limit as long as no statement makes a message ready that
has used them up.
-/

namespace Harbor.Queue

open Library List

def Broker.delivered (broker : Broker) (message : Int) : Nat :=
  broker.deliveries.countP fun lease => lease.message == message

def Settings.spares (settings : Settings) (broker : Broker) : BrokerCall → Bool
  | .claimReclaim _ _ _ now =>
    broker.items.rows.all fun row =>
      row.status != .inflight || decide (now < row.leaseUntil) ||
        decide (row.attempts < settings.maxAttempts)
  | .nackUpdate _ id attempts =>
    decide (settings.maxAttempts ≤ attempts) || broker.items.rows.all fun row =>
        row.id != id || decide (row.attempts < settings.maxAttempts)
  | _ => true

/-- No statement makes a message ready again whose attempts are used up. -/
def Sparing (settings : Settings) (pool : Pool Broker BrokerCall) :
    Pool.Event BrokerRequest BrokerIo → Prop
  | .statement index _ =>
    pool.calls[index]?.all (settings.spares pool.shared) = true
  | .request _ => True

instance (settings : Settings) (pool : Pool Broker BrokerCall) :
    DecidablePred (Sparing settings pool)
  | .statement index _ =>
    inferInstanceAs (Decidable (pool.calls[index]?.all (settings.spares pool.shared) = true))
  | .request _ => inferInstanceAs (Decidable True)

structure Covered (settings : Settings) (broker : Broker) (row : Item) : Prop where
  spare : row.status = .ready → row.attempts < settings.maxAttempts
  bounded : row.attempts ≤ settings.maxAttempts
  counted : broker.delivered row.id ≤ row.attempts
  numbered : row.id ≤ broker.lastID

structure Rationed (settings : Settings) (broker : Broker) : Prop where
  covered : ∀ row ∈ broker.items.rows, Covered settings broker row
  delivered : ∀ message, broker.delivered message ≤ settings.maxAttempts
  known : ∀ lease ∈ broker.deliveries, lease.message ≤ broker.lastID

section

variable {opts : Settings} {b fin : Broker} {call : BrokerCall}

theorem BrokerCall.reading_eq_some (read : call.reading = some now) :
    ∃ who m ttl, call = .claimReclaim who m ttl now := by
  cases call with
  | claimReclaim who m ttl =>
    cases read
    exact ⟨who, m, ttl, rfl⟩
  | _ => cases read

variable {row : Item}

theorem Covered.withStatus (cov : Covered opts b row) (unready : st ≠ .ready) :
    Covered opts b { row with status := st } where
  spare due := absurd due unready
  bounded := cov.bounded
  counted := cov.counted
  numbered := cov.numbered

theorem Covered.free (cov : Covered opts b row)
    (l : row.attempts < opts.maxAttempts) (till : Int) : Covered opts b
      { row with status := .ready, leaseUntil := till } where
  spare _ := l
  bounded := cov.bounded
  counted := cov.counted
  numbered := cov.numbered

theorem Rationed.withRows (sound : Rationed opts b)
    (covered : ∀ row ∈ xs.rows, Covered opts b row) :
    Rationed opts { b with items := xs, held := held } where
  covered row member :=
    let old := covered row member
    ⟨old.spare, old.bounded, old.counted, old.numbered⟩
  delivered := sound.delivered
  known := sound.known

theorem Rationed.published (sound : Rationed opts b) (put : b.items.insert? i = some xs)
    (id : i.id = b.lastID + 1) (loose : i.attempts = 0) : Rationed opts
      { b with items := xs, lastID := b.lastID + 1 } := by
  refine ⟨?_, sound.delivered, ?_⟩
  · intro row mem
    rw [(Table.insert?_eq_some put).1] at mem
    rcases mem_append.mp mem with old | last
    · have cov := sound.covered row old
      refine ⟨cov.spare, cov.bounded, cov.counted, ?_⟩
      have cap := cov.numbered
      show row.id ≤ b.lastID + 1
      omega
    · rw [mem_singleton] at last
      subst last
      have never : b.delivered row.id = 0 := by
        unfold Broker.delivered
        rw [countP_eq_zero]
        intro l sent eq
        have cap := sound.known l sent
        rw [beq_iff_eq] at eq
        omega
      refine ⟨?_, ?_, ?_, le_of_eq id⟩
      · intro _
        rw [loose]
        exact opts.positive
      · rw [loose]
        exact Nat.zero_le _
      · show b.delivered row.id ≤ row.attempts
        rw [never]
        exact Nat.zero_le _
  · intro l sent
    have cap := sound.known l sent
    show l.message ≤ b.lastID + 1
    omega

theorem delivered_append {who : Nat} {id ends : Int} {got : List Lease}
    (own : ∀ l ∈ got, l = ⟨who, id, ends⟩) (one : got.length ≤ 1) (msg : Int) :
    (b.deliveries ++ got).countP (fun l => l.message == msg) ≤
      b.delivered msg + if msg = id then 1 else 0 := by
  rw [countP_append]
  refine Nat.add_le_add_left ?_ _
  split
  · exact le_trans countP_le_length one
  · rename_i alt
    refine le_of_eq (countP_eq_zero.mpr ?_)
    intro l mem eq
    rw [own l mem, beq_iff_eq] at eq
    exact alt eq.symm

theorem Rationed.leased (sound : Rationed opts b) {who : Nat}
    {id ends : Int} {given : List Lease} (own : ∀ l ∈ given, l = ⟨who, id, ends⟩)
    (one : given.length ≤ 1) (ready : ∃ row ∈ b.items.rows, row.isReady id = true) :
    Rationed opts { b with
      items := takeLease b.items id ends
      held := b.held ++ given
      deliveries := b.deliveries ++ given } := by
  have grows := @delivered_append b _ _ _ _ own one
  obtain ⟨free, here, pick⟩ := ready
  have named : free.id = id ∧ free.status = .ready := by
    simpa [Item.isReady] using pick
  have source := sound.covered free here
  have room := source.spare named.2
  refine ⟨?_, ?_, ?_⟩
  · intro row mem
    rcases mem_takeLease ⟨free, here, pick⟩ mem with
      ⟨old, alt⟩ | ⟨old, had, same, unleased, rfl⟩
    · have cover := sound.covered row old
      refine ⟨cover.spare, cover.bounded, ?_, cover.numbered⟩
      have step := grows row.id
      rw [if_neg alt] at step
      exact le_trans step cover.counted
    · have cover := sound.covered old had
      have left := cover.spare unleased
      refine ⟨?_, left, ?_, cover.numbered⟩
      · intro free
        cases free
      have step := grows old.id
      rw [if_pos same] at step
      exact le_trans step (Nat.add_le_add_right cover.counted 1)
  · intro msg
    have step := grows msg
    by_cases same : msg = id
    · rw [if_pos same] at step
      have tally := source.counted
      rw [named.1, ← same] at tally
      refine le_trans step ?_
      omega
    · rw [if_neg same] at step
      exact le_trans step (sound.delivered msg)
  · intro l sent
    rcases mem_append.mp sent with earlier | fresh
    · exact sound.known l earlier
    · rw [own l fresh, ← named.1]
      exact source.numbered

theorem Rationed.buried (sound : Rationed opts b) {id : Int} (mem : row ∈ (bury b.items id).rows) :
    Covered opts b row := by
  rcases mem_bury mem with old | ⟨old, had, _, rfl⟩
  · exact sound.covered row old
  · refine (sound.covered old had).withStatus ?_
    intro due
    cases due

theorem Motion.rationed (move : Motion opts b call fin)
    (sound : Rationed opts b) (spares : opts.spares b call = true) :
    Rationed opts fin := by
  cases move with
  | still => exact sound
  | ticked =>
    exact ⟨fun row mem => let old := sound.covered row mem
      ⟨old.spare, old.bounded, old.counted, old.numbered⟩, sound.delivered, sound.known⟩
  | published put id loose => exact sound.published put id loose
  | reclaimed read =>
    obtain ⟨_, _, _, rfl⟩ := BrokerCall.reading_eq_some read
    cases read
    refine sound.withRows ?_
    intro row mem
    rcases mem_reclaim mem with old | ⟨old, had, flying, past, rfl⟩
    · exact sound.covered row old
    · simp only [Settings.spares, all_eq_true, Bool.or_eq_true,
        bne_iff_ne, decide_eq_true_eq] at spares
      rcases spares old had with (landed | runs) | left
      · exact absurd flying landed
      · exact absurd past (not_le.mpr runs)
      · exact (sound.covered old had).free left old.leaseUntil
  | buried =>
    refine sound.withRows ?_
    intro row mem
    exact sound.buried mem
  | leased own one due => exact sound.leased own one due
  | acked =>
    refine sound.withRows ?_
    intro row mem
    exact sound.covered row (mem_of_mem_filter mem)
  | dropped =>
    refine sound.withRows ?_
    intro row mem
    exact sound.buried mem
  | nacked pos anew =>
    subst pos
    simp only [Settings.spares, Bool.or_eq_true, decide_eq_true_eq,
      all_eq_true, bne_iff_ne] at spares
    refine sound.withRows ?_
    intro row mem
    rcases mem_putBack mem with ⟨old, _⟩ | ⟨old, had, same, rfl⟩
    · exact sound.covered row old
    · rcases spares with limit | left
      · exact absurd anew (not_lt.mpr limit)
      · rcases left old had with alt | left
        · exact absurd same alt
        · exact (sound.covered old had).free left 0

end

section

variable {settings : Settings} {pool : Pool Broker BrokerCall}

theorem rationed_of_reaches (met : Reaches settings.machine.step (Sparing settings)
      (.quiet .empty) pool) : Rationed settings pool.shared := by
  refine met.invariant (fun pool => Rationed settings pool.shared) ?_ ?_
  · refine ⟨?_, ?_, ?_⟩
    · intro row mem
      cases mem
    · intro message
      exact Nat.zero_le _
    · intro l sent
      cases sent
  · intro pool new ev sound sparing did
    cases Machine.step_move did with
    | requested req => exact sound
    | @advanced idx io c next both here ran =>
      have spares : settings.spares pool.shared c = true := by
        have all : pool.calls[idx]?.all (settings.spares pool.shared) =
          true := sparing
        rwa [here] at all
      exact (advance_motion ran).1.rationed sound spares

/-- No message is delivered more than `maxAttempts` times, in every run in which
no message is made ready again after it has used up its attempts. -/
theorem deliveries_le_maxAttempts (reached : Reaches settings.machine.step (Sparing settings)
      (.quiet .empty) pool) (message : Int) :
    pool.shared.delivered message ≤ settings.maxAttempts :=
  (rationed_of_reaches reached).delivered message

end

namespace Example

def twice : Settings where
  mac _ := []
  maxDepth := 10
  maxAttempts := 2
  positive := by decide

def published : List (Pool.Event BrokerRequest BrokerIo) :=
  [.request (.publish { enrollmentID := "e1" }), .statement 0 {}, .statement 0 {}]

def claimed (call consumer : Nat) : List (Pool.Event BrokerRequest BrokerIo) :=
  .request (.claim consumer 1 10) :: List.replicate 4 (.statement call {})

def waited (call : Nat) (now : Int) : List (Pool.Event BrokerRequest BrokerIo) :=
  [.request (.tick now), .statement call {}]

def nackedTwice : List (Pool.Event BrokerRequest BrokerIo) :=
  published ++ claimed 1 0 ++ waited 2 10 ++ claimed 3 1 ++
    [.request (.nack 1 1), .statement 4 {}, .statement 4 {},
      .request (.claim 2 1 10)] ++ List.replicate 3 (.statement 5 {})

def crashedThrice : List (Pool.Event BrokerRequest BrokerIo) :=
  published ++ claimed 1 0 ++ waited 2 10 ++ claimed 3 1 ++ waited 4 20 ++ claimed 5 2

end Example

open Example

theorem deliveries_le_maxAttempts_nacked :
    ∃ pool, Reaches twice.machine.step (Sparing twice) (.quiet .empty) pool ∧
      pool.shared.delivered 1 = 2 ∧ pool.shared.delivered 1 ≤ twice.maxAttempts := by
  have reached := @reaches_getD _ _ twice.machine.step
    (Sparing twice) _ (.quiet .empty) nackedTwice (.quiet .empty) (by decide)
  exact ⟨_, reached, by decide, deliveries_le_maxAttempts reached 1⟩

theorem crashes_exceed_maxAttempts : ∃ pool, Reachable twice.machine.step (.quiet .empty) pool ∧
      twice.maxAttempts < pool.shared.delivered 1 := by
  have reached := @reachable_getD _ _ twice.machine.step
    (.quiet .empty) crashedThrice (.quiet .empty) (by decide)
  exact ⟨_, reached, by decide⟩

end Harbor.Queue
