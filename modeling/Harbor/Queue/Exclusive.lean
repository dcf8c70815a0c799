import Harbor.Queue.Consumers

/-!
# Leases are exclusive

While a lease runs, the row it was taken from is not ready: nothing but a
`Nack` makes it ready again, and a reclaim passes over it.  So a `Claim` returns
a message only when every lease of it has run out or was given back, as long as
no `Nack` arrives for a message that another consumer holds.
-/

namespace Harbor.Queue

open Library List Bool

def Exclusive (before after : Broker) : Prop :=
  ∀ delivery, after.deliveries = before.deliveries ++ [delivery] →
    ∀ lease ∈ before.held, lease.message = delivery.message → lease.expires ≤ before.clock

def Broker.mayReturn (broker : Broker) : BrokerCall → Bool
  | .nackUpdate consumer id _ =>
    broker.held.all fun lease =>
      lease.message != id || lease.consumer == consumer ||
        decide (lease.expires ≤ broker.clock)
  | _ => true

/-- A `Nack` updates a message only while no other consumer holds it. -/
def Timely (pool : Pool Broker BrokerCall) : Pool.Event BrokerRequest BrokerIo → Prop
  | .statement index _ =>
    pool.calls[index]?.all pool.shared.mayReturn = true
  | .request _ => True

instance (pool : Pool Broker BrokerCall) : DecidablePred (Timely pool)
  | .statement index _ =>
    inferInstanceAs (Decidable (pool.calls[index]?.all pool.shared.mayReturn = true))
  | .request _ => inferInstanceAs (Decidable True)

structure Guards (lease : Lease) (row : Item) : Prop where
  taken : row.status ≠ .ready
  running : row.status = .inflight → lease.expires ≤ row.leaseUntil

structure Leasing (broker : Broker) : Prop where
  guarded : ∀ lease ∈ broker.held, broker.clock < lease.expires →
    ∀ row ∈ broker.items.rows, row.id = lease.message → Guards lease row
  known : ∀ lease ∈ broker.held, lease.message ≤ broker.lastID

section

variable {settings : Settings} {b fin : Broker} {call : BrokerCall}
variable {l : Lease} {id : Int}

theorem mem_giveBack : l ∈ (b.giveBack who id).held ↔ l ∈ b.held ∧ ¬(l.consumer = who ∧
        l.message = id) := by
  simp only [Broker.giveBack, mem_filter, not_eq_true',
    and_eq_false_iff, beq_eq_false_iff_ne, not_and_or, ne_eq]

theorem Guards.buried {row : Item} : Guards l row.buried := by
  refine ⟨?_, ?_⟩
  · rintro ⟨⟩
  · rintro ⟨⟩

theorem Leasing.guarded_bury (lent : Leasing b) (held : l ∈ b.held)
    (live : b.clock < l.expires) (mem : row ∈ (bury b.items id).rows)
    (eq : row.id = l.message) : Guards l row := by
  rcases mem_bury mem with old | ⟨old, _, _, rfl⟩
  · exact lent.guarded l held live row old eq
  · exact .buried

theorem Leasing.reclaimed (lent : Leasing b) (past : now ≤ b.clock) :
    Leasing { b with items := reclaim b.items now } := by
  refine ⟨?_, lent.known⟩
  intro l held live row mem eq
  rcases mem_reclaim mem with old | ⟨old, had, inflight, good, rfl⟩
  · exact lent.guarded l held live row old eq
  · have guards := lent.guarded l held live old had eq
    have longer := guards.running inflight
    have expired : l.expires ≤ b.clock := le_trans longer (le_trans good past)
    exact absurd live (not_lt.mpr expired)

theorem Leasing.expired_of_ready (lent : Leasing b)
    (due : ∃ row ∈ b.items.rows, row.isReady id = true)
    (held : l ∈ b.held) (eq : l.message = id) : l.expires ≤ b.clock := by
  obtain ⟨row, mem, io⟩ := due
  simp only [Item.isReady, and_eq_true, beq_iff_eq] at io
  by_contra live
  exact (lent.guarded l held (not_le.mp live) row mem (io.1.trans eq.symm)).taken io.2

theorem Leasing.leased (lent : Leasing b) {who : Nat}
    {id ends : Int} {given : List Lease} (own : ∀ l ∈ given, l = ⟨who, id, ends⟩)
    (rows : ∀ row ∈ b.items.rows, row.id ≤ b.lastID)
    (ready : ∃ row ∈ b.items.rows, row.isReady id = true) :
    Leasing { b with
      items := takeLease b.items id ends
      held := b.held ++ given
      deliveries := b.deliveries ++ given } := by
  refine ⟨?_, ?_⟩
  · intro l held live row mem same
    rcases mem_append.mp held with earlier | fresh
    · rcases mem_takeLease ready mem with ⟨old, _⟩ | ⟨old, _, named, _, rfl⟩
      · exact lent.guarded l earlier live row old same
      · have ok := lent.expired_of_ready ready earlier (same.symm.trans named)
        exact absurd live (not_lt.mpr ok)
    · obtain rfl := own l fresh
      rcases mem_takeLease ready mem with ⟨_, other⟩ | ⟨old, _, _, _, rfl⟩
      · exact absurd same other
      · refine ⟨?_, fun _ => le_refl _⟩
        rintro ⟨⟩
  · intro l held
    rcases mem_append.mp held with earlier | fresh
    · exact lent.known l earlier
    · obtain rfl := own l fresh
      obtain ⟨row, mem, pick⟩ := ready
      simp only [Item.isReady, and_eq_true, beq_iff_eq] at pick
      have bound := rows row mem
      rwa [pick.1] at bound

theorem Leasing.nacked (lent : Leasing b) (timely : b.mayReturn (.nackUpdate who id n) = true) :
    Leasing ({ b with
      items := putBack b.items id }.giveBack who id) := by
  refine ⟨?_, ?_⟩
  · intro l held live row mem same
    obtain ⟨still, rest⟩ := mem_giveBack.mp held
    rcases mem_putBack mem with ⟨old, _⟩ | ⟨old, _, named, rfl⟩
    · exact lent.guarded l still live row old same
    · have message : l.message = id := same.symm.trans named
      simp only [Broker.mayReturn, all_eq_true, or_eq_true,
        bne_iff_ne, beq_iff_eq, decide_eq_true_eq] at timely
      rcases timely l still with (ne | mine) | passed
      · exact absurd message ne
      · exact absurd ⟨mine, message⟩ rest
      · exact absurd live (not_lt.mpr passed)
  · intro l held
    exact lent.known l (mem_giveBack.mp held).1

def Broker.Numbered (broker : Broker) : Prop :=
  ∀ row ∈ broker.items.rows, row.id ≤ broker.lastID

theorem Numbered.update {b : Broker} (nums : b.Numbered)
    {sel : Item → Bool} {ch : Item → Item} (keep : ∀ row, (ch row).id = row.id) :
    ∀ row ∈ (b.items.update sel ch keep).rows, row.id ≤ b.lastID := by
  intro row mem
  obtain ⟨old, had, rfl⟩ := Table.mem_update.mp mem
  split_ifs
  · rw [keep]
    exact nums old had
  · exact nums old had

theorem Motion.numbered (move : Motion settings b call fin) (nums : b.Numbered) : fin.Numbered := by
  cases move with
  | still | ticked => exact nums
  | published put id =>
    intro row mem
    rw [(Table.insert?_eq_some put).1] at mem
    rcases mem_append.mp mem with old | last
    · have cap := nums row old
      show row.id ≤ b.lastID + 1
      omega
    · rw [mem_singleton] at last
      subst last
      exact le_of_eq id
  | acked =>
    intro row mem
    exact nums row (mem_of_mem_filter mem)
  | reclaimed | buried | leased | dropped | nacked =>
    refine @Numbered.update b nums _ _ ?_
    intro row
    rfl

theorem Motion.leasing (move : Motion settings b call fin)
    (lent : Leasing b) (nums : b.Numbered) (past : ∀ now, call.reading = some now → now ≤ b.clock)
    (prompt : b.mayReturn call = true) : Leasing fin := by
  cases move with
  | still => exact lent
  | ticked late =>
    refine ⟨?_, lent.known⟩
    intro l held live
    exact lent.guarded l held (lt_of_le_of_lt late live)
  | published put id =>
    refine ⟨?_, ?_⟩
    · intro l held live row mem eq
      rw [(Table.insert?_eq_some put).1] at mem
      rcases mem_append.mp mem with old | last
      · exact lent.guarded l held live row old eq
      · rw [mem_singleton] at last
        subst last
        have cap := lent.known l held
        omega
    · intro l held
      have cap := lent.known l held
      show l.message ≤ b.lastID + 1
      omega
  | reclaimed read => exact lent.reclaimed (past _ read)
  | buried =>
    exact ⟨fun _ held live _ mem eq =>
      lent.guarded_bury held live mem eq, lent.known⟩
  | leased own _ due => exact lent.leased own nums due
  | acked =>
    refine ⟨?_, ?_⟩
    · intro l held live row mem
      exact lent.guarded l (mem_giveBack.mp held).1 live row (mem_of_mem_filter mem)
    · intro l held
      exact lent.known l (mem_giveBack.mp held).1
  | dropped =>
    refine ⟨?_, ?_⟩
    · intro l held live row mem eq
      exact lent.guarded_bury (mem_giveBack.mp held).1 live mem eq
    · intro l held
      exact lent.known l (mem_giveBack.mp held).1
  | nacked pos =>
    rw [pos] at prompt
    exact lent.nacked prompt

theorem Motion.exclusive (move : Motion settings b call fin)
    (lent : Leasing b) : Exclusive b fin := by
  intro sent logged l held eq
  cases move with
  | leased own _ due =>
    have got := append_cancel_left logged
    have same := own sent (by rw [got]; exact mem_singleton_self _)
    subst same
    exact lent.expired_of_ready due held eq
  | _ =>
    have short := congrArg List.length logged
    simp [Broker.giveBack] at short

end

section

variable {settings : Settings} {pool after : Pool Broker BrokerCall}
  {event : Pool.Event BrokerRequest BrokerIo}

theorem leasing_of_reaches (met : Reaches settings.machine.step Timely (.quiet .empty) pool) :
    (Leasing pool.shared ∧ pool.shared.Numbered) ∧
      pool.All fun _ c => ∀ now, c.reading = some now → now ≤ pool.shared.clock := by
  refine met.rely (fun b => Leasing b ∧ b.Numbered)
    (fun b _ c => ∀ now, c.reading = some now → now ≤ b.clock) ?_ ?_ ?_
  · refine ⟨⟨⟨?_, ?_⟩, ?_⟩, ?_⟩
    · intro l held
      cases held
    · intro l held
      cases held
    · intro row mem
      cases mem
    · intro idx c there
      cases there
  · intro b idx req _ now read
    cases req with
    | claim =>
      cases read
      exact le_refl _
    | _ => cases read
  · intro pool idx io c next b prompt here both past ran
    obtain ⟨lent, nums⟩ := both
    obtain ⟨move, mute⟩ := advance_motion ran
    have may : pool.shared.mayReturn c = true := by
      have all : pool.calls[idx]?.all pool.shared.mayReturn = true := prompt
      rwa [here] at all
    refine ⟨⟨move.leasing lent nums past may, move.numbered nums⟩, ?_, ?_⟩
    · intro now read
      rw [mute] at read
      cases read
    · intro alt there _ _ old now read
      have was := old now read
      refine le_trans was ?_
      cases move with
      | ticked late => exact late
      | _ => exact le_refl _

/-- After a `Claim` has returned a message no other `Claim` returns it until
that lease has run out or its consumer has given it back, in every run in which
a `Nack` updates a message only while no other consumer holds it. -/
theorem lease_exclusive (reached : Reaches settings.machine.step Timely (.quiet .empty) pool)
    (taken : settings.machine.step pool event = some after) :
    Exclusive pool.shared after.shared := by
  obtain ⟨⟨leasing, _⟩, _⟩ := leasing_of_reaches reached
  cases Machine.step_move taken with
  | requested request =>
    intro delivery logged
    have shorter := congrArg List.length logged
    simp at shorter
  | advanced here ran =>
    exact (advance_motion ran).1.exclusive leasing

end

namespace Example

def settings : Settings where
  mac _ := []
  maxDepth := 10
  maxAttempts := 5
  positive := by decide

def delivered : List (Pool.Event BrokerRequest BrokerIo) :=
  [.request (.publish { enrollmentID := "e1" }), .statement 0 {},
    .statement 0 {}, .request (.claim 0 1 10)] ++ List.replicate 4 (.statement 1 {})

def moved : List (Pool.Event BrokerRequest BrokerIo) :=
  delivered ++ [.request (.tick 10), .statement 2 {},
    .request (.claim 1 1 10)] ++ List.replicate 4 (.statement 3 {})

def nackedLate : List (Pool.Event BrokerRequest BrokerIo) :=
  moved ++ [.request (.nack 0 1), .statement 4 {}, .statement 4 {},
    .request (.claim 2 1 10), .statement 5 {}, .statement 5 {}]

def claiming : List (Pool.Event BrokerRequest BrokerIo) :=
  delivered ++ [.request (.tick 10), .statement 2 {},
    .request (.claim 1 1 10), .statement 3 {}, .statement 3 {}]

end Example

open Example

theorem lease_exclusive_after_expiry : ∃ pool after delivery,
      Reaches settings.machine.step Timely (.quiet .empty) pool ∧
      settings.machine.step pool (.statement 3 {}) = some after ∧
      after.shared.deliveries = pool.shared.deliveries ++ [delivery] ∧
      Exclusive pool.shared after.shared := by
  have reached := @reaches_getD _ _ settings.machine.step Timely _
    (.quiet .empty) claiming (.quiet .empty) (by decide)
  have taken := @step_getD _ _ settings.machine.step _ (.statement 3 {}) (.quiet .empty)
    (show (settings.machine.step ((runEvents settings.machine.step (.quiet .empty)
        claiming).getD (.quiet .empty)) (.statement 3 {})).isSome = true by decide)
  exact ⟨_, _, ⟨1, 1, 20⟩, reached, taken, by decide, lease_exclusive reached taken⟩

theorem late_nack_breaks_lease : ∃ pool after delivery lease,
      Reachable settings.machine.step (.quiet .empty) pool ∧
      settings.machine.step pool (.statement 5 {}) = some after ∧
      after.shared.deliveries = pool.shared.deliveries ++ [delivery] ∧
      lease ∈ pool.shared.held ∧ lease.message = delivery.message ∧
      pool.shared.clock < lease.expires := by
  have reached := @reachable_getD _ _ settings.machine.step
    (.quiet .empty) nackedLate (.quiet .empty) (by decide)
  have taken := @step_getD _ _ settings.machine.step _ (.statement 5 {}) (.quiet .empty)
    (show (settings.machine.step ((runEvents settings.machine.step (.quiet .empty)
        nackedLate).getD (.quiet .empty)) (.statement 5 {})).isSome = true by decide)
  exact ⟨_, _, ⟨2, 1, 20⟩, ⟨1, 1, 20⟩, reached, taken, by decide, by decide,
    rfl, by decide⟩

end Harbor.Queue
