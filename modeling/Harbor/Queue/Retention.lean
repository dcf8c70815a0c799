import Harbor.Queue.Exclusive

/-!
# Published messages are kept

A message that was published stays in `queue_items` as it was published until
an `Ack` names it.  A `Nack` sets it aside by the attempts it has read, and
these never run ahead of the row's.
-/

namespace Harbor.Queue

open Library List Table

/-- What a statement that does not delete the row makes of it. -/
structure Follows (settings : Settings) (call : BrokerCall) (old new : Item) : Prop where
  same : new.id = old.id ∧ new.candidate = old.candidate ∧ new.mac = old.mac
  attempts : old.attempts ≤ new.attempts
  dead : new.status = .dead → old.status = .dead ∨
    (∃ consumer ttl item rest out, call = .claimLoop consumer ttl (item :: rest) out ∧
      item.mac ≠ settings.mac item.candidate) ∨
    ∃ consumer attempts, call = .nackUpdate consumer old.id attempts ∧
      settings.maxAttempts ≤ attempts

structure Fresh (settings : Settings) (broker after : Broker) (row : Item) : Prop where
  id : row.id = broker.lastID + 1
  last : after.lastID = broker.lastID + 1
  mac : row.mac = settings.mac row.candidate
  ready : row.status = .ready

/-- Where the rows after a statement come from, and where those before it go. -/
structure Change (settings : Settings) (broker : Broker) (call : BrokerCall) (after : Broker) :
    Prop where
  last : broker.lastID ≤ after.lastID
  back : ∀ row ∈ after.items.rows, (∃ old ∈ broker.items.rows, Follows settings call old row) ∨
    Fresh settings broker after row
  forth : ∀ row ∈ broker.items.rows, (∃ new ∈ after.items.rows, Follows settings call row new) ∨
    ∃ consumer, call = .ackDelete consumer row.id

/-- A message that is set aside has used up its attempts. -/
structure Published (settings : Settings) (broker : Broker) (row : Item) : Prop where
  numbered : row.id ≤ broker.lastID
  mac : row.mac = settings.mac row.candidate
  tried : row.status = .dead → settings.maxAttempts ≤ row.attempts

/-- What a call has read agrees with the rows. -/
def Heeds (settings : Settings) (broker : Broker) : BrokerCall → Prop
  | .claimLoop _ _ rows _ => ∀ item ∈ rows, item.mac = settings.mac item.candidate
  | .nackUpdate _ id attempts => id ≤ broker.lastID ∧
    ∀ row ∈ broker.items.rows, row.id = id → attempts ≤ row.attempts
  | _ => True

def Unacked (id : Int) (pool : Pool Broker BrokerCall) : Pool.Event BrokerRequest BrokerIo → Prop
  | .statement index _ => ∀ consumer, pool.calls[index]? ≠ some (.ackDelete consumer id)
  | .request _ => True

/-- The message is there as it was published, and set aside only after all its
attempts. -/
def Retained (settings : Settings) (candidate : Candidate) (id : Int) (items : Items) : Prop :=
  ∃ row ∈ items.rows, row.id = id ∧ row.candidate = candidate ∧ row.mac = settings.mac candidate ∧
    (row.status = .dead → settings.maxAttempts ≤ row.attempts)

section

variable {opts : Settings} {b after : Broker} {io : BrokerIo} {call next : BrokerCall} {row : Item}

theorem Follows.refl : Follows opts call row row :=
  ⟨⟨rfl, rfl, rfl⟩, le_rfl, .inl⟩

theorem Change.map {change : Item → Item} (rows : after.items.rows = b.items.rows.map change)
    (last : after.lastID = b.lastID) (follows : ∀ row, Follows opts call row (change row)) :
    Change opts b call after where
  last := le_of_eq last.symm
  back := by
    intro row mem
    rw [rows] at mem
    obtain ⟨old, had, rfl⟩ := mem_map.mp mem
    exact .inl ⟨old, had, follows old⟩
  forth := fun row mem => .inl ⟨_, rows ▸ mem_map_of_mem mem, follows row⟩

theorem Change.still (rows : after.items.rows = b.items.rows) (last : after.lastID = b.lastID) :
    Change opts b call after :=
  .map (rows.trans (map_id _).symm) last fun _ => .refl

theorem Change.update {sel : Item → Bool} {change : Item → Item}
    (rows : after.items.rows = b.items.rows.map fun row => if sel row then change row else row)
    (last : after.lastID = b.lastID)
    (follows : ∀ row, sel row = true → Follows opts call row (change row)) :
    Change opts b call after := by
  refine .map rows last fun row => ?_
  split_ifs with hit
  · exact follows row hit
  · exact .refl

theorem heeds_ended {t : String} (heeds : Heeds opts b next) :
    Heeds opts b (Broker.ended io t next) := by
  unfold Broker.ended
  split_ifs
  · exact heeds
  · trivial

theorem publishInsert_change {c : Candidate} (ran : b.publishInsert opts io c = (after, next)) :
    Change opts b call after ∧ Heeds opts b next ∧
      (next = .done → ∃ row ∈ after.items.rows, row.candidate = c) := by
  unfold Broker.publishInsert at ran
  split_ifs at ran
  · cases ran
    exact ⟨.still rfl rfl, trivial, by rintro ⟨⟩⟩
  · split at ran <;> cases ran
    · exact ⟨.still rfl rfl, trivial, by rintro ⟨⟩⟩
    · rename_i items put
      have rows := (insert?_eq_some (insertCandidate_ok put).2).1
      refine ⟨⟨Int.le_add_one le_rfl, fun row mem => ?_, fun row mem => ?_⟩, heeds_ended trivial,
        fun _ => ⟨_, rows ▸ mem_append_right _ (mem_singleton_self _), rfl⟩⟩
      · change row ∈ items.rows at mem
        rw [rows, mem_append, mem_singleton] at mem
        rcases mem with mem | rfl
        · exact .inl ⟨row, mem, .refl⟩
        · exact .inr ⟨rfl, rfl, rfl, rfl⟩
      · exact .inl ⟨row, rows ▸ mem_append_left _ mem, .refl⟩

theorem leaseRow_change {who : Nat} {ttl : Int} {item : Item} {rest : List Item}
    {out : List Leased} : Change opts b (.claimLoop who ttl (item :: rest) out)
      (b.leaseRow opts io who ttl item).1 := by
  unfold Broker.leaseRow
  split
  · exact .still rfl rfl
  · dsimp only
    generalize eq : lease opts.mac (b.clock + ttl) item b.items [] = leased
    dsimp only [lease] at eq
    split_ifs at eq with forged <;> subst eq
    · exact .update rfl rfl fun row _ =>
        ⟨⟨rfl, rfl, rfl⟩, le_rfl, fun _ => .inr (.inl ⟨_, _, _, _, _, rfl, forged⟩)⟩
    · exact .still rfl rfl
    · exact .update rfl rfl fun row _ => ⟨⟨rfl, rfl, rfl⟩, Nat.le_succ _, by rintro ⟨⟩⟩

theorem nackUpdate_change {who tries : Nat} {id : Int}
    (ran : b.nackUpdate opts io who id tries = (after, next)) :
    Change opts b (.nackUpdate who id tries) after ∧ Heeds opts b next := by
  unfold Broker.nackUpdate at ran
  split at ran <;> cases ran
  · exact ⟨.still rfl rfl, trivial⟩
  · refine ⟨?_, heeds_ended trivial⟩
    unfold nackItem
    split_ifs with spent
    · refine .update rfl rfl fun row here => ?_
      cases beq_iff_eq.mp here
      exact ⟨⟨rfl, rfl, rfl⟩, le_rfl, fun _ => .inr (.inr ⟨_, _, rfl, spent⟩)⟩
    · exact .update rfl rfl fun row _ => ⟨⟨rfl, rfl, rfl⟩, le_rfl, by rintro ⟨⟩⟩

theorem ackDelete_change {who : Nat} {id : Int} (ran : b.ackDelete io who id = (after, next)) :
    Change opts b (.ackDelete who id) after ∧ Heeds opts b next := by
  unfold Broker.ackDelete at ran
  split at ran <;> cases ran
  · exact ⟨.still rfl rfl, trivial⟩
  · refine ⟨⟨le_rfl, fun row mem => .inl ⟨row, mem_of_mem_filter mem, .refl⟩, fun row mem => ?_⟩,
      heeds_ended trivial⟩
    by_cases eq : row.id = id
    · exact .inr ⟨who, by rw [eq]⟩
    · exact .inl ⟨row, mem_filter.mpr ⟨mem, bne_iff_ne.mpr eq⟩, .refl⟩

/-- One statement: what it does to the rows, and what its call has read then. -/
theorem advance_change (ran : b.advance opts io call = some (after, next))
    (sound : ∀ row ∈ b.items.rows, Published opts b row) (heeds : Heeds opts b call) :
    Change opts b call after ∧ Heeds opts b next := by
  cases call with
  | tick now =>
    simp only [Broker.advance] at ran
    split_ifs at ran
    cases ran
    exact ⟨.still rfl rfl, trivial⟩
  | publishDepth c =>
    cases ran
    refine ⟨.still rfl rfl, ?_⟩
    unfold Broker.publishDepth
    split_ifs <;> trivial
  | publishInsert c =>
    obtain ⟨change, read, -⟩ := publishInsert_change (Option.some.inj ran)
    exact ⟨change, read⟩
  | claimReclaim who m ttl now =>
    simp only [Broker.advance] at ran
    split_ifs at ran <;> cases ran
    · exact ⟨.still rfl rfl, trivial⟩
    · exact ⟨.update rfl rfl fun row _ => ⟨⟨rfl, rfl, rfl⟩, le_rfl, by rintro ⟨⟩⟩,
        heeds_ended trivial⟩
  | claimSelect who m ttl =>
    simp only [Broker.advance] at ran
    split_ifs at ran <;> cases ran
    · exact ⟨.still rfl rfl, trivial⟩
    · refine ⟨.still rfl rfl, fun item mem => (sound item ?_).mac⟩
      exact mem_of_mem_filter ((mem_insertionSort _).mp (mem_of_mem_take mem))
  | claimLoop who ttl rows out =>
    cases rows with
    | nil =>
      cases ran
      exact ⟨.still rfl rfl, trivial⟩
    | cons item rest =>
      cases ran
      exact ⟨leaseRow_change, fun alt mem => heeds alt (mem_cons_of_mem _ mem)⟩
  | ackDelete who id => exact ackDelete_change (Option.some.inj ran)
  | nackFirst who id =>
    simp only [Broker.advance] at ran
    split_ifs at ran
    · cases ran
      exact ⟨.still rfl rfl, trivial⟩
    · split at ran <;> cases ran
      · exact ⟨.still rfl rfl, trivial⟩
      · rename_i item hit
        obtain ⟨mem, rfl⟩ := find_eq_some_iff.mp hit
        refine ⟨.still rfl rfl, (sound item mem).numbered, fun row has eq => ?_⟩
        exact le_of_eq (congrArg _ (b.items.row_eq_of_key_eq mem has eq.symm))
  | nackUpdate who id tries => exact nackUpdate_change (Option.some.inj ran)
  | _ => cases ran

/-- What a call has read survives the statements of all calls. -/
theorem Change.heeds (change : Change opts b call after) {c : BrokerCall} (old : Heeds opts b c) :
    Heeds opts after c := by
  cases c with
  | nackUpdate who id tries =>
    obtain ⟨known, tried⟩ := old
    refine ⟨known.trans change.last, fun row mem eq => ?_⟩
    rcases change.back row mem with ⟨was, had, next⟩ | new
    · exact (tried was had (next.same.1.symm.trans eq)).trans next.attempts
    · have id := new.id
      omega
  | _ => exact old

theorem Change.rows (change : Change opts b call after) (heeds : Heeds opts b call)
    (sound : ∀ row ∈ b.items.rows, Published opts b row) :
    ∀ row ∈ after.items.rows, Published opts after row := by
  intro row mem
  rcases change.back row mem with ⟨was, had, ⟨id, content, code⟩, more, dead⟩ | new
  · obtain ⟨known, mac, tried⟩ := sound was had
    refine ⟨id ▸ known.trans change.last, by rw [code, content, mac], fun aside => ?_⟩
    rcases dead aside with already | ⟨_, _, item, _, _, rfl, forged⟩ | ⟨_, tries, rfl, spent⟩
    · exact (tried already).trans more
    · exact absurd (heeds item mem_cons_self) forged
    · exact (spent.trans (heeds.2 was had rfl)).trans more
  · exact ⟨le_of_eq (new.id.trans new.last.symm), new.mac, by rw [new.ready]; rintro ⟨⟩⟩

end

section

variable {settings : Settings} {pool after : Pool Broker BrokerCall}

theorem published_of_reaches (met : Reachable settings.machine.step (.quiet .empty) pool) :
    (∀ row ∈ pool.shared.items.rows, Published settings pool.shared row) ∧
      pool.All fun _ => Heeds settings pool.shared := by
  refine met.rely (fun b => ∀ row ∈ b.items.rows, Published settings b row)
    (fun b _ => Heeds settings b) ⟨?_, ?_⟩ ?_ ?_
  · intro row mem
    cases mem
  · intro idx c there
    cases there
  · intro b idx req _
    cases req <;> trivial
  · intro pool idx io c next b _ _ sound heeds ran
    obtain ⟨change, read⟩ := advance_change ran sound heeds
    exact ⟨change.rows heeds sound, change.heeds read, fun _ _ _ _ old => change.heeds old⟩

theorem kept_of_step {row : Item} {event : Pool.Event BrokerRequest BrokerIo}
    (met : Reachable settings.machine.step (.quiet .empty) pool)
    (mem : row ∈ pool.shared.items.rows) (unacked : Unacked row.id pool event)
    (taken : settings.machine.step pool event = some after) :
    ∃ new ∈ after.shared.items.rows, new.id = row.id ∧ new.candidate = row.candidate := by
  cases Machine.step_move taken with
  | requested => exact ⟨row, mem, rfl, rfl⟩
  | advanced here ran =>
    obtain ⟨sound, heeds⟩ := published_of_reaches met
    rcases (advance_change ran sound (heeds _ _ here)).1.forth row mem with
      ⟨new, has, next⟩ | ⟨who, rfl⟩
    · exact ⟨new, has, next.same.1, next.same.2.1⟩
    · exact absurd here (unacked who)

/-- A message whose `Publish` succeeded is retained until an `Ack` names it. -/
theorem published_kept {index : Nat} {io : BrokerIo} {candidate : Candidate}
    (reached : Reachable settings.machine.step (.quiet .empty) pool)
    (inserting : pool.calls[index]? = some (.publishInsert candidate))
    (taken : settings.machine.step pool (.statement index io) = some after)
    (succeeded : after.calls[index]? = some .done) :
    ∃ id, ∀ later, Reaches settings.machine.step (Unacked id) after later →
      Retained settings candidate id later.shared.items := by
  have now : Reachable settings.machine.step (.quiet .empty) after := .tail reached trivial taken
  obtain ⟨row, mem, rfl⟩ : ∃ row ∈ after.shared.items.rows, row.candidate = candidate := by
    cases Machine.step_move taken with
    | advanced here ran =>
      cases here.symm.trans inserting
      rw [List.getElem?_set_self (List.getElem?_eq_some_iff.mp here).1] at succeeded
      cases succeeded
      exact (@publishInsert_change _ _ _ _ .done _ _ (Option.some.inj ran)).2.2 rfl
  refine ⟨row.id, fun later met => ?_⟩
  have kept := met.invariant (fun pool => Reachable settings.machine.step (.quiet .empty) pool ∧
    ∃ new ∈ pool.shared.items.rows, new.id = row.id ∧ new.candidate = row.candidate)
    ⟨now, row, mem, rfl, rfl⟩ (by
      rintro pool after event ⟨there, new, has, id, content⟩ unacked taken
      obtain ⟨last, holds, eq, same⟩ := kept_of_step there has (id ▸ unacked) taken
      exact ⟨.tail there trivial taken, last, holds, eq.trans id, same.trans content⟩)
  obtain ⟨there, new, has, id, content⟩ := kept
  obtain ⟨-, mac, tried⟩ := (published_of_reaches there).1 new has
  exact ⟨new, has, id, content, content ▸ mac, tried⟩

end

open Example

theorem published_kept_e1 : ∃ pool after id, Reachable settings.machine.step (.quiet .empty) pool ∧
    settings.machine.step pool (.statement 0 {}) = some after ∧ ∀ later,
      Reaches settings.machine.step (Unacked id) after later →
        Retained settings { enrollmentID := "e1" } id later.shared.items := by
  have reached := @reachable_getD _ _ settings.machine.step (.quiet .empty)
    (delivered.take 2) (.quiet .empty) (by decide)
  have taken := @step_getD _ _ settings.machine.step _ (.statement 0 {}) (.quiet .empty)
    (show (settings.machine.step ((runEvents settings.machine.step (.quiet .empty)
      (delivered.take 2)).getD (.quiet .empty)) (.statement 0 {})).isSome = true by decide)
  obtain ⟨id, kept⟩ := @published_kept _ _ _ 0 _ { enrollmentID := "e1" } reached
    (by decide) taken (by decide)
  exact ⟨_, _, id, reached, taken, kept⟩

end Harbor.Queue
