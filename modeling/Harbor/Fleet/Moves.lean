import Harbor.Fleet.System
import Harbor.Library.Run

/-!
# What a step of the fleet can do

The moves of each table under one step, with the position that causes them.
The results about the reaper and about leases start from these.
-/

namespace Harbor.Fleet

open Library Ipam Option Table

namespace State

def releases (state : State) : Event → Option Addr
  | .passStatement _ =>
    match state.pass with
    | .reap .release _ target _ => some target.candidate.overlayIP
    | _ => none
  | .statement me _ =>
    match state.calls me with
    | .enrollRelease ip => some ip
    | _ => none
  | _ => none

def inserts (state : State) : Event → Option (Addr × String × Int)
  | .statement me _ =>
    match state.calls me with
    | .beatInsert dev _ id => some (dev.overlayIP, dev.deviceName, id)
    | .enrollInsert joiner id ip => some (ip, joiner.name, id)
    | _ => none
  | _ => none

def records (state : State) : Event → Option Heartbeat
  | .statement me _ =>
    match state.calls me with
    | .beatRecord dev certNotAfter _ =>
      some
        { overlayIP := dev.overlayIP, deviceName := dev.deviceName
          certNotAfter := certNotAfter, lastSeen := state.clock }
    | _ => none
  | _ => none

end State

inductive AllocationMove (config : Config) (state : State) (event : Event) :
    Allocations → Prop where
  | same : AllocationMove config state event state.db.allocations
  | purged : AllocationMove config state event (state.db.allocations.purgeExpired state.clock)
  | released {ip : Addr} (position : state.releases event = some ip) :
      AllocationMove config state event (state.db.release config state.clock ip).allocations
  | inserted {ip : Addr} {name : String} {id : Int} {allocations : Allocations}
      (position : state.inserts event = some (ip, name, id))
      (added : state.db.allocations.insert? (leaseRow state.clock ip id) = some allocations) :
      AllocationMove config state event allocations

inductive HeartbeatMove (state : State) (event : Event) : Table Heartbeat.overlayIP → Prop where
  | same : HeartbeatMove state event state.db.heartbeats
  | forgotten (ip : Addr) : HeartbeatMove state event (state.db.forget ip).heartbeats
  | recorded {beat : Heartbeat} (position : state.records event = some beat) :
      HeartbeatMove state event (state.db.record beat).heartbeats

def KeepsNames (before after : Database) : Prop :=
  ∀ id name, (before.devices.find id).map Device.name = some name →
    (after.devices.find id).map Device.name = some name

theorem KeepsNames.of_eq (eq : new.devices = was.devices) : KeepsNames was new := by
  intro id n same
  rw [eq]
  exact same

section

variable {db : Database} {name : String} {now : Int}

theorem ensureDevice_cases (db : Database) (name : String) (now : Int) :
    (db.ensureDevice name now).1.allocations = db.allocations ∧
      (db.ensureDevice name now).1.heartbeats = db.heartbeats ∧
      (db.ensureDevice name now).1.enrollments = db.enrollments := by
  unfold Database.ensureDevice
  split
  · exact ⟨rfl, rfl, rfl⟩
  · simp only
    split
    · exact ⟨rfl, rfl, rfl⟩
    · exact ⟨rfl, rfl, rfl⟩

theorem keepsNames_insert (ins : db.devices.insert? row = some devices) :
    KeepsNames db { db with devices := devices } := by
  intro id seen same
  obtain ⟨_, away⟩ := Table.insert?_eq_some ins
  simp only [find_insert? ins]
  split_ifs with eq
  · rw [eq, away] at same
    cases same
  · exact same

theorem ensureDevice_keepsNames : KeepsNames db (db.ensureDevice name now).1 := by
  unfold Database.ensureDevice
  split
  · exact .of_eq rfl
  · simp only
    split
    · rename_i ins
      exact keepsNames_insert ins
    · exact .of_eq rfl

theorem ensureDevice_names : ((db.ensureDevice name now).1.devices.find
      (db.ensureDevice name now).2).map Device.name = some name := by
  unfold Database.ensureDevice
  split
  · rename_i row hit
    have mem := List.mem_of_find?_eq_some hit
    have eq := List.find?_some hit
    simp only [beq_iff_eq] at eq
    have seen : db.devices.find row.id = some row := find_eq_some_iff.mpr ⟨mem, rfl⟩
    simp only [seen, map_some, eq]
  · simp only
    split
    · rename_i ins
      simp [find_insert? ins]
    · rename_i deny
      obtain ⟨_, ins⟩ := db.devices.exists_insert?
        { id := nextID (db.devices.rows.map Device.id), name := name
          createdAt := now } (fun mem => (lt_irrefl _ (lt_nextID mem)))
      rw [ins] at deny
      cases deny

theorem stamp_keepsNames : KeepsNames db (db.stamp name now reason) := by
  intro id seen same
  simp only [Database.stamp, find_update, map_map]
  obtain ⟨row, hit, rfl⟩ := map_eq_some_iff.mp same
  rw [hit, map_some, Function.comp_apply]
  split_ifs <;> rfl

end

section

variable {cfg : Config} {t : Int} {db new : Database} {io : Io}
  {fault : Fault} {call next : Call} {pass nextPass : Pass}

theorem lease_devices {ip : Addr} {id : Int} {done ran fail : Call} :
    (lease t db fault ip id done ran fail).1.devices = db.devices ∧
      (lease t db fault ip id done ran fail).1.heartbeats =
        db.heartbeats := by
  unfold lease
  split
  · exact ⟨rfl, rfl⟩
  · split
    · exact ⟨rfl, rfl⟩
    · exact ⟨rfl, rfl⟩

theorem lease_allocations {ip : Addr} {id : Int} {done ran fail : Call} :
    (lease t db fault ip id done ran fail).1.allocations = db.allocations ∨
      db.allocations.insert? (leaseRow t ip id) =
        some (lease t db fault ip id done ran fail).1.allocations := by
  unfold lease
  split
  · exact .inl rfl
  · split
    · rename_i ins
      exact .inr ins
    · exact .inl rfl

structure CallMove (config : Config) (clock : Int) (db : Database)
    (call : Call) (after : Database) (next : Call) : Prop where
  names : KeepsNames db after
  allocations : after.allocations = db.allocations ∨
    after.allocations = db.allocations.purgeExpired clock ∨ (∃ ip, call = .enrollRelease ip ∧
      after.allocations = (db.release config clock ip).allocations) ∨
    (∃ dev certNotAfter id, call = .beatInsert dev certNotAfter id ∧
      db.allocations.insert? (leaseRow clock dev.overlayIP id) = some after.allocations) ∨
    ∃ joiner id ip, call = .enrollInsert joiner id ip ∧
      db.allocations.insert? (leaseRow clock ip id) = some after.allocations
  heartbeats : after.heartbeats = db.heartbeats ∨ ∃ dev certNotAfter asserted,
      call = .beatRecord dev certNotAfter asserted ∧ after.heartbeats = (db.record
        { overlayIP := dev.overlayIP, deviceName := dev.deviceName
          certNotAfter := certNotAfter, lastSeen := clock }).heartbeats

theorem CallMove.of_db (call next : Call) :
    CallMove cfg t db call db next :=
  ⟨.of_eq rfl, .inl rfl, .inl rfl⟩

theorem purge_move (call done fail : Call) : CallMove cfg t db call (purge t db fault done fail).1
      (purge t db fault done fail).2 := by
  unfold purge
  split_ifs
  · exact .of_db _ _
  · exact .of_db _ _
  · exact ⟨.of_eq rfl, .inr (.inl rfl), .inl rfl⟩
  · exact ⟨.of_eq rfl, .inr (.inl rfl), .inl rfl⟩

theorem ensure_move (call next : Call) : CallMove cfg t db call (db.ensureDevice n t).1 next := by
  obtain ⟨allocs, bs, _⟩ := ensureDevice_cases db n t
  exact ⟨ensureDevice_keepsNames, .inl allocs, .inl bs⟩

theorem purge_next (ran : purge t db fault done fail = (new, next)) :
    next = done ∨ next = fail := by
  unfold purge at ran
  obtain ⟨_, rfl⟩ := Prod.mk.inj ran
  split_ifs
  · exact .inl rfl
  · exact .inr rfl

theorem lease_next {ip : Addr} {id : Int} {done did fail : Call}
    (ran : lease t db fault ip id done did fail = (new, next)) :
    next = fail ∨ (next = done ∨ next = did) ∧ ∃ row ∈ new.allocations.rows, row.ip = ip := by
  unfold lease at ran
  split at ran
  · cases ran
    exact .inl rfl
  · split at ran
    · rename_i allocs ins
      obtain ⟨rfl, rfl⟩ := Prod.mk.inj ran
      split_ifs
      · refine .inr ⟨.inl rfl, leaseRow t ip id, ?_, rfl⟩
        rw [(Table.insert?_eq_some ins).1]
        exact List.mem_append_right _ (List.mem_singleton.mpr rfl)
      · exact .inl rfl
    · rename_i deny
      obtain ⟨rfl, rfl⟩ := Prod.mk.inj ran
      split_ifs
      · refine .inr ⟨.inr rfl, ?_⟩
        by_contra free
        obtain ⟨_, ins⟩ := db.allocations.exists_insert? (leaseRow t ip id)
          (fun mem => free (List.mem_map.mp mem))
        rw [ins] at deny
        cases deny
      · exact .inl rfl

inductive Follows (after : Database) : Call → Call → Prop where
  | enrolled (ip : Addr) (certNotAfter : Int) (dev : Issued) :
      Follows after (.beatDevice ip certNotAfter) (.beatOwner dev certNotAfter)
  | owned (dev : Issued) (certNotAfter : Int) :
      (∃ row ∈ after.allocations.rows, row.ip = dev.overlayIP) →
      Follows after (.beatOwner dev certNotAfter) (.beatRecord dev certNotAfter true)
  | ownerless (dev : Issued) (certNotAfter : Int) : Follows after (.beatOwner dev certNotAfter)
        (.beatEnsure dev certNotAfter)
  | ensured (dev : Issued) (certNotAfter id : Int) :
      (after.devices.find id).map Device.name = some dev.deviceName →
      Follows after (.beatEnsure dev certNotAfter) (.beatPurge dev certNotAfter id)
  | purged (dev : Issued) (certNotAfter id : Int) : Follows after (.beatPurge dev certNotAfter id)
        (.beatInsert dev certNotAfter id)
  | leased (dev : Issued) (certNotAfter id : Int) :
      (∃ row ∈ after.allocations.rows, row.ip = dev.overlayIP) →
      Follows after (.beatInsert dev certNotAfter id) (.beatRecord dev certNotAfter true)
  | unasserted (call : Call) (dev : Issued) (certNotAfter : Int) :
      Follows after call (.beatRecord dev certNotAfter false)
  | joins (joiner : Joiner) (id : Int) :
      (after.devices.find id).map Device.name = some joiner.name →
      Follows after (.enrollEnsure joiner) (.enrollPurge joiner id)
  | picks (joiner : Joiner) (id : Int) :
      Follows after (.enrollPurge joiner id) (.enrollPick joiner id)
  | inserts (joiner : Joiner) (id : Int) (ip : Addr) :
      Follows after (.enrollPick joiner id) (.enrollInsert joiner id ip)
  | retries (joiner : Joiner) (id : Int) (ip : Addr) :
      Follows after (.enrollInsert joiner id ip) (.enrollPick joiner id)
  | records (joiner : Joiner) (id : Int) (ip : Addr) :
      Follows after (.enrollInsert joiner id ip) (.enrollRecord joiner ip)
  | releases (call : Call) (ip : Addr) : Follows after call (.enrollRelease ip)
  | returns (call : Call) : Follows after call .returned

theorem lease_move {ip : Addr} {id : Int} (done did fail : Call)
    (pos : (∃ dev exp, call = .beatInsert dev exp id ∧ dev.overlayIP = ip) ∨
      ∃ glue, call = .enrollInsert glue id ip)
    (ran : lease t db fault ip id done did fail = (new, next)) :
    CallMove cfg t db call new next := by
  obtain ⟨devices, beats⟩ := @lease_devices t db fault ip id done did fail
  have allocs := @lease_allocations t db fault ip id done did fail
  rw [ran] at devices beats allocs
  refine ⟨.of_eq devices, ?_, .inl beats⟩
  rcases allocs with same | added
  · exact .inl same
  · rcases pos with ⟨dev, exp, rfl, rfl⟩ | ⟨glue, rfl⟩
    · exact .inr (.inr (.inr (.inl ⟨dev, exp, id, rfl, added⟩)))
    · exact .inr (.inr (.inr (.inr ⟨glue, id, ip, rfl, added⟩)))

theorem advanceBeat_move (ran : advanceBeat cfg t db io call = some (new, next)) :
    CallMove cfg t db call new next ∧ Follows new call next := by
  cases call with
  | beatDevice ip exp =>
    simp only [advanceBeat] at ran
    split at ran <;> cases ran
    · exact ⟨.of_db _ _, .enrolled ip exp _⟩
    · exact ⟨.of_db _ _, .returns _⟩
  | beatOwner dev exp =>
    simp only [advanceBeat] at ran
    split_ifs at ran with own <;> cases ran
    · obtain ⟨name, hit⟩ := isSome_iff_exists.mp own.2
      obtain ⟨row, lent, _⟩ := bind_eq_some_iff.mp hit
      exact ⟨.of_db _ _, .owned dev exp ⟨row, find_eq_some_iff.mp lent⟩⟩
    · exact ⟨.of_db _ _, .ownerless dev exp⟩
    · exact ⟨.of_db _ _, .unasserted _ dev exp⟩
  | beatEnsure dev exp =>
    simp only [advanceBeat] at ran
    split_ifs at ran <;> cases ran
    · exact ⟨ensure_move _ _, .ensured dev exp _ ensureDevice_names⟩
    · exact ⟨.of_db _ _, .unasserted _ dev exp⟩
  | beatPurge dev exp id =>
    simp only [advanceBeat, Option.some.injEq] at ran
    have move := @purge_move cfg t db io.fault
      (.beatPurge dev exp id) (.beatInsert dev exp id) (.beatRecord dev exp false)
    rw [ran] at move
    rcases purge_next ran with rfl | rfl
    · exact ⟨move, .purged dev exp id⟩
    · exact ⟨move, .unasserted _ dev exp⟩
  | beatInsert dev exp id =>
    simp only [advanceBeat, Option.some.injEq] at ran
    refine ⟨lease_move _ _ _ (.inl ⟨dev, exp, rfl, rfl⟩) ran, ?_⟩
    rcases lease_next ran with rfl | ⟨rfl | rfl, row⟩
    · exact .unasserted _ dev exp
    · exact .leased dev exp id row
    · exact .leased dev exp id row
  | beatRecord dev exp asserted =>
    simp only [advanceBeat] at ran
    split_ifs at ran <;> cases ran
    · exact ⟨.of_db _ _, .returns _⟩
    · exact ⟨⟨.of_eq rfl, .inl rfl, .inr ⟨dev, exp, asserted, rfl, rfl⟩⟩, .returns _⟩
  | _ => cases ran

theorem advanceEnroll_move (ran : advanceEnroll t db cfg io call = some (new, next)) :
    CallMove cfg t db call new next ∧ Follows new call next := by
  cases call with
  | enrollEnsure glue =>
    simp only [advanceEnroll] at ran
    split_ifs at ran <;> cases ran
    · exact ⟨ensure_move _ _, .joins glue _ ensureDevice_names⟩
    · exact ⟨.of_db _ _, .returns _⟩
  | enrollPurge glue id =>
    simp only [advanceEnroll, Option.some.injEq] at ran
    have move := @purge_move cfg t db io.fault
      (.enrollPurge glue id) (.enrollPick glue id) .returned
    rw [ran] at move
    rcases purge_next ran with rfl | rfl
    · exact ⟨move, .picks glue id⟩
    · exact ⟨move, .returns _⟩
  | enrollPick glue id =>
    simp only [advanceEnroll] at ran
    split at ran
    · cases ran
      exact ⟨.of_db _ _, .inserts glue id _⟩
    · split_ifs at ran <;> cases ran
      · exact ⟨.of_db _ _, .returns _⟩
      · exact ⟨.of_db _ _, .inserts glue id _⟩
  | enrollInsert glue id ip =>
    simp only [advanceEnroll, Option.some.injEq] at ran
    refine ⟨lease_move _ _ _ (.inr ⟨glue, rfl⟩) ran, ?_⟩
    rcases lease_next ran with rfl | ⟨rfl | rfl, _⟩
    · exact .returns _
    · exact .records glue id ip
    · split_ifs
      · exact .retries glue id ip
      · exact .returns _
  | enrollRecord glue ip =>
    simp only [advanceEnroll] at ran
    split at ran
    · cases ran
      exact ⟨.of_db _ _, .releases _ ip⟩
    · obtain ⟨rows, _, made⟩ := map_eq_some_iff.mp ran
      obtain ⟨rfl, rfl⟩ := Prod.mk.inj made
      refine ⟨⟨.of_eq rfl, .inl rfl, .inl rfl⟩, ?_⟩
      split_ifs
      · exact .returns _
      · exact .releases _ ip
  | enrollRelease ip =>
    simp only [advanceEnroll] at ran
    split_ifs at ran <;> cases ran
    · exact ⟨.of_db _ _, .returns _⟩
    · exact ⟨⟨.of_eq rfl, .inr (.inr (.inl ⟨ip, rfl, rfl⟩)), .inl rfl⟩, .returns _⟩
  | _ => cases ran

theorem advance_move (ran : (advanceBeat cfg t db io call).or
      (advanceEnroll t db cfg io call) = some (new, next)) :
    CallMove cfg t db call new next ∧ Follows new call next := by
  rcases or_eq_some_iff.mp ran with b | ⟨_, enroll⟩
  · exact advanceBeat_move b
  · exact advanceEnroll_move enroll

inductive Passes (config : Config) (clock : Int) (db : Database) :
    Pass → Database → Pass → Prop where
  | ended (pass : Pass) : Passes config clock db pass db .idle
  | loaded : Passes config clock db .load db (.select (loadCandidates config.withDefaults clock db))
  | selected (cands : List Candidate) : Passes config clock db (.select cands) db
      (.next clock (targets config.withDefaults clock cands))
  | released {after : Database} (now : Int) (target : Target) (rest : List Target)
      (wrote : after = db ∨ after = db.release config clock target.candidate.overlayIP) :
      Passes config clock db (.reap .release now target rest) after (.reap .delete now target rest)
  | forgot {after : Database} (now : Int) (target : Target) (rest : List Target)
      (wrote : after = db ∨ after = db.forget target.candidate.overlayIP) :
      Passes config clock db (.reap .delete now target rest) after (.reap .stamp now target rest)
  | stamped {after : Database} (now : Int) (target : Target) (rest : List Target)
      (wrote : after = db ∨ after = db.stamp target.candidate.deviceName now target.reason) :
      Passes config clock db (.reap .stamp now target rest) after (.next now rest)

theorem advancePass_passes (ran : advancePass cfg t db fault pass =
      some (new, nextPass)) : Passes cfg t db pass new nextPass := by
  have either : ∀ put : Database, (if fault = .failed then db else put) = db ∨
      (if fault = .failed then db else put) = put := by
    intro put
    split_ifs
    · exact .inl rfl
    · exact .inr rfl
  cases pass with
  | idle => cases ran
  | load =>
    simp only [advancePass] at ran
    split_ifs at ran <;> cases ran
    · exact .loaded
    · exact .ended _
  | select cs =>
    simp only [advancePass] at ran
    split_ifs at ran <;> cases ran
    · exact .ended _
    · exact .selected cs
  | reap lvl now tgt rest =>
    cases lvl with
    | release =>
      cases ran
      exact .released now tgt rest (either _)
    | delete =>
      cases ran
      exact .forgot now tgt rest (either _)
    | stamp =>
      cases ran
      exact .stamped now tgt rest (either _)

structure PassMove (config : Config) (clock : Int) (db : Database)
    (pass : Pass) (after : Database) : Prop where
  names : KeepsNames db after
  allocations : after.allocations = db.allocations ∨
    ∃ now target rest, pass = .reap .release now target rest ∧ after.allocations =
        (db.release config clock target.candidate.overlayIP).allocations
  heartbeats : after.heartbeats = db.heartbeats ∨ ∃ ip, after.heartbeats = (db.forget ip).heartbeats

theorem PassMove.of_db (pass : Pass) : PassMove cfg t db pass db :=
  ⟨.of_eq rfl, .inl rfl, .inl rfl⟩

theorem advancePass_move (ran : advancePass cfg t db fault pass = some (new, nextPass)) :
    PassMove cfg t db pass new := by
  cases advancePass_passes ran with
  | ended | loaded | selected => exact .of_db _
  | released now tgt rest put =>
    rcases put with rfl | rfl
    · exact .of_db _
    · exact ⟨.of_eq rfl, .inr ⟨now, tgt, rest, rfl, rfl⟩, .inl rfl⟩
  | forgot now tgt rest put =>
    rcases put with rfl | rfl
    · exact .of_db _
    · exact ⟨.of_eq rfl, .inl rfl, .inr ⟨_, rfl⟩⟩
  | stamped now tgt rest put =>
    rcases put with rfl | rfl
    · exact .of_db _
    · exact ⟨stamp_keepsNames, .inl rfl, .inl rfl⟩

end

section

variable {cfg : Config} {s new : State} {ev : Event}

theorem statement_move (did : cfg.step s (.statement c io) = some new) :
    ∃ next, CallMove cfg s.clock s.db (s.calls c) new.db
        next ∧
      new.calls = Function.update s.calls c next ∧
      new.pass = s.pass ∧ new.clock = s.clock := by
  simp only [Config.step] at did
  obtain ⟨⟨db, next⟩, ran, rfl⟩ := map_eq_some_iff.mp did
  exact ⟨next, (advance_move ran).1, rfl, rfl, rfl⟩

theorem passStatement_move (did : cfg.step s (.passStatement f) = some new) :
    PassMove cfg s.clock s.db s.pass new.db ∧ new.calls = s.calls ∧ new.clock = s.clock ∧
      advancePass cfg s.clock s.db f s.pass = some (new.db, new.pass) := by
  simp only [Config.step] at did
  obtain ⟨⟨db, pass⟩, ran, rfl⟩ := map_eq_some_iff.mp did
  exact ⟨advancePass_move ran, rfl, rfl, ran⟩

theorem step_other (ran : cfg.step s ev = some new) (notPass : ∀ f, ev ≠ .passStatement f)
    (notCall : ∀ c io, ev ≠ .statement c io) : new.db = s.db ∧ s.clock ≤ new.clock ∧
      (new.pass = s.pass ∨ new.pass = .load ∨ new.pass = .idle) := by
  cases ev with
  | tick now =>
    simp only [Config.step] at ran
    split_ifs at ran with late
    cases ran
    exact ⟨rfl, late, .inl rfl⟩
  | startPass =>
    simp only [Config.step] at ran
    split_ifs at ran
    cases ran
    exact ⟨rfl, le_refl _, .inr (.inl rfl)⟩
  | passStatement f => exact (notPass f rfl).elim
  | crashPass =>
    cases ran
    exact ⟨rfl, le_refl _, .inr (.inr rfl)⟩
  | request c req =>
    simp only [Config.step] at ran
    split_ifs at ran
    cases ran
    exact ⟨rfl, le_refl _, .inl rfl⟩
  | statement c io => exact (notCall c io rfl).elim
  | crash c =>
    cases ran
    exact ⟨rfl, le_refl _, .inl rfl⟩

theorem step_clock (ran : cfg.step s ev = some new) : s.clock ≤ new.clock := by
  cases ev with
  | passStatement f => exact le_of_eq (passStatement_move ran).2.2.1.symm
  | statement c io =>
    obtain ⟨_, _, _, _, eq⟩ := statement_move ran
    exact le_of_eq eq.symm
  | _ => exact (step_other ran (by simp) (by simp)).2.1

theorem step_pass (hop : cfg.step s ev = some new) :
    new.pass = s.pass ∨ new.pass = .load ∨ new.pass = .idle ∨ ∃ f, ev = .passStatement f := by
  cases ev with
  | passStatement f => exact .inr (.inr (.inr ⟨f, rfl⟩))
  | statement c io =>
    obtain ⟨_, _, _, eq, _⟩ := statement_move hop
    exact .inl eq
  | _ =>
    rcases (step_other hop (by simp) (by simp)).2.2 with eq | started | ended
    · exact .inl eq
    · exact .inr (.inl started)
    · exact .inr (.inr (.inl ended))

theorem step_keepsNames (ran : cfg.step s ev = some new) : KeepsNames s.db new.db := by
  cases ev with
  | passStatement f => exact (passStatement_move ran).1.names
  | statement c io =>
    obtain ⟨_, move, _⟩ := statement_move ran
    exact move.names
  | _ =>
    rw [(step_other ran (by simp) (by simp)).1]
    exact .of_eq rfl

theorem step_allocations (ran : cfg.step s ev = some new) :
    AllocationMove cfg s ev new.db.allocations := by
  cases ev with
  | passStatement f =>
    rcases (passStatement_move ran).1.allocations with eq | ⟨now, tgt, rest, pos, move⟩
    · rw [eq]
      exact .same
    · rw [move]
      exact .released (by simp [State.releases, pos])
  | statement c io =>
    obtain ⟨_, move, _⟩ := statement_move ran
    rcases move.allocations with eq | purged | ⟨ip, pos, free⟩ |
      ⟨dev, exp, id, pos, ins⟩ | ⟨glue, id, ip, pos, ins⟩
    · rw [eq]
      exact .same
    · rw [purged]
      exact .purged
    · rw [free]
      exact .released (by simp [State.releases, pos])
    · have adds : s.inserts (.statement c io) = some (dev.overlayIP, dev.deviceName, id) := by
        simp [State.inserts, pos]
      exact .inserted adds ins
    · have adds : s.inserts (.statement c io) = some (ip, glue.name, id) := by
        simp [State.inserts, pos]
      exact .inserted adds ins
  | _ =>
    rw [(step_other ran (by simp) (by simp)).1]
    exact .same

theorem step_heartbeats (ran : cfg.step s ev = some new) :
    HeartbeatMove s ev new.db.heartbeats := by
  cases ev with
  | passStatement f =>
    rcases (passStatement_move ran).1.heartbeats with eq | ⟨ip, move⟩
    · rw [eq]
      exact .same
    · rw [move]
      exact .forgotten ip
  | statement c io =>
    obtain ⟨_, move, _⟩ := statement_move ran
    rcases move.heartbeats with eq | ⟨dev, exp, asserted, pos, note⟩
    · rw [eq]
      exact .same
    · rw [note]
      exact .recorded (by simp [State.records, pos])
  | _ =>
    rw [(step_other ran (by simp) (by simp)).1]
    exact .same

end

end Harbor.Fleet
