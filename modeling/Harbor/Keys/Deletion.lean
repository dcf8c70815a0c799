import Harbor.Keys.Lifecycle
import Harbor.Library.Pool

/-!
# Deleting the signing key of a retired key

`ScheduleKeyDeletion` and `CancelKeyDeletion` change two stores in turn: the
custody backend, which keeps a key pending deletion for some days, and the row
of the key.  Each calls the backend first; a schedule whose row cannot be
written is taken back.  The CA registry and the registry of config-signing keys
do the same, up to their texts and the count of dependents.  The row is the one
of the registry, alone with its backend.

A backend that schedules only what is not pending and cancels only what is
makes every schedule and every cancel a token: the tokens of the calls under
way and the row always cover the backend.
-/

namespace Harbor.Keys

open Library Library.Text

/-- The CA registry counts the dependents of a key, the other one does not. -/
structure Custodian where
  countsDependents : Bool

/-- `internal/ca`. -/
def caCustodian : Custodian where
  countsDependents := true

/-- `internal/configkey`. -/
def configKeyCustodian : Custodian where
  countsDependents := false

inductive PersistFailure where
  | database (text : String)
  | raced
deriving DecidableEq, Repr

/-- The errors of both calls; `rollback` is the error of the cancel that was
to take the schedule back. -/
inductive DeletionError where
  | pendingWindow (days : Int)
  | get (text : String)
  | refused (error : Error)
  | countDependents (text : String)
  | dependents (count : Nat)
  | scheduleBackend (text : String)
  | persist (failure : PersistFailure) (kmsKeyID : String) (rollback : Option String)
  | notScheduled (id : Int)
  | cancelBackend (text : String)
  | cancelPersist (text : String)
deriving DecidableEq, Repr

structure Custody where
  key : Key
  pending : Bool

/-- What the outside decides about a statement: how it ends and with which
text, the clock, the date of the deletion, whether the backend refuses, and the
count of dependents. -/
structure CustodyIo where
  fault : Fault := .ok
  text : String := ""
  now : Int := 1
  running : 0 < now := by decide
  date : Int := 0
  refused : Bool := false
  dependents : Nat := 0

inductive DeletionRequest where
  | scheduleKeyDeletion (pendingDays : Int)
  | cancelKeyDeletion
  | transition (state : KeyState) (now : Int)

/-- Where a call stands, with the `KMSKeyID` it has read. -/
inductive DeletionCall where
  | scheduleGet (pendingDays : Int)
  | scheduleDependents (kmsKeyID : String)
  | scheduleBackend (kmsKeyID : String)
  | schedulePersist (kmsKeyID : String) (date : Int)
  | scheduleRollback (kmsKeyID : String) (failure : PersistFailure)
  | cancelGet
  | cancelBackend (kmsKeyID : String)
  | cancelPersist
  | transition (state : KeyState) (now : Int)
  | scheduled (date : Int)
  | cancelled
  | moved
  | failed (error : DeletionError)
deriving DecidableEq, Repr

def KeyState.leadsTo : KeyState → KeyState → Bool
  | .staged, .active | .active, .draining | .draining, .retired | .staged, .retired => true
  | _, _ => false

section

variable (custodian : Custodian) (custody : Custody) (io : CustodyIo)

/-- `deleter.ScheduleDeletion`. -/
def Custody.schedule : Except String Unit × Custody :=
  if io.refused ∨ custody.pending = true then (.error io.text, custody)
  else (.ok (), { custody with pending := true })

/-- `deleter.CancelDeletion`. -/
def Custody.cancel : Except String Unit × Custody :=
  if io.refused ∨ custody.pending = false then (.error io.text, custody)
  else (.ok (), { custody with pending := false })

def Custody.mark (scheduledAt date : Int) : Custody :=
  { custody with key := custody.key.marked scheduledAt date io.now }

def scheduleGet (pendingDays : Int) : DeletionCall :=
  if pendingDays < 7 ∨ pendingDays > 30 then
    .failed (.pendingWindow pendingDays)
  else if io.fault ≠ .ok then .failed (.get io.text)
  else
    match custody.key.refusal with
    | some error => .failed (.refused error)
    | none =>
      if custodian.countsDependents then .scheduleDependents custody.key.kmsKeyID
      else .scheduleBackend custody.key.kmsKeyID

/-- `LiveDependents` as the guard of `ScheduleKeyDeletion`. -/
def scheduleDependents (kmsKeyID : String) : DeletionCall :=
  if io.fault ≠ .ok then .failed (.countDependents io.text)
  else if io.dependents > 0 then .failed (.dependents io.dependents)
  else .scheduleBackend kmsKeyID

def schedulePersist (kmsKeyID : String) (date : Int) : Custody × DeletionCall :=
  if io.fault = .failed then
    (custody, .scheduleRollback kmsKeyID (.database io.text))
  else if custody.key.deletable then
    (custody.mark io io.now date,
      if io.fault = .ok then .scheduled date
      else .scheduleRollback kmsKeyID (.database io.text))
  else
    (custody, .scheduleRollback kmsKeyID (if io.fault = .ok then .raced else .database io.text))

def advanceCustody : DeletionCall → Option (Custody × DeletionCall)
  | .scheduleGet pendingDays =>
    some (custody, scheduleGet custodian custody io pendingDays)
  | .scheduleDependents kmsKeyID =>
    some (custody, scheduleDependents io kmsKeyID)
  | .scheduleBackend kmsKeyID =>
    match custody.schedule io with
    | (.error text, after) => some (after, .failed (.scheduleBackend text))
    | (.ok (), after) => some (after, .schedulePersist kmsKeyID io.date)
  | .schedulePersist kmsKeyID date =>
    some (schedulePersist custody io kmsKeyID date)
  | .scheduleRollback kmsKeyID failure =>
    match custody.cancel io with
    | (.error text, after) =>
      some (after, .failed (.persist failure kmsKeyID (some text)))
    | (.ok (), after) =>
      some (after, .failed (.persist failure kmsKeyID none))
  | .cancelGet =>
    if io.fault ≠ .ok then some (custody, .failed (.get io.text))
    else if custody.key.keyDeletionScheduledAt = 0 then
      some (custody, .failed (.notScheduled custody.key.id))
    else some (custody, .cancelBackend custody.key.kmsKeyID)
  | .cancelBackend _ =>
    match custody.cancel io with
    | (.error text, after) => some (after, .failed (.cancelBackend text))
    | (.ok (), after) => some (after, .cancelPersist)
  | .cancelPersist =>
    if io.fault = .failed then
      some (custody, .failed (.cancelPersist io.text))
    else
      some (custody.mark io 0 0,
        if io.fault = .ok then .cancelled
        else .failed (.cancelPersist io.text))
  | .transition state now =>
    if custody.key.state.leadsTo state then
      some ({ custody with
        key := { custody.key with state := state, updatedAt := now } },
        .moved)
    else none
  | _ => none

end

def Custodian.machine (custodian : Custodian) :
    Machine Custody DeletionRequest CustodyIo DeletionCall where
  accept _ request :=
    match request with
    | .scheduleKeyDeletion pendingDays => .scheduleGet pendingDays
    | .cancelKeyDeletion => .cancelGet
    | .transition state now => .transition state now
  advance _ custody io call := advanceCustody custodian custody io call

/-- Both UPDATEs do to the row of the registry what they do to the row alone. -/
theorem advanceDeletion_row {db after : Database} {sql : Io} {custody : Custody} {io : CustodyIo}
    {id : Int} {next : Call}
    (found : db.keys.find id = some custody.key)
    (alike : sql.fault = io.fault) :
    (advanceDeletion me db sql (.scheduleUpdate id io.now date) = some (after, next) →
      after.keys.find id = some (schedulePersist custody io kmsKeyID date).1.key) ∧
    (advanceDeletion me db sql (.cancelUpdate id io.now) = some (after, next) →
      ∃ following, advanceCustody custodian custody io .cancelPersist = some following ∧
        after.keys.find id = some following.1.key) := by
  have marked (scheduledAt date : Int) :
      (db.keys.mark id scheduledAt date io.now).find id =
        some (custody.mark io scheduledAt date).key := by
    rw [Keyring.mark, Table.find_update, found]
    simp [Custody.mark, (Table.find_eq_some_iff.mp found).2]
  simp only [advanceDeletion, updateOne, found, alike, schedulePersist, advanceCustody]
  constructor
  · intro ran
    split_ifs at ran ⊢ <;> cases ran <;> first | exact found | exact marked io.now date
  · intro ran
    split_ifs at ran ⊢ <;> cases ran
    · exact ⟨_, rfl, found⟩
    · exact ⟨_, rfl, marked 0 0⟩
    · exact ⟨_, rfl, marked 0 0⟩

def DeletionCall.ended : DeletionCall → Bool
  | .scheduled _ | .cancelled | .moved | .failed _ => true
  | _ => false

def DeletionCall.reportsRollback : DeletionCall → Bool
  | .failed (.persist _ _ rollback) => rollback.isSome
  | _ => false

def Custody.recorded (custody : Custody) : Bool :=
  custody.key.keyDeletionScheduledAt ≠ 0

theorem KeyState.leadsTo_iff : old.leadsTo new = true ↔ Arrow old new := by
  constructor
  · intro leads
    cases old <;> cases new <;> cases leads
    · exact .activate
    · exact .abandon
    · exact .drain
    · exact .retire
  · intro arrow
    cases arrow <;> rfl

section

variable {custodian : Custodian} {hold fin : Custody} {io : CustodyIo}
  {call next : DeletionCall}

def DeletionCall.guarded : DeletionCall → Bool
  | .scheduleDependents _ | .scheduleBackend _ | .schedulePersist _ _
  | .scheduleRollback _ _ => true
  | _ => false

/-- A schedule that has reached the backend owes the row a record; a cancel
that has reached it owes the row an erasure. -/
def DeletionCall.token : DeletionCall → Int
  | .schedulePersist _ _ | .scheduleRollback _ _ => 1
  | .cancelPersist => -1
  | _ => 0

def Custody.surplus (custody : Custody) : Int :=
  custody.recorded.toNat - custody.pending.toNat

inductive Shift (custody : Custody) (io : CustodyIo) (call : DeletionCall) :
    Custody → DeletionCall → Prop where
  | kept {next : DeletionCall} (token : call.token ≤ next.token) (guard : next.guarded = true →
        call.guarded = true ∨ custody.key.state = .retired) : Shift custody io call custody next
  | scheduled {next : DeletionCall} (idle : custody.pending = false)
      (guarded : call.guarded = true) (token : next.token = call.token + 1) :
      Shift custody io call { custody with pending := true } next
  | restored {next : DeletionCall} (waiting : custody.pending = true)
      (token : next.token = call.token - 1) (ended : next.guarded = false) :
      Shift custody io call { custody with pending := false } next
  | unrestored {next : DeletionCall} (reported : next.reportsRollback = true)
      (ended : next.guarded = false) : Shift custody io call custody next
  | recorded {date : Int} {next : DeletionCall}
      (unrecorded : custody.key.keyDeletionScheduledAt = 0)
      (guarded : call.guarded = true) (token : call.token - 1 ≤ next.token) :
      Shift custody io call (custody.mark io io.now date) next
  | erased {next : DeletionCall} (token : next.token = call.token + 1)
      (ended : next.guarded = false) : Shift custody io call (custody.mark io 0 0) next
  | moved {state : KeyState} {now : Int} {next : DeletionCall}
      (arrow : Arrow custody.key.state state)
      (token : next.token = call.token) (ended : next.guarded = false) : Shift custody io call
        { custody with
          key := { custody.key with state := state, updatedAt := now } } next

theorem scheduleGet_shift (days : Int) : Shift hold io (.scheduleGet days) hold
      (scheduleGet custodian hold io days) := by
  unfold scheduleGet
  split_ifs
  · exact .kept (le_refl _) (by rintro ⟨⟩)
  · exact .kept (le_refl _) (by rintro ⟨⟩)
  all_goals
    split
    · exact .kept (le_refl _) (by rintro ⟨⟩)
    · rename_i passed
      exact .kept (le_refl _) fun _ => .inr (Key.retired_of_refusal passed)

theorem scheduleDependents_shift (kms : String) :
    Shift hold io (.scheduleDependents kms) hold (scheduleDependents io kms) := by
  unfold scheduleDependents
  split_ifs <;> exact .kept (le_refl _) fun _ => .inl rfl

theorem schedulePersist_shift (kms : String) (date : Int) :
    Shift hold io (.schedulePersist kms date) (schedulePersist hold io kms date).1
      (schedulePersist hold io kms date).2 := by
  unfold schedulePersist
  split_ifs with fail unlog
  · exact .kept (le_refl _) fun _ => .inl rfl
  · exact .recorded (by simp_all [Key.deletable]) rfl (le_refl _)
  · refine .recorded (by simp_all [Key.deletable]) rfl ?_
    simp only [DeletionCall.token]
    omega
  · exact .kept (le_refl _) fun _ => .inl rfl
  · exact .kept (le_refl _) fun _ => .inl rfl

theorem Custody.schedule_cases (hold : Custody) (io : CustodyIo) :
    (∃ t, hold.schedule io = (.error t, hold)) ∨ hold.pending = false ∧
        hold.schedule io = (.ok (), { hold with pending := true }) := by
  unfold schedule
  split_ifs with bad
  · exact .inl ⟨io.text, rfl⟩
  · simp only [not_or, Bool.not_eq_true] at bad
    exact .inr ⟨bad.2, rfl⟩

theorem Custody.cancel_cases (hold : Custody) (io : CustodyIo) :
    (∃ t, hold.cancel io = (.error t, hold)) ∨ hold.pending = true ∧
        hold.cancel io = (.ok (), { hold with pending := false }) := by
  unfold cancel
  split_ifs with bad
  · exact .inl ⟨io.text, rfl⟩
  · simp only [not_or, Bool.not_eq_false] at bad
    exact .inr ⟨bad.2, rfl⟩

theorem advanceCustody_shift (ran : advanceCustody custodian hold io call = some (fin, next)) :
    Shift hold io call fin next := by
  cases call with
  | scheduleGet days =>
    cases ran
    exact scheduleGet_shift days
  | scheduleDependents kms =>
    cases ran
    exact scheduleDependents_shift kms
  | scheduleBackend kms =>
    rcases hold.schedule_cases io with
      ⟨t, bad⟩ | ⟨idle, took⟩
    · simp only [advanceCustody, bad] at ran
      cases ran
      exact .kept (le_refl _) fun _ => .inl rfl
    · simp only [advanceCustody, took] at ran
      cases ran
      exact .scheduled idle rfl rfl
  | schedulePersist kms date =>
    simp only [advanceCustody, Option.some.injEq] at ran
    have sh := @schedulePersist_shift hold io kms date
    rwa [ran] at sh
  | scheduleRollback kms fail =>
    rcases hold.cancel_cases io with
      ⟨t, bad⟩ | ⟨due, took⟩
    · simp only [advanceCustody, bad] at ran
      cases ran
      exact .unrestored rfl rfl
    · simp only [advanceCustody, took] at ran
      cases ran
      exact .restored due rfl rfl
  | cancelGet =>
    simp only [advanceCustody] at ran
    split_ifs at ran <;> cases ran <;>
      exact .kept (le_refl _) (by rintro ⟨⟩)
  | cancelBackend kms =>
    rcases hold.cancel_cases io with
      ⟨t, bad⟩ | ⟨due, took⟩
    · simp only [advanceCustody, bad] at ran
      cases ran
      exact .kept (le_refl _) (by rintro ⟨⟩)
    · simp only [advanceCustody, took] at ran
      cases ran
      exact .restored due rfl rfl
  | cancelPersist =>
    simp only [advanceCustody] at ran
    split_ifs at ran <;> cases ran
    · refine .kept ?_ (by rintro ⟨⟩)
      simp only [DeletionCall.token]
      omega
    · exact .erased rfl rfl
    · exact .erased rfl rfl
  | transition s now =>
    simp only [advanceCustody] at ran
    split_ifs at ran with leads
    cases ran
    exact .moved (KeyState.leadsTo_iff.mp leads) rfl rfl
  | _ => cases ran

theorem Custody.surplus_recorded (hold : Custody) (io : CustodyIo)
    (date : Int) (unlog : hold.key.keyDeletionScheduledAt = 0) :
    (hold.mark io io.now date).surplus = hold.surplus + 1 := by
  have set : io.now ≠ 0 := ne_of_gt io.running
  simp only [surplus, recorded, mark, Key.marked, unlog, set, ne_eq,
    not_true_eq_false, not_false_eq_true, decide_true, decide_false,
    Bool.toNat_true, Bool.toNat_false]
  omega

theorem Custody.surplus_erased (hold : Custody) (io : CustodyIo) :
    hold.surplus - 1 ≤ (hold.mark io 0 0).surplus := by
  have cap : hold.recorded.toNat ≤ 1 := Bool.toNat_le _
  simp only [surplus, mark, Key.marked, recorded, ne_eq, not_true_eq_false,
    decide_false, Bool.toNat_false] at cap ⊢
  omega

theorem Shift.surplus (shift : Shift hold io call fin next) : next.reportsRollback = true ∨
      hold.surplus + call.token ≤ fin.surplus + next.token := by
  cases shift with
  | kept tok =>
    right
    omega
  | scheduled idle _ tok =>
    right
    simp only [Custody.surplus, Custody.recorded, idle, tok, Bool.toNat_true, Bool.toNat_false]
    omega
  | restored waits tok =>
    right
    simp only [Custody.surplus, Custody.recorded, waits, tok, Bool.toNat_true, Bool.toNat_false]
    omega
  | unrestored said => exact .inl said
  | @recorded date _ unlog _ tok =>
    right
    rw [hold.surplus_recorded io date unlog]
    omega
  | erased tok =>
    right
    have erased := hold.surplus_erased io
    omega
  | moved _ tok =>
    right
    rw [tok]
    exact le_refl _

theorem Shift.retired (sh : Shift hold io call fin next)
    (retired : hold.key.state = .retired) : fin.key.state = .retired := by
  cases sh with
  | moved arrow =>
    rw [retired] at arrow
    cases arrow
  | _ => exact retired

theorem Shift.guarded (sh : Shift hold io call fin next)
    (safe : call.guarded = true → hold.key.state = .retired)
    (wait : hold.pending = true → hold.key.state = .retired) :
    (fin.pending = true → fin.key.state = .retired) ∧
      (next.guarded = true → fin.key.state = .retired) := by
  have kept : hold.key.state = .retired → fin.key.state = .retired := sh.retired
  cases sh with
  | kept _ chk =>
    refine ⟨wait, ?_⟩
    intro good
    rcases chk good with was | retired
    · exact safe was
    · exact retired
  | scheduled _ good => exact ⟨fun _ => safe good, fun _ => safe good⟩
  | recorded _ good => exact ⟨fun _ => safe good, fun _ => safe good⟩
  | restored _ _ past =>
    refine ⟨by rintro ⟨⟩, ?_⟩
    intro good
    rw [past] at good
    cases good
  | unrestored _ past =>
    refine ⟨wait, ?_⟩
    intro good
    rw [past] at good
    cases good
  | erased _ past | moved _ _ past =>
    refine ⟨fun idle => kept (wait idle), ?_⟩
    intro good
    rw [past] at good
    cases good

end

section

variable {custodian : Custodian} {finish : Pool Custody DeletionCall}

theorem retired_of_pending (wait : hold.pending = true → hold.key.state = .retired)
    (met : Reachable custodian.machine.step (.quiet hold) finish) :
    finish.shared.pending = true → finish.shared.key.state = .retired := by
  have both := met.rely (fun hold => hold.pending = true → hold.key.state = .retired)
    (fun hold _ c =>
      c.guarded = true → hold.key.state = .retired)
    ⟨wait, fun _ _ here => by cases here⟩
    (fun _ req _ => by cases req <;> rintro ⟨⟩)
    (by
      intro p idx io c next shared _ _ idle safe ran
      have sh := advanceCustody_shift ran
      obtain ⟨kept, good⟩ := sh.guarded safe idle
      refine ⟨kept, good, ?_⟩
      intro _ _ _ _ alt isGuarded
      exact sh.retired (alt isGuarded))
  exact both.1

def RollbackReported (pool : Pool Custody DeletionCall) : Prop :=
  ∃ call ∈ pool.calls, call.reportsRollback = true

theorem reported_or_covered (kept : hold.pending = true → hold.recorded = true)
    (met : Reachable custodian.machine.step (.quiet hold) finish) : RollbackReported finish ∨
      0 ≤ finish.shared.surplus + finish.total DeletionCall.token := by
  refine met.invariant (fun pool => RollbackReported pool ∨
    0 ≤ pool.shared.surplus + pool.total DeletionCall.token) ?_ ?_
  · right
    rw [Pool.total_quiet, Int.add_zero]
    show 0 ≤ hold.surplus
    unfold Custody.surplus
    cases idle : hold.pending with
    | false => simp
    | true => simp [kept idle]
  · intro pool post ev holds _ did
    cases Machine.step_move did with
    | requested req =>
      rcases holds with ⟨call, mem, said⟩ | covered
      · exact .inl ⟨call, List.mem_append_left _ mem, said⟩
      · right
        have none : (custodian.machine.accept pool.shared req).token =
            0 := by cases req <;> rfl
        rw [Pool.total_append, none, Int.add_zero]
        exact covered
    | @advanced index io call next both here ran =>
      have shift := advanceCustody_shift ran
      have pos : index < pool.calls.length := (List.getElem?_eq_some_iff.mp here).1
      have had : next ∈ pool.calls.set index next := List.mem_set pos next
      rcases holds with ⟨other, mem, said⟩ | covered
      · left
        obtain ⟨place, there⟩ := List.mem_iff_getElem?.mp mem
        by_cases same : place = index
        · subst same
          rw [here, Option.some.injEq] at there
          subst there
          cases call with
          | failed error => cases ran
          | _ => cases said
        · refine ⟨other, List.mem_iff_getElem?.mpr ⟨place, ?_⟩, said⟩
          rw [List.getElem?_set_ne (Ne.symm same), there]
      · rcases shift.surplus with said | grown
        · exact .inl ⟨next, had, said⟩
        · right
          rw [Pool.total_set both DeletionCall.token here]
          show 0 ≤ both.surplus + _
          omega

/-- When all calls have returned, a key that the backend has pending deletion
is recorded or a failed rollback has been reported; and only a retired key is
ever pending. -/
theorem key_deletion_never_silent {custody : Custody}
    (recorded : custody.pending = true → custody.recorded = true)
    (retired : custody.pending = true → custody.key.state = .retired)
    (reached : Reachable custodian.machine.step (.quiet custody) finish) :
    ((∀ call ∈ finish.calls, call.ended = true) → finish.shared.pending = true →
      finish.shared.recorded = true ∨ ∃ call ∈ finish.calls, call.reportsRollback = true) ∧
    (finish.shared.pending = true → finish.shared.key.state = .retired) := by
  refine ⟨?_, retired_of_pending retired reached⟩
  intro ended waiting
  rcases reported_or_covered recorded reached with reported | covered
  · exact .inr reported
  · left
    have settled : finish.total DeletionCall.token = 0 := by
      apply Pool.total_eq_zero
      intro call present
      have finished := ended call present
      cases call <;> first | rfl | cases finished
    rw [settled, Int.add_zero, Custody.surplus, waiting] at covered
    cases known : finish.shared.recorded with
    | true => rfl
    | false =>
      rw [known] at covered
      cases covered

def retiredKey : Key where
  id := 7
  name := "ca-2025"
  fingerprint := "f7"
  pem := "pem"
  kmsKeyID := "key-7"
  state := .retired

def rescheduled : List (Pool.Event DeletionRequest CustodyIo) :=
  [.request (.scheduleKeyDeletion 7), .statement 0 {}, .statement 0 {},
    .statement 0 { date := 9 }, .statement 0 { fault := .failed },
    .statement 0 {}, .request (.scheduleKeyDeletion 30), .statement 1 {},
    .statement 1 {}, .statement 1 { date := 9 }, .statement 1 {}]

theorem key_deletion_never_silent_rescheduled : ∃ finish, Reachable caCustodian.machine.step
        (.quiet { key := retiredKey, pending := false }) finish ∧ finish.shared.pending = true ∧
      (finish.shared.recorded = true ∨ ∃ call ∈ finish.calls, call.reportsRollback = true) ∧
      finish.shared.key.state = .retired := by
  have reached := @reachable_getD _ _ caCustodian.machine.step
    (.quiet { key := retiredKey, pending := false }) rescheduled
    (.quiet { key := retiredKey, pending := false }) (by decide)
  obtain ⟨recorded, retired⟩ :=
    key_deletion_never_silent (by decide) (by decide) reached
  exact ⟨_, reached, by decide, recorded (by decide) (by decide), retired (by decide)⟩

end

end Harbor.Keys
