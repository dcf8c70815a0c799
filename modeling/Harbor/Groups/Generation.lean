import Harbor.Groups.Moves

/-!
# Group generations

A change of the desired groups bumps `groups_generation`, a renewal writes the
generation it signed for to `issued_generation`, and a device whose two columns
differ is commanded to renew.  The bulk re-group guards its write by the
generation it saw; the single-device PATCH does not, so two PATCHes can give
one generation to two sets of groups.
-/

namespace Harbor.Groups

open Library Policy Table

/-- The recorded groups are the desired ones and the reserved ones of `held`. -/
def UpToDate (held : List String) (row : Enrollment) : Prop :=
  ∀ group, group ∈ row.groups ↔ group ∈ row.desiredGroups ∨
      isReservedGroup group = true ∧ group ∈ held

/-- The desired groups name no reserved group that is not held. -/
def Holds (held groups : List String) : Prop :=
  ∀ group ∈ groups, isReservedGroup group = true → group ∈ held

/-- A row that records exactly the reserved groups of `held`. -/
structure Reserves (held : List String) (row : Enrollment) : Prop where
  recorded : ∀ group, isReservedGroup group = true →
    (group ∈ row.groups ↔ group ∈ held)
  desired : Holds held row.desiredGroups

structure InStep (held : List String) (row : Enrollment) : Prop where
  behind : row.issuedGeneration ≤ row.groupsGeneration
  current : row.issuedGeneration = row.groupsGeneration → UpToDate held row
  reserved : Reserves held row

/-- A row that a renewal read earlier. -/
structure Snapshot (held : List String) (row dev : Enrollment) : Prop where
  older : dev.groupsGeneration ≤ row.groupsGeneration
  same : dev.groupsGeneration = row.groupsGeneration → dev.desiredGroups = row.desiredGroups
  reserved : Reserves held dev

def signedGroups (dev : Enrollment) : List String :=
  (keepReservedGroups dev.groups dev.desiredGroups).1

def CallInStep (held : List String) (id : Int) (db : Database) : Call → Prop
  | .renewRevocation dev | .renewSign dev =>
    dev.id = id → ∀ row, db.enrollments.find id = some row → Snapshot held row dev
  | .renewStamp dev groups _ | .renewOldExpiry dev groups _
  | .renewWriteBack dev groups _ _ =>
    dev.id = id → groups = signedGroups dev ∧
      ∀ row, db.enrollments.find id = some row → Snapshot held row dev
  | _ => True

def DeviceInStep (held : List String) (id : Int) (db : Database) : Prop :=
  ∃ row, db.enrollments.find id = some row ∧ InStep held row

def Call.patching : Call → Option Enrollment
  | .patchWrite _ dev _ => some dev
  | _ => none

def FreshPatch (id : Int) (state : State) : Event → Prop
  | .statement number io =>
    ∀ dev ∈ (state.calls number).patching, dev.id = id → io.dbError = none →
      ∀ row ∈ state.db.enrollments.find id, row.groupsGeneration = dev.groupsGeneration
  | _ => True

/-- The enrollment whose desired groups a call is about to write, with the
groups. -/
def Call.assigning : Call → Option (Int × List String)
  | .patchWrite _ dev groups => some (dev.id, groups)
  | .regroupWrite entry _ _ => some (entry.enrollmentID, normGroups entry.target)
  | _ => none

/-- A PATCH writes at the generation it read, and no call assigns the device a
reserved group that it does not hold. -/
def Orderly (held : List String) (id : Int) (state : State) (event : Event) : Prop :=
  FreshPatch id state event ∧
    match event with
    | .statement number _ =>
      ∀ write ∈ (state.calls number).assigning, write.1 = id → Holds held write.2
    | _ => True

instance (held : List String) (id : Int) (state : State) :
    DecidablePred (Orderly held id state)
  | .statement _ _ => inferInstanceAs (Decidable ((∀ dev ∈ _, _ → _ → _) ∧
      ∀ write ∈ _, _ → ∀ group ∈ _, _ → _))
  | .request .. | .commitRegroup .. | .revoke .. | .lift .. =>
    .isTrue ⟨trivial, trivial⟩

def Kept (held : List String) (id : Int) (db after : Database) : Prop :=
  DeviceInStep held id after ∧ ∀ call, CallInStep held id db call → CallInStep held id after call

section

variable {held : List String} {id : Int} {db fin : Database} {row edit dev : Enrollment}

def Evolves (row changed : Enrollment) : Prop :=
  changed.groupsGeneration = row.groupsGeneration ∧ changed.desiredGroups = row.desiredGroups ∨
    row.groupsGeneration < changed.groupsGeneration

theorem Snapshot.evolves (snap : Snapshot held row dev)
    (evolves : Evolves row edit) : Snapshot held edit dev := by
  rcases evolves with ⟨gen, want⟩ | later
  · exact ⟨gen ▸ snap.older, fun eq => want ▸ snap.same (eq.trans gen), snap.reserved⟩
  · have old := snap.older
    exact ⟨by omega, fun eq => by omega, snap.reserved⟩

theorem CallInStep.evolves (sync : CallInStep held id db c)
    (evolves : ∀ edit, fin.enrollments.find id = some edit →
      ∃ row, db.enrollments.find id = some row ∧ Evolves row edit) :
    CallInStep held id fin c := by
  have move : ∀ dev : Enrollment,
      (∀ row, db.enrollments.find id = some row → Snapshot held row dev) →
      ∀ edit, fin.enrollments.find id = some edit →
        Snapshot held edit dev := by
    intro dev snap edit hit
    obtain ⟨row, had, evolved⟩ := evolves edit hit
    exact (snap row had).evolves evolved
  cases c with
  | renewRevocation dev | renewSign dev => exact fun ours => move dev (sync ours)
  | renewStamp dev gs l | renewOldExpiry dev gs l
  | renewWriteBack dev gs l oldEnd => exact fun ours => ⟨(sync ours).1, move dev (sync ours).2⟩
  | _ => trivial

theorem DeviceInStep.update (sync : DeviceInStep held id db)
    {sel : Enrollment → Bool} {ch : Enrollment → Enrollment} (idKept : ∀ row, (ch row).id = row.id)
    (keep : ∀ row, db.enrollments.find id = some row → sel row = true →
      InStep held row → InStep held (ch row) ∧ Evolves row (ch row)) : Kept held id db
      { db with
        enrollments := db.enrollments.update sel ch idKept } := by
  obtain ⟨row, found, inv⟩ := sync
  have both : InStep held (if sel row then ch row else row) ∧
      Evolves row (if sel row then ch row else row) := by
    split
    · rename_i hit
      exact keep row found hit inv
    · exact ⟨inv, .inl ⟨rfl, rfl⟩⟩
  have had : (db.enrollments.update sel ch idKept).find id =
      some (if sel row then ch row else row) := by
    rw [find_update, found]
    rfl
  refine ⟨⟨_, had, both.1⟩, ?_⟩
  intro c idle
  refine idle.evolves ?_
  intro edit sought
  rw [had, Option.some.injEq] at sought
  exact ⟨row, found, sought ▸ both.2⟩

variable {groups : List String}

theorem InStep.setDesired (sync : InStep held row) (late : row.groupsGeneration < gen)
    (holds : Holds held groups) :
    InStep held { row with desiredGroups := groups, groupsGeneration := gen } ∧ Evolves row
        { row with
          desiredGroups := groups, groupsGeneration := gen } := by
  have past := sync.behind
  refine ⟨⟨?_, ?_, sync.reserved.recorded, holds⟩, .inr late⟩
  · dsimp only
    omega
  · dsimp only
    intro eq
    omega

theorem mem_signedGroups {grp : String} : grp ∈ signedGroups dev ↔ grp ∈ dev.desiredGroups ∨
        isReservedGroup grp = true ∧ grp ∈ dev.groups :=
  mem_keepReservedGroups

theorem Snapshot.setIssued (snap : Snapshot held row dev) (sync : InStep held row) : InStep held
        { row with
          groups := signedGroups dev
          issuedGeneration := dev.groupsGeneration
          reductionPendingEnforcement := due
          reductionOldNotAfter := notAfter } ∧
      Evolves row
        { row with
          groups := signedGroups dev
          issuedGeneration := dev.groupsGeneration
          reductionPendingEnforcement := due
          reductionOldNotAfter := notAfter } := by
  have signed : ∀ group, group ∈ signedGroups dev ↔ group ∈ dev.desiredGroups ∨
      isReservedGroup group = true ∧ group ∈ held := by
    intro group
    rw [mem_signedGroups]
    exact or_congr_right (and_congr_right (snap.reserved.recorded group))
  refine ⟨⟨snap.older, ?_, ?_, sync.reserved.desired⟩, .inl ⟨rfl, rfl⟩⟩
  · intro current group
    rw [← snap.same current]
    exact signed group
  · intro group reserved
    rw [signed]
    exact ⟨fun member => member.elim (snap.reserved.desired group · reserved) (·.2),
      fun member => .inr ⟨reserved, member⟩⟩

theorem DeviceInStep.of_same (sync : DeviceInStep held id db)
    (eq : SameTables db fin) : Kept held id db fin := by
  refine ⟨by unfold DeviceInStep; rw [eq.1]; exact sync, ?_⟩
  intro c idle
  refine idle.evolves ?_
  intro edit hit
  rw [eq.1] at hit
  exact ⟨edit, hit, .inl ⟨rfl, rfl⟩⟩

theorem DeviceInStep.setDesired (sync : DeviceInStep held id db) {chk : Enrollment → Bool}
    (late : ∀ row, db.enrollments.find id = some row → tgt = id →
      chk row = true → row.groupsGeneration < gen) (holds : tgt = id → Holds held groups) :
    Kept held id db (db.setDesired tgt chk groups gen) := by
  apply sync.update
  intro row found hit inv
  simp only [Bool.and_eq_true, beq_iff_eq] at hit
  have ours : tgt = id := hit.1.symm.trans (find_eq_some_iff.mp found).2
  exact inv.setDesired (late row found ours hit.2) (holds ours)

theorem DeviceInStep.setFingerprint (sync : DeviceInStep held id db) :
    Kept held id db (db.setFingerprint tgt l) := by
  apply sync.update
  intro row _ _ inv
  exact ⟨⟨inv.behind, inv.current, inv.reserved.recorded, inv.reserved.desired⟩,
    .inl ⟨rfl, rfl⟩⟩

theorem DeviceInStep.setIssued (sync : DeviceInStep held id db)
    (had : dev.id = id → groups = signedGroups dev ∧
      ∀ row, db.enrollments.find id = some row → Snapshot held row dev) : Kept held id db
      (db.setIssued dev.id dev.groupsGeneration groups oldEnd) := by
  apply sync.update
  intro row found hit inv
  simp only [Bool.and_eq_true, beq_iff_eq] at hit
  obtain ⟨rfl, snap⟩ := had (hit.1.symm.trans (find_eq_some_iff.mp found).2)
  exact (snap row found).setIssued inv

theorem DeviceInStep.snapshot (sync : DeviceInStep held id db)
    (hit : db.enrollments.latest sel = some dev) (ours : dev.id = id) :
    ∀ row, db.enrollments.find id = some row → Snapshot held row dev := by
  intro row had
  obtain ⟨mem, _⟩ := latest_eq_some_iff.mp hit
  have eq : db.enrollments.find id = some dev := find_eq_some_iff.mpr ⟨mem, ours⟩
  obtain ⟨actual, sought, inv⟩ := sync
  rw [eq, Option.some.injEq] at had sought
  subst had
  subst sought
  exact ⟨le_rfl, fun _ => rfl, inv.reserved⟩

end

section

variable {held : List String} {id : Int} {db fin : Database} {io : Io}
  {call next : Call} {dual : Bool}

theorem advance_inStep (sync : DeviceInStep held id db) (live : CallInStep held id db call)
    (new : ∀ ip dev gs, call = .patchWrite ip dev gs → dev.id = id → io.dbError = none →
      ∀ row, db.enrollments.find id = some row → row.groupsGeneration = dev.groupsGeneration)
    (holds : ∀ write ∈ call.assigning, write.1 = id → Holds held write.2)
    (ran : advance dual db io call = some (fin, next)) :
    DeviceInStep held id fin ∧ CallInStep held id fin next ∧ ∀ alt, CallInStep held id db alt →
        CallInStep held id fin alt := by
  cases advance_moves ran with
  | ended _ eq | patchRead eq _ =>
    obtain ⟨d, idle⟩ := sync.of_same eq
    exact ⟨d, trivial, idle⟩
  | @patchWritten ip dev gs resp put =>
    cases fail : io.dbError with
    | some err =>
      simp only [advance, advancePatch, fail, Option.some.injEq, Prod.mk.injEq] at ran
      obtain ⟨rfl, _⟩ := ran
      exact ⟨sync, trivial, fun _ idle => idle⟩
    | none =>
      subst put
      have late : ∀ row, db.enrollments.find id = some row → dev.id = id → true = true →
          row.groupsGeneration < dev.groupsGeneration + 1 := by
        intro row hit ours _
        have stay := new ip dev gs rfl ours fail row hit
        omega
      obtain ⟨d, idle⟩ := sync.setDesired late (holds _ rfl)
      exact ⟨d, trivial, idle⟩
  | regroupLooked _ _ eq | regroupRead eq =>
    obtain ⟨d, idle⟩ := sync.of_same eq
    exact ⟨d, trivial, idle⟩
  | @regroupWritten entry l res extended put =>
    subst put
    have late : ∀ row, db.enrollments.find id = some row → entry.enrollmentID = id →
        (row.groupsGeneration == entry.baseGeneration) = true →
        row.groupsGeneration < entry.baseGeneration + 1 := by
      intro row _ _ stay
      simp only [beq_iff_eq] at stay
      omega
    obtain ⟨d, idle⟩ := sync.setDesired late (holds _ rfl)
    exact ⟨d, trivial, idle⟩
  | renewRead eq hit =>
    obtain ⟨d, idle⟩ := sync.of_same eq
    refine ⟨d, ?_, idle⟩
    intro ours
    rw [eq.1]
    exact sync.snapshot hit ours
  | renewCleared eq _ =>
    obtain ⟨d, idle⟩ := sync.of_same eq
    exact ⟨d, idle (.renewSign _) live, idle⟩
  | renewSigned eq =>
    obtain ⟨d, idle⟩ := sync.of_same eq
    refine ⟨d, ?_, idle⟩
    exact fun ours => ⟨rfl, idle (.renewSign _) live ours⟩
  | @renewStamped dev gs leaf _ put move =>
    subst put
    obtain ⟨d, idle⟩ := sync.setFingerprint
    refine ⟨d, ?_, idle⟩
    rcases move with rfl | rfl
    · exact idle (.renewOldExpiry dev gs leaf) live
    · exact idle (.renewWriteBack dev gs leaf none) live
  | @renewAged dev gs leaf oldEnd eq =>
    obtain ⟨d, idle⟩ := sync.of_same eq
    exact ⟨d, idle (.renewWriteBack dev gs leaf oldEnd) live, idle⟩
  | @renewRecorded dev gs leaf oldEnd put =>
    rcases put with eq | rfl
    · obtain ⟨d, idle⟩ := sync.of_same eq
      exact ⟨d, trivial, idle⟩
    · obtain ⟨d, idle⟩ := sync.setIssued live
      exact ⟨d, trivial, idle⟩

theorem step_inStep {was fin : State} {ev : Event} (has : DeviceInStep held id was.db ∧
      ∀ num, CallInStep held id was.db (was.calls num))
    (may : Orderly held id was ev) (hop : step dual was ev = some fin) :
    DeviceInStep held id fin.db ∧ ∀ num, CallInStep held id fin.db (fin.calls num) := by
  refine step_preserves (DeviceInStep held id) (CallInStep held id)
    (Orderly held id) ?_ ?_ ?_ has may hop
  · intro db call new
    cases call <;> trivial
  · intro s num io call next fin may here sync live ran
    refine advance_inStep sync live ?_ (here ▸ may.2) ran
    intro ip dev gs puts
    have read : (s.calls num).patching = some dev := by
      rw [here, puts]
      rfl
    exact may.1 dev read
  · intro s ev gone _ _ sync
    exact ⟨sync, fun call idle => idle.evolves fun edit hit =>
      ⟨edit, hit, .inl ⟨rfl, rfl⟩⟩⟩

end

/-- In every run in which each PATCH of the device writes while the device's
generation is still the one it read, and in which the device is assigned no
reserved group it does not hold, the generations of the device tell its groups:
when they are equal the recorded groups are exactly the desired ones together
with the reserved groups it held at the start, and as long as they are not, the
device is commanded to renew. -/
theorem generations_tell_groups {dualControl : Bool} {start finish : State}
    {id : Int} {dev : Enrollment}
    (quiet : ∀ number, start.calls number = .idle)
    (found : start.db.enrollments.find id = some dev)
    (behind : dev.issuedGeneration ≤ dev.groupsGeneration)
    (current : dev.issuedGeneration = dev.groupsGeneration → UpToDate dev.groups dev)
    (desired : Holds dev.groups dev.desiredGroups)
    (reached : Reaches (step dualControl) (Orderly dev.groups id) start finish) :
    ∃ row, finish.db.enrollments.find id = some row ∧
      (row.issuedGeneration = row.groupsGeneration → UpToDate dev.groups row) ∧
      (¬ UpToDate dev.groups row → row.issuedGeneration < row.groupsGeneration) := by
  obtain ⟨⟨row, present, sound⟩, _⟩ := reached.invariant
    (fun state => DeviceInStep dev.groups id state.db ∧
      ∀ number, CallInStep dev.groups id state.db (state.calls number))
    ⟨⟨dev, found, behind, current, fun _ _ => Iff.rfl, desired⟩,
      fun number => by rw [quiet number]; trivial⟩ step_inStep
  refine ⟨row, present, sound.current, ?_⟩
  intro stale
  rcases lt_or_eq_of_le sound.behind with less | same
  · exact less
  · exact absurd (sound.current same) stale

namespace Example

def fleet : State :=
  { db := holding host, calls := fun _ => .idle }

def patches : List Event :=
  [.request 0 (.patchGroups "100.64.0.9" ["db"]), .request 1 (.patchGroups "100.64.0.9" ["mail"]),
    .statement 0 {}, .statement 1 {}, .statement 0 {}]

def renew : List Event :=
  [.request 2 (.renew "100.64.0.9"), .statement 2 {}, .statement 2 {},
    .statement 2 { leaf := some ⟨"cc", "ca", 0⟩ }, .statement 2 {},
    .statement 2 {}, .statement 2 {}]

def columns (state : State) : Option (Int × Int × List String × List String) :=
  (state.db.enrollments.find 7).map fun row =>
    (row.issuedGeneration, row.groupsGeneration, row.groups, row.desiredGroups)

end Example

open Example

/-- The second PATCH has not written yet. -/
theorem generations_tell_groups_renewed : ∃ finish,
      Reaches (step false) (Orderly ["web"] 7) fleet finish ∧
        Example.columns finish = some (1, 1, ["db"], ["db"]) ∧
        ∃ row, finish.db.enrollments.find 7 = some row ∧
          (row.issuedGeneration = row.groupsGeneration → UpToDate ["web"] row) ∧
          (¬ UpToDate ["web"] row → row.issuedGeneration < row.groupsGeneration) := by
  have executed : (runEvents (guarded (step false) (Orderly ["web"] 7)) fleet
        (patches ++ renew)).map Example.columns = some (some (1, 1, ["db"], ["db"])) := by
    decide
  obtain ⟨finish, ran, columns⟩ := Option.map_eq_some_iff.mp executed
  have reached := reaches_of_runEvents ran
  exact ⟨finish, reached, columns, generations_tell_groups (fun _ => rfl)
      (show fleet.db.enrollments.find 7 = some host by decide)
      (by decide) (fun _ group => by simp [host])
      (fun group member _ => member) reached⟩

/-- Two PATCHes read generation 0; the first one's groups are renewed as
generation 1 before the second one writes its own as generation 1. -/
theorem generation_reused_by_patch : (runEvents (step false) fleet
        (patches ++ renew ++ [.statement 1 {}])).map columns =
    some (some (1, 1, ["db"], ["mail"])) := by
  decide

end Harbor.Groups
