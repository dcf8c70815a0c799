import Harbor.Groups.System
import Harbor.Library.Run

/-!
# Reserved groups are never assigned

The three guards against reserved groups sit in different functions: the
single-device PATCH checks the normalised request, the bulk re-group checks
the raw targets and normalises them only when it stores them, and the renewal
copies the stored groups into a certificate.  The invariant below follows one
device through all of them.  It survives every statement except the write of
a bulk entry whose target holds a padded reserved name, such as
`" control-plane"`: the check sees a name that is not reserved and the stored
name is.
-/

namespace Harbor.Groups

open Library Library.Text Policy

/-- Every name of the entry's target that trims to a reserved group is that
group already, so the check of the raw target sees it. -/
def EntryUnpadded (entry : ApplyEntry) : Prop :=
  ∀ group ∈ entry.target, isReservedGroup (trimSpace group) = true → isReservedGroup group = true

def EntriesUnpadded (ip : String) (entries : List ApplyEntry) : Prop :=
  ∀ entry ∈ entries, entry.overlayIP = ip → EntryUnpadded entry

def UnpaddedEvent (ip : String) (state : State) : Event → Prop
  | .request _ (.regroup entries) => EntriesUnpadded ip entries
  | .commitRegroup _ change =>
    ∀ entries ∈ state.db.proposals[change]?, EntriesUnpadded ip entries
  | _ => True

instance (ip : String) (state : State) : DecidablePred (UnpaddedEvent ip state) := by
  intro event
  unfold UnpaddedEvent EntriesUnpadded EntryUnpadded
  cases event with
  | request call request => cases request <;> infer_instance
  | _ => infer_instance

/-- The device's latest issued enrollment is row `id` and holds no reserved
group, and the signer was never handed one for it. -/
structure DeviceClean (ip : String) (id : Int) (db : Database) : Prop where
  row : ∃ dev, db.enrollments.latest (Enrollment.issuedAt ip) = some dev ∧
    dev.id = id ∧ Unreserved dev.groups ∧ Unreserved dev.desiredGroups
  signed : ∀ leaf ∈ db.signed, leaf.enrollment = id → Unreserved leaf.groups

def CallClean (ip : String) (id : Int) : Call → Prop
  | .patchLookup _ groups | .patchWrite _ _ groups => Unreserved groups
  | .regroupRoute entries => EntriesUnpadded ip entries
  | .regroupLookup remaining _ => EntriesUnpadded ip remaining
  | .regroupWrite entry remaining _ =>
    (entry.enrollmentID = id → Unreserved (normGroups entry.target)) ∧ EntriesUnpadded ip remaining
  | .renewRevocation dev | .renewSign dev =>
    dev.id = id → Unreserved dev.groups ∧ Unreserved dev.desiredGroups
  | .renewStamp dev groups _ | .renewOldExpiry dev groups _ => dev.id = id → Unreserved groups
  | .renewWriteBack dev groups _ _ => dev.id = id → Unreserved groups
  | _ => True

theorem EntryUnpadded.normGroups_unreserved
    (bare : EntryUnpadded entry) (test : Unreserved entry.target) :
    Unreserved (normGroups entry.target) := by
  intro n mem
  obtain ⟨_, grp, groupMember, rfl⟩ := mem_normGroups.mp mem
  cases held : isReservedGroup (trimSpace grp) with
  | false => rfl
  | true =>
    have raw := bare grp groupMember held
    rw [test grp groupMember] at raw
    exact raw.symm

namespace DeviceClean

variable {ip : String} {id : Int} {db : Database}

theorem of_member (tidy : DeviceClean ip id db)
    (mem : dev ∈ db.enrollments.rows) (eq : dev.id = id) :
    dev.overlayIP = ip ∧ Unreserved dev.groups ∧ Unreserved dev.desiredGroups := by
  obtain ⟨actual, hit, actualId, gs, want⟩ := tidy.row
  obtain ⟨actualMember, sel, _⟩ := Table.latest_eq_some_iff.mp hit
  have equality : dev = actual :=
    db.enrollments.row_eq_of_key_eq mem actualMember (eq.trans actualId.symm)
  subst dev
  simp only [Enrollment.issuedAt, Bool.and_eq_true, beq_iff_eq] at sel
  exact ⟨sel.1, gs, want⟩

theorem of_latest (tidy : DeviceClean ip id db)
    (hit : db.enrollments.latest (Enrollment.issuedAt spot) = some dev) (eq : dev.id = id) :
    spot = ip ∧ Unreserved dev.groups ∧ Unreserved dev.desiredGroups := by
  obtain ⟨mem, sel, _⟩ := Table.latest_eq_some_iff.mp hit
  obtain ⟨ipEq, gs, want⟩ := tidy.of_member mem eq
  simp only [Enrollment.issuedAt, Bool.and_eq_true, beq_iff_eq] at sel
  exact ⟨sel.1.symm.trans ipEq, gs, want⟩

theorem update (tidy : DeviceClean ip id db) {sel : Enrollment → Bool}
    {ch : Enrollment → Enrollment} (idKept : ∀ row, (ch row).id = row.id)
    (keepsPlace : ∀ row, Enrollment.issuedAt ip (ch row) = Enrollment.issuedAt ip row)
    (keepsClean : ∀ row, row.id = id → sel row = true →
      Unreserved row.groups → Unreserved row.desiredGroups →
      Unreserved (ch row).groups ∧ Unreserved (ch row).desiredGroups) : DeviceClean ip id
      { db with
        enrollments := db.enrollments.update sel ch idKept } := by
  obtain ⟨dev, found, idEq, gs, want⟩ := tidy.row
  refine ⟨⟨_, Table.latest_update idKept keepsPlace found, ?_⟩, tidy.signed⟩
  by_cases hit : sel dev = true
  · have kept := keepsClean dev idEq hit gs want
    simp only [hit, if_true]
    exact ⟨(idKept dev).trans idEq, kept.1, kept.2⟩
  · simp only [hit]
    exact ⟨idEq, gs, want⟩

variable {target : Int}

theorem setDesired (tidy : DeviceClean ip id db) {chk : Enrollment → Bool}
    (left : target = id → Unreserved gs) :
    DeviceClean ip id (db.setDesired target chk gs gen) := by
  apply tidy.update
  · intro row
    rfl
  · intro row eq hit oldGroups _
    simp only [Bool.and_eq_true, beq_iff_eq] at hit
    exact ⟨oldGroups, left (hit.1.symm.trans eq)⟩

theorem setFingerprint (tidy : DeviceClean ip id db) :
    DeviceClean ip id (db.setFingerprint target l) := by
  apply tidy.update
  · intro row
    rfl
  · intro row _ _ gs want
    exact ⟨gs, want⟩

theorem setIssued (tidy : DeviceClean ip id db)
    (left : target = id → Unreserved gs) : DeviceClean ip id
      (db.setIssued target gen gs oldEnd) := by
  apply tidy.update
  · intro row
    rfl
  · intro row eq hit _ want
    simp only [Bool.and_eq_true, beq_iff_eq] at hit
    exact ⟨left (hit.1.symm.trans eq), want⟩

end DeviceClean

section

variable {ip : String} {id : Int} {db fin : Database} {io : Io} {call next : Call}

theorem accept_clean (bare : ∀ ents, req = .regroup ents →
      EntriesUnpadded ip ents) : CallClean ip id (accept req) := by
  cases req with
  | patchGroups spot body =>
    by_cases held : grantsReservedGroup (normGroups body) = true
    · simp [accept, held, CallClean]
    · simp only [accept, if_neg held, CallClean]
      exact grantsReservedGroup_eq_false_iff.mp (Bool.eq_false_iff.mpr held)
  | regroup ents =>
    have tidy := bare ents rfl
    simp only [accept]
    split_ifs <;> simp [CallClean, tidy]
  | renew spot => simp [accept, CallClean]

theorem advancePatch_clean (tidy : DeviceClean ip id db) (ok : CallClean ip id call)
    (ran : advancePatch db io call = some (fin, next)) :
    DeviceClean ip id fin ∧ CallClean ip id next := by
  cases call with
  | patchLookup spot gs =>
    cases ran
    refine ⟨tidy, ?_⟩
    split
    · trivial
    · split
      · trivial
      · split_ifs
        · trivial
        · trivial
        · exact ok
  | patchWrite spot dev gs =>
    simp only [advancePatch] at ran
    split at ran <;> cases ran
    · exact ⟨tidy, trivial⟩
    · exact ⟨tidy.setDesired (fun _ => ok), trivial⟩
  | _ => simp [advancePatch] at ran

/-- A bulk entry that passes the checks of `applyRegroupOne` and is aimed at
the device's row is aimed at its address, so its target carries no padded
reserved name. -/
theorem regroupWrite_clean (tidy : DeviceClean ip id db) (bare : EntriesUnpadded ip (entry :: l))
    (hit : db.enrollments.latest (Enrollment.issuedAt entry.overlayIP) = some cur)
    (sameRow : cur.id = entry.enrollmentID) (test : grantsReservedGroup entry.target = false) :
    CallClean ip id (.regroupWrite entry l res) := by
  constructor
  · intro aimed
    obtain ⟨ipEq, _, _⟩ := tidy.of_latest hit (sameRow.trans aimed)
    exact (bare entry (by simp) ipEq).normGroups_unreserved
      (grantsReservedGroup_eq_false_iff.mp test)
  · intro alt mem
    exact bare alt (by simp [mem])

theorem advanceRegroup_clean (tidy : DeviceClean ip id db) (ok : CallClean ip id call)
    (ran : advanceRegroup dual db io call = some (fin, next)) :
    DeviceClean ip id fin ∧ CallClean ip id next := by
  cases call with
  | regroupRoute ents =>
    simp only [advanceRegroup] at ran
    split at ran
    · split at ran <;> cases ran
      · exact ⟨tidy, trivial⟩
      · exact ⟨⟨tidy.row, tidy.signed⟩, trivial⟩
    · cases ran
      exact ⟨tidy, ok⟩
  | regroupLookup l res =>
    cases l with
    | nil =>
      cases ran
      exact ⟨tidy, trivial⟩
    | cons entry l =>
      have tlOk : EntriesUnpadded ip l := by
        intro alt mem
        exact ok alt (by simp [mem])
      cases ran
      refine ⟨tidy, ?_⟩
      split
      · exact tlOk
      · split
        · exact tlOk
        · rename_i cur hit
          split_ifs with move held
          · exact tlOk
          · exact tlOk
          · simp only [not_or, not_not] at move
            simp only [Bool.or_eq_true, not_or] at held
            exact regroupWrite_clean tidy ok hit move.1 (Bool.eq_false_iff.mpr held.2)
  | regroupWrite entry l res =>
    obtain ⟨targetClean, tlOk⟩ := ok
    simp only [advanceRegroup] at ran
    split at ran
    · cases ran
      exact ⟨tidy, tlOk⟩
    · split at ran <;> cases ran
      · exact ⟨tidy, tlOk⟩
      · exact ⟨tidy.setDesired targetClean, tlOk⟩
  | _ => simp [advanceRegroup] at ran

theorem advanceRenew_clean (tidy : DeviceClean ip id db) (clean : CallClean ip id call)
    (ran : advanceRenew db io call = some (fin, next)) :
    DeviceClean ip id fin ∧ CallClean ip id next := by
  cases call with
  | renewLookup place =>
    cases ran
    refine ⟨tidy, ?_⟩
    split
    · rename_i dev _ hit
      intro same
      exact (tidy.of_latest hit same).2
    · trivial
  | renewRevocation dev =>
    cases ran
    refine ⟨tidy, ?_⟩
    split
    · trivial
    · split_ifs
      · trivial
      · exact clean
  | renewSign dev =>
    have groupsClean : dev.id = id →
        Unreserved (keepReservedGroups dev.groups dev.desiredGroups).1 := by
      intro same
      obtain ⟨sent, want⟩ := clean same
      rw [keepReservedGroups_of_unreserved sent]
      exact want
    simp only [advanceRenew] at ran
    split at ran
    · cases ran
      exact ⟨tidy, trivial⟩
    · split at ran <;> cases ran
      · exact ⟨tidy, trivial⟩
      · refine ⟨⟨tidy.row, ?_⟩, ?_⟩
        · intro leaf mem same
          rcases List.mem_append.mp mem with old | added
          · exact tidy.signed leaf old same
          · simp only [List.mem_singleton] at added
            subst leaf
            exact groupsClean same
        · split
          · trivial
          · split_ifs
            · exact groupsClean
            · trivial
  | renewStamp dev groups leaf =>
    simp only [advanceRenew] at ran
    split at ran <;> cases ran
    · exact ⟨tidy, trivial⟩
    · refine ⟨tidy.setFingerprint, ?_⟩
      split_ifs
      · exact clean
      · exact clean
  | renewOldExpiry dev groups leaf =>
    cases ran
    exact ⟨tidy, clean⟩
  | renewWriteBack dev groups leaf oldEnd =>
    cases ran
    refine ⟨?_, trivial⟩
    split
    · exact tidy
    · exact tidy.setIssued clean
  | renewHeartbeat dev leaf =>
    cases ran
    refine ⟨?_, trivial⟩
    split
    · exact tidy
    · exact ⟨tidy.row, tidy.signed⟩
  | _ => simp [advanceRenew] at ran

theorem advance_clean (tidy : DeviceClean ip id db) (ok : CallClean ip id call)
    (ran : advance dual db io call = some (fin, next)) :
    DeviceClean ip id fin ∧ CallClean ip id next := by
  unfold advance at ran
  split at ran
  · cases ran
  · cases ran
  · exact advancePatch_clean tidy ok ran
  · exact advancePatch_clean tidy ok ran
  · exact advanceRegroup_clean tidy ok ran
  · exact advanceRegroup_clean tidy ok ran
  · exact advanceRegroup_clean tidy ok ran
  · exact advanceRenew_clean tidy ok ran

end

structure Invariant (ip : String) (id : Int) (state : State) : Prop where
  device : DeviceClean ip id state.db
  calls : ∀ call, CallClean ip id (state.calls call)

theorem Invariant.update {ip : String} {id : Int} {st : State}
    (has : Invariant ip id st) {db : Database} {c : Nat} {next : Call}
    (dev : DeviceClean ip id db) (tidy : CallClean ip id next) : Invariant ip id
      { db := db, calls := Function.update st.calls c next } := by
  refine ⟨dev, ?_⟩
  intro alt
  by_cases eq : alt = c
  · subst alt
    simpa using tidy
  · simpa [Function.update_of_ne eq] using has.calls alt

theorem step_invariant {dual : Bool} {ip : String} {id : Int} {was new : State} {ev : Event}
    (has : Invariant ip id was) (bare : UnpaddedEvent ip was ev)
    (did : step dual was ev = some new) :
    Invariant ip id new := by
  cases ev with
  | request c req =>
    simp only [step] at did
    split at did <;> cases did
    refine has.update has.device (accept_clean ?_)
    intro ents eq
    subst req
    exact bare
  | commitRegroup c ch =>
    simp only [step] at did
    split at did
    · obtain ⟨ents, hit, rfl⟩ := Option.map_eq_some_iff.mp did
      exact has.update has.device (bare ents hit)
    · cases did
  | statement c io =>
    simp only [step] at did
    obtain ⟨⟨db, next⟩, ran, rfl⟩ := Option.map_eq_some_iff.mp did
    obtain ⟨dev, tidy⟩ := advance_clean has.device (has.calls c) ran
    exact has.update dev tidy
  | revoke fp | lift fp =>
    simp only [step, Option.some.injEq] at did
    subst new
    exact ⟨⟨has.device.row, has.device.signed⟩, has.calls⟩

def Quiet (state : State) : Prop :=
  (∀ call, state.calls call = .idle) ∧ state.db.signed = []

theorem Quiet.invariant (calm : Quiet st)
    (hit : st.db.enrollments.latest (Enrollment.issuedAt ip) = some dev)
    (gs : Unreserved dev.groups) (want : Unreserved dev.desiredGroups) :
    Invariant ip dev.id st := by
  constructor
  · refine ⟨⟨dev, hit, rfl, gs, want⟩, ?_⟩
    intro l mem
    simp [calm.2] at mem
  · intro c
    rw [calm.1 c]
    trivial

/-- Every interleaving of PATCHes, bulk re-groups, committed bulk changes,
renewals and revocations in which no bulk entry for the device carries a
padded reserved name keeps reserved groups out of the device's columns and
out of every list handed to the signer for it. -/
theorem reserved_groups_never_assigned {dualControl : Bool}
    {start finish : State} {ip : String} {dev : Enrollment} (quiet : Quiet start)
    (found : start.db.enrollments.latest (Enrollment.issuedAt ip) = some dev)
    (groups : Unreserved dev.groups) (desired : Unreserved dev.desiredGroups)
    (reached : Reaches (step dualControl) (UnpaddedEvent ip) start finish) :
    DeviceClean ip dev.id finish.db :=
  (reached.invariant (Invariant ip dev.id)
    (quiet.invariant found groups desired) step_invariant).device

namespace Example

def start : State :=
  { db := holding host, calls := fun _ => .idle }

def leaf : Leaf := ⟨"aa", "bb", 0⟩

/-- Re-group the host to `target` and renew its certificate. -/
def schedule (target : List String) : List Event :=
  [.request 0 (.regroup [⟨"100.64.0.9", 7, 0, target⟩]),
    .statement 0 {}, .statement 0 {}, .statement 0 {}, .request 1 (.renew "100.64.0.9"),
    .statement 1 {}, .statement 1 {}, .statement 1 { leaf := some leaf }]

end Example

open Example

theorem reserved_groups_never_assigned_host : ∃ finish,
      Reaches (step false) (UnpaddedEvent "100.64.0.9") start finish ∧
        finish.db.signed = [⟨7, "host-9", "100.64.0.9", ["db"]⟩] ∧
        DeviceClean "100.64.0.9" 7 finish.db := by
  have executed : (runEvents (guarded (step false) (UnpaddedEvent "100.64.0.9"))
        start (schedule ["db"])).map (fun state =>
          state.db.signed) =
      some [⟨7, "host-9", "100.64.0.9", ["db"]⟩] := by
    decide
  obtain ⟨finish, ran, signed⟩ := Option.map_eq_some_iff.mp executed
  have reached := reaches_of_runEvents ran
  exact ⟨finish, reached, signed, reserved_groups_never_assigned ⟨fun _ => rfl, rfl⟩
      (show start.db.enrollments.latest
        (Enrollment.issuedAt "100.64.0.9") = some Example.host by decide)
      (by unfold Unreserved; decide) (by unfold Unreserved; decide) reached⟩

/-- A bulk entry with target `[" control-plane"]` passes both checks, is stored
as `control-plane` and is signed by the next renewal. -/
theorem padded_reserved_group_assigned :
    ¬ ∀ (dualControl : Bool) (start finish : State) (ip : String) (dev : Enrollment), Quiet start →
      start.db.enrollments.latest (Enrollment.issuedAt ip) = some dev →
      Unreserved dev.groups → Unreserved dev.desiredGroups →
      Reachable (step dualControl) start finish → DeviceClean ip dev.id finish.db := by
  intro claim
  have executed : (runEvents (step false) Example.start
        (schedule [" control-plane"])).map (fun state =>
          state.db.signed) =
      some [⟨7, "host-9", "100.64.0.9", ["control-plane"]⟩] := by
    decide
  obtain ⟨finish, ran, signed⟩ := Option.map_eq_some_iff.mp executed
  have clean := claim false Example.start finish "100.64.0.9" Example.host
    ⟨fun _ => rfl, rfl⟩ (by decide) (by unfold Unreserved; decide)
    (by unfold Unreserved; decide) (reachable_of_runEvents ran)
  have unreserved := clean.signed
    ⟨7, "host-9", "100.64.0.9", ["control-plane"]⟩ (by simp [signed]) rfl
  have plain := unreserved "control-plane" (by simp)
  revert plain
  decide

end Harbor.Groups
