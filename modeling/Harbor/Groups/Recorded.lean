import Harbor.Groups.Generation

/-!
# The recorded certificate and the recorded groups

A renewal writes the fingerprint of its certificate unconditionally and the
groups it signed only over an older issued generation.  The runs below carry
the list of the certificates the signer returned, so that the certificate whose
fingerprint an enrollment records can be compared with its recorded groups.
-/

namespace Harbor.Groups

open Library Policy Table

abbrev Minted := List (String × List String)

def SameGroups (left right : List String) : Prop :=
  ∀ group, group ∈ left ↔ group ∈ right

namespace SameGroups

variable {left middle right : List String}

theorem refl (gs : List String) : SameGroups gs gs :=
  fun _ => Iff.rfl

theorem symm (eq : SameGroups left right) : SameGroups right left :=
  fun grp => (eq grp).symm

theorem trans (fst : SameGroups left middle)
    (snd : SameGroups middle right) : SameGroups left right :=
  fun grp => (fst grp).trans (snd grp)

end SameGroups

def Carries (minted : Minted) (fingerprint : String) (groups : List String) :
    Prop :=
  ∃ signed, (fingerprint, signed) ∈ minted ∧ SameGroups signed groups

theorem Carries.congr (has : Carries made fp l) (eq : SameGroups l r) : Carries made fp r := by
  obtain ⟨sig, mem, had⟩ := has
  exact ⟨sig, mem, had.trans eq⟩

theorem Carries.mono (has : Carries made fp gs) (grew : ∀ l ∈ made, l ∈ more) :
    Carries more fp gs := by
  obtain ⟨sig, mem, had⟩ := has
  exact ⟨sig, grew _ mem, had⟩

def Call.mints (io : Io) : Call → Minted
  | .renewSign dev =>
    match io.refusal, io.overlayOk, io.leaf with
    | none, true, some leaf => [(leaf.fingerprint, signedGroups dev)]
    | _, _, _ => []
  | _ => []

def mintedBy (state : State) : Event → Minted
  | .statement number io => (state.calls number).mints io
  | _ => []

structure Ledger where
  state : State
  minted : Minted

def Ledger.step (dualControl : Bool) (ledger : Ledger) (event : Event) :
    Option Ledger :=
  (Groups.step dualControl ledger.state event).map fun state =>
    { state := state
      minted := ledger.minted ++ mintedBy ledger.state event }

/-- The row a call read before the write it is about to make.  The write of a
bulk re-group is guarded by its own statement. -/
def Call.writing : Call → Option Enrollment
  | .patchWrite _ dev _ | .renewStamp dev _ _ | .renewWriteBack dev _ _ _ =>
    some dev
  | _ => none

def FreshWrite (id : Int) (ledger : Ledger) : Event → Prop
  | .statement number io =>
    ∀ dev ∈ (ledger.state.calls number).writing, dev.id = id →
      io.dbError = none → ∀ row ∈ ledger.state.db.enrollments.find id,
        row.groupsGeneration = dev.groupsGeneration
  | _ => True

instance (id : Int) (ledger : Ledger) : DecidablePred (FreshWrite id ledger)
  | .statement _ _ => inferInstanceAs (Decidable (∀ dev ∈ _, _ → _ → _))
  | .request .. | .commitRegroup .. | .revoke .. | .lift .. =>
    .isTrue trivial

structure Recorded (minted : Minted) (row : Enrollment) : Prop where
  behind : row.issuedGeneration ≤ row.groupsGeneration
  settled : row.issuedGeneration = row.groupsGeneration → SameGroups (signedGroups row) row.groups
  agreed : row.issuedGeneration = row.groupsGeneration → Carries minted row.fingerprint row.groups

structure ReadOf (row dev : Enrollment) : Prop where
  older : dev.groupsGeneration ≤ row.groupsGeneration
  same : dev.groupsGeneration = row.groupsGeneration →
    SameGroups (signedGroups dev) (signedGroups row)

structure StampedOf (minted : Minted) (row dev : Enrollment) : Prop extends ReadOf row dev where
  carried : dev.groupsGeneration = row.groupsGeneration →
    Carries minted row.fingerprint (signedGroups row)

def CallRecorded (minted : Minted) (id : Int) (db : Database) : Call → Prop
  | .renewRevocation dev | .renewSign dev =>
    dev.id = id → ∀ row, db.enrollments.find id = some row → ReadOf row dev
  | .renewStamp dev groups leaf =>
    dev.id = id → groups = signedGroups dev ∧ (leaf.fingerprint, groups) ∈ minted ∧
      ∀ row, db.enrollments.find id = some row → ReadOf row dev
  | .renewOldExpiry dev groups _ | .renewWriteBack dev groups _ _ =>
    dev.id = id → groups = signedGroups dev ∧
      ∀ row, db.enrollments.find id = some row → StampedOf minted row dev
  | _ => True

def DeviceRecorded (minted : Minted) (id : Int) (db : Database) : Prop :=
  ∃ row, db.enrollments.find id = some row ∧ Recorded minted row

section

variable {made : Minted} {id : Int} {db fin : Database} {row changed dev : Enrollment}

def Follows (minted : Minted) (row changed : Enrollment) : Prop :=
  row.groupsGeneration < changed.groupsGeneration ∨
    changed.groupsGeneration = row.groupsGeneration ∧
      SameGroups (signedGroups row) (signedGroups changed) ∧
      (Carries minted row.fingerprint (signedGroups row) →
        Carries minted changed.fingerprint (signedGroups changed))

theorem Follows.refl (row : Enrollment) : Follows made row row :=
  .inr ⟨rfl, .refl _, id⟩

theorem ReadOf.follows (read : ReadOf row dev)
    (follows : Follows made row changed) : ReadOf changed dev := by
  have old := read.older
  rcases follows with late | ⟨gen, gs, -⟩
  · exact ⟨by omega, fun eq => by omega⟩
  · exact ⟨by omega, fun eq =>
      (read.same (eq.trans gen)).trans gs⟩

theorem StampedOf.follows (mark : StampedOf made row dev)
    (follows : Follows made row changed) : StampedOf made changed dev := by
  refine ⟨mark.toReadOf.follows follows, ?_⟩
  intro eq
  have old := mark.older
  rcases follows with late | ⟨gen, -, had⟩
  · omega
  · exact had (mark.carried (eq.trans gen))

theorem CallRecorded.follows (note : CallRecorded made id db c)
    (follows : ∀ changed, fin.enrollments.find id = some changed →
      ∃ row, db.enrollments.find id = some row ∧ Follows made row changed) :
    CallRecorded made id fin c := by
  have read : ∀ dev : Enrollment, (∀ row, db.enrollments.find id = some row → ReadOf row dev) →
      ∀ changed, fin.enrollments.find id = some changed →
        ReadOf changed dev := by
    intro dev has changed hit
    obtain ⟨row, had, move⟩ := follows changed hit
    exact (has row had).follows move
  have mark : ∀ dev : Enrollment,
      (∀ row, db.enrollments.find id = some row → StampedOf made row dev) →
      ∀ changed, fin.enrollments.find id = some changed →
        StampedOf made changed dev := by
    intro dev has changed hit
    obtain ⟨row, had, move⟩ := follows changed hit
    exact (has row had).follows move
  cases c with
  | renewRevocation dev | renewSign dev => exact fun ours => read dev (note ours)
  | renewStamp dev gs l =>
    intro ours
    obtain ⟨sig, mem, has⟩ := note ours
    exact ⟨sig, mem, read dev has⟩
  | renewOldExpiry dev gs l
  | renewWriteBack dev gs l oldEnd => exact fun ours => ⟨(note ours).1, mark dev (note ours).2⟩
  | _ => trivial

def KeptRecorded (minted : Minted) (id : Int) (db after : Database) : Prop :=
  (∃ row changed, db.enrollments.find id = some row ∧
    after.enrollments.find id = some changed ∧ Recorded minted changed ∧ Follows minted row changed)

theorem KeptRecorded.device (kept : KeptRecorded made id db fin) :
    DeviceRecorded made id fin := by
  obtain ⟨-, changed, -, hit, note, -⟩ := kept
  exact ⟨changed, hit, note⟩

theorem KeptRecorded.waiting (kept : KeptRecorded made id db fin)
    (c : Call) (note : CallRecorded made id db c) :
    CallRecorded made id fin c := by
  obtain ⟨row, changed, had, hit, -, goes⟩ := kept
  refine note.follows ?_
  intro alt sought
  rw [hit, Option.some.injEq] at sought
  exact ⟨row, had, sought ▸ goes⟩

theorem DeviceRecorded.of_same (note : DeviceRecorded made id db)
    (eq : SameTables db fin) : KeptRecorded made id db fin := by
  obtain ⟨row, hit, has⟩ := note
  exact ⟨row, row, hit, eq.1 ▸ hit, has, .refl row⟩

theorem DeviceRecorded.update (note : DeviceRecorded made id db)
    {sel : Enrollment → Bool} {ch : Enrollment → Enrollment} (idKept : ∀ row, (ch row).id = row.id)
    (keep : ∀ row, db.enrollments.find id = some row → sel row = true → Recorded made row →
      Recorded made (ch row) ∧ Follows made row (ch row)) : KeptRecorded made id db
      { db with
        enrollments := db.enrollments.update sel ch idKept } := by
  obtain ⟨row, found, has⟩ := note
  have had : (db.enrollments.update sel ch idKept).find id =
      some (if sel row then ch row else row) := by
    rw [find_update, found]
    rfl
  refine ⟨row, _, found, had, ?_⟩
  split
  · rename_i hit
    exact keep row found hit has
  · exact ⟨has, .refl row⟩

theorem DeviceRecorded.setDesired (note : DeviceRecorded made id db) {chk : Enrollment → Bool}
    (late : ∀ row, db.enrollments.find id = some row → tgt = id →
      chk row = true → row.groupsGeneration < gen) : KeptRecorded made id db
      (db.setDesired tgt chk gs gen) := by
  apply note.update
  intro row found hit has
  simp only [Bool.and_eq_true, beq_iff_eq] at hit
  have ours : tgt = id := hit.1.symm.trans (find_eq_some_iff.mp found).2
  have move := late row found ours hit.2
  have past := has.behind
  refine ⟨⟨?_, ?_, ?_⟩, .inl move⟩
  · dsimp only
    omega
  · dsimp only
    intro eq
    omega
  · dsimp only
    intro eq
    omega

theorem DeviceRecorded.setFingerprint (note : DeviceRecorded made id db)
    (had : dev.id = id → ∀ row, db.enrollments.find id = some row →
      Carries made l.fingerprint (signedGroups row)) :
    KeptRecorded made id db (db.setFingerprint dev.id l) := by
  apply note.update
  intro row found hit has
  simp only [beq_iff_eq] at hit
  have ours : dev.id = id := hit.symm.trans (find_eq_some_iff.mp found).2
  have bears := had ours row found
  refine ⟨⟨has.behind, has.settled, ?_⟩, .inr ⟨rfl, .refl _, ?_⟩⟩
  · intro eq
    exact bears.congr (has.settled eq)
  · intro _
    exact bears

theorem find_setFingerprint (hit : db.enrollments.find id = some row) (ours : dev.id = id) :
    (db.setFingerprint dev.id l).enrollments.find id = some
        { row with
          fingerprint := l.fingerprint
          caFingerprint := l.caFingerprint } := by
  have same : row.id = dev.id := (find_eq_some_iff.mp hit).2.trans ours.symm
  simp [Database.setFingerprint, find_update, hit, same]

theorem signedGroups_recorded (eq : SameGroups (signedGroups dev) (signedGroups row))
    (want : changed.desiredGroups = row.desiredGroups) (note : changed.groups = signedGroups dev) :
    SameGroups (signedGroups changed) (signedGroups dev) := by
  intro grp
  have both := eq grp
  rw [@mem_signedGroups row] at both
  rw [mem_signedGroups, note, want]
  tauto

theorem DeviceRecorded.setIssued (note : DeviceRecorded made id db)
    (had : dev.id = id → gs = signedGroups dev ∧
      ∀ row, db.enrollments.find id = some row → StampedOf made row dev)
    (cur : dev.id = id → ∀ row, db.enrollments.find id = some row →
      row.groupsGeneration = dev.groupsGeneration) : KeptRecorded made id db
      (db.setIssued dev.id dev.groupsGeneration gs oldEnd) := by
  apply note.update
  intro row found hit _
  simp only [Bool.and_eq_true, beq_iff_eq] at hit
  have ours : dev.id = id := hit.1.symm.trans (find_eq_some_iff.mp found).2
  obtain ⟨rfl, mark⟩ := had ours
  have gen := cur ours row found
  have eq := (mark row found).same gen.symm
  have has := (mark row found).carried gen.symm
  refine ⟨⟨?_, ?_, ?_⟩, .inr ⟨rfl, ?_, ?_⟩⟩
  · exact gen.symm.le
  · exact fun _ => signedGroups_recorded eq rfl rfl
  · exact fun _ => has.congr eq.symm
  · refine eq.symm.trans (SameGroups.symm ?_)
    exact signedGroups_recorded eq rfl rfl
  · intro _
    refine (has.congr eq.symm).congr (SameGroups.symm ?_)
    exact signedGroups_recorded eq rfl rfl

theorem readOf_latest (hit : db.enrollments.latest sel = some dev) (ours : dev.id = id) :
    ∀ row, db.enrollments.find id = some row → ReadOf row dev := by
  intro row had
  obtain ⟨mem, _⟩ := latest_eq_some_iff.mp hit
  have eq : db.enrollments.find id = some dev := find_eq_some_iff.mpr ⟨mem, ours⟩
  rw [eq, Option.some.injEq] at had
  subst had
  exact ⟨le_rfl, fun _ => .refl _⟩

end

section

variable {made : Minted} {id : Int} {db fin : Database} {io : Io}
  {call next : Call} {dual : Bool}

theorem mem_mints_of_signed
    (ran : advance dual db io (.renewSign dev) = some (fin, .renewStamp dev gs l)) :
    (l.fingerprint, signedGroups dev) ∈ (Call.renewSign dev).mints io := by
  simp only [advance, advanceRenew] at ran
  split at ran
  · cases ran
  · rename_i took
    cases overlay : io.overlayOk with
    | false => simp [overlay] at ran
    | true =>
      cases sig : io.leaf with
      | none => simp [overlay, sig] at ran
      | some actual =>
        simp only [overlay, sig, Bool.not_true, Bool.false_eq_true,
          if_false, Option.some.injEq, Prod.mk.injEq] at ran
        obtain ⟨-, move⟩ := ran
        split at move
        · cases move
          simp [Call.mints, took, overlay, sig]
        · cases move

theorem renewStamp_dbError (fail : io.dbError = some err)
    (ran : advance dual db io (.renewStamp dev gs l) =
      some (fin, next)) : fin = db ∧ ∃ resp, next = .done resp := by
  simp only [advance, advanceRenew, fail, Option.some.injEq, Prod.mk.injEq] at ran
  exact ⟨ran.1.symm, _, ran.2.symm⟩

theorem advance_recorded (note : DeviceRecorded made id db)
    (live : CallRecorded made id db call) (has : ∀ leaf ∈ call.mints io, leaf ∈ made)
    (new : ∀ dev ∈ call.writing, dev.id = id → io.dbError = none → ∀ row ∈ db.enrollments.find id,
        row.groupsGeneration = dev.groupsGeneration)
    (ran : advance dual db io call = some (fin, next)) :
    KeptRecorded made id db fin ∧ CallRecorded made id fin next := by
  cases advance_moves ran with
  | ended _ eq | patchRead eq _ => exact ⟨note.of_same eq, trivial⟩
  | @patchWritten ip dev gs resp put =>
    cases fail : io.dbError with
    | some err =>
      simp only [advance, advancePatch, fail, Option.some.injEq, Prod.mk.injEq] at ran
      exact ⟨ran.1 ▸ note.of_same ⟨rfl, rfl⟩, trivial⟩
    | none =>
      subst put
      refine ⟨note.setDesired ?_, trivial⟩
      intro row hit ours _
      have stay := new dev rfl ours fail row hit
      omega
  | regroupLooked _ _ eq | regroupRead eq => exact ⟨note.of_same eq, trivial⟩
  | @regroupWritten entry l res extended put =>
    subst put
    refine ⟨note.setDesired ?_, trivial⟩
    intro row _ _ stay
    simp only [beq_iff_eq] at stay
    omega
  | renewRead eq hit =>
    refine ⟨note.of_same eq, ?_⟩
    intro ours
    rw [eq.1]
    exact readOf_latest hit ours
  | @renewCleared dev eq _ =>
    have kept := note.of_same eq
    exact ⟨kept, kept.waiting (.renewSign dev) live⟩
  | @renewSigned dev leaf eq =>
    have kept := note.of_same eq
    refine ⟨kept, ?_⟩
    intro ours
    exact ⟨rfl, has _ (mem_mints_of_signed ran), kept.waiting (.renewSign dev) live ours⟩
  | @renewStamped dev gs leaf _ put move =>
    have fine : io.dbError = none := by
      cases fail : io.dbError with
      | none => rfl
      | some err =>
        obtain ⟨-, resp, past⟩ := renewStamp_dbError fail ran
        rcases move with rfl | rfl <;> cases past
    subst put
    have borne : dev.id = id → ∀ row, db.enrollments.find id = some row →
        Carries made leaf.fingerprint (signedGroups row) := by
      intro ours row hit
      obtain ⟨rfl, mem, read⟩ := live ours
      have gen := new dev rfl ours fine row hit
      exact ⟨_, mem, (read row hit).same gen.symm⟩
    have kept := note.setFingerprint borne
    have mark : dev.id = id → gs = signedGroups dev ∧
        ∀ row, (db.setFingerprint dev.id leaf).enrollments.find id =
          some row → StampedOf made row dev := by
      intro ours
      refine ⟨(live ours).1, ?_⟩
      intro edit hit
      refine ⟨kept.waiting (.renewSign dev) (fun ours => (live ours).2.2) ours edit hit, ?_⟩
      intro _
      obtain ⟨row, had, -⟩ := note
      rw [find_setFingerprint had ours, Option.some.injEq] at hit
      subst hit
      exact borne ours row had
    refine ⟨kept, ?_⟩
    rcases move with rfl | rfl
    · exact mark
    · exact mark
  | @renewAged dev gs leaf oldEnd eq =>
    have kept := note.of_same eq
    exact ⟨kept, kept.waiting (.renewWriteBack dev gs leaf oldEnd) live⟩
  | @renewRecorded dev gs leaf oldEnd put =>
    refine ⟨?_, trivial⟩
    cases fail : io.dbError with
    | some err =>
      simp only [advance, advanceRenew, fail, Option.some.injEq, Prod.mk.injEq] at ran
      exact ran.1 ▸ note.of_same ⟨rfl, rfl⟩
    | none =>
      rcases put with eq | rfl
      · exact note.of_same eq
      · refine note.setIssued live ?_
        intro ours row hit
        exact new dev rfl ours fail row hit

theorem CallRecorded.mono (note : CallRecorded made id db call) (grew : ∀ l ∈ made, l ∈ more) :
    CallRecorded more id db call := by
  cases call with
  | renewRevocation dev | renewSign dev => exact note
  | renewStamp dev gs l =>
    intro ours
    obtain ⟨sig, mem, read⟩ := note ours
    exact ⟨sig, grew _ mem, read⟩
  | renewOldExpiry dev gs l
  | renewWriteBack dev gs l oldEnd =>
    intro ours
    obtain ⟨sig, mark⟩ := note ours
    refine ⟨sig, fun row hit => ⟨(mark row hit).toReadOf, ?_⟩⟩
    exact fun eq => ((mark row hit).carried eq).mono grew
  | _ => trivial

theorem DeviceRecorded.mono (note : DeviceRecorded made id db)
    (grew : ∀ l ∈ made, l ∈ more) : DeviceRecorded more id db := by
  obtain ⟨row, hit, has⟩ := note
  exact ⟨row, hit, has.behind, has.settled, fun eq => (has.agreed eq).mono grew⟩

def LedgerRecorded (id : Int) (ledger : Ledger) : Prop :=
  DeviceRecorded ledger.minted id ledger.state.db ∧
    ∀ number, CallRecorded ledger.minted id ledger.state.db (ledger.state.calls number)

theorem ledger_step_recorded {was fin : Ledger} {ev : Event}
    (has : LedgerRecorded id was) (may : FreshWrite id was ev) (did : was.step dual ev = some fin) :
    LedgerRecorded id fin := by
  obtain ⟨st, hop, rfl⟩ := Option.map_eq_some_iff.mp did
  have grew : ∀ l ∈ was.minted, l ∈ was.minted ++ mintedBy was.state ev := fun l mem =>
    List.mem_append_left _ mem
  refine step_preserves (DeviceRecorded (was.minted ++ mintedBy was.state ev) id)
    (CallRecorded (was.minted ++ mintedBy was.state ev) id)
    (fun st alt => FreshWrite id ⟨st, was.minted⟩ alt ∧ ∀ l ∈ mintedBy st alt,
        l ∈ was.minted ++ mintedBy was.state ev)
    ?_ ?_ ?_ ⟨has.1.mono grew, fun num => (has.2 num).mono grew⟩
    ⟨may, fun l mem => List.mem_append_right _ mem⟩ hop
  · intro db call new
    cases call <;> trivial
  · intro st num io call next fin allowed here note live ran
    subst here
    obtain ⟨kept, had⟩ := advance_recorded note live allowed.2 allowed.1 ran
    exact ⟨kept.device, had, fun alt idle =>
      kept.waiting alt idle⟩
  · intro st ev gone _ _ note
    exact ⟨note, fun call idle => idle.follows fun edit hit =>
      ⟨edit, hit, .refl edit⟩⟩

end

/-- In every run in which the calls that read the device write it while its
groups generation is still the one they read, at any moment the certificate
whose fingerprint the enrollment records was signed with the recorded groups,
or the issued generation is below the groups generation and another renewal
is due. -/
theorem recorded_certificate_agrees {dualControl : Bool}
    {start finish : Ledger} {id : Int} {dev : Enrollment}
    (quiet : ∀ number, start.state.calls number = .idle)
    (found : start.state.db.enrollments.find id = some dev)
    (behind : dev.issuedGeneration ≤ dev.groupsGeneration)
    (settled : dev.issuedGeneration = dev.groupsGeneration → UpToDate dev.groups dev)
    (signed : (dev.fingerprint, dev.groups) ∈ start.minted)
    (reached : Reaches (Ledger.step dualControl) (FreshWrite id) start finish) :
    ∃ row, finish.state.db.enrollments.find id = some row ∧
      (Carries finish.minted row.fingerprint row.groups ∨
        row.issuedGeneration < row.groupsGeneration) := by
  have initially : LedgerRecorded id start := by
    refine ⟨⟨dev, found, behind, ?_, ?_⟩, ?_⟩
    · intro same group
      rw [mem_signedGroups]
      exact (settled same group).symm
    · exact fun _ => ⟨_, signed, .refl _⟩
    · intro number
      rw [quiet number]
      trivial
  obtain ⟨⟨row, present, recorded⟩, -⟩ := reached.invariant
    (LedgerRecorded id) initially ledger_step_recorded
  refine ⟨row, present, ?_⟩
  rcases lt_or_eq_of_le recorded.behind with less | same
  · exact .inr less
  · exact .inl (recorded.agreed same)

namespace Example

/-- The host in group `web`, with the certificate it was enrolled with. -/
def recorded : Enrollment :=
  { host with fingerprint := "aa" }

def ledger : Ledger :=
  { state := { db := holding recorded, calls := fun _ => .idle }
    minted := [("aa", ["web"])] }

/-- A renewal as call `number` up to the signature. -/
def signing (number : Nat) (fingerprint : String) : List Event :=
  [.request number (.renew "100.64.0.9"), .statement number {}, .statement number {},
    .statement number { leaf := some ⟨fingerprint, "ca", 0⟩ }]

def finishing (number : Nat) : List Event :=
  [.statement number {}, .statement number {}, .statement number {}]

/-- A PATCH that adds the group `db`. -/
def widening (number : Nat) : List Event :=
  [.request number (.patchGroups "100.64.0.9" ["web", "db"]),
    .statement number {}, .statement number {}]

/-- The first renewal signs for `web`, the PATCH and the second renewal run,
and then the first renewal writes. -/
def overtaking : List Event :=
  signing 0 "bb" ++ widening 1 ++ signing 2 "cc" ++ finishing 2 ++ finishing 0

def overtaken : Ledger :=
  (runEvents (Ledger.step false) ledger overtaking).getD ledger

def recordedColumns (ledger : Ledger) : Option (Int × Int × String × List String) :=
  (ledger.state.db.enrollments.find 7).map fun row =>
    (row.issuedGeneration, row.groupsGeneration, row.fingerprint, row.groups)

end Example

open Example

/-- Two renewals that overlap after a PATCH. -/
theorem recorded_certificate_agrees_overlapping : ∃ finish,
      Reaches (Ledger.step false) (FreshWrite 7) ledger finish ∧
        recordedColumns finish = some (1, 1, "cc", ["web", "db"]) ∧
        ∃ row, finish.state.db.enrollments.find 7 = some row ∧
          (Carries finish.minted row.fingerprint row.groups ∨
            row.issuedGeneration < row.groupsGeneration) := by
  have executed : (runEvents (guarded (Ledger.step false) (FreshWrite 7)) ledger
        (widening 0 ++ signing 1 "bb" ++ signing 2 "cc" ++ finishing 1 ++
          finishing 2)).map recordedColumns = some (some (1, 1, "cc", ["web", "db"])) := by
    decide
  obtain ⟨finish, ran, columns⟩ := Option.map_eq_some_iff.mp executed
  have reached := reaches_of_runEvents ran
  exact ⟨finish, reached, columns, recorded_certificate_agrees (fun _ => rfl)
      (show ledger.state.db.enrollments.find 7 = some recorded by decide)
      (by decide) (fun _ group => by simp [recorded, host]) (by decide) reached⟩

/-- A renewal signs before a PATCH and writes its fingerprint after a renewal
that signed the PATCHed groups has finished: every call has returned, the
generations are equal, and the recorded certificate does not carry the
recorded groups. -/
theorem overtaken_renewal_records_old_certificate :
    ∃ finish, Reachable (Ledger.step false) ledger finish ∧
      (∀ number, finish.state.calls number = .idle ∨
        ∃ response, finish.state.calls number = .done response) ∧
      ∃ row, finish.state.db.enrollments.find 7 = some row ∧
        ¬Carries finish.minted row.fingerprint row.groups ∧
        row.issuedGeneration = row.groupsGeneration := by
  refine ⟨overtaken, reachable_getD _ _ (by decide), ?_, ?_⟩
  · intro number
    match number with
    | 0 | 1 | 2 => exact .inr ⟨_, rfl⟩
    | _ + 3 => exact .inl rfl
  · have minted : overtaken.minted = [("aa", ["web"]), ("bb", ["web"]), ("cc", ["web", "db"])] := by
      decide
    have columns : recordedColumns overtaken = some (1, 1, "bb", ["web", "db"]) := by
      decide
    obtain ⟨row, found, shown⟩ := Option.map_eq_some_iff.mp columns
    simp only [Prod.mk.injEq] at shown
    obtain ⟨issued, generation, fingerprint, groups⟩ := shown
    refine ⟨row, found, ?_, issued.trans generation.symm⟩
    rintro ⟨signed, member, same⟩
    rw [minted, fingerprint] at member
    rw [groups] at same
    have web : signed = ["web"] := by
      simpa using member
    have carried := (same "db").mpr (by decide)
    rw [web] at carried
    exact absurd carried (by decide)

end Harbor.Groups
