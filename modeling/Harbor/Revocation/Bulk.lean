import Harbor.Library.Procedure
import Harbor.Revocation.Registry

/-!
# Bulk revocation

`applyBulk` normalises its list, guards every fingerprint, and then writes all
of them in one transaction behind the rate check.  The answers of the database
are given by a `BulkIo`: what the guard reads for a fingerprint, the number of
operations in the window, which statements succeed and how the COMMIT ends.
-/

namespace Harbor.Revocation

open Library Library.Text Policy List

def maxBulkFingerprints : Nat := 100

def maxBulkPerWindow : Nat := 3

structure BulkRevokeSpec where
  fingerprints : List String
  reason : String := ""
deriving DecidableEq, Repr

inductive BulkError where
  | invalidFingerprint (raw : String)
  | empty
  | tooLarge
  | controlPlaneProtected
  | rateLimited
  | database
deriving DecidableEq, Repr

structure BulkIo where
  enrollments : String → Option Enrollments
  inWindow : Option Nat
  now : String → Int
  written : String → Bool
  commit : Fault

/-- The first loop of `applyBulk`, with the fingerprints kept so far. -/
def collect (fold : CaseMap) (fps : List String) : List String → Except BulkError (List String)
  | [] => .ok fps
  | raw :: rest =>
    let fp := normFingerprint fold raw
    if fp = "" ∨ fp ∈ fps then collect fold fps rest
    else if !validFingerprint fp then .error (.invalidFingerprint raw)
    else collect fold (fps ++ [fp]) rest

def guardAll (central : String → Bool) (read : String → Option Enrollments) :
    List String → Except BulkError Unit
  | [] => .ok ()
  | fp :: rest =>
    match read fp with
    | none => .error .database
    | some enrollments =>
      match protectControlPlane enrollments central fp with
      | some _ => .error .controlPlaneProtected
      | none => guardAll central read rest

def writeAll (io : BulkIo) (reason actor : String) (rows : Rows) :
    List String → Except BulkError Rows
  | [] => .ok rows
  | fp :: rest =>
    if !io.written fp then .error .database
    else
      match addTx rows fp reason actor true (io.now fp) with
      | .ok after => writeAll io reason actor after rest
      | .error .alreadyActive => writeAll io reason actor rows rest
      | .error _ => .error .database

def bulkTx (io : BulkIo) (reason actor : String) (rows : Rows)
    (fps : List String) : Except BulkError Rows :=
  match io.inWindow with
  | none => .error .database
  | some operations =>
    if operations > maxBulkPerWindow then .error .rateLimited
    else writeAll io reason actor rows fps

/-- What `applyBulk` would commit. -/
def bulkRows (fold : CaseMap) (central : String → Bool) (io : BulkIo)
    (rows : Rows) (spec : BulkRevokeSpec) (actor : String) :
    Except BulkError Rows :=
  match collect fold [] spec.fingerprints with
  | .error error => .error error
  | .ok fps =>
    if fps = [] then .error .empty
    else if fps.length > maxBulkFingerprints then .error .tooLarge
    else
      match guardAll central io.enrollments fps with
      | .error error => .error error
      | .ok () => bulkTx io spec.reason actor rows fps

/-- The answer of `applyBulk` and the table it leaves.  An error at any step
before the COMMIT rolls the transaction back; a COMMIT can also take effect and
lose its answer. -/
def applyBulk (fold : CaseMap) (central : String → Bool) (io : BulkIo)
    (rows : Rows) (spec : BulkRevokeSpec) (actor : String) : Except BulkError Unit × Rows :=
  match bulkRows fold central io rows spec actor with
  | .error error => (.error error, rows)
  | .ok after => io.commit.settle (.error .database) rows (.ok (), after)

/-- Every listed fingerprint is active and the rows of the others are as they
were. -/
def Revokes (fold : CaseMap) (spec : BulkRevokeSpec) (rows after : Rows) : Prop :=
  (∀ raw ∈ spec.fingerprints, normFingerprint fold raw ≠ "" →
    normFingerprint fold raw ∈ activeFingerprints after) ∧
  ∀ fp, (∀ raw ∈ spec.fingerprints, normFingerprint fold raw ≠ fp) →
    after.find fp = rows.find fp

section

variable {fold : CaseMap} {central : String → Bool} {io : BulkIo}
  {rows fin : Rows} {reason actor fingerprint alt : String}
variable {fps : List String}

theorem mem_collect {raws out : List String}
    (got : collect fold fps raws = .ok out) {fp : String} : fp ∈ out ↔ fp ∈ fps ∨
      fp ≠ "" ∧ ∃ raw ∈ raws, normFingerprint fold raw = fp := by
  induction raws generalizing fps with
  | nil =>
    simp only [collect, Except.ok.injEq] at got
    simp [got]
  | cons raw rest ih =>
    simp only [collect] at got
    split_ifs at got with skipped invalid
    · rw [ih got]
      constructor
      · rintro (kept | ⟨same, late, mem, eq⟩)
        · exact .inl kept
        · exact .inr ⟨same, late, mem_cons_of_mem _ mem, eq⟩
      · rintro (kept | ⟨same, late, mem, eq⟩)
        · exact .inl kept
        · rcases mem_cons.mp mem with rfl | mem
          · rw [eq] at skipped
            exact .inl (skipped.resolve_left same)
          · exact .inr ⟨same, late, mem, eq⟩
    · rw [ih got, mem_append, mem_singleton]
      constructor
      · rintro ((kept | rfl) | ⟨same, late, mem, eq⟩)
        · exact .inl kept
        · exact .inr ⟨fun bare => skipped (.inl bare), raw, mem_cons_self, rfl⟩
        · exact .inr ⟨same, late, mem_cons_of_mem _ mem, eq⟩
      · rintro (kept | ⟨same, late, mem, eq⟩)
        · exact .inl (.inl kept)
        · rcases mem_cons.mp mem with rfl | mem
          · exact .inl (.inr eq.symm)
          · exact .inr ⟨same, late, mem, eq⟩

theorem guardAll_passed {read : String → Option Enrollments}
    (ok : guardAll central read fps = .ok ()) (mem : fingerprint ∈ fps) :
    ∃ table, read fingerprint = some table ∧
      protectControlPlane table central fingerprint = none := by
  induction fps with
  | nil => cases mem
  | cons fp rest ih =>
    simp only [guardAll] at ok
    split at ok
    · cases ok
    · rename_i table hit
      split at ok
      · cases ok
      · rename_i plain
        rcases mem_cons.mp mem with rfl | later
        · exact ⟨table, hit, plain⟩
        · exact ih ok later

theorem unprotected_latest {table : Enrollments} {row : Enrollment}
    (bare : protectControlPlane table central fingerprint = none) (latest : (table.latest fun row =>
      row.fingerprint == fingerprint && row.status == .issued) = some row) :
    Unreserved row.groups ∧ central row.overlayIP = false := by
  unfold protectControlPlane at bare
  rw [latest] at bare
  simp only at bare
  split_ifs at bare with held lies
  · exact ⟨grantsReservedGroup_eq_false_iff.mp (by simpa using held), by simpa using lies⟩

theorem find_addTx (ins : addTx rows fingerprint reason actor bulk now = .ok fin)
    (ne : alt ≠ fingerprint) : fin.find alt = rows.find alt := by
  unfold addTx at ins
  split at ins
  · split at ins
    · rename_i put
      cases ins
      rw [Table.find_insert? put, if_neg ne]
    · cases ins
  · split at ins
    · cases ins
    · cases ins
      rw [Table.find_update]
      cases sought : rows.find alt with
      | none => rfl
      | some row =>
        obtain ⟨_, key⟩ := Table.find_eq_some_iff.mp sought
        simp [key, ne]

theorem addTx_alreadyActive (bad : addTx rows fingerprint reason actor bulk now =
      .error .alreadyActive) : fingerprint ∈ activeFingerprints rows := by
  unfold addTx at bad
  split at bad
  · split at bad <;> cases bad
  · rename_i row hit
    split at bad
    · rename_i live
      rw [mem_activeFingerprints, hit, Option.map_some, live]
    · cases bad

theorem writeAll_written (put : writeAll io reason actor rows fps = .ok fin) :
    (∀ fp, fp ∈ activeFingerprints fin ↔ fp ∈ fps ∨ fp ∈ activeFingerprints rows) ∧
      ∀ fp, fp ∉ fps → fin.find fp = rows.find fp := by
  induction fps generalizing rows with
  | nil =>
    simp only [writeAll, Except.ok.injEq] at put
    subst fin
    simp
  | cons head rest ih =>
    simp only [writeAll] at put
    split at put
    · cases put
    split at put
    · rename_i mid added
      obtain ⟨on, kept⟩ := ih put
      refine ⟨?_, ?_⟩
      · intro fp
        rw [on, mem_active_addTx added, mem_cons]
        tauto
      · intro fp gone
        rw [mem_cons, not_or] at gone
        rw [kept fp gone.2, find_addTx added gone.1]
    · rename_i bad
      obtain ⟨on, kept⟩ := ih put
      have already := addTx_alreadyActive bad
      refine ⟨?_, ?_⟩
      · intro fp
        rw [on, mem_cons]
        constructor
        · rintro (later | was)
          · exact .inl (.inr later)
          · exact .inr was
        · rintro ((rfl | later) | was)
          · exact .inr already
          · exact .inl later
          · exact .inr was
      · intro fp gone
        rw [mem_cons, not_or] at gone
        exact kept fp gone.2
    · cases put

theorem bulkRows_ok {spec : BulkRevokeSpec}
    (ran : bulkRows fold central io rows spec actor = .ok fin) :
    ∃ fps, collect fold [] spec.fingerprints = .ok fps ∧
      guardAll central io.enrollments fps = .ok () ∧
      writeAll io spec.reason actor rows fps = .ok fin := by
  unfold bulkRows at ran
  split at ran
  · cases ran
  rename_i fps got
  split at ran
  · cases ran
  split at ran
  · cases ran
  split at ran
  · cases ran
  rename_i good
  unfold bulkTx at ran
  split at ran
  · cases ran
  split at ran
  · cases ran
  exact ⟨fps, got, good, ran⟩

theorem revokes_of_bulkRows {spec : BulkRevokeSpec}
    (ran : bulkRows fold central io rows spec actor = .ok fin) :
    Revokes fold spec rows fin := by
  obtain ⟨fps, collected, -, written⟩ := bulkRows_ok ran
  obtain ⟨active, kept⟩ := writeAll_written written
  refine ⟨?_, ?_⟩
  · intro raw member named
    exact (active _).mpr (.inl ((mem_collect collected).mpr (.inr ⟨named, raw, member, rfl⟩)))
  · intro fp unlisted
    apply kept
    intro listed
    rcases (mem_collect collected).mp listed with
      absent | ⟨_, raw, member, same⟩
    · cases absent
    · exact unlisted raw member same

theorem guarded_of_bulkRows {spec : BulkRevokeSpec}
    (ran : bulkRows fold central io rows spec actor = .ok fin) :
    ∀ fp ∈ activeFingerprints fin, fp ∉ activeFingerprints rows →
      ∃ enrollments, io.enrollments fp = some enrollments ∧
        ∀ row, (enrollments.latest fun row =>
            row.fingerprint == fp && row.status == .issued) = some row →
          Unreserved row.groups ∧ central row.overlayIP = false := by
  obtain ⟨fps, -, passed, written⟩ := bulkRows_ok ran
  intro fp present absent
  have listed := (((writeAll_written written).1 fp).mp present).resolve_right absent
  obtain ⟨enrollments, read, unprotected⟩ := guardAll_passed passed listed
  exact ⟨enrollments, read, fun row latest => unprotected_latest unprotected latest⟩

end

/-- A bulk revocation that returns an error leaves the table, unless the answer
to its COMMIT was lost; one that succeeds has revoked what it lists; in every
case the table is as it was or the whole list is revoked; and what it makes
active was guarded at its check. -/
theorem applyBulk_atomic (fold : CaseMap) (central : String → Bool)
    (io : BulkIo) (rows : Rows) (spec : BulkRevokeSpec) (actor : String) :
    let outcome := applyBulk fold central io rows spec actor
    (∀ error, outcome.1 = .error error → io.commit ≠ .lost → outcome.2 = rows) ∧
    (outcome.1 = .ok () → Revokes fold spec rows outcome.2) ∧
    (outcome.2 = rows ∨ Revokes fold spec rows outcome.2) ∧
    ∀ fp ∈ activeFingerprints outcome.2, fp ∉ activeFingerprints rows →
      ∃ enrollments, io.enrollments fp = some enrollments ∧
        ∀ row, (enrollments.latest fun row =>
            row.fingerprint == fp && row.status == .issued) = some row →
          Unreserved row.groups ∧ central row.overlayIP = false := by
  intro outcome
  cases ran : bulkRows fold central io rows spec actor with
  | error error =>
    have same : outcome = (.error error, rows) := by
      simp [outcome, applyBulk, ran]
    rw [same]
    refine ⟨fun _ _ _ => rfl, ?_, .inl rfl, ?_⟩
    · rintro ⟨⟩
    · intro fp active inactive
      exact absurd active inactive
  | ok after =>
    have settled : outcome = io.commit.settle (.error .database) rows (.ok (), after) := by
      simp [outcome, applyBulk, ran]
    have revokes := revokes_of_bulkRows ran
    rw [settled]
    cases commit : io.commit with
    | ok => exact ⟨by rintro _ ⟨⟩, fun _ => revokes, .inr revokes, guarded_of_bulkRows ran⟩
    | failed =>
      refine ⟨fun _ _ _ => rfl, by rintro ⟨⟩, .inl rfl, ?_⟩
      intro fp active inactive
      exact absurd active inactive
    | lost => exact ⟨fun _ _ kept => absurd rfl kept, by rintro ⟨⟩, .inr revokes,
        guarded_of_bulkRows ran⟩

namespace Example

def fingerprint : String :=
  String.ofList (List.replicate 64 'a')

/-- All statements succeed, and the answer to the COMMIT is lost. -/
def lostCommit : BulkIo where
  enrollments _ := some .empty
  inWindow := some 1
  now _ := 0
  written _ := true
  commit := .lost

end Example

open Example

/-- A COMMIT whose answer is lost: the call reports an error and the
fingerprint is revoked. -/
theorem lost_commit_revokes :
    let outcome := applyBulk .plain (fun _ => false) lostCommit .empty
      { fingerprints := [fingerprint] } "alice"
    outcome.1 = .error .database ∧
      (outcome.2.find fingerprint).map (·.state) = some .active := by
  decide

end Harbor.Revocation
