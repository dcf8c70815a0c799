import Harbor.Groups.System
import Harbor.Library.Run

/-!
# What a statement can do

The inversion lemma of `advance`: where a call goes from each of its points,
which row it has read there, and what it has written.  The results about
renewals are read off it.
-/

namespace Harbor.Groups

open Library Policy

def SameTables (db after : Database) : Prop :=
  after.enrollments = db.enrollments ∧ after.revoked = db.revoked

inductive Moves (db after : Database) : Call → Call → Prop where
  | ended {call : Call} (response : Response) : SameTables db after →
      Moves db after call (.done response)
  | patchRead {ip : String} {groups : List String} {dev : Enrollment} : SameTables db after →
      db.enrollments.latest (Enrollment.issuedAt ip) = some dev →
      Moves db after (.patchLookup ip groups) (.patchWrite ip dev groups)
  | patchWritten {ip : String} {dev : Enrollment} {groups : List String} (response : Response) :
      after = db.setDesired dev.id (fun _ => true) groups (dev.groupsGeneration + 1) →
      Moves db after (.patchWrite ip dev groups) (.done response)
  | regroupLooked {call : Call} (remaining : List ApplyEntry) (results : List (String × String)) :
      SameTables db after → Moves db after call (.regroupLookup remaining results)
  | regroupRead {entry : ApplyEntry} {remaining : List ApplyEntry}
      {results : List (String × String)} : SameTables db after →
      Moves db after (.regroupLookup (entry :: remaining) results)
        (.regroupWrite entry remaining results)
  | regroupWritten {entry : ApplyEntry} {remaining : List ApplyEntry}
      {results extended : List (String × String)} : after = db.setDesired entry.enrollmentID
        (fun row => row.groupsGeneration == entry.baseGeneration)
        (normGroups entry.target) (entry.baseGeneration + 1) →
      Moves db after (.regroupWrite entry remaining results) (.regroupLookup remaining extended)
  | renewRead {ip : String} {dev : Enrollment} : SameTables db after →
      db.enrollments.latest (Enrollment.issuedAt ip) = some dev →
      Moves db after (.renewLookup ip) (.renewRevocation dev)
  | renewCleared {dev : Enrollment} : SameTables db after →
      ¬ (dev.fingerprint ≠ "" ∧ dev.fingerprint ∈ db.revoked) →
      Moves db after (.renewRevocation dev) (.renewSign dev)
  | renewSigned {dev : Enrollment} {leaf : Leaf} : SameTables db after →
      Moves db after (.renewSign dev)
        (.renewStamp dev (keepReservedGroups dev.groups dev.desiredGroups).1 leaf)
  | renewStamped {dev : Enrollment} {groups : List String} {leaf : Leaf} {next : Call} :
      after = db.setFingerprint dev.id leaf →
      next = .renewOldExpiry dev groups leaf ∨
        next = .renewWriteBack dev groups leaf none →
      Moves db after (.renewStamp dev groups leaf) next
  | renewAged {dev : Enrollment} {groups : List String} {leaf : Leaf} {oldNotAfter : Option Int} :
      SameTables db after → Moves db after (.renewOldExpiry dev groups leaf)
        (.renewWriteBack dev groups leaf oldNotAfter)
  | renewRecorded {dev : Enrollment} {groups : List String} {leaf : Leaf}
      {oldNotAfter : Option Int} : SameTables db after ∨
        after = db.setIssued dev.id dev.groupsGeneration groups oldNotAfter →
      Moves db after (.renewWriteBack dev groups leaf oldNotAfter) (.renewHeartbeat dev leaf)

section

variable {db fin : Database} {io : Io} {call next : Call}

theorem advancePatch_moves (ran : advancePatch db io call = some (fin, next)) :
    Moves db fin call next := by
  cases call with
  | patchLookup ip gs =>
    cases ran
    split
    · exact .ended _ ⟨rfl, rfl⟩
    · split
      · exact .ended _ ⟨rfl, rfl⟩
      · rename_i hit
        split_ifs
        · exact .ended _ ⟨rfl, rfl⟩
        · exact .ended _ ⟨rfl, rfl⟩
        · exact .patchRead ⟨rfl, rfl⟩ hit
  | patchWrite ip dev gs =>
    simp only [advancePatch] at ran
    split at ran <;> cases ran
    · exact .ended _ ⟨rfl, rfl⟩
    · exact .patchWritten _ rfl
  | _ => simp [advancePatch] at ran

theorem advanceRegroup_moves (ran : advanceRegroup dual db io call = some (fin, next)) :
    Moves db fin call next := by
  cases call with
  | regroupRoute entries =>
    simp only [advanceRegroup] at ran
    split at ran
    · split at ran <;> cases ran
      · exact .ended _ ⟨rfl, rfl⟩
      · exact .ended _ ⟨rfl, rfl⟩
    · cases ran
      exact .regroupLooked _ _ ⟨rfl, rfl⟩
  | regroupLookup l res =>
    cases l with
    | nil =>
      cases ran
      exact .ended _ ⟨rfl, rfl⟩
    | cons entry l =>
      cases ran
      split
      · exact .regroupLooked _ _ ⟨rfl, rfl⟩
      · split
        · exact .regroupLooked _ _ ⟨rfl, rfl⟩
        · split_ifs
          · exact .regroupLooked _ _ ⟨rfl, rfl⟩
          · exact .regroupLooked _ _ ⟨rfl, rfl⟩
          · exact .regroupRead ⟨rfl, rfl⟩
  | regroupWrite entry l res =>
    simp only [advanceRegroup] at ran
    split at ran
    · cases ran
      exact .regroupLooked _ _ ⟨rfl, rfl⟩
    · split at ran <;> cases ran
      · exact .regroupLooked _ _ ⟨rfl, rfl⟩
      · exact .regroupWritten rfl
  | _ => simp [advanceRegroup] at ran

theorem advanceRenew_moves (ran : advanceRenew db io call = some (fin, next)) :
    Moves db fin call next := by
  cases call with
  | renewLookup ip =>
    cases ran
    split
    · rename_i hit
      exact .renewRead ⟨rfl, rfl⟩ hit
    · exact .ended _ ⟨rfl, rfl⟩
  | renewRevocation dev =>
    cases ran
    split
    · exact .ended _ ⟨rfl, rfl⟩
    · split_ifs with stop
      · exact .ended _ ⟨rfl, rfl⟩
      · exact .renewCleared ⟨rfl, rfl⟩ stop
  | renewSign dev =>
    simp only [advanceRenew] at ran
    split at ran
    · cases ran
      exact .ended _ ⟨rfl, rfl⟩
    · split at ran <;> cases ran
      · exact .ended _ ⟨rfl, rfl⟩
      · split
        · exact .ended _ ⟨rfl, rfl⟩
        · split_ifs
          · exact .renewSigned ⟨rfl, rfl⟩
          · exact .ended _ ⟨rfl, rfl⟩
  | renewStamp dev gs l =>
    simp only [advanceRenew] at ran
    split at ran <;> cases ran
    · exact .ended _ ⟨rfl, rfl⟩
    · refine .renewStamped rfl ?_
      split_ifs
      · exact .inl rfl
      · exact .inr rfl
  | renewOldExpiry dev gs l =>
    cases ran
    exact .renewAged ⟨rfl, rfl⟩
  | renewWriteBack dev gs l oldEnd =>
    cases ran
    refine .renewRecorded ?_
    split
    · exact .inl ⟨rfl, rfl⟩
    · exact .inr rfl
  | renewHeartbeat dev l =>
    cases ran
    refine .ended _ ?_
    split
    · exact ⟨rfl, rfl⟩
    · exact ⟨rfl, rfl⟩
  | _ => simp [advanceRenew] at ran

theorem advance_moves (ran : advance dual db io call = some (fin, next)) :
    Moves db fin call next := by
  unfold advance at ran
  split at ran
  · cases ran
  · cases ran
  · exact advancePatch_moves ran
  · exact advancePatch_moves ran
  · exact advanceRegroup_moves ran
  · exact advanceRegroup_moves ran
  · exact advanceRegroup_moves ran
  · exact advanceRenew_moves ran

end

def Call.Fresh : Call → Prop
  | .patchLookup .. | .regroupRoute .. | .regroupLookup .. | .renewLookup ..
  | .done .. => True
  | _ => False

theorem accept_fresh (req : Request) : (accept req).Fresh := by
  cases req with
  | patchGroups ip body | regroup entries =>
    simp only [accept]
    split_ifs <;> trivial
  | renew ip => trivial

/-- The invariant rule for a property of the tables and of every call over
them: a statement keeps the tables, its own call and the calls that wait; a
fresh call may come at any time; the blocklist changes as the events say. -/
theorem step_preserves (tables : Database → Prop)
    (live : Database → Call → Prop) (allowed : State → Event → Prop)
    (fresh : ∀ (db : Database) (c : Call), c.Fresh → live db c)
    (moves : ∀ {s : State} {num : Nat} {io : Io} {c next : Call}
      {new : Database}, allowed s (.statement num io) →
      s.calls num = c → tables s.db → live s.db c → advance dual s.db io c = some (new, next) →
      tables new ∧ live new next ∧ ∀ alt, live s.db alt → live new alt)
    (blocklist : ∀ {s : State} {ev : Event} {gone : List String}, allowed s ev →
      ((∃ fp, ev = .revoke fp ∧ gone = fp :: s.db.revoked) ∨ ∃ fp, ev = .lift fp ∧
          gone = s.db.revoked.filter (· ≠ fp)) → tables s.db →
      tables { s.db with revoked := gone } ∧ ∀ c, live s.db c →
          live { s.db with revoked := gone } c)
    (has : tables was.db ∧ ∀ num, live was.db (was.calls num))
    (may : allowed was ev) (did : step dual was ev = some new) :
    tables new.db ∧ ∀ num, live new.db (new.calls num) := by
  have upd : ∀ {db : Database} {num : Nat} {next : Call},
      (∀ c, live was.db c → live db c) → live db next →
      ∀ alt, live db (Function.update was.calls num next alt) := by
    intro db num next idle tidy alt
    by_cases eq : alt = num
    · subst alt
      simpa using tidy
    · simpa [Function.update_of_ne eq] using idle _ (has.2 alt)
  cases ev with
  | request num req =>
    simp only [step] at did
    split at did <;> cases did
    exact ⟨has.1, upd (fun _ kept => kept) (fresh _ _ (accept_fresh req))⟩
  | commitRegroup num ch =>
    simp only [step] at did
    split at did
    · obtain ⟨entries, _, rfl⟩ := Option.map_eq_some_iff.mp did
      exact ⟨has.1, upd (fun _ kept => kept) (fresh _ _ trivial)⟩
    · cases did
  | statement num io =>
    simp only [step] at did
    obtain ⟨⟨db, next⟩, ran, rfl⟩ := Option.map_eq_some_iff.mp did
    obtain ⟨kept, tidy, idle⟩ := moves may rfl has.1 (has.2 num) ran
    exact ⟨kept, upd idle tidy⟩
  | revoke fp =>
    simp only [step, Option.some.injEq] at did
    subst new
    obtain ⟨kept, idle⟩ := blocklist may (.inl ⟨fp, rfl, rfl⟩) has.1
    exact ⟨kept, fun num => idle _ (has.2 num)⟩
  | lift fp =>
    simp only [step, Option.some.injEq] at did
    subst new
    obtain ⟨kept, idle⟩ := blocklist may (.inr ⟨fp, rfl, rfl⟩) has.1
    exact ⟨kept, fun num => idle _ (has.2 num)⟩

end Harbor.Groups
