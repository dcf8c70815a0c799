import Harbor.DualControl.Protocol
import Harbor.Library.Run

/-!
# What a statement can do

`Effect` lists everything one statement of a call can do to the state of a
change, to the row locks, to the world and to the logs; the invariants of the
protocol are derived from it and never look at `advance` again.  Statements
that only touch sign-offs are `quiet`; what they do to the sign-offs is in
`Quorum`.
-/

namespace Harbor.DualControl

open Library Option Table

variable {Site Payload W : Type}

namespace Database

variable {db : Database Payload W} {id wanted : Int}

theorem find_claim : (db.claim id).changes.find wanted = (db.changes.find wanted).map fun row =>
        if row.id == id && row.state == .pending then
          { row with state := .committing }
        else row := by
  rw [claim, find_update]

theorem find_decide :
    (db.decide id s now).changes.find wanted = (db.changes.find wanted).map fun row =>
        if row.id == id then { row with state := s, decidedAt := now }
        else row := by
  rw [decide, find_update]

theorem stateOf_claim (due : db.stateOf id = some .pending) : (db.claim id).stateOf wanted =
      if wanted = id then some .committing else db.stateOf wanted := by
  simp only [stateOf, find_claim, map_map] at due ⊢
  split_ifs with eq
  · subst wanted
    obtain ⟨row, hit, isPending⟩ := map_eq_some_iff.mp due
    have idEq := (find_eq_some_iff.mp hit).2
    simp [hit, idEq, isPending]
  · cases hit : db.changes.find wanted with
    | none => rfl
    | some row =>
      have idEq := (find_eq_some_iff.mp hit).2
      have ne : row.id ≠ id := idEq ▸ eq
      simp [ne]

theorem stateOf_decide : (db.decide id s now).stateOf wanted =
      if wanted = id then (db.stateOf wanted).map fun _ => s
      else db.stateOf wanted := by
  simp only [stateOf, find_decide, map_map]
  cases hit : db.changes.find wanted with
  | none => simp
  | some row =>
    have idEq := (find_eq_some_iff.mp hit).2
    subst wanted
    by_cases eq : row.id = id
    · simp [eq]
    · simp [eq]

end Database

theorem Database.releaseLocks_eq_some {locks : Int → Option Nat} {me alt : Nat} {id : Int} :
    releaseLocks locks me id = some alt ↔ alt ≠ me ∧ locks id = some alt := by
  unfold releaseLocks
  constructor
  · intro held
    split_ifs at held with mine
    refine ⟨?_, held⟩
    rintro rfl
    exact mine held
  · rintro ⟨ne, held⟩
    have notMine : locks id ≠ some me := by
      rw [held]
      exact fun eq => ne (Option.some.inj eq)
    rw [if_neg notMine, held]

def Call.Plain : Call Site Payload → Prop
  | .approveRun _ _ | .approveFinalize _ _ | .denyCommit _ _ | .denyReload _ => False
  | _ => True

def Call.vetoing : Call Site Payload → Option Int
  | .denyCommit ch _ => some ch.id
  | _ => none

inductive Effect (program : Program Site Payload World) (me : Nat)
    (db : Database Payload World) (call : Call Site Payload) :
    Database Payload World → Call Site Payload → Prop where
  | quiet {after : Database Payload World} {next : Call Site Payload}
      (changes : after.changes = db.changes) (world : after.world = db.world)
      (applied : after.applied = db.applied) (vetoed : after.vetoed = db.vetoed)
      (locks : ∀ id other, after.locks id = some other → db.locks id = some other)
      (othersLocks : ∀ id other, other ≠ me → db.locks id = some other →
        after.locks id = some other)
      (released : ∀ id, after.locks id = some me → call.vetoing = none) (plain : next.Plain) :
      Effect program me db call after next
  | claimed {site : Site} {ch : Change Payload} {next : Call Site Payload}
      (position : call = .approveClaim site ch) (free : db.lockedByOther me ch.id = false)
      (pending : db.stateOf ch.id = some .pending)
      (proceeds : next = .approveRun site ch ∨ next.Plain) :
      Effect program me db call (db.claim ch.id) next
  | applied {site : Site} {ch : Change Payload} {world : World}
      (position : call = .approveRun site ch) (registered : ch.kind ∈ program.registered site)
      (accepted : program.commit ch.kind ch db.world = some world) : Effect program me db call
        { db with world := world, applied := db.applied ++ [ch] } (.approveFinalize ch .committed)
  | appliedUnreported {site : Site} {ch : Change Payload} {world : World}
      (position : call = .approveRun site ch) (registered : ch.kind ∈ program.registered site)
      (accepted : program.commit ch.kind ch db.world = some world) :
      Effect program me db call { db with world := world } (.approveFinalize ch .failed)
  | rejected {site : Site} {ch : Change Payload} (position : call = .approveRun site ch) :
      Effect program me db call db (.approveFinalize ch .failed)
  | skipped {site : Site} {ch : Change Payload} (position : call = .approveRun site ch)
      (missing : ch.kind ∉ program.registered site) :
      Effect program me db call db (.approveFinalize ch .committed)
  | finalized {ch : Change Payload} {outcome : ChangeState} {now : Int} {next : Call Site Payload}
      (position : call = .approveFinalize ch outcome) (free : db.lockedByOther me ch.id = false)
      (plain : next.Plain) : Effect program me db call (db.decide ch.id outcome now) next
  | locked {ch : Change Payload} {now : Int} (position : call = .denyUpdate ch)
      (free : db.lockedByOther me ch.id = false) : Effect program me db call
        { db with locks := Function.update db.locks ch.id (some me) } (.denyCommit ch now)
  | denied {ch : Change Payload} {now : Int} {next : Call Site Payload}
      (position : call = .denyCommit ch now) (proceeds : next = .denyReload ch.id ∨ next.Plain) :
      Effect program me db call ((db.decide ch.id .denied now).publish me) next
  | vetoed {id : Int} {next : Call Site Payload}
      (position : call = .denyReload id) (plain : next.Plain) :
      Effect program me db call { db with vetoed := db.vetoed ++ [id] } next

section

variable {prog : Program Site Payload W} {me : Nat}
  {db fin : Database Payload W} {io : Io} {call next : Call Site Payload}

theorem Effect.same (calm : call.vetoing = none) (bare : next.Plain) :
    Effect prog me db call db next :=
  .quiet rfl rfl rfl rfl (fun _ _ held => held) (fun _ _ _ held => held) (fun _ _ => calm) bare

theorem Effect.ending (bare : next.Plain) : Effect prog me db call
      { db with
        signoffs := signoffs
        locks := Database.releaseLocks db.locks me } next := by
  refine .quiet rfl rfl rfl rfl ?_ ?_ ?_ bare
  · intro id alt held
    exact (Database.releaseLocks_eq_some.mp held).2
  · intro id alt ne held
    exact Database.releaseLocks_eq_some.mpr ⟨ne, held⟩
  · intro id held
    exact ((Database.releaseLocks_eq_some.mp held).1 rfl).elim

theorem Effect.abort (err : Error) : Effect prog me db call (db.rollback me)
      (.returned (.error err)) :=
  .ending trivial

theorem Effect.publish (bare : next.Plain) : Effect prog me db call (db.publish me) next :=
  .ending bare

theorem insertVote_cases (ran : insertVote me db io vote proceed = some (fin, next)) :
    (∃ err, fin = db.rollback me ∧ next = .returned (.error err)) ∨
      ∃ signoffs, db.signoffs.insert? vote = some signoffs ∧
        fin = { db with signoffs := signoffs } ∧ next = proceed := by
  unfold insertVote at ran
  by_cases fail : io.fault ≠ .ok
  · simp only [if_pos fail] at ran
    cases ran
    exact .inl ⟨_, rfl, rfl⟩
  · simp only [if_neg fail] at ran
    cases put : db.signoffs.insert? vote with
    | some signoffs =>
      simp only [put, Option.some.injEq, Prod.mk.injEq] at ran
      obtain ⟨rfl, rfl⟩ := ran
      exact .inr ⟨signoffs, rfl, rfl, rfl⟩
    | none =>
      simp only [put] at ran
      split_ifs at ran
      cases ran
      exact .inl ⟨_, rfl, rfl⟩

theorem loadPending_cases {motive : Database Payload W × Call Site Payload → Prop}
    (io : Io) (id : Int) (aborts : ∀ err, motive (abort me db err))
    (continues : ∀ ch, db.changes.find id = some ch → motive (proceed ch)) :
    motive (loadPending me db io id proceed) := by
  unfold loadPending
  split_ifs
  · exact aborts _
  · cases hit : db.changes.find id with
    | none => exact aborts _
    | some ch =>
      simp only
      split_ifs
      · exact aborts _
      · exact continues ch hit

end

end Harbor.DualControl
