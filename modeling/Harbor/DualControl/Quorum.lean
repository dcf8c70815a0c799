import Harbor.DualControl.Effects

/-!
# Sign-offs and quorum

A call that counts a quorum inside its transaction sees its own uncommitted
row; once the transaction commits, the same rows are committed.  Committed
sign-offs are never taken back, so whoever later runs a committer does it over
at least `quorum` distinct committed approvers.
-/

namespace Harbor.DualControl

open Library List Bool

variable {Site Payload World : Type}

/-- What a statement of `me` does to the sign-offs. -/
inductive SignoffMove (me : Nat) (before : Table Signoff.key) : Table Signoff.key → Prop where
  | same : SignoffMove me before before
  | insert {after : Table Signoff.key} {vote : Signoff} (mine : vote.owner = some me)
      (rows : after.rows = before.rows ++ [vote]) : SignoffMove me before after
  | rollback : SignoffMove me before (before.keep fun signoff => signoff.owner != some me)
  | publish : SignoffMove me before (before.update (fun signoff => signoff.owner == some me)
          (fun signoff => { signoff with owner := none }) (fun _ => rfl))

/-- The actor has an approve row whose owner passes `sees`. -/
def SeenApproving (signoffs : Table Signoff.key) (sees : Option Nat → Bool)
    (id : Int) (actor : String) : Prop :=
  ∃ signoff ∈ signoffs.rows, signoff.changeID = id ∧
    signoff.decision = .approve ∧ signoff.actor = actor ∧ sees signoff.owner = true

section

variable {db : Database Payload World} {id : Int}

theorem mem_approversSeen :
    who ∈ db.approversSeen sees id ↔ SeenApproving db.signoffs sees id who := by
  simp only [Database.approversSeen, Database.approveRows, mem_toFinset,
    mem_map, mem_filter, and_eq_true, beq_iff_eq, SeenApproving]
  constructor
  · intro hit
    obtain ⟨sign, ⟨mem, ⟨chEq, votes⟩, seen⟩, whoEq⟩ := hit
    exact ⟨sign, mem, chEq, votes, whoEq, seen⟩
  · intro hit
    obtain ⟨sign, mem, chEq, votes, whoEq, seen⟩ := hit
    exact ⟨sign, ⟨mem, ⟨chEq, votes⟩, seen⟩, whoEq⟩

theorem approveRows_actors_nodup (db : Database Payload World)
    (sees : Option Nat → Bool) (id : Int) : ((db.approveRows sees id).map Signoff.actor).Nodup := by
  have keysNodup : ((db.approveRows sees id).map Signoff.key).Nodup :=
    db.signoffs.nodup.sublist (filter_sublist.map Signoff.key)
  have keys : (db.approveRows sees id).map Signoff.key =
      ((db.approveRows sees id).map Signoff.actor).map fun who =>
        (id, who) := by
    rw [map_map]
    apply map_congr_left
    intro sign mem
    have sel := (mem_filter.mp mem).2
    simp only [and_eq_true, beq_iff_eq] at sel
    simp [Signoff.key, sel.1.1]
  rw [keys] at keysNodup
  exact List.Nodup.of_map _ keysNodup

theorem card_approversSeen (db : Database Payload World) (sees : Option Nat → Bool) (id : Int) :
    (db.approversSeen sees id).card = (db.approveRows sees id).length := by
  rw [Database.approversSeen, toFinset_card_of_nodup
    (approveRows_actors_nodup db sees id), length_map]

theorem card_approvers_le {was new : Database Payload World}
    (mono : ∀ who, SeenApproving was.signoffs Option.isNone id who →
      SeenApproving new.signoffs Option.isNone id who) :
    (was.approvers id).card ≤ (new.approvers id).card := by
  apply Finset.card_le_card
  intro who mem
  exact mem_approversSeen.mpr (mono who (mem_approversSeen.mp mem))

end

namespace SignoffMove

variable {me : Nat} {was new : Table Signoff.key} {id : Int} {actor : String}

theorem seen_mono (move : SignoffMove me was new) (deaf : sees (some me) = false)
    (seen : SeenApproving was sees id actor) :
    SeenApproving new sees id actor := by
  obtain ⟨sign, mem, chEq, votes, whoEq, shown⟩ := seen
  have notMine : sign.owner ≠ some me := by
    intro mine
    rw [mine, deaf] at shown
    cases shown
  refine ⟨sign, ?_, chEq, votes, whoEq, shown⟩
  cases move with
  | same => exact mem
  | insert _ rs =>
    rw [rs]
    exact mem_append_left _ mem
  | rollback => exact mem_filter.mpr ⟨mem, by simp [notMine]⟩
  | publish => exact Table.mem_update.mpr ⟨sign, mem, by simp [notMine]⟩

theorem committed_mono (move : SignoffMove me was new)
    (seen : SeenApproving was Option.isNone id actor) : SeenApproving new Option.isNone id actor :=
  move.seen_mono rfl seen

theorem visible_mono (move : SignoffMove me was new) (ne : alt ≠ me)
    (seen : SeenApproving was (visibleTo alt) id actor) :
    SeenApproving new (visibleTo alt) id actor := by
  apply move.seen_mono _ seen
  simp [visibleTo, Ne.symm ne]

end SignoffMove

theorem committed_of_publish {db : Database Payload World} {me : Nat} {id : Int} {who : String}
    (seen : SeenApproving db.signoffs (visibleTo me) id who) :
    SeenApproving (db.publish me).signoffs Option.isNone id who := by
  obtain ⟨sign, mem, chEq, votes, whoEq, shown⟩ := seen
  have pub : (if sign.owner == some me then { sign with owner := none }
        else sign) ∈ (db.publish me).signoffs.rows :=
    mem_map.mpr ⟨sign, mem, rfl⟩
  by_cases mine : sign.owner = some me
  · simp only [mine, beq_self_eq_true, if_true] at pub
    exact ⟨_, pub, chEq, votes, whoEq, rfl⟩
  · have shut : sign.owner = none := by
      simpa [visibleTo, mine] using shown
    simp only [shut] at pub
    refine ⟨_, pub, chEq, votes, whoEq, ?_⟩
    simp [shut]

/-- At least `quorum` committed approvers of the change. -/
def QuorumMet (db : Database Payload World) (ch : Change Payload) : Prop :=
  ch.quorum ≤ (db.approvers ch.id).card

/-- What a position of `Approve` knows about the sign-offs. -/
def CallReady (db : Database Payload World) (me : Nat) : Call Site Payload → Prop
  | .approveCommit _ ch true =>
    ∃ counted : Finset String, ch.quorum ≤ counted.card ∧ ∀ actor ∈ counted,
        SeenApproving db.signoffs (visibleTo me) ch.id actor
  | .approveClaim _ ch | .approveRun _ ch | .approveFinalize ch _ => QuorumMet db ch
  | _ => True

def Call.change : Call Site Payload → Option (Change Payload)
  | .approveDup _ ch _ | .approveInsert _ ch _ | .approveCount _ ch => some ch
  | .approveCommit _ ch _ | .approveClaim _ ch | .approveRun _ ch => some ch
  | .approveFinalize ch _ | .denyDup ch _ | .denyInsert ch _ | .denyUpdate ch => some ch
  | .denyCommit ch _ => some ch
  | _ => none

structure Progress (me : Nat) (db : Database Payload World)
    (call : Call Site Payload) (after : Database Payload World)
    (next : Call Site Payload) : Prop where
  signoffs : SignoffMove me db.signoffs after.signoffs
  change : ∀ ch, next.change = some ch → call.change = some ch ∨ db.changes.find ch.id = some ch
  ready : CallReady db me call → CallReady after me next

namespace Progress

variable {me : Nat} {db new : Database Payload World} {call next : Call Site Payload}

theorem unloaded (ss : SignoffMove me db.signoffs new.signoffs)
    (change : next.change = none) : Progress me db call new next := by
  refine ⟨ss, ?_, ?_⟩
  · intro ch got
    rw [change] at got
    cases got
  · intro _
    cases next <;> trivial

theorem abort (err : Error) : Progress me db call (db.rollback me) (.returned (.error err)) :=
  .unloaded .rollback rfl

theorem carryOn (ss : new.signoffs = db.signoffs) (change : next.change = call.change)
    (due : CallReady db me call → CallReady new me next) :
    Progress me db call new next := by
  refine ⟨ss ▸ .same, ?_, due⟩
  intro ch got
  exact .inl (change ▸ got)

end Progress

section

variable {prog : Program Site Payload World} {me : Nat}
  {db new : Database Payload World} {io : Io} {call next : Call Site Payload}

variable {ch : Change Payload}

theorem Progress.loaded {id : Int} (hit : db.changes.find id = some ch)
    (change : next.change = some ch)
    (due : CallReady db me next) : Progress me db call db next := by
  refine ⟨.same, ?_, fun _ => due⟩
  intro alt got
  rw [change, Option.some.injEq] at got
  subst alt
  rw [← (Table.find_eq_some_iff.mp hit).2] at hit
  exact .inr hit

theorem callReady_counted : CallReady db me (.approveCommit s ch (decide (ch.quorum ≤
      ((db.approveRows (visibleTo me) ch.id).length : Int)))) := by
  by_cases met : ch.quorum ≤ ((db.approveRows (visibleTo me) ch.id).length : Int)
  · rw [decide_eq_true met]
    refine ⟨db.approversSeen (visibleTo me) ch.id, ?_, ?_⟩
    · rw [card_approversSeen]
      exact met
    · intro who mem
      exact mem_approversSeen.mp mem
  · rw [decide_eq_false met]
    trivial

theorem callReady_publish (due : CallReady db me (.approveCommit s ch true)) :
    CallReady (db.publish me) me (.approveClaim s ch) := by
  obtain ⟨sum, bd, seen⟩ := due
  have shut : sum ⊆ (db.publish me).approvers ch.id := by
    intro who mem
    exact mem_approversSeen.mpr (committed_of_publish (seen who mem))
  have mono := Finset.card_le_card shut
  have atLeast : (sum.card : Int) ≤ ((db.publish me).approvers ch.id).card := by
    exact_mod_cast mono
  exact bd.trans atLeast

structure Moved (program : Program Site Payload World) (me : Nat) (db : Database Payload World)
    (call : Call Site Payload) (after : Database Payload World) (next : Call Site Payload) :
    Prop where
  effect : Effect program me db call after next
  progress : Progress me db call after next

theorem Moved.abort (err : Error) :
    Moved prog me db call (db.rollback me) (.returned (.error err)) :=
  ⟨.abort err, .abort err⟩

theorem Moved.unloaded (calm : call.vetoing = none) (bare : next.Plain)
    (change : next.change = none) : Moved prog me db call db next :=
  ⟨.same calm bare, .unloaded .same change⟩

theorem Moved.carryOn (calm : call.vetoing = none) (bare : next.Plain)
    (change : next.change = call.change) (due : CallReady db me call → CallReady db me next) :
    Moved prog me db call db next :=
  ⟨.same calm bare, .carryOn rfl change due⟩

theorem insertVote_moved (proceed : Call Site Payload)
    (calm : call.vetoing = none) (bare : proceed.Plain) (mine : vote.owner = some me)
    (change : proceed.change = call.change)
    (due : ∀ new : Database Payload World, CallReady new me proceed)
    (ran : insertVote me db io vote proceed = some (new, next)) :
    Moved prog me db call new next := by
  rcases insertVote_cases ran with ⟨err, rfl, rfl⟩ | ⟨ss, put, rfl, rfl⟩
  · exact .abort err
  · refine ⟨.quiet rfl rfl rfl rfl (fun _ _ held => held) (fun _ _ _ held => held)
      (fun _ _ => calm) bare, .insert mine (Table.insert?_eq_some put).1, ?_, ?_⟩
    · intro ch got
      exact .inl (change ▸ got)
    · intro _
      exact due _

theorem loadPending_moved (io : Io) (id : Int)
    (proceed : Change Payload → Database Payload World × Call Site Payload)
    (goes : ∀ ch, db.changes.find id = some ch →
      Moved prog me db call (proceed ch).1 (proceed ch).2)
    (ran : loadPending me db io id proceed = (new, next)) :
    Moved prog me db call new next := by
  have move := loadPending_cases
    (motive := fun res => Moved prog me db call res.1 res.2) io id .abort goes
  rwa [ran] at move

theorem advanceApprove_moved (ran : advanceApprove prog me db io call = some (new, next)) :
    Moved prog me db call new next := by
  cases call with
  | approveLoad s id who =>
    simp only [advanceApprove, Option.some.injEq] at ran
    refine loadPending_moved io id _ ?_ ran
    intro ch hit
    split_ifs
    · exact .abort _
    · exact ⟨.same rfl trivial, .loaded hit rfl trivial⟩
  | approveDup s ch who =>
    simp only [advanceApprove] at ran
    split_ifs at ran <;> cases ran
    · exact .abort _
    · exact .abort _
    · exact .carryOn rfl trivial rfl (fun _ => trivial)
  | approveInsert s ch who =>
    exact insertVote_moved (.approveCount s ch) rfl trivial rfl rfl (fun _ => trivial) ran
  | approveCount s ch =>
    simp only [advanceApprove] at ran
    split_ifs at ran <;> cases ran
    · exact .abort _
    · exact .carryOn rfl trivial rfl (fun _ => callReady_counted)
  | approveCommit s ch bd =>
    cases f : io.fault with
    | failed =>
      simp only [advanceApprove, f] at ran
      cases ran
      exact .abort _
    | lost =>
      simp only [advanceApprove, f] at ran
      cases ran
      exact ⟨.publish trivial, .unloaded .publish rfl⟩
    | ok =>
      simp only [advanceApprove, f] at ran
      cases ran
      cases bd with
      | false => exact ⟨.publish trivial, .unloaded .publish rfl⟩
      | true => exact ⟨.publish trivial, .publish, fun _ got => .inl got, callReady_publish⟩
  | approveClaim s ch =>
    simp only [advanceApprove] at ran
    split_ifs at ran with held fail due ok ok <;> cases ran
    · exact .unloaded rfl trivial rfl
    · exact ⟨.claimed rfl (eq_false_iff.mpr held) due (.inl rfl),
        .carryOn rfl rfl (fun ready => ready)⟩
    · exact ⟨.claimed rfl (eq_false_iff.mpr held) due (.inr trivial), .unloaded .same rfl⟩
    · exact .unloaded rfl trivial rfl
    · exact .unloaded rfl trivial rfl
  | approveRun s ch =>
    simp only [advanceApprove, Program.committer] at ran
    by_cases seen : ch.kind ∈ prog.registered s
    · simp only [if_pos seen] at ran
      split at ran
      · rename_i w took _
        cases ran
        exact ⟨.applied rfl seen took, .carryOn rfl rfl (fun ready => ready)⟩
      · rename_i w took _
        cases ran
        exact ⟨.appliedUnreported rfl seen took, .carryOn rfl rfl (fun ready => ready)⟩
      · cases ran
        exact ⟨.rejected rfl, .carryOn rfl rfl (fun ready => ready)⟩
    · simp only [if_neg seen] at ran
      cases ran
      exact ⟨.skipped rfl seen, .carryOn rfl rfl (fun ready => ready)⟩
  | approveFinalize ch out =>
    simp only [advanceApprove] at ran
    split_ifs at ran with held fail rejected rejected <;> cases ran
    · exact .unloaded rfl trivial rfl
    · exact .unloaded rfl trivial rfl
    · exact ⟨.finalized rfl (eq_false_iff.mpr held) trivial, .unloaded .same rfl⟩
    · exact ⟨.finalized rfl (eq_false_iff.mpr held) trivial, .unloaded .same rfl⟩
  | reload id =>
    simp only [advanceApprove] at ran
    split at ran <;> cases ran
    · exact .unloaded rfl trivial rfl
    · exact .unloaded rfl trivial rfl
  | _ => simp [advanceApprove] at ran

theorem advanceDeny_moved (ran : advanceDeny me db io call = some (new, next)) :
    Moved prog me db call new next := by
  cases call with
  | denyLoad id who =>
    simp only [advanceDeny, Option.some.injEq] at ran
    refine loadPending_moved io id _ ?_ ran
    intro ch hit
    exact ⟨.same rfl trivial, .loaded hit rfl trivial⟩
  | denyDup ch who =>
    simp only [advanceDeny] at ran
    split_ifs at ran <;> cases ran
    · exact .carryOn rfl trivial rfl (fun _ => trivial)
    · exact .carryOn rfl trivial rfl (fun _ => trivial)
  | denyInsert ch who =>
    exact insertVote_moved (.denyUpdate ch) rfl trivial rfl rfl (fun _ => trivial) ran
  | denyUpdate ch =>
    simp only [advanceDeny] at ran
    split_ifs at ran with held fail <;> cases ran
    · exact .abort _
    · exact ⟨.locked rfl (eq_false_iff.mpr held), .carryOn rfl rfl (fun _ => trivial)⟩
  | denyCommit ch now =>
    cases f : io.fault with
    | failed =>
      simp only [advanceDeny, f] at ran
      cases ran
      exact .abort _
    | lost =>
      simp only [advanceDeny, f] at ran
      cases ran
      exact ⟨.denied rfl (.inr trivial), .unloaded .publish rfl⟩
    | ok =>
      simp only [advanceDeny, f] at ran
      cases ran
      exact ⟨.denied rfl (.inl rfl), .unloaded .publish rfl⟩
  | denyReload id =>
    simp only [advanceDeny] at ran
    split at ran <;> cases ran
    · exact ⟨.vetoed rfl trivial, .unloaded .same rfl⟩
    · exact .unloaded rfl trivial rfl
  | _ => simp [advanceDeny] at ran

theorem advance_moved (ran : advance prog me db io call = some (new, next)) :
    Moved prog me db call new next := by
  unfold advance at ran
  rcases Option.or_eq_some_iff.mp ran with approving | ⟨_, denying⟩
  · exact advanceApprove_moved approving
  · exact advanceDeny_moved denying

end

end Harbor.DualControl
