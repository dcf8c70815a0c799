import Harbor.Trust.Store

/-!
# Two persons for privileged trust

What the store holds comes from a PUT that found the config unprivileged, from
a committer that runs over a met quorum, or from a committed change of the
ledger.  Writing a config out and reading it back gives the same config, so
what the PUT inspected is what a reader of the store parses.
-/

namespace Harbor.Trust

open Library DualControl Option Table

variable {Bytes : Type}

section

variable {codec : Codec Bytes}

theorem Kind.publishKind_injective {k alt : Kind}
    (eq : k.publishKind = alt.publishKind) : k = alt := by
  revert eq
  cases k <;> cases alt <;> decide

variable {body : Bytes}

theorem Codec.parseCloud_marshal (read : codec.parseCloud body = .ok cfg) :
    codec.parseCloud (codec.marshal cfg.document) = .ok cfg := by
  unfold Codec.parseCloud at read ⊢
  rw [codec.decodeCloud_marshal (CloudTrust.Config.ofDocument_document cfg)]
  split at read
  · cases read
  · split at read
    · cases read
    · rename_i ok
      cases read
      simp only [ok]

theorem Codec.parseUser_marshal (read : codec.parseUser body = .ok cfg) :
    codec.parseUser (codec.marshal cfg.document) = .ok cfg := by
  unfold Codec.parseUser at read ⊢
  rw [codec.decodeUser_marshal (UserTrust.Config.ofDocument_document cfg)]
  split at read
  · cases read
  · split at read
    · cases read
    · rename_i ok
      cases read
      simp only [ok]

theorem Codec.privileged_prepare (trust : k ≠ .policy)
    (prep : codec.prepare k body = .ok (payload, flag)) : codec.privileged k payload = flag := by
  cases k with
  | policy => exact (trust rfl).elim
  | cloudtrust =>
    simp only [Codec.prepare] at prep
    split at prep
    · cases prep
    · rename_i cfg read
      cases prep
      simp only [Codec.privileged, Codec.parseCloud_marshal read]
  | usertrust =>
    simp only [Codec.prepare] at prep
    split at prep
    · cases prep
    · rename_i cfg read
      cases prep
      simp only [Codec.privileged, Codec.parseUser_marshal read]

end

def Backed (db : Database Bytes (Store Bytes)) (kind : String) (payload : Bytes) : Prop :=
  ∃ ch, Recorded db ch ∧ QuorumMet db ch ∧ 2 ≤ ch.quorum ∧ ch.kind = kind ∧ ch.payload = payload

structure Certified (db : Database Bytes (Store Bytes)) : Prop where
  quorum : ∀ id row, db.changes.find id = some row → 2 ≤ row.quorum
  committed : ∀ id row, db.changes.find id = some row → row.state = .committed → QuorumMet db row

structure Guarded (codec : Codec Bytes) (state : State Bytes) : Prop where
  sound : Sound state.ledger
  certified : Certified state.ledger.db
  seeds : ∀ boot kind payload, state.seeds boot = .loaded kind payload →
    Backed state.ledger.db kind.publishKind payload
  store : ∀ row ∈ state.store.rows, ∀ kind : Kind,
    row.kind = kind.publishKind → codec.privileged kind row.payload = true →
    Backed state.ledger.db row.kind row.payload

section

variable {codec : Codec Bytes} {ledger : DualControl.State Site Bytes (Store Bytes)}
  {db new : Database Bytes (Store Bytes)} {me : Nat}
  {call next : Call Site Bytes} {ch row : Change Bytes}

structure Grows (db after : Database Bytes (Store Bytes)) : Prop where
  recorded : ∀ ch, Recorded db ch → Recorded after ch
  approved : ∀ id actor, SeenApproving db.signoffs Option.isNone id actor →
    SeenApproving after.signoffs Option.isNone id actor

theorem Backed.mono (mono : Grows db new) (backed : Backed db k body) : Backed new k body := by
  obtain ⟨ch, note, met, quorum, ks, bodyEq⟩ := backed
  exact ⟨ch, mono.recorded ch note, met.mono (mono.approved ch.id), quorum, ks, bodyEq⟩

theorem grows_of_move (eff : Effect codec.program me db call new next)
    (progress : Progress me db call new next) : Grows db new where
  recorded _ recorded := eff.recorded recorded
  approved _ _ seen := progress.signoffs.committed_mono seen

theorem grows_of_proposal (plan : Proposed codec.program db new ch) : Grows db new where
  recorded _ recorded := plan.recorded recorded
  approved _ _ seen := plan.seen seen

theorem quorumMet_of_same (id : row.id = alt.id)
    (eq : row.SameContent alt) (met : QuorumMet db alt) :
    QuorumMet db row := by
  unfold QuorumMet at met ⊢
  rw [id, eq.quorum]
  exact met

theorem committed_cases (eff : Effect codec.program me db call new next) {id : Int}
    (shut : new.stateOf id = some .committed) : db.stateOf id = some .committed ∨
      ∃ ch out, call = .approveFinalize ch out ∧ ch.id = id := by
  cases eff with
  | quiet chs =>
    rw [Database.stateOf, chs] at shut
    exact .inl shut
  | claimed pos fr due =>
    rw [Database.stateOf_claim due] at shut
    split_ifs at shut
    · cases shut
    · exact .inl shut
  | @finalized ch out now _ pos =>
    rw [Database.stateOf_decide] at shut
    split_ifs at shut with eq
    · exact .inr ⟨ch, out, pos, eq.symm⟩
    · exact .inl shut
  | @denied ch now _ pos =>
    have law : (db.decide ch.id .denied now).stateOf id = some .committed := shut
    rw [Database.stateOf_decide] at law
    split_ifs at law with eq
    · obtain ⟨_, _, clash⟩ := map_eq_some_iff.mp law
      cases clash
    · exact .inl law
  | applied | appliedUnreported | rejected | skipped | locked | vetoed => exact .inl shut

theorem Certified.moved (cert : Certified ledger.db) (inv : Sound ledger)
    (eff : Effect codec.program me ledger.db (ledger.calls me) new next)
    (fore : Progress me ledger.db (ledger.calls me) new next) :
    Certified new := by
  have mono := grows_of_move eff fore
  have origin : ∀ id row, new.changes.find id = some row →
      ∃ old, ledger.db.changes.find id = some old ∧ row.SameContent old := by
    intro id row hit
    obtain ⟨rewrite, rewritten, keep⟩ := eff.find_change id
    rw [rewritten] at hit
    obtain ⟨old, seen, rfl⟩ := map_eq_some_iff.mp hit
    exact ⟨old, seen, keep old⟩
  refine ⟨?_, ?_⟩
  · intro id row hit
    obtain ⟨old, seen, eq⟩ := origin id row hit
    rw [eq.quorum]
    exact cert.quorum id old seen
  · intro id row hit shut
    obtain ⟨old, seen, eq⟩ := origin id row hit
    obtain ⟨_, rowID⟩ := find_eq_some_iff.mp hit
    obtain ⟨_, oldID⟩ := find_eq_some_iff.mp seen
    have st : new.stateOf id = some .committed := by
      rw [Database.stateOf, hit, map_some, shut]
    rcases committed_cases eff st with was | ⟨ch, out, pos, rfl⟩
    · rw [Database.stateOf, seen, map_some, Option.some.injEq] at was
      have met := cert.committed id old seen was
      exact quorumMet_of_same (rowID.trans oldID.symm) eq (met.mono (mono.approved old.id))
    · have due := inv.ready me
      have got : (ledger.calls me).change = some ch := by
        rw [pos]
        rfl
      obtain ⟨recordedRow, recHit, t⟩ := inv.recorded me ch got
      rw [seen, Option.some.injEq] at recHit
      subst recHit
      rw [pos] at due
      have met : QuorumMet new ch := QuorumMet.mono (mono.approved ch.id) due
      exact quorumMet_of_same rowID (eq.trans t) met

theorem Certified.proposed (cert : Certified db)
    (plan : Proposed codec.program db new ch) : Certified new := by
  have mono := grows_of_proposal plan
  refine ⟨?_, ?_⟩
  · intro id row hit
    rw [plan.find_change] at hit
    split_ifs at hit
    · cases hit
      obtain ⟨s, eq⟩ := plan.quorum
      rw [eq, Program.clampedQuorum]
      split_ifs with low
      · exact le_refl 2
      · exact not_lt.mp low
    · exact cert.quorum id row hit
  · intro id row hit shut
    rw [plan.find_change] at hit
    split_ifs at hit
    · cases hit
      rw [plan.pending] at shut
      cases shut
    · exact (cert.committed id row hit shut).mono (mono.approved row.id)

theorem commit_rows (took : codec.commit ch.kind ch store = some put) (mem : kept ∈ put.rows) :
    kept ∈ store.rows ∨ kept.kind = ch.kind ∧ kept.payload = ch.payload := by
  unfold Codec.commit at took
  split at took
  · split_ifs at took
    cases took
    rcases mem_upsert mem with old | rfl | ⟨old, _, eq, rfl⟩
    · exact .inl old
    · exact .inr ⟨rfl, rfl⟩
    · exact .inr ⟨eq, rfl⟩
  · cases took
    exact .inl mem

end

section

variable {codec : Codec Bytes} {state new : State Bytes} {ev : Event Bytes}

theorem Guarded.ledger_step (safe : Guarded codec state)
    {moved : DualControl.State Site Bytes (Store Bytes)} {inner : DualControl.Event Site Bytes}
    (hop : DualControl.step codec.program state.ledger inner = some moved) :
    Guarded codec { state with ledger := moved } := by
  have sound := safe.sound.step hop
  cases step_cases hop with
  | @moved me db next eff ahead _ =>
    have grows := grows_of_move eff ahead
    refine ⟨sound, safe.certified.moved safe.sound eff ahead, fun boot k body due =>
        (safe.seeds boot k body due).mono grows, ?_⟩
    intro row mem k sameKind privileged
    rcases eff.world_cases with eq | ⟨s, ch, world, pos, took, written, _⟩
    · refine (safe.store row ?_ k sameKind privileged).mono grows
      rw [State.store, ← eq]
      exact mem
    · have inWorld : row ∈ world.rows := written ▸ mem
      rcases commit_rows took inWorld with old | ⟨ofKind, body⟩
      · exact (safe.store row old k sameKind privileged).mono grows
      · have loaded : (state.ledger.calls me).change = some ch := by
          rw [pos]
          rfl
        have noted := safe.sound.recorded me ch loaded
        have ready := safe.sound.ready me
        rw [pos] at ready
        obtain ⟨ledgerRow, hit, t⟩ := noted
        have quorum := safe.certified.quorum ch.id ledgerRow hit
        rw [t.quorum] at quorum
        have backed : Backed state.ledger.db row.kind row.payload :=
          ⟨ch, ⟨ledgerRow, hit, t⟩, ready, quorum, ofKind.symm, body.symm⟩
        exact backed.mono grows
  | @proposed db ch proposal =>
    have grows := grows_of_proposal proposal
    refine ⟨sound, safe.certified.proposed proposal, fun boot k body due =>
        (safe.seeds boot k body due).mono grows, ?_⟩
    intro row mem k sameKind privileged
    refine (safe.store row ?_ k sameKind privileged).mono grows
    rw [State.store, ← (propose_rows proposal.added).2.2.2.1]
    exact mem

theorem Guarded.write (safe : Guarded codec state) {store : Store Bytes}
    (rs : ∀ row ∈ store.rows, row ∈ state.store.rows ∨
      ∀ k : Kind, row.kind = k.publishKind → codec.privileged k row.payload = true →
        Backed state.ledger.db row.kind row.payload) : Guarded codec (state.write store) := by
  refine ⟨⟨safe.sound.recorded, safe.sound.ready, safe.sound.applied⟩, ⟨safe.certified.quorum,
    safe.certified.committed⟩, safe.seeds, ?_⟩
  intro row mem k ks privileged
  rcases rs row mem with old | backed
  · exact safe.store row old k ks privileged
  · exact backed k ks privileged

theorem Guarded.put (safe : Guarded codec state) {k : Kind} {body payload : Bytes} {who : String}
    (prep : codec.prepare k body = .ok (payload, false)) : Guarded codec
      (state.write (set state.store k.publishKind payload who)) := by
  have bare : ∀ row : Stored Bytes, row.kind = k.publishKind →
      row.payload = payload → ∀ alt : Kind, row.kind = alt.publishKind →
        codec.privileged alt row.payload = true → Backed state.ledger.db row.kind row.payload := by
    intro row rowKind rowPayload alt otherKind privileged
    have eq := Kind.publishKind_injective (otherKind.symm.trans rowKind)
    subst eq
    rw [rowPayload] at privileged
    cases alt with
    | policy => cases privileged
    | cloudtrust | usertrust =>
      rw [Codec.privileged_prepare (by decide) prep] at privileged
      cases privileged
  refine safe.write ?_
  intro row mem
  rcases mem_upsert mem with old | rfl | ⟨old, _, eq, rfl⟩
  · exact .inl old
  · exact .inr (bare _ rfl rfl)
  · exact .inr (bare _ eq rfl)

theorem Guarded.seeding (safe : Guarded codec state) (boot : Nat)
    (got : ∀ k body, pos = .loaded k body → Backed state.ledger.db k.publishKind body) :
    Guarded codec (state.seeding boot pos) := by
  refine ⟨safe.sound, safe.certified, ?_, safe.store⟩
  intro alt k body hit
  by_cases own : alt = boot
  · subst alt
    simp only [State.seeding, Function.update_self] at hit
    exact got k body hit
  · simp only [State.seeding, Function.update_of_ne own] at hit
    exact safe.seeds alt k body hit

theorem Certified.latest (cert : Certified db) (latest : latestCommitted db k = some ch) :
    Backed db k ch.payload := by
  obtain ⟨mem, io, _⟩ := latest_eq_some_iff.mp latest
  simp only [Bool.and_eq_true, beq_iff_eq] at io
  have seen := find_eq_some_iff.mpr ⟨mem, rfl⟩
  exact ⟨ch, ⟨ch, seen, .refl ch⟩, cert.committed ch.id ch seen io.2,
    cert.quorum ch.id ch seen, io.1, rfl⟩

theorem Guarded.seedWrite (safe : Guarded codec state)
    (due : state.seeds boot = .loaded k body) : Guarded codec (state.write
      (seedIfEmpty state.store k.publishKind body who)) := by
  refine safe.write ?_
  intro row mem
  unfold seedIfEmpty at mem
  split at mem
  · rename_i seeded put
    rw [(Table.insert?_eq_some put).1] at mem
    rcases List.mem_append.mp mem with old | last
    · exact .inl old
    · rw [List.mem_singleton] at last
      subst last
      exact .inr fun _ _ _ => safe.seeds boot k body due
  · exact .inl mem

theorem Guarded.step (safe : Guarded codec state)
    (ran : step codec state ev = some new) : Guarded codec new := by
  cases ev with
  | ledger inner =>
    simp only [Trust.step] at ran
    obtain ⟨move, hop, rfl⟩ := map_eq_some_iff.mp ran
    exact safe.ledger_step hop
  | put k body who id now =>
    simp only [Trust.step] at ran
    split at ran
    · cases ran
    · split at ran
      · cases ran
      · obtain ⟨move, hop, rfl⟩ := map_eq_some_iff.mp ran
        exact safe.ledger_step hop
      · rename_i payload prep
        cases ran
        exact safe.put prep
  | seedGet boot k =>
    simp only [Trust.step] at ran
    split at ran
    · cases ran
    · cases ran
      refine safe.seeding boot ?_
      rintro _ _ ⟨⟩
  | seedRead boot =>
    simp only [Trust.step] at ran
    split at ran
    · rename_i k _
      split at ran
      · cases ran
      · rename_i ch latest
        split_ifs at ran
        cases ran
        refine safe.seeding boot ?_
        rintro _ _ ⟨⟩
        exact safe.certified.latest latest
    · cases ran
  | seedWrite boot =>
    simp only [Trust.step] at ran
    split at ran
    · rename_i k payload due
      cases ran
      refine (safe.seedWrite due).seeding boot ?_
      rintro _ _ ⟨⟩
    · cases ran

theorem Guarded.initial : Guarded codec .initial where
  sound := .of_quiet (DualControl.State.initial_quiet _)
  certified := by
    refine ⟨?_, ?_⟩
    · intro id row hit
      cases hit
    · intro id row hit
      cases hit
  seeds := by
    intro boot k body due
    cases due
  store := by
    intro row mem
    cases mem

/-- Every stored trust config that is privileged when parsed is the payload of
a change with two approvers, and a PUT finds the payload it passes on
privileged exactly if a reader does. -/
theorem privileged_trust_two_persons (reached : Reachable (Trust.step codec) .initial state) :
    (∀ row ∈ state.store.rows, ∀ kind : Kind, row.kind = kind.publishKind →
      codec.privileged kind row.payload = true →
      ∃ ch ∈ state.ledger.db.changes.rows, ch.kind = row.kind ∧ ch.payload = row.payload ∧
        2 ≤ (state.ledger.db.approvers ch.id).card) ∧
    ∀ (kind : Kind) (body payload : Bytes) (flag : Bool), kind ≠ .policy →
      codec.prepare kind body = .ok (payload, flag) → codec.privileged kind payload = flag := by
  have guarded : Guarded codec state :=
    reached.invariant (Guarded codec) .initial fun guarded _ taken => guarded.step taken
  refine ⟨?_, fun _ _ _ _ trust prepared =>
    Codec.privileged_prepare trust prepared⟩
  intro row member kind sameKind privileged
  obtain ⟨ch, ⟨ledgerRow, found, content⟩, met, quorum, ofKind, payload⟩ :=
    guarded.store row member kind sameKind privileged
  obtain ⟨present, sameID⟩ := Table.find_eq_some_iff.mp found
  refine ⟨ledgerRow, present, content.kind.trans ofKind, content.payload.trans payload, ?_⟩
  rw [sameID]
  unfold QuorumMet at met
  omega

end

def documents : Codec Document where
  isEmpty _ := false
  preparePolicy _ := .error "no policies"
  validPolicy _ := false
  marshal document := document
  decodeCloud document :=
    match CloudTrust.Config.ofDocument document with
    | some config => .ok config
    | none => .error "not a cloud-trust config"
  decodeUser document :=
    match UserTrust.Config.ofDocument document with
    | some config => .ok config
    | none => .error "not a user-trust config"
  decodeCloud_marshal read := by rw [read]
  decodeUser_marshal read := by rw [read]

def autoIssue : Document :=
  CloudTrust.Config.document { aws := [{ account := "123456789012", autoIssue := true }] }

def autoIssueRun : List (Event Document) :=
  .put .cloudtrust autoIssue "alice" 1 0 ::
  .ledger (.request 0 (.approve .adminAPI 1 "bob")) ::
  List.replicate 8 (.ledger (.statement 0 {}))

theorem auto_issue_stored_with_two_approvers : documents.privileged .cloudtrust autoIssue = true ∧
    ∃ state, Reachable (Trust.step documents) .initial state ∧
      ∃ row ∈ state.store.rows, row.kind = Kind.cloudtrust.publishKind ∧
        documents.privileged .cloudtrust row.payload = true ∧
        ∃ ch ∈ state.ledger.db.changes.rows, ch.kind = row.kind ∧ ch.payload = row.payload ∧
          2 ≤ (state.ledger.db.approvers ch.id).card := by
  have reached := @reachable_getD _ _ (Trust.step documents) .initial
    autoIssueRun .initial (by decide)
  have stored : ∃ row ∈ ((runEvents (Trust.step documents) .initial
      autoIssueRun).getD .initial).store.rows, row.kind = Kind.cloudtrust.publishKind ∧
        documents.privileged .cloudtrust row.payload = true := by
    decide
  have prepared : documents.prepare .cloudtrust autoIssue = .ok (autoIssue, true) := rfl
  obtain ⟨twoPersons, canonical⟩ := privileged_trust_two_persons reached
  obtain ⟨row, member, kind, privileged⟩ := stored
  exact ⟨canonical .cloudtrust autoIssue autoIssue true (by decide) prepared,
    _, reached, row, member, kind, privileged, twoPersons row member .cloudtrust kind privileged⟩

end Harbor.Trust
