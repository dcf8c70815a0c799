import Harbor.Collect.Processing
import Harbor.Collect.Shipping

/-!
# Every acked outcome reaches the gateway

A candidate leaves the gateway's queue only after its result was shipped,
unless Harbor had processed it before: a redelivered candidate is answered from
its row and no result is written for it.  In every run in which such a
candidate comes up only when its outcome is shown, the outcomes of all acked
candidates are shown; a lost shipment is a run in which one is not.
-/

namespace Harbor.Collect

open Function Library Queue Consumer

section

variable {c : Config} {env : Env} {pick : Choice} {w : World}

def Phase.Fits : Phase → Request → Prop
  | .deciding, _ | .publishing, _ => True
  | .reconciling _, request => request = .reconcileOnce
  | _, request => request = .collectOnce

theorem fits_start (req : Request) : req.start.Fits req := by
  cases req <;> trivial

variable {phase : Phase} {request : Request}

theorem fits_after (fits : phase.Fits request) (s : Statement) (a : s.Answer) :
    (phase.after s a).Fits request := by
  unfold Phase.after
  split <;> first
    | exact fits
    | skip
  split <;> exact fits

variable {stmt : Statement}

theorem processing_step (inv : w.Sound) (busy : w.Processing done idle print)
    (may : (Phase.processing done idle print).may c stmt)
    (told : w.Answered pick stmt) : (execute env pick w stmt).2.Sound ∧
      (execute env pick w stmt).2.Accords ((Phase.processing done idle print).after stmt
          (execute env pick w stmt).1) := by
  cases idle with
  | nil =>
    cases stmt with
    | drain => exact ⟨⟨inv.unique, inv.kept⟩, drain_step busy⟩
    | _ => cases may
  | cons l rest =>
    cases print with
    | none =>
      cases stmt with
      | consumer stmt =>
        cases may
        exact lookup_step inv busy told
      | _ => cases may
    | some f =>
      cases stmt with
      | consumer stmt =>
        obtain ⟨may, bare⟩ := may
        by_cases creates : ∃ row, stmt = .createEnrollment row
        · obtain ⟨row, rfl⟩ := creates
          exact create_step inv busy may
        · exact frame_step inv busy may (by simpa using creates) bare
      | capture sent => exact ⟨⟨inv.unique, inv.kept⟩, capture_step busy may⟩
      | processed out => exact ⟨inv, processed_step busy⟩
      | _ => cases may

theorem shipping_step (inv : w.Sound) (ship : w.Shipping done res puts acked)
    (may : (Phase.shipping done res puts acked).may c stmt) :
    (execute env pick w stmt).2.Sound ∧ (execute env pick w stmt).2.Accords
        ((Phase.shipping done res puts acked).after stmt (execute env pick w stmt).1) := by
  cases stmt with
  | outside =>
    rw [execute_outside]
    exact ⟨inv, ship⟩
  | consumer stmt =>
    cases stmt with
    | putResult sent => exact ⟨sound_put (ship.fitting sent may) inv, put_step may ship⟩
    | ackItem id =>
      obtain ⟨acking, shipped, unacked⟩ := may
      exact ack_step inv ship acking shipped unacked
    | nackItem id =>
      have calm := nack_undisturbed env pick w id
      have fits : w.Accords (.shipping done res puts acked) := ship
      exact ⟨sound_of_undisturbed calm inv, accords_of_undisturbed calm fits⟩
    | _ => cases may
  | _ => cases may

theorem claiming_step (inv : w.Sound)
    (may : Phase.claiming.may c stmt) : (execute env pick w stmt).2.Sound ∧
      (execute env pick w stmt).2.Accords (Phase.claiming.after stmt
          (execute env pick w stmt).1) := by
  cases stmt with
  | outside =>
    rw [execute_outside]
    exact ⟨inv, trivial⟩
  | consumer stmt =>
    cases stmt with
    | claim m ttl =>
      refine ⟨sound_of_undisturbed (claim_undisturbed env pick w m ttl) inv, ?_⟩
      change (w.ran env pick (.claim m ttl)).Accords
        (Phase.claiming.after (.consumer (.claim m ttl)) (w.told env pick (.claim m ttl)))
      cases a : w.told env pick (.claim m ttl) with
      | error t => trivial
      | ok leased => exact claim_holds inv a
    | _ => cases may
  | _ => cases may

theorem claimed_step (inv : w.Sound) (has : w.Holds bt)
    (may : (Phase.claimed bt).may c stmt) :
    (execute env pick w stmt).2.Sound ∧ (execute env pick w stmt).2.Accords
        ((Phase.claimed bt).after stmt (execute env pick w stmt).1) := by
  cases stmt with
  | outside =>
    rw [execute_outside]
    exact ⟨inv, has⟩
  | drain =>
    refine ⟨⟨inv.unique, inv.kept⟩,
      World.Processing.mk ⟨has.ids, has.names, has.queued⟩ ?_ ?_ ?_ ?_⟩
    · intro entry mem
      cases mem
    · intro entry mem
      cases mem
    · intro _ _ _ _ saw
      cases saw
    · intro sent mem
      cases mem
  | _ => cases may

def Phase.Outer : Phase → Prop
  | .deciding | .publishing => True
  | _ => False

theorem accords_of_outer (out : phase.Outer) :
    w.Accords phase := by
  cases phase with
  | deciding | publishing => trivial
  | _ => cases out

theorem isCycle_of_fits
    (fits : phase.Fits request) (inner : ¬phase.Outer) : request.isCycle = true := by
  cases phase with
  | deciding | publishing => exact absurd trivial inner
  | _ =>
    cases fits
    rfl

theorem outer_after (out : phase.Outer)
    (stmt : Statement) (ans : stmt.Answer) : (phase.after stmt ans).Outer := by
  cases phase with
  | deciding | publishing => exact trivial
  | _ => cases out

theorem outer_undisturbed (out : phase.Outer) (may : phase.may c stmt) :
    Undisturbed w (execute env pick w stmt).2 := by
  cases phase with
  | deciding =>
    cases stmt with
    | outside =>
      rw [execute_outside]
      exact unchanged_undisturbed w
    | consumer stmt => exact decide_undisturbed may.1 may.2
    | _ => cases may
  | publishing =>
    cases stmt with
    | publish key cand => exact publish_undisturbed env pick w key cand
    | _ => cases may
  | _ => cases out

theorem inner_step (inv : w.Sound) (accords : w.Accords phase)
    (fits : phase.Fits request) (inner : ¬phase.Outer) (may : phase.may c stmt)
    (told : request = .collectOnce → w.Answered pick stmt) :
    (execute env pick w stmt).2.Sound ∧ (execute env pick w stmt).2.Accords
        (phase.after stmt (execute env pick w stmt).1) := by
  cases phase with
  | deciding | publishing => exact absurd trivial inner
  | claiming => exact claiming_step inv may
  | claimed bt => exact claimed_step inv accords may
  | processing done idle print => exact processing_step inv accords may (told fits)
  | shipping done res puts acked => exact shipping_step inv accords may
  | reconciling gives => exact reconcile_step inv accords may

/-- Cycles one after the other, in which a candidate that Harbor has processed
before comes up only when its outcome is shown. -/
def answering : Service.Permit Request Statement World Choice where
  executes := fun world active call statement choice =>
    Sequential active call ∧ (active call = some .collectOnce → world.Answered choice statement)

abbrev CollectStage := Service.Stage Request Response Phase

structure Steady (world : World) (stages : Nat → CollectStage) : Prop where
  sound : world.Sound
  running : ∀ call request phase, stages call = .running request phase →
    phase.Fits request ∧ world.Accords phase

theorem Steady.update {puts : Nat → CollectStage} {new : World}
    {call : Nat} {lvl : CollectStage} (inv : new.Sound)
    (here : ∀ request phase, lvl = .running request phase →
      phase.Fits request ∧ new.Accords phase) (ne : ∀ alt request phase, alt ≠ call →
      puts alt = .running request phase → phase.Fits request ∧ new.Accords phase) :
    Steady new (update puts call lvl) where
  sound := inv
  running := by
    intro alt request phase running
    by_cases eq : alt = call
    · subst eq
      rw [update_self] at running
      exact here request phase running
    · rw [update_of_ne eq] at running
      exact ne alt request phase eq running

theorem execute_steady {puts : Nat → CollectStage} {call : Nat}
    (steady : Steady w puts) (live : puts call = .running request phase)
    (may : phase.may c stmt) (allowed : answering.executes w (fun alt => (puts alt).active)
      call stmt pick) : Steady (execute env pick w stmt).2 (update puts call (.running request
        (phase.after stmt (execute env pick w stmt).1))) := by
  obtain ⟨fits, accords⟩ := steady.running call request phase live
  have move := fits_after fits stmt (execute env pick w stmt).1
  have active : (puts call).active = some request := by rw [live]; rfl
  by_cases out : phase.Outer
  · have calm : Undisturbed w (execute env pick w stmt).2 :=
      outer_undisturbed out may
    apply Steady.update (sound_of_undisturbed calm steady.sound)
    · rintro _ _ ⟨⟩
      exact ⟨move, accords_of_outer (outer_after out _ _)⟩
    · intro alt rival cur _ here
      obtain ⟨k, held⟩ := steady.running alt rival cur here
      exact ⟨k, accords_of_undisturbed calm held⟩
  · have cycling := isCycle_of_fits fits out
    obtain ⟨inv, held⟩ := inner_step steady.sound accords fits out may fun collecting =>
        allowed.2 (active.trans (congrArg some collecting))
    apply Steady.update inv
    · rintro _ _ ⟨⟩
      exact ⟨move, held⟩
    · intro alt rival cur ne here
      obtain ⟨k, _⟩ := steady.running alt rival cur here
      refine ⟨k, accords_of_outer ?_⟩
      by_contra inner
      have busy : (puts alt).active = some rival := by rw [here]; rfl
      exact ne (allowed.1 request active cycling alt rival busy (isCycle_of_fits k inner))

theorem move_steady {k : Collector}
    {puts new : Nat →
      Service.Stage Request Response (cycle k.consumer).Phase} (steady : Steady w puts)
    (move : Service.Move (system k env) answering (cycle k.consumer)
      Request.start (fun _ _ _ => True) w puts next new) :
    Steady next new := by
  cases move with
  | @begin call request idle opened =>
    apply Steady.update steady.sound
    · rintro _ _ ⟨⟩
      refine ⟨fits_start request, ?_⟩
      cases request with
      | reconcileOnce =>
        intro bid mem
        cases mem
      | _ => trivial
    · exact fun alt rival cur _ here =>
        steady.running alt rival cur here
  | execute live may allowed => exact execute_steady steady live may allowed
  | finish live past | crash live crashes =>
    apply Steady.update steady.sound
    · rintro _ _ ⟨⟩
    · exact fun alt rival cur _ here =>
        steady.running alt rival cur here

/-- In every run whose redeliveries come up only when their outcome is shown,
the outcome of an acked candidate is at the gateway or on its pending list. -/
theorem acked_outcome_delivered (k : Collector) (env : Env) {start : World}
    {finish : Service.State Request Statement Statement.Answer Response World} (sound : start.Sound)
    (reached : Reaches (system k env).step answering.Allows (Service.State.quiet start) finish)
    {enrollmentID : String} {row : Enrollment} (acked : finish.world.Acked enrollmentID)
    (recorded : finish.world.base.enrollments.find enrollmentID = some row) :
    finish.world.Delivered enrollmentID row.status := by
  have quiet : Steady start fun _ => .idle :=
    ⟨sound, fun _ _ _ running => nomatch running⟩
  obtain ⟨_, steady, _⟩ := Service.staged_of_reaches (handle_follows k)
    Steady (fun _ => .idle) quiet move_steady reached
  rcases steady.sound.kept enrollmentID with shown | queued
  · exact shown row recorded
  · exact absurd queued acked.2

end

instance (world : World) (enrollmentID : String) (status : Enrollment.Status) :
    Decidable (world.Delivered enrollmentID status) :=
  inferInstanceAs (Decidable ((∃ result ∈ world.base.results.find enrollmentID,
      result.status = status) ∨ enrollmentID ∈ pendingResultIDs world.base.results))

instance (world : World) (choice : Choice) : DecidablePred (world.Answered choice) := by
  intro statement
  cases statement with
  | consumer statement =>
    cases statement with
    | findEnrollment enrollmentID =>
      exact inferInstanceAs (Decidable (∀ row ∈ world.base.enrollments.find enrollmentID,
          choice.fault = .ok ∧ world.Delivered enrollmentID row.status))
    | _ => exact isTrue trivial
  | _ => exact isTrue trivial

theorem sequential_alone (req : Request) {live : Nat → Option Request} {c : Nat}
    (inactive : ∀ alt, alt ≠ c → live alt = none) : Sequential (update live c (some req)) c := by
  intro _ _ _ alt rival busy _
  by_contra ne
  rw [update_of_ne ne, inactive alt ne] at busy
  cases busy

namespace Example

def collector : Collector where
  config := Consumer.Example.config
  notAfter := fun _ => some 0

def gateway : Env where
  consumer := Consumer.Example.env
  maxDepth := 10000

def arrived : World where
  base := { Consumer.Example.automatic with
    items := ⟨[{ id := 1, candidate := Consumer.Example.candidate }],
      List.nodup_singleton _⟩ }
  sink := []

theorem arrived_sound : arrived.Sound where
  unique := List.nodup_singleton _
  kept := by
    intro id
    left
    intro row hit
    cases hit

def lossy : Nat → Choice :=
  Consumer.Example.failsAt 28

def later : Nat → Choice :=
  fun _ => { now := 120000000000 }

def collected (world : World) (choices : Nat → Choice) : World :=
  ((collector.handle .collectOnce).run (execute gateway) choices world).2

end Example

open Example

theorem reaches_collected (permit : Service.Permit Request Statement World Choice)
    (st : Service.State Request Statement Statement.Answer Response World)
    (c : Nat) (sel : Nat → Choice) (idle : st.calls c = .idle)
    (inactive : ∀ alt, (st.calls alt).active = none) (opened : permit.opens st.world .collectOnce)
    (may : ∀ live : Nat → Option Request, Sequential live c →
      Service.Along (execute gateway) (fun w s io =>
          permit.executes w live c s io) sel
        (collector.handle .collectOnce) st.world) :
    ∃ cs, Reaches (system collector gateway).step permit.Allows st
        ⟨collected st.world sel, cs⟩ ∧ (∀ alt, (cs alt).active = none) ∧
      ∀ alt, alt ≠ c → cs alt = st.calls alt := by
  have solo := sequential_alone .collectOnce fun alt (_ : alt ≠ c) =>
    inactive alt
  refine ⟨_, Service.reaches_alone idle opened (may _ solo), ?_, ?_⟩
  · intro alt
    by_cases eq : alt = c
    · subst eq
      rw [update_self]
      rfl
    · rw [update_of_ne eq]
      exact inactive alt
  · intro alt ne
    exact update_of_ne ne _ _

theorem sequential_along {c : Nat} {sel : Nat → Choice} (p : Run Response) (w : World)
    (live : Nat → Option Request) (solo : Sequential live c) :
    Service.Along (execute gateway) (fun w s io =>
        sequential.executes w live c s io) sel
      p w :=
  (Service.along_true sel p w).mono fun _ _ _ _ => solo

/-- The results of a batch are lost on the way to the gateway; the candidate is
delivered again, answered from its row and acked, and the gateway has neither
its bundle nor its name. -/
theorem acked_outcome_lost : ¬ ∀ (k : Collector) (env : Env) (start : World)
        (finish : Service.State Request Statement Statement.Answer Response
          World) (enrollmentID : String) (row : Enrollment), start.Sound →
      Reaches (system k env).step sequential.Allows (Service.State.quiet start) finish →
      finish.world.Acked enrollmentID → finish.world.base.enrollments.find enrollmentID = some row →
      row.status ≠ .pending → finish.world.Delivered enrollmentID row.status := by
  intro claim
  obtain ⟨once, first, inactive, elsewhere⟩ := reaches_collected sequential
    (.quiet arrived) 0 lossy rfl (fun _ => rfl) trivial (sequential_along _ _)
  obtain ⟨twice, second, _⟩ := reaches_collected sequential ⟨collected arrived lossy, once⟩ 1 later
    (elsewhere 1 (by decide)) inactive trivial (sequential_along _ _)
  let last := collected (collected arrived lossy) later
  have status : (last.base.enrollments.find "e1").map (·.status) = some .issued := by decide
  obtain ⟨row, found, issued⟩ := Option.map_eq_some_iff.mp status
  have acked : last.Acked "e1" := by
    refine ⟨by decide, ?_⟩
    rintro ⟨item, member, _⟩
    have empty : last.base.items.rows = [] := by decide
    rw [empty] at member
    cases member
  have delivered := claim _ _ _ _ "e1" row arrived_sound
    (first.trans second) acked found (by rw [issued]; decide)
  have missing : ¬last.Delivered "e1" .issued := by decide
  rw [issued] at delivered
  exact missing delivered

theorem acked_outcome_delivered_collected : (collected arrived fun _ => {}).Delivered "e1"
      .issued := by
  have along : Service.Along (execute gateway)
      (fun world statement choice => world.Answered choice statement)
      (fun _ => {}) (collector.handle .collectOnce)
      arrived := by
    decide
  obtain ⟨calls, reached, _⟩ := reaches_collected answering
    (.quiet arrived) 0 (fun _ => {}) rfl (fun _ => rfl) trivial fun active alone =>
      along.mono fun _ _ _ answered => ⟨alone, fun _ => answered⟩
  let last := collected arrived fun _ => {}
  have status : (last.base.enrollments.find "e1").map (·.status) = some .issued := by decide
  obtain ⟨row, found, issued⟩ := Option.map_eq_some_iff.mp status
  have acked : last.Acked "e1" := by
    refine ⟨by decide, ?_⟩
    rintro ⟨item, member, _⟩
    have empty : last.base.items.rows = [] := by decide
    rw [empty] at member
    cases member
  have delivered := acked_outcome_delivered _ _ arrived_sound reached acked found
  rw [issued] at delivered
  exact delivered

end Harbor.Collect
