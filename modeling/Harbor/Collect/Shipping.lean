import Harbor.Collect.Account

/-!
# Claims, shipments and decisions

The statements on the gateway's queue and results, and those of the calls that
do not belong to a cycle.
-/

namespace Harbor.Collect

open Library Queue Consumer List

section

variable {env : Env} {pick : Choice} {w : World}
  {past : List Processed} {res puts : List Delivery} {acked : List Int}

theorem put_results (env : Env) (pick : Choice) (w : World) (dlv : Delivery) :
    w.told env pick (.putResult dlv) ≠ .ok () ∧
        (w.ran env pick (.putResult dlv)).base.results = w.base.results ∨
      (w.ran env pick (.putResult dlv)).base.results = putResult w.base.results dlv := by
  rcases database_cases pick w.base ()
    { w.base with
      results := putResult w.base.results dlv
      delivered := w.base.delivered ++ [dlv] } with
      ended | ended | ended
  · exact .inr (congrArg (fun out => out.2.results) ended)
  · refine .inl ⟨?_, congrArg (fun out => out.2.results) ended⟩
    intro ok
    cases (congrArg Prod.fst ended).symm.trans ok
  · exact .inr (congrArg (fun out => out.2.results) ended)

theorem put_status (outs : Results) (dlv : Delivery) :
    ∃ res, (putResult outs dlv).find dlv.enrollmentID = some res ∧ res.status = dlv.status := by
  rw [find_putResult, if_pos rfl]
  cases outs.find dlv.enrollmentID with
  | none | some res => exact ⟨_, rfl, rfl⟩

variable {dlv : Delivery}

theorem shown_of_put {new : World} (fit : w.Fitting dlv)
    (rows : new.base.enrollments = w.base.enrollments) (put : new.base.results =
      putResult w.base.results dlv) : new.Shown dlv.enrollmentID := by
  intro row hit
  rw [rows] at hit
  obtain ⟨res, held, st⟩ := put_status w.base.results dlv
  rw [World.delivered_iff, put]
  exact ⟨res, held, st.symm ▸ fit row hit⟩

theorem put_enrollments (env : Env) (pick : Choice) (w : World) (dlv : Delivery) :
    (w.ran env pick (.putResult dlv)).base.enrollments =
      w.base.enrollments :=
  (execute_framed env.consumer pick w.base (.putResult dlv)).enrollments (by rintro ⟨⟩)

theorem put_items (env : Env) (pick : Choice) (w : World) (dlv : Delivery) :
    (w.ran env pick (.putResult dlv)).base.items =
      w.base.items :=
  ((execute_framed env.consumer pick w.base (.putResult dlv)).items (by rintro ⟨⟩)).1

theorem shown_put (fit : w.Fitting dlv) (seen : w.Shown eid) :
    (w.ran env pick (.putResult dlv)).Shown eid := by
  have rows := put_enrollments env pick w dlv
  rcases put_results env pick w dlv with ⟨_, eq⟩ | written
  · exact Alike.shown ⟨congrArg (Table.find · eid) rows, eq⟩ seen
  · by_cases own : eid = dlv.enrollmentID
    · rw [own]
      exact shown_of_put fit rows written
    · intro row hit
      rw [rows] at hit
      obtain ⟨result, held, st⟩ := World.delivered_iff.mp (seen row hit)
      rw [World.delivered_iff, written, find_putResult, if_neg own]
      exact ⟨result, held, st⟩

theorem working_put (fit : w.Fitting dlv) {f : Footprint} (busy : w.Working c f) :
    (w.ran env pick (.putResult dlv)).Working c f where
  job := busy.job
  shown := fun idle => shown_put fit (busy.shown idle)
  fresh := by
    rw [put_enrollments]
    exact busy.fresh
  known := busy.known
  inserted := by
    rw [put_enrollments]
    exact busy.inserted
  put := busy.put

theorem sound_put (fit : w.Fitting dlv) (inv : w.Sound) :
    (w.ran env pick (.putResult dlv)).Sound := by
  refine ⟨by rw [put_items]; exact inv.unique, ?_⟩
  intro id
  rcases inv.kept id with shown | queued
  · exact .inl (shown_put fit shown)
  · right
    rw [World.queued_iff, put_items]
    exact World.queued_iff.mp queued

theorem put_step (mem : dlv ∈ res) (ship : w.Shipping past res puts acked) :
    (w.ran env pick (.putResult dlv)).Accords
      ((Phase.shipping past res puts acked).after (.consumer (.putResult dlv))
        (w.told env pick (.putResult dlv))) := by
  have fit := ship.fitting dlv mem
  have kept : ∀ puts', (∀ alt ∈ puts', (w.ran env pick (.putResult dlv)).Shown alt.enrollmentID) →
      (w.ran env pick (.putResult dlv)).Shipping past res
        puts' acked := by
    intro puts' seen
    refine ⟨ship.ids, ?_, ship.drained, ?_, seen, ?_⟩
    · intro entry lies
      exact working_put fit (ship.ended entry lies)
    · intro alt lies
      unfold World.Fitting
      rw [put_enrollments]
      exact ship.fitting alt lies
    · rw [put_items]
      exact ship.queued
  have was : ∀ alt ∈ puts, (w.ran env pick (.putResult dlv)).Shown alt.enrollmentID :=
    fun alt lies => shown_put fit (ship.shown alt lies)
  cases ans : w.told env pick (.putResult dlv) with
  | error t => exact kept puts was
  | ok _ =>
    refine kept (puts ++ [dlv]) ?_
    intro alt lies
    rcases mem_append.mp lies with old | last
    · exact was alt old
    · cases mem_singleton.mp last
      exact shown_of_put fit (put_enrollments env pick w dlv)
        ((put_results _ _ _ _).resolve_left fun fail => fail.1 ans)

variable {stmt : Consumer.Statement}

theorem alike_items (writes : stmt.writes = some .items) (eid : String) :
    Alike w (w.ran env pick stmt) eid := by
  have rest := execute_framed env.consumer pick w.base stmt
  rw [writes] at rest
  exact ⟨congrArg (Table.find · eid)
    (rest.enrollments (by rintro ⟨⟩)), (rest.results (by rintro ⟨⟩)).1⟩

theorem fitting_items (writes : stmt.writes = some .items)
    (fit : w.Fitting dlv) : (w.ran env pick stmt).Fitting dlv := by
  unfold World.Fitting
  rw [(alike_items writes _).row]
  exact fit

theorem ack_items (env : Env) (pick : Choice) (w : World) (id : Int) :
    entries (w.ran env pick (.ackItem id)).base.items = entries w.base.items ∨
      entries (w.ran env pick (.ackItem id)).base.items =
        (entries w.base.items).filter fun entry => entry.1 != id := by
  rcases database_cases pick w.base ()
    { w.base with
      items := Queue.ack w.base.items id
      acked := w.base.acked ++
        ((w.base.items.find id).map
          (·.candidate.enrollmentID)).toList } with ended | ended | ended
  · rw [← ack_entries]
    exact .inr (congrArg (fun out => entries out.2.items) ended)
  · exact .inl (congrArg (fun out => entries out.2.items) ended)
  · rw [← ack_entries]
    exact .inr (congrArg (fun out => entries out.2.items) ended)

theorem shown_of_ackable (ship : w.Shipping past res puts acked) (sent : ∀ dlv ∈ res, dlv ∈ puts)
    (mem : entry ∈ past) (ackable : Ackable entry.2) : w.Shown entry.1.candidate.enrollmentID := by
  have busy := ship.ended entry mem
  rcases ackable with idle | written
  · exact busy.shown idle
  · obtain ⟨dlv, put⟩ := Option.ne_none_iff_exists'.mp written
    rw [← (busy.put dlv put).1]
    exact ship.shown dlv (sent dlv (ship.drained entry mem dlv put))

theorem ack_step {id : Int} (inv : w.Sound) (ship : w.Shipping past res puts acked)
    (acking : ∃ entry ∈ past, entry.1.id = id ∧ Ackable entry.2) (sent : ∀ dlv ∈ res, dlv ∈ puts)
    (unacked : (past.map (·.1.id)).Nodup → id ∉ acked) : (w.ran env pick (.ackItem id)).Sound ∧
      (w.ran env pick (.ackItem id)).Shipping past res puts (acked ++ [id]) := by
  obtain ⟨entry, mem, own, ackable⟩ := acking
  have queued : entry.1.entry ∈ entries w.base.items := by
    apply ship.queued entry mem
    rw [own]
    exact unacked ship.ids
  have alike : ∀ eid, Alike w (w.ran env pick (.ackItem id)) eid := alike_items rfl
  have remains : ∀ alt ∈ entries w.base.items, alt.1 ≠ id →
      alt ∈ entries (w.ran env pick (.ackItem id)).base.items := by
    intro alt lies ne
    rcases ack_items env pick w id with same | filtered
    · rw [same]
      exact lies
    · rw [filtered, mem_filter]
      exact ⟨lies, by simpa using ne⟩
  refine ⟨⟨?_, ?_⟩, ⟨ship.ids, ?_, ship.drained, ?_, ?_, ?_⟩⟩
  · rcases ack_items env pick w id with same | filtered
    · rw [same]
      exact inv.unique
    · rw [filtered]
      exact inv.unique.sublist (filter_sublist.map _)
  · intro eid
    rcases inv.kept eid with shown | idle
    · exact .inl ((alike _).shown shown)
    · obtain ⟨alt, lies, named⟩ := World.queued_iff.mp idle
      by_cases same : alt.1 = id
      · left
        have key : alt = entry.1.entry := by
          apply inj_on_of_nodup_map (nodup_entries _) lies queued
          rw [same, ← own]
          rfl
        rw [← named, key]
        exact (alike _).shown (shown_of_ackable ship sent mem ackable)
      · right
        rw [World.queued_iff]
        exact ⟨alt, remains alt lies same, named⟩
  · intro alt lies
    exact (alike _).working (ship.ended alt lies)
  · intro dlv lies
    exact fitting_items rfl (ship.fitting dlv lies)
  · intro dlv lies
    exact (alike _).shown (ship.shown dlv lies)
  · intro alt lies new
    simp only [mem_append, mem_singleton, not_or] at new
    exact remains _ (ship.queued alt lies new.1) new.2

theorem undisturbed_of_entries (writes : stmt.writes = some .items)
    (eq : entries (w.ran env pick stmt).base.items = entries w.base.items) :
    Undisturbed w (w.ran env pick stmt) where
  rows := by
    intro eid row hit
    rw [(alike_items writes _).row] at hit
    exact ⟨row, hit, fun _ => rfl⟩
  results := (alike_items writes "").results
  entries := by
    rw [eq]
    exact fun _ mem => mem
  unique := by
    rw [eq]
    exact id
  sink := rfl

theorem nack_undisturbed (env : Env) (pick : Choice) (w : World) (id : Int) :
    Undisturbed w (w.ran env pick (.nackItem id)) := by
  apply undisturbed_of_entries rfl
  change entries (w.base.nackItem pick env.consumer id).2.items = _
  unfold Consumer.World.nackItem
  split
  · rename_i xs nacked
    have kept := nack_entries nacked
    rcases database_cases pick w.base () { w.base with items := xs } with ended | ended | ended
    · rw [ended]
      exact kept
    · rw [ended]
    · rw [ended]
      exact kept
  · rfl

end

section

variable {env : Env} {pick : Choice} {w : World}

theorem claim_undisturbed (env : Env) (pick : Choice) (w : World) (m : Nat) (ttl : Int) :
    Undisturbed w (w.ran env pick (.claim m ttl)) := by
  apply undisturbed_of_entries rfl
  have kept := (claim_entries w.base.items env.consumer.mac m ttl pick.now).1
  rcases database_cases pick w.base (Queue.claim w.base.items env.consumer.mac m ttl pick.now).1
    { w.base with
      items := (Queue.claim w.base.items env.consumer.mac m ttl
        pick.now).2 } with ended | ended | ended
  · exact (congrArg (fun out => entries out.2.items) ended).trans kept
  · exact congrArg (fun out => entries out.2.items) ended
  · exact (congrArg (fun out => entries out.2.items) ended).trans kept

theorem claim_holds (sound : w.Sound) (took : w.told env pick (.claim cap ttl) = .ok leased) :
    (w.ran env pick (.claim cap ttl)).Holds leased := by
  obtain ⟨_, ins⟩ := claim_entries w.base.items env.consumer.mac cap ttl pick.now
  have eq : (Queue.claim w.base.items env.consumer.mac cap ttl pick.now).1 = leased := by
    rcases database_cases pick w.base (Queue.claim w.base.items env.consumer.mac cap ttl pick.now).1
      { w.base with
        items := (Queue.claim w.base.items env.consumer.mac cap ttl
          pick.now).2 } with ended | ended | ended
    · exact Except.ok.inj ((congrArg Prod.fst ended).symm.trans took)
    · cases (congrArg Prod.fst ended).symm.trans took
    · cases (congrArg Prod.fst ended).symm.trans took
  rw [eq] at ins
  refine ⟨?_, ?_, ?_⟩
  · have ids := nodup_of_subperm ins Prod.fst (nodup_entries _)
    rwa [map_map] at ids
  · have names := nodup_of_subperm ins (·.2.enrollmentID) sound.unique
    rwa [map_map] at names
  · intro one mem
    exact (claim_undisturbed env pick w cap ttl).entries (ins.subset (mem_map_of_mem mem))

end

section

variable {env : Env} {pick : Choice} {w : World}

theorem claimPending_rows (base : Consumer.World) (id : String)
    (key : ∀ row, (ch row).enrollmentID = row.enrollmentID)
    (hit : (base.claimPending pick id ch key).2.enrollments.find want = some row) :
    ∃ old, base.enrollments.find want = some old ∧ (old.status ≠ .pending → row = old) := by
  have edit : ∀ row, (base.enrollments.update (Consumer.World.isPending id) ch key).find want =
      some row → ∃ old, base.enrollments.find want = some old ∧
        (old.status ≠ .pending → row = old) := by
    intro row hit
    rw [find_claimed key, Option.map_eq_some_iff] at hit
    obtain ⟨old, was, rfl⟩ := hit
    refine ⟨old, was, fun law => if_neg ?_⟩
    exact fun both => law both.2
  unfold Consumer.World.claimPending at hit
  rcases database_cases pick base (base.enrollments.affected (Consumer.World.isPending id))
    { base with
      enrollments := base.enrollments.update
        (Consumer.World.isPending id) ch key } with
      ended | ended | ended
  · rw [ended] at hit
    exact edit row hit
  · rw [ended] at hit
    exact ⟨row, hit, fun _ => rfl⟩
  · rw [ended] at hit
    exact edit row hit

theorem decide_undisturbed (rs : Decides s) (bare : s.writes ≠ some .results) :
    Undisturbed w (w.ran env pick s) := by
  have rest := execute_framed env.consumer pick w.base s
  have xs : (w.ran env pick s).base.items =
      w.base.items := (rest.items rs.2).1
  refine ⟨?_, (rest.results bare).1, ?_, ?_, rfl⟩
  · intro eid row hit
    by_cases puts : s.writes = some .enrollments
    · cases s with
      | createEnrollment row => exact absurd rfl (rs.1 row)
      | claimIssued law sent | claimDenied law when who => exact claimPending_rows w.base law _ hit
      | _ => cases puts
    · exact ⟨row, rest.enrollments puts ▸ hit, fun _ => rfl⟩
  · rw [xs]
    exact fun _ mem => mem
  · rw [xs]
    exact id

theorem unchanged_undisturbed (w : World) : Undisturbed w w :=
  undisturbed_of_eq rfl rfl rfl rfl

theorem published_undisturbed (env : Env) (w : World) (key : Int) (c : Candidate) :
    Undisturbed w (w.publish env key c).2 := by
  unfold World.publish
  split
  · exact unchanged_undisturbed w
  · rename_i xs published
    obtain ⟨appended, new⟩ := publish_entries published
    refine ⟨fun _ row hit => ⟨row, hit, fun _ => rfl⟩, rfl, ?_, ?_, rfl⟩
    · change _ ⊆ entries xs
      rw [appended]
      exact subset_append_left _ _
    · intro unique
      change ((entries xs).map _).Nodup
      rw [appended, map_append, nodup_append]
      refine ⟨unique, by simp, ?_⟩
      intro n mem alt last
      cases mem_singleton.mp last
      rintro rfl
      exact new mem

theorem publish_undisturbed (env : Env) (pick : Choice) (w : World)
    (key : Int) (c : Candidate) : Undisturbed w (execute env pick w (.publish key c)).2 := by
  have eff : Undisturbed w (pick.fault.settle
      (.error pick.text : Except String Unit) w (w.publish env key c)).2 := by
    rcases Fault.settle_snd pick.fault (.error pick.text : Except String Unit) w
      (w.publish env key c) with eq | ⟨_, eq⟩
    · rw [eq]
      exact unchanged_undisturbed w
    · rw [eq]
      exact published_undisturbed env w key c
  exact eff

theorem execute_outside (env : Env) (pick : Choice) (w : World) :
    (execute env pick w .outside).2 = w := by
  have fix := Fault.settle_snd pick.fault (.error pick.text) w ((.ok () : Except String Unit), w)
  exact fix.elim id And.right

end

section

variable {c : Config} {env : Env} {pick : Choice} {w : World}
  {offers : List (String × Enrollment.Status)}

theorem deliver_step (inv : w.Sound) (busy : w.Reconciling offers)
    (gave : (dlv.enrollmentID, dlv.status) ∈ offers) : (w.ran env pick (.putResult dlv)).Sound ∧
      (w.ran env pick (.putResult dlv)).Reconciling offers := by
  have fit : w.Fitting dlv := by
    intro row hit
    exact .inl ((busy _ gave).2 row hit).symm
  refine ⟨sound_put fit inv, ?_⟩
  unfold World.Reconciling
  rw [put_enrollments]
  exact busy

theorem resolve_step {id : String} (reconciling : w.Reconciling offers) :
    w.Accords ((Phase.reconciling offers).after (.consumer (.findEnrollment id))
      (w.told env pick (.findEnrollment id))) := by
  have stay : w.Accords (.reconciling offers) := reconciling
  match a : w.told env pick (.findEnrollment id) with
  | .error t | .ok none => exact stay
  | .ok (some row) =>
    have hit : w.base.enrollments.find id = some row := by
      rcases database_cases pick w.base (w.base.enrollments.find id) w.base with
          ended | ended | ended
      · exact Except.ok.inj ((congrArg Prod.fst ended).symm.trans a)
      · cases (congrArg Prod.fst ended).symm.trans a
      · cases (congrArg Prod.fst ended).symm.trans a
    change w.Accords (if row.status = .pending then _ else _)
    split
    · exact stay
    · rename_i law
      intro offer mem
      rcases mem_append.mp mem with old | last
      · exact reconciling offer old
      · cases mem_singleton.mp last
        refine ⟨law, fun o again => ?_⟩
        cases hit.symm.trans again
        rfl

theorem reconcile_step (inv : w.Sound)
    (reconciling : w.Reconciling offers) (may : (Phase.reconciling offers).may c s) :
    (execute env pick w s).2.Sound ∧ (execute env pick w s).2.Accords
        ((Phase.reconciling offers).after s (execute env pick w s).1) := by
  cases s with
  | outside =>
    rw [execute_outside]
    exact ⟨inv, reconciling⟩
  | consumer s =>
    by_cases read : s.writes = none
    · have eq : w.ran env pick s = w := by
        unfold World.ran
        rw [execute_read _ _ _ read]
      change (w.ran env pick s).Sound ∧ (w.ran env pick s).Accords _
      rw [eq]
      refine ⟨inv, ?_⟩
      by_cases lookup : ∃ id, s = .findEnrollment id
      · obtain ⟨id, rfl⟩ := lookup
        exact resolve_step reconciling
      · have looks : Looks s := ⟨read, by simpa using lookup⟩
        have kept : (Phase.reconciling offers).after (.consumer s)
            (w.told env pick s) = .reconciling offers :=
          reconciling_after looks _
        exact (congrArg w.Accords kept).mpr reconciling
    · cases s with
      | putResult dlv => exact deliver_step inv reconciling may
      | _ => exact absurd may read
  | _ => exact may.elim

end

end Harbor.Collect
