import Harbor.Collect.Collector
import Harbor.Consumer.Redelivery

/-!
# The discipline of a collect cycle

What a call has done so far, and what it may do next: a candidate is processed
as the consumer's specification says, everything the sink held at the end of
the batch is shipped before the first ack, and an ack is for a candidate whose
processing ended with a result in the sink, without a row, or with a row that
was there before.
-/

namespace Harbor.Collect

open Library Queue Consumer List

/-- A claimed candidate with the footprint of its `Process` call. -/
abbrev Processed := Leased × Footprint

def Ackable (f : Footprint) : Prop :=
  f.inserted = none ∨ f.put ≠ none

inductive Phase where
  | deciding
  | publishing
  | claiming
  | claimed (batch : List Leased)
  /-- The footprint is that of the call for the first waiting candidate, once
  its row was looked up. -/
  | processing (finished : List Processed) (waiting : List Leased) (print : Option Footprint)
  /-- The drained results, those put so far and the lease ids acked so far. -/
  | shipping (finished : List Processed) (results puts : List Delivery) (acked : List Int)
  /-- The decisions read so far. -/
  | reconciling (offers : List (String × Enrollment.Status))

def Decides (statement : Consumer.Statement) : Prop :=
  (∀ row, statement ≠ .createEnrollment row) ∧ statement.writes ≠ some .items

namespace Phase

def may (c : Config) : Phase → Statement → Prop
  | .deciding, .outside => True
  | .deciding, .consumer statement =>
    Decides statement ∧ statement.writes ≠ some .results
  | .publishing, .publish _ _ | .claiming, .outside | .claiming, .consumer (.claim _ _) => True
  | .claimed _, .outside | .claimed _, .drain => True
  | .processing _ (l :: _) none, .consumer statement =>
    statement = .findEnrollment l.candidate.enrollmentID
  | .processing _ (_ :: _) (some f), .consumer statement =>
    f.may c statement ∧ statement.writes ≠ some .results
  | .processing _ (_ :: _) (some f), .capture delivery =>
    f.may c (.putResult delivery)
  | .processing _ (_ :: _) (some _), .processed _ | .processing _ [] _, .drain => True
  | .shipping _ _ _ _, .outside => True
  | .shipping _ results _ _, .consumer (.putResult delivery) =>
    delivery ∈ results
  | .shipping finished results puts acked, .consumer (.ackItem id) =>
    (∃ entry ∈ finished, entry.1.id = id ∧ Ackable entry.2) ∧
      (∀ delivery ∈ results, delivery ∈ puts) ∧ ((finished.map (·.1.id)).Nodup → id ∉ acked)
  | .shipping _ _ _ _, .consumer (.nackItem _) | .reconciling _, .outside => True
  | .reconciling offers, .consumer (.putResult delivery) =>
    (delivery.enrollmentID, delivery.status) ∈ offers
  | .reconciling _, .consumer statement => statement.writes = none
  | _, _ => False

def after : Phase → (statement : Statement) → statement.Answer → Phase
  | .claiming, .consumer (.claim _ _), .ok leased => .claimed leased
  | .claimed batch, .drain, _ => .processing [] batch none
  | .processing finished (l :: rest) none, .consumer statement, answer =>
    .processing finished (l :: rest)
      (some (Footprint.after { job := .process l.candidate } statement answer))
  | .processing finished (l :: rest) (some f), .consumer statement, answer =>
    .processing finished (l :: rest) (some (f.after statement answer))
  | .processing finished (l :: rest) (some f), .capture delivery, answer =>
    .processing finished (l :: rest) (some (f.after (.putResult delivery) answer))
  | .processing finished (l :: rest) (some f), .processed _, _ =>
    .processing (finished ++ [(l, f)]) rest none
  | .processing finished [] _, .drain, results =>
    .shipping finished results [] []
  | .shipping finished results puts acked, .consumer (.putResult delivery),
      .ok _ => .shipping finished results (puts ++ [delivery]) acked
  | .shipping finished results puts acked, .consumer (.ackItem id), _ =>
    .shipping finished results puts (acked ++ [id])
  | .reconciling offers, .consumer (.findEnrollment enrollmentID), .ok (some row) =>
    if row.status = .pending then .reconciling offers
    else .reconciling (offers ++ [(enrollmentID, row.status)])
  | phase, _, _ => phase

end Phase

abbrev cycle (c : Config) : Discipline Statement Statement.Answer where
  Phase := Phase
  may := Phase.may c
  after := Phase.after

section

variable {c : Config} {finished : List Processed} {l : Leased} {rest : List Leased}
variable {stmt : Consumer.Statement}

theorem captured_of_writes (alt : stmt.writes ≠ some .results) :
    captured stmt = send (.consumer stmt) := by
  cases stmt with
  | putResult dlv => exact absurd rfl alt
  | _ => rfl

theorem elsewhere_of_writes (alt : stmt.writes ≠ some .results) :
    elsewhere stmt = send (.consumer stmt) := by
  cases stmt with
  | putResult dlv => exact absurd rfl alt
  | _ => rfl

theorem putResult_of_writes
    (puts : stmt.writes = some .results) : ∃ dlv, stmt = .putResult dlv := by
  cases stmt with
  | putResult dlv => exact ⟨dlv, rfl⟩
  | _ => cases puts

theorem captured_follows {V : Type} {ends : Ends V} {p : Consumer.Run V} {f : Footprint}
    (goes : p.Follows (discipline c) f ends) :
    (p.translate captured).Follows (cycle c) (.processing finished (l :: rest) (some f))
      fun val last => ∃ g, ends val g ∧ last = .processing finished (l :: rest) (some g) := by
  induction p generalizing f with
  | done val => exact ⟨f, goes, rfl⟩
  | issue stmt next ih =>
    show ((captured stmt).bind _).Follows _ _ _
    by_cases puts : stmt.writes = some .results
    · obtain ⟨dlv, rfl⟩ := putResult_of_writes puts
      exact ⟨goes.1, fun ans => ih ans (goes.2 ans)⟩
    · rw [captured_of_writes puts]
      exact ⟨⟨goes.1, puts⟩, fun ans => ih ans (goes.2 ans)⟩

theorem process_lookup (c : Config) (cand : Candidate) : ∃ next, c.process cand =
      .issue (.findEnrollment cand.enrollmentID) next :=
  ⟨_, rfl⟩

theorem process_follows (k : Collector) : (k.process l.candidate).Follows (cycle k.consumer)
      (.processing finished (l :: rest) none)
      fun val last => ∃ f, ProcessEnds k.consumer l.candidate val f ∧
        last = .processing finished (l :: rest) (some f) := by
  have goes : (k.consumer.process l.candidate).Follows
      (discipline k.consumer) { job := .process l.candidate }
      (ProcessEnds k.consumer l.candidate) := Consumer.process_follows
  obtain ⟨next, begins⟩ := process_lookup k.consumer l.candidate
  unfold Collector.process
  rw [begins] at goes ⊢
  exact ⟨rfl, fun ans => captured_follows (goes.2 ans)⟩

theorem ackable_of_ends (wired : c.results = true) {f : Footprint}
    (past : ProcessEnds c cand val f) (done : settled val = true) :
    Ackable f := by
  have put : ∀ {was last : Footprint}, Written c was last →
      Ackable last := by
    rintro was last (⟨unwired, _⟩ | ⟨_, dlv, _, rfl⟩)
    · rw [wired] at unwired
      cases unwired
    · exact .inr (by simp)
  cases past with
  | known _ | untouched | stopped => exact .inl rfl
  | denied _ wrote => exact put wrote
  | unsigned ip unwound =>
    cases unwound with
    | released => exact .inl rfl
    | stuck => exact .inl rfl
  | unbundled => exact .inl rfl
  | unparked _ => cases done
  | parked _ wrote => exact put wrote
  | unrecorded _ => cases done
  | issued _ _ wrote => exact put wrote

def Acks (finished : List Processed) (ackIDs : List Int) : Prop :=
  ackIDs.Sublist (finished.map (·.1.id)) ∧
    ∀ id ∈ ackIDs, ∃ entry ∈ finished, entry.1.id = id ∧ Ackable entry.2

variable {ackIDs : List Int}

theorem Acks.skip (acks : Acks finished ackIDs)
    (entry : Processed) : Acks (finished ++ [entry]) ackIDs := by
  refine ⟨?_, ?_⟩
  · rw [map_append]
    exact acks.1.trans (sublist_append_left _ _)
  · intro id mem
    obtain ⟨hit, lies, eq⟩ := acks.2 id mem
    exact ⟨hit, mem_append_left _ lies, eq⟩

theorem Acks.take (acks : Acks finished ackIDs) (ackable : Ackable entry.2) :
    Acks (finished ++ [entry]) (ackIDs ++ [entry.1.id]) := by
  refine ⟨?_, ?_⟩
  · rw [map_append]
    exact acks.1.append (List.Sublist.refl _)
  · intro id mem
    rcases mem_append.mp mem with was | last
    · exact (acks.skip entry).2 id was
    · cases mem_singleton.mp last
      exact ⟨entry, by simp, rfl, ackable⟩

theorem processAll_follows (k : Collector) (idle : List Leased)
    (nackIDs : List Int) (acks : Acks finished ackIDs) :
    (k.processAll idle ackIDs nackIDs).Follows (cycle k.consumer)
      (.processing finished idle none) fun ids last => ∃ all, last = .processing all [] none ∧
        Acks all ids.1 := by
  induction idle generalizing finished ackIDs nackIDs with
  | nil => exact ⟨finished, rfl, acks⟩
  | cons l rest ih =>
    unfold Collector.processAll
    apply (process_follows k).bind
    rintro out _ ⟨f, past, rfl⟩
    refine ⟨trivial, fun _ => ?_⟩
    split
    · rename_i done
      exact ih nackIDs (acks.take (ackable_of_ends rfl past done))
    · exact ih _ (acks.skip (l, f))

end

section

variable {c : Config}

structure Phase.Online (c : Config) (phase : Phase) : Prop where
  permitted : phase.may c .outside
  kept : ∀ answer, phase.after .outside answer = phase

theorem call_follows {Reply : Type} {path : String}
    {handler : Run (Except String Reply)} {ph : Phase}
    {ends : Except String Reply → Phase → Prop} (online : ph.Online c)
    (unsent : ∀ t, ends (.error t) ph) (handled : handler.Follows (cycle c) ph fun reply last =>
      last.Online c ∧ (∀ t, ends (.error t) last) ∧ ∀ val, reply = .ok val → ends (.ok val) last) :
    (call path handler).Follows (cycle c) ph ends := by
  refine ⟨online.permitted, fun ans => ?_⟩
  show Procedure.Follows (cycle c) _ (ph.after .outside ans) _
  rw [online.kept]
  match ans with
  | .error t => exact unsent t
  | .ok () =>
    apply handled.bind
    rintro reply last ⟨same, fail, fine⟩
    refine ⟨same.permitted, fun ans => ?_⟩
    show Procedure.Follows (cycle c) _ (last.after .outside ans) _
    rw [same.kept]
    match ans, reply with
    | .error t, _ => exact fail t
    | .ok (), .error body => exact fail _
    | .ok (), .ok val => exact fine val rfl

theorem online_claiming : Phase.claiming.Online c :=
  ⟨trivial, fun _ => rfl⟩

theorem online_claimed {bt : List Leased} : (Phase.claimed bt).Online c :=
  ⟨trivial, fun _ => rfl⟩

theorem online_shipping {past : List Processed} {outs puts : List Delivery} {acked : List Int} :
    (Phase.shipping past outs puts acked).Online c :=
  ⟨trivial, fun _ => rfl⟩

theorem online_reconciling {gives : List (String × Enrollment.Status)} :
    (Phase.reconciling gives).Online c :=
  ⟨trivial, fun _ => rfl⟩

end

section

variable {c : Config} {past : List Processed} {results puts : List Delivery} {acked : List Int}

theorem handleResults_follows (drained : ∀ dlv ∈ l, dlv ∈ results) :
    (handleResults l).Follows (cycle c) (.shipping past results puts acked)
      fun reply last => ∃ all, last = .shipping past results all acked ∧
        (reply = .ok () → ∀ dlv ∈ puts ++ l, dlv ∈ all) := by
  induction l generalizing puts with
  | nil => exact ⟨puts, rfl, fun _ dlv mem => by simpa using mem⟩
  | cons dlv tail ih =>
    refine ⟨drained dlv mem_cons_self, fun ans => ?_⟩
    match ans with
    | .error t => exact ⟨puts, rfl, nofun⟩
    | .ok () =>
      have late := fun alt mem =>
        drained alt (mem_cons_of_mem _ mem)
      apply (ih late).mono
      rintro reply last ⟨all, eq, every⟩
      refine ⟨all, eq, fun ok alt mem => every ok alt ?_⟩
      simpa using mem

theorem handleNacks_follows (ids : List Int) : (handleNacks ids).Follows (cycle c)
      (.shipping past results puts acked)
      fun _ last => ∃ all, last = .shipping past results puts all := by
  induction ids with
  | nil => exact ⟨acked, rfl⟩
  | cons id tail ih =>
    refine ⟨trivial, fun ans => ?_⟩
    match ans with
    | .error t => exact ⟨acked, rfl⟩
    | .ok () => exact ih

theorem handleAck_follows {ackIDs : List Int} (ids : List Int)
    (sent : ∀ dlv ∈ results, dlv ∈ puts) (acks : Acks past (acked ++ ackIDs)) :
    (handleAck ackIDs ids).Follows (cycle c) (.shipping past results puts acked)
      fun _ last => ∃ all, last = .shipping past results puts all := by
  induction ackIDs generalizing acked with
  | nil => exact handleNacks_follows ids
  | cons id tail ih =>
    have new : (past.map (·.1.id)).Nodup → id ∉ acked := by
      intro uniq mem
      have nodup := uniq.sublist acks.1
      rw [nodup_append] at nodup
      exact nodup.2.2 id mem id mem_cons_self rfl
    refine ⟨⟨acks.2 id (by simp), sent, new⟩, fun ans => ?_⟩
    match ans with
    | .error t => exact ⟨acked ++ [id], rfl⟩
    | .ok () =>
      refine ih ?_
      rwa [append_assoc]

end

section

variable {c : Config}

theorem ship_follows {past : List Processed} (outs : List Delivery) :
    (Collector.ship outs).Follows (cycle c) (.shipping past outs [] [])
      fun ans last => ∃ puts, last = .shipping past outs puts [] ∧
        (ans = .ok () → ∀ dlv ∈ outs, dlv ∈ puts) := by
  unfold Collector.ship
  split
  · rename_i empty
    exact ⟨[], rfl, fun _ => by simp [empty]⟩
  · apply call_follows online_shipping
    · exact fun t => ⟨[], rfl, nofun⟩
    · refine (handleResults_follows fun _ mem => mem).mono ?_
      rintro reply _ ⟨puts, rfl, every⟩
      refine ⟨online_shipping, fun t => ⟨puts, rfl, nofun⟩, ?_⟩
      intro val ok
      exact ⟨puts, rfl, fun _ dlv mem => every ok dlv (by simpa using mem)⟩

theorem collectOnce_follows (k : Collector) :
    k.collectOnce.Follows (cycle k.consumer) .claiming fun _ _ => True := by
  have claims : (call "/collect/v1/claim" (handleClaim k.batch (k.leaseTTL / millisecond))).Follows
      (cycle k.consumer) .claiming fun ans last => ∀ lent, ans = .ok lent →
        last = .claimed lent := by
    apply call_follows online_claiming
    · exact fun t => nofun
    · refine ⟨trivial, fun ans => ?_⟩
      match ans with
      | .error t => exact ⟨online_claiming, nofun, nofun⟩
      | .ok lent =>
        refine ⟨online_claimed, nofun, ?_⟩
        rintro val ⟨⟩ alt ⟨⟩
        rfl
  apply claims.bind
  intro ans last took
  match ans with
  | .error t | .ok [] => trivial
  | .ok (cand :: tail) =>
    rw [took _ rfl]
    refine ⟨trivial, fun _ => ?_⟩
    apply (processAll_follows k (cand :: tail) [] ⟨nil_sublist _, nofun⟩).bind
    rintro ids _ ⟨all, rfl, acks⟩
    refine ⟨trivial, fun outs => ?_⟩
    apply (ship_follows outs).bind
    rintro sent _ ⟨puts, rfl, every⟩
    match sent with
    | .error t => trivial
    | .ok () =>
      have acked : (call "/collect/v1/ack" (handleAck ids.1 ids.2)).Follows (cycle k.consumer)
          (.shipping all outs puts []) fun _ _ => True := by
        apply call_follows online_shipping fun _ => trivial
        refine (handleAck_follows ids.2 (every rfl) acks).mono ?_
        rintro reply _ ⟨some, rfl⟩
        exact ⟨online_shipping, fun _ => trivial, fun _ _ => trivial⟩
      apply acked.bind
      intro ans last _
      match ans with
      | .error t => trivial
      | .ok () => trivial

end

section

variable {c : Config} {offers : List (String × Enrollment.Status)}

def Looks (statement : Consumer.Statement) : Prop :=
  statement.writes = none ∧ ∀ enrollmentID, statement ≠ .findEnrollment enrollmentID

theorem follows_of_eq {V : Type} {p : Run V} {ends : V → Phase → Prop} (eq : ph = alt)
    (goes : p.Follows (cycle c) alt ends) : p.Follows (cycle c) ph ends :=
  eq ▸ goes

theorem reconciling_may (read : s.writes = none) :
    (Phase.reconciling offers).may c (.consumer s) := by
  cases s with
  | putResult dlv => cases read
  | _ => exact read

theorem reconciling_after (looks : Looks s) (ans : s.Answer) :
    (Phase.reconciling offers).after (.consumer s) ans =
      .reconciling offers := by
  cases s with
  | findEnrollment id => exact absurd rfl (looks.2 id)
  | _ => rfl

theorem looks_follows {V : Type} {ends : V → Prop} {p : Consumer.Run V}
    (out : p.Issues Looks ends) : (p.translate captured).Follows (cycle c) (.reconciling offers)
      fun val last => last = .reconciling offers ∧ ends val := by
  induction p with
  | done val => exact ⟨rfl, out⟩
  | issue s next ih =>
    show ((captured s).bind _).Follows _ _ _
    rw [captured_of_writes (by rw [out.1.1]; nofun)]
    refine ⟨reconciling_may out.1.1, fun ans => ?_⟩
    exact follows_of_eq (reconciling_after out.1 ans) (ih ans (out.2 ans))

theorem buildBundle_looks (c : Config) (n ip : String)
    (gs : List String) (certPEM : Bytes) (notAfter : Int) (goos arch : String) :
    (c.buildBundle n ip gs certPEM notAfter goos arch).Issues Looks fun _ => True := by
  unfold Config.buildBundle
  split
  · trivial
  · apply Procedure.issues_send ⟨rfl, nofun⟩
    intro issuedAt
    apply Procedure.issues_send ⟨rfl, nofun⟩
    intro sources
    apply Procedure.issues_send ⟨rfl, nofun⟩
    intro sig
    cases sig <;> trivial

theorem deliverable_looks (k : Collector) (id : String) (e : Enrollment) :
    (k.deliverable id e).Issues Looks fun ans => ∀ due, ans = .ok (some due) →
        due.status = e.status ∧ e.status ≠ .pending := by
  unfold Collector.deliverable
  split
  · rename_i sent
    split
    · exact nofun
    · apply (buildBundle_looks _ _ _ _ _ _ _ _).bind
      intro pack _
      cases pack with
      | error err => exact nofun
      | ok b =>
        rintro _ ⟨⟩
        exact ⟨sent.symm, by rw [sent]; nofun⟩
  · rename_i denied
    rintro _ ⟨⟩
    exact ⟨denied.symm, by rw [denied]; nofun⟩
  · exact nofun

theorem buildDeliverable_follows (k : Collector) (id : String) :
    ((k.buildDeliverable id).translate captured).Follows (cycle c) (.reconciling offers)
      fun ans last => ∃ all, last = .reconciling all ∧ offers ⊆ all ∧
        ∀ due, ans = .ok (some due) → (id, due.status) ∈ all := by
  refine ⟨rfl, fun ans => ?_⟩
  match ans with
  | .error t | .ok none => exact ⟨offers, rfl, fun _ mem => mem, nofun⟩
  | .ok (some e) =>
    by_cases wait : e.status = .pending
    · refine follows_of_eq (if_pos wait) ((looks_follows (deliverable_looks k id e)).mono ?_)
      rintro ans last ⟨rfl, law⟩
      refine ⟨offers, rfl, fun _ mem => mem, ?_⟩
      intro due eq
      exact absurd wait (law due eq).2
    · refine follows_of_eq (if_neg wait) ((looks_follows (deliverable_looks k id e)).mono ?_)
      rintro ans last ⟨rfl, law⟩
      refine ⟨_, rfl, subset_append_left _ _, ?_⟩
      intro due eq
      rw [(law due eq).1]
      exact mem_append_right _ mem_cons_self

def Offered (offers : List (String × Enrollment.Status)) (results : List Delivery) : Prop :=
  ∀ delivery ∈ results, (delivery.enrollmentID, delivery.status) ∈ offers

theorem offered_nil : Offered offers [] :=
  nofun

theorem resolveAll_follows (k : Collector) (ids : List String)
    {outs : List Delivery} (gave : Offered offers outs) :
    (k.resolveAll ids outs).Follows (cycle c) (.reconciling offers)
      fun ans last => ∃ all, last = .reconciling all ∧
        Offered all ans := by
  induction ids generalizing offers outs with
  | nil => exact ⟨offers, rfl, gave⟩
  | cons id tail ih =>
    apply (buildDeliverable_follows k id).bind
    rintro ans _ ⟨all, rfl, grew, hit⟩
    have kept : Offered all outs := fun dlv mem => grew (gave dlv mem)
    match ans with
    | .error err => exact ih kept
    | .ok none => exact ih kept
    | .ok (some due) =>
      refine ⟨rfl, fun now => ih ?_⟩
      intro dlv mem
      rcases mem_append.mp mem with was | last
      · exact kept dlv was
      · cases mem_singleton.mp last
        exact hit due rfl

theorem deliver_follows {outs : List Delivery} (gave : Offered offers outs) :
    (handleResults outs).Follows (cycle c) (.reconciling offers)
      fun _ last => last = .reconciling offers := by
  induction outs with
  | nil => exact rfl
  | cons dlv tail ih =>
    refine ⟨gave dlv mem_cons_self, fun ans => ?_⟩
    match ans with
    | .error t => exact rfl
    | .ok () =>
      exact ih fun alt mem =>
        gave alt (mem_cons_of_mem _ mem)

theorem reconcileOnce_follows (k : Collector) :
    k.reconcileOnce.Follows (cycle c) (.reconciling []) fun _ _ => True := by
  unfold Collector.reconcileOnce
  split
  · trivial
  · have ask : (call "/collect/v1/pending" handlePending).Follows (cycle c)
        (.reconciling []) fun _ last => last = .reconciling [] := by
      apply call_follows online_reconciling fun _ => rfl
      refine ⟨rfl, fun ans => ?_⟩
      cases ans <;>
        exact ⟨online_reconciling, fun _ => rfl, fun _ _ => rfl⟩
    apply ask.bind
    rintro ans _ rfl
    match ans with
    | .error t => trivial
    | .ok ids =>
      apply (resolveAll_follows k ids offered_nil).bind
      rintro results _ ⟨offers, rfl, gave⟩
      split
      · trivial
      · have sent : (call "/collect/v1/results" (handleResults results)).Follows (cycle c)
            (.reconciling offers) fun _ _ => True := by
          apply call_follows online_reconciling fun _ => trivial
          refine (deliver_follows gave).mono ?_
          rintro reply _ rfl
          exact ⟨online_reconciling, fun _ => trivial, fun _ _ => trivial⟩
        apply sent.bind
        intro ans last _
        match ans with
        | .error t => trivial
        | .ok () => trivial

end

section

variable {c admin : Config}

theorem writes_ne_items {f : Footprint} (may : f.may admin s) : s.writes ≠ some .items := by
  intro puts
  cases s with
  | claim | ackItem | nackItem => exact may
  | _ => cases puts

theorem decides_of_follows {V : Type} {ends : Ends V}
    {p : Consumer.Run V} {f : Footprint} (goes : p.Follows (discipline admin) f ends)
    (vote : ∀ cand, f.job ≠ .process cand) : p.Issues Decides fun _ => True := by
  induction p generalizing f with
  | done val => trivial
  | issue s next ih =>
    obtain ⟨may, tail⟩ := goes
    refine ⟨⟨?_, writes_ne_items may⟩, fun ans => ih ans (tail ans) ?_⟩
    · rintro row rfl
      obtain ⟨_, _, _, ⟨cand, process⟩, _⟩ := may
      exact vote cand process
    · intro cand
      show (f.after s ans).job ≠ _
      rw [(entry_after f s ans).1]
      exact vote cand

theorem elsewhere_follows {V : Type} {p : Consumer.Run V} (out : p.Issues Decides fun _ => True) :
    (p.translate elsewhere).Follows (cycle c) .deciding fun _ last => last = .deciding := by
  induction p with
  | done v => exact rfl
  | issue s next ih =>
    show ((elsewhere s).bind _).Follows _ _ _
    by_cases puts : s.writes = some .results
    · obtain ⟨dlv, rfl⟩ := putResult_of_writes puts
      exact ⟨trivial, fun a => ih a (out.2 a)⟩
    · rw [elsewhere_of_writes puts]
      exact ⟨⟨out.1, puts⟩, fun a => ih a (out.2 a)⟩

end

def Request.start : Request → Phase
  | .collectOnce => .claiming
  | .reconcileOnce => .reconciling []
  | .approve _ _ | .deny _ _ _ => .deciding
  | .publish _ _ => .publishing

theorem handle_follows (k : Collector) (req : Request) :
    (k.handle req).Follows (cycle k.consumer) req.start fun _ _ => True := by
  cases req with
  | collectOnce => exact (collectOnce_follows k).bind fun _ _ _ => trivial
  | reconcileOnce => exact (reconcileOnce_follows k).bind fun _ _ _ => trivial
  | approve eid who =>
    exact (elsewhere_follows (decides_of_follows approve_follows nofun)).bind fun _ _ _ => trivial
  | deny eid who why =>
    exact (elsewhere_follows (decides_of_follows denyPending_follows
      nofun)).bind fun _ _ _ => trivial
  | publish id cand => exact ⟨trivial, fun _ => trivial⟩

end Harbor.Collect
