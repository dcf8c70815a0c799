import Harbor.Collect.Cycle
import Harbor.Queue.Leases

/-!
# What the gateway shows

The invariant of the collector: the outcome of an enrollment is shown at the
gateway or its candidate is still in the queue.  For each phase of a call this
module says what holds of the world then, and that the administrators and the
gateway's public side, who decide pending rows and add candidates, keep it.
-/

namespace Harbor.Collect

open Library Queue Consumer

namespace World

variable {world : World}

theorem delivered_iff : world.Delivered eid st ↔ ∃ res, world.base.results.find eid = some res ∧
        (res.status = st ∨ res.status = .pending) := by
  constructor
  · rintro (⟨res, hit, same⟩ | listed)
    · exact ⟨res, hit, .inl same⟩
    · simp only [pendingResultIDs, List.mem_map, List.mem_filter, beq_iff_eq] at listed
      obtain ⟨res, ⟨mem, due⟩, same⟩ := listed
      exact ⟨res, Table.find_eq_some_iff.mpr ⟨mem, same⟩, .inr due⟩
  · rintro ⟨res, hit, same | due⟩
    · exact .inl ⟨res, hit, same⟩
    · obtain ⟨mem, key⟩ := Table.find_eq_some_iff.mp hit
      right
      simp only [pendingResultIDs, List.mem_map, List.mem_filter, beq_iff_eq]
      exact ⟨res, ⟨mem, due⟩, key⟩

def Shown (world : World) (enrollmentID : String) : Prop :=
  ∀ row, world.base.enrollments.find enrollmentID = some row →
    world.Delivered enrollmentID row.status

structure Sound (world : World) : Prop where
  unique : ((entries world.base.items).map fun entry =>
    entry.2.enrollmentID).Nodup
  kept : ∀ enrollmentID, world.Shown enrollmentID ∨ world.Queued enrollmentID

def Fitting (world : World) (delivery : Delivery) : Prop :=
  ∀ row, world.base.enrollments.find delivery.enrollmentID = some row →
    delivery.status = row.status ∨ delivery.status = .pending

/-- Where a `Process` call of the cycle stands. -/
structure Working (world : World) (cand : Candidate) (f : Footprint) : Prop where
  job : f.job = .process cand
  shown : f.inserted = none → world.Shown cand.enrollmentID
  fresh : f.inserted = none → f.known = none → world.base.enrollments.find cand.enrollmentID = none
  known : f.inserted = none → f.known ≠ none → f.spent = false
  inserted : ∀ new, f.inserted = some new →
    ∀ row, world.base.enrollments.find cand.enrollmentID = some row →
      new.status = row.status ∨ new.status = .pending
  put : ∀ delivery, f.put = some delivery → delivery.enrollmentID = cand.enrollmentID ∧
      ∃ new, f.inserted = some new ∧ delivery.status = new.status

theorem Working.fitting {f : Footprint} (busy : world.Working c f)
    (put : f.put = some dlv) : world.Fitting dlv := by
  obtain ⟨eq, new, inserted, st⟩ := busy.put dlv put
  intro row hit
  rw [eq] at hit
  rw [st]
  exact busy.inserted new inserted row hit

theorem queued_iff : world.Queued eid ↔
      ∃ entry ∈ entries world.base.items, entry.2.enrollmentID = eid := by
  simp [Queued, entries, Item.entry]

structure Holds (world : World) (batch : List Leased) : Prop where
  ids : (batch.map (·.id)).Nodup
  names : (batch.map (·.candidate.enrollmentID)).Nodup
  queued : ∀ leased ∈ batch, leased.entry ∈ entries world.base.items

structure Processing (world : World) (finished : List Processed)
    (waiting : List Leased) (print : Option Footprint) : Prop where
  batch : world.Holds (finished.map Prod.fst ++ waiting)
  ended : ∀ entry ∈ finished, world.Working entry.1.candidate entry.2
  captured : ∀ entry ∈ finished, ∀ delivery, entry.2.put = some delivery → delivery ∈ world.sink
  current : ∀ l rest f, waiting = l :: rest → print = some f → world.Working l.candidate f ∧
      ∀ delivery, f.put = some delivery → delivery ∈ world.sink
  owned : ∀ delivery ∈ world.sink, (∃ entry ∈ finished, entry.2.put = some delivery) ∨
      ∃ l rest f, waiting = l :: rest ∧ print = some f ∧ f.put = some delivery

structure Shipping (world : World) (finished : List Processed)
    (results puts : List Delivery) (acked : List Int) : Prop where
  ids : (finished.map (·.1.id)).Nodup
  ended : ∀ entry ∈ finished, world.Working entry.1.candidate entry.2
  drained : ∀ entry ∈ finished, ∀ delivery, entry.2.put = some delivery → delivery ∈ results
  fitting : ∀ delivery ∈ results, world.Fitting delivery
  shown : ∀ delivery ∈ puts, world.Shown delivery.enrollmentID
  queued : ∀ entry ∈ finished, entry.1.id ∉ acked → entry.1.entry ∈ entries world.base.items

def Reconciling (world : World) (offers : List (String × Enrollment.Status)) :
    Prop :=
  ∀ offer ∈ offers, offer.2 ≠ .pending ∧ ∀ row, world.base.enrollments.find offer.1 = some row →
      row.status = offer.2

def Accords (world : World) : Phase → Prop
  | .claimed batch => world.Holds batch
  | .processing finished waiting print =>
    world.Processing finished waiting print
  | .shipping finished results puts acked =>
    world.Shipping finished results puts acked
  | .reconciling offers => world.Reconciling offers
  | .deciding | .publishing | .claiming => True

end World

section

structure Undisturbed (before after : World) : Prop where
  rows : ∀ enrollmentID row, after.base.enrollments.find enrollmentID = some row →
    ∃ old, before.base.enrollments.find enrollmentID = some old ∧
      (old.status ≠ .pending → row = old)
  results : after.base.results = before.base.results
  entries : entries before.base.items ⊆ entries after.base.items
  unique : ((Queue.entries before.base.items).map fun entry =>
      entry.2.enrollmentID).Nodup →
    ((Queue.entries after.base.items).map fun entry =>
      entry.2.enrollmentID).Nodup
  sink : after.sink = before.sink

variable {before fin : World} (calm : Undisturbed before fin)
include calm

variable {eid : String}

theorem shown_of_undisturbed (seen : before.Shown eid) : fin.Shown eid := by
  intro row hit
  obtain ⟨old, was, eq⟩ := calm.rows eid row hit
  obtain ⟨res, held, st⟩ := World.delivered_iff.mp (seen old was)
  rw [World.delivered_iff, calm.results]
  refine ⟨res, held, ?_⟩
  by_cases due : old.status = .pending
  · rw [due] at st
    exact .inr (st.elim id id)
  · rw [eq due]
    exact st

theorem queued_of_undisturbed (queued : before.Queued eid) : fin.Queued eid := by
  rw [World.queued_iff] at queued ⊢
  obtain ⟨entry, mem, eq⟩ := queued
  exact ⟨entry, calm.entries mem, eq⟩

theorem status_of_undisturbed (fits : ∀ row, before.base.enrollments.find eid = some row →
      st = row.status ∨ st = .pending) : ∀ row, fin.base.enrollments.find eid = some row →
      st = row.status ∨ st = .pending := by
  intro row hit
  obtain ⟨old, was, eq⟩ := calm.rows eid row hit
  by_cases due : old.status = .pending
  · have fit := fits old was
    rw [due] at fit
    exact .inr (fit.elim id id)
  · rw [eq due]
    exact fits old was

theorem working_of_undisturbed {f : Footprint} (busy : before.Working c f) : fin.Working c f where
  job := busy.job
  shown := fun idle => shown_of_undisturbed calm (busy.shown idle)
  fresh := by
    intro idle unknown
    have away := busy.fresh idle unknown
    cases hit : fin.base.enrollments.find c.enrollmentID with
    | none => rfl
    | some row =>
      obtain ⟨old, was, _⟩ := calm.rows _ row hit
      rw [away] at was
      cases was
  known := busy.known
  inserted := fun new ask =>
    status_of_undisturbed calm (busy.inserted new ask)
  put := busy.put

theorem holds_of_undisturbed (has : before.Holds bt) : fin.Holds bt :=
  ⟨has.ids, has.names, fun leased mem => calm.entries (has.queued leased mem)⟩

theorem sound_of_undisturbed (inv : before.Sound) : fin.Sound :=
  ⟨calm.unique inv.unique, fun eid =>
    (inv.kept eid).imp (shown_of_undisturbed calm) (queued_of_undisturbed calm)⟩

theorem accords_of_undisturbed (fits : before.Accords ph) : fin.Accords ph := by
  cases ph with
  | deciding | publishing | claiming => trivial
  | claimed bt => exact holds_of_undisturbed calm fits
  | processing done idle print =>
    have now : before.Processing done idle print := fits
    refine World.Processing.mk (holds_of_undisturbed calm now.batch) ?_ ?_ ?_ ?_
    · intro entry mem
      exact working_of_undisturbed calm (now.ended entry mem)
    · rw [calm.sink]
      exact now.captured
    · intro l rest f fst saw
      rw [calm.sink]
      obtain ⟨busy, puts⟩ := now.current l rest f fst saw
      exact ⟨working_of_undisturbed calm busy, puts⟩
    · rw [calm.sink]
      exact now.owned
  | shipping done res puts acked =>
    have now : before.Shipping done res puts acked := fits
    refine World.Shipping.mk now.ids ?_ now.drained ?_ ?_ ?_
    · intro entry mem
      exact working_of_undisturbed calm (now.ended entry mem)
    · intro sent mem
      exact status_of_undisturbed calm (now.fitting sent mem)
    · intro sent mem
      exact shown_of_undisturbed calm (now.shown sent mem)
    · intro entry mem unacked
      exact calm.entries (now.queued entry mem unacked)
  | reconciling gives =>
    intro bid mem
    obtain ⟨law, last⟩ := fits bid mem
    refine ⟨law, fun row hit => ?_⟩
    obtain ⟨old, was, eq⟩ := calm.rows _ row hit
    have st := last old was
    rw [eq (st ▸ law)]
    exact st

end

theorem undisturbed_of_eq (table : new.base.enrollments = was.base.enrollments)
    (outs : new.base.results = was.base.results) (xs : new.base.items = was.base.items)
    (sink : new.sink = was.sink) : Undisturbed was new where
  rows := fun _ row hit => ⟨row, table ▸ hit, fun _ => rfl⟩
  results := outs
  entries := fun _ mem => xs.symm ▸ mem
  unique := fun unique => xs.symm ▸ unique
  sink := sink

structure Alike (before after : World) (enrollmentID : String) : Prop where
  row : after.base.enrollments.find enrollmentID = before.base.enrollments.find enrollmentID
  results : after.base.results = before.base.results

theorem Alike.shown (eq : Alike was new eid) (shown : was.Shown eid) : new.Shown eid := by
  unfold World.Shown World.Delivered
  rw [eq.row, eq.results]
  exact shown

theorem Alike.working {f : Footprint} (eq : Alike was new c.enrollmentID)
    (busy : was.Working c f) : new.Working c f where
  job := busy.job
  shown := fun idle => eq.shown (busy.shown idle)
  fresh := by
    rw [eq.row]
    exact busy.fresh
  known := busy.known
  inserted := by
    rw [eq.row]
    exact busy.inserted
  put := busy.put

def World.Answered (world : World) (choice : Choice) : Statement → Prop
  | .consumer (.findEnrollment enrollmentID) =>
    ∀ row, world.base.enrollments.find enrollmentID = some row →
      choice.fault = .ok ∧ world.Delivered enrollmentID row.status
  | _ => True

abbrev World.ran (world : World) (env : Env) (choice : Choice)
    (statement : Consumer.Statement) : World :=
  { world with
    base := (Consumer.execute env.consumer choice world.base statement).2 }

abbrev World.told (world : World) (env : Env) (choice : Choice)
    (statement : Consumer.Statement) : statement.Answer :=
  (Consumer.execute env.consumer choice world.base statement).1

end Harbor.Collect
