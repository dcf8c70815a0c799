import Harbor.DualControl.Committers

/-!
# The change committed last

`LatestCommitted` picks the committed change with the highest id.  The ledger
here records the transitions to committed in the order they happen, and the two
agree as long as the changes of a kind are committed in the order they were
proposed.
-/

namespace Harbor.DualControl

open Library Option Table

section

variable {Site Payload World : Type}

/-- `LatestCommitted`. -/
def Database.latestCommitted (db : Database Payload World) (kind : String) :
    Option (Change Payload) :=
  db.changes.latest fun ch => ch.kind == kind && ch.state == .committed

def committedBy (before after : Database Payload World) : List (Change Payload) :=
  after.changes.rows.filter fun row =>
    row.state == .committed && before.stateOf row.id != some .committed

structure Ledger (Site Payload World : Type) where
  state : State Site Payload World
  commits : List (Change Payload)

def Ledger.ofKind (ledger : Ledger Site Payload World) (kind : String) : List (Change Payload) :=
  ledger.commits.filter fun entry => entry.kind == kind

def Ledger.last (ledger : Ledger Site Payload World) (kind : String) : Option (Change Payload) :=
  (ledger.ofKind kind).getLast?

def recordStep (program : Program Site Payload World) (ledger : Ledger Site Payload World)
    (event : Event Site Payload) : Option (Ledger Site Payload World) :=
  (step program ledger.state event).map fun after =>
    ⟨after, ledger.commits ++ committedBy ledger.state.db after.db⟩

/-- Commits stay, and each has the highest id of its kind so far. -/
def inOrder (program : Program Site Payload World) (ledger : Ledger Site Payload World)
    (event : Event Site Payload) : Bool :=
  (step program ledger.state event).all fun after =>
    (ledger.state.db.changes.rows.all fun row =>
      row.state != .committed || after.db.stateOf row.id == some .committed) &&
    (committedBy ledger.state.db after.db).all fun row =>
      ledger.commits.all fun old => old.kind != row.kind || decide (old.id < row.id)

structure Ledger.Tracks (ledger : Ledger Site Payload World) : Prop where
  rows : ∀ row ∈ ledger.state.db.changes.rows, row.state = .committed →
    ∃ entry ∈ ledger.commits, entry.id = row.id ∧ entry.kind = row.kind
  entries : ∀ entry ∈ ledger.commits, ∃ row ∈ ledger.state.db.changes.rows,
    row.id = entry.id ∧ row.kind = entry.kind ∧ row.state = .committed
  order : ledger.commits.Pairwise fun earlier later =>
    earlier.kind = later.kind → earlier.id < later.id

variable {prog : Program Site Payload World} {ledger next : Ledger Site Payload World}
  {s after : State Site Payload World} {event : Event Site Payload}

theorem stateOf_row {db : Database Payload World} {row : Change Payload}
    (kept : row ∈ db.changes.rows) : db.stateOf row.id = some row.state := by
  rw [Database.stateOf, find_eq_some_iff.mpr ⟨kept, rfl⟩, map_some]

theorem step_kind (ran : step prog s event = some after)
    (was : old ∈ s.db.changes.rows) (kept : row ∈ after.db.changes.rows)
    (eq : old.id = row.id) : row.kind = old.kind := by
  have hit : s.db.changes.find row.id = some old := find_eq_some_iff.mpr ⟨was, eq⟩
  have now : after.db.changes.find row.id = some row := find_eq_some_iff.mpr ⟨kept, rfl⟩
  cases step_cases ran with
  | moved eff _ _ =>
    obtain ⟨rewrite, rewritten, keep⟩ := eff.find_change row.id
    rw [rewritten, hit, map_some, Option.some.injEq] at now
    exact now ▸ (keep old).kind
  | proposed plan =>
    rw [plan.find_change] at now
    split_ifs at now with new
    · rw [new, plan.fresh] at hit
      cases hit
    · rw [hit, Option.some.injEq] at now
      rw [now]

theorem mem_committedBy {was after : Database Payload World} :
    row ∈ committedBy was after ↔ row ∈ after.changes.rows ∧ row.state = .committed ∧
      was.stateOf row.id ≠ some .committed := by
  simp [committedBy]

theorem committedBy_unique (hop : step prog s event = some after)
    {l r : Change Payload} (first : l ∈ committedBy s.db after.db)
    (snd : r ∈ committedBy s.db after.db) : l.id = r.id := by
  cases step_cases hop with
  | @moved me db next eff _ _ =>
    have finalizing : ∀ row ∈ committedBy s.db db,
        ∃ ch, s.calls me = .approveFinalize ch .committed ∧ ch.id = row.id := by
      intro row mem
      obtain ⟨kept, shut, new⟩ := mem_committedBy.mp mem
      obtain ⟨old, hit, -, origin⟩ :=
        eff.committed_cases (find_eq_some_iff.mpr ⟨kept, rfl⟩) shut
      refine origin.resolve_left fun was => new ?_
      rw [Database.stateOf, hit, map_some, was]
    obtain ⟨ch, pos, leftID⟩ := finalizing l first
    obtain ⟨o, again, rightID⟩ := finalizing r snd
    rw [pos] at again
    cases again
    exact leftID.symm.trans rightID
  | proposed proposal =>
    obtain ⟨kept, shut, new⟩ := mem_committedBy.mp first
    have now := stateOf_row kept
    rw [proposal.stateOf, shut] at now
    split_ifs at now
    · cases now
    · exact absurd now new

theorem Ledger.Tracks.step (logs : ledger.Tracks) (ord : inOrder prog ledger event = true)
    (ran : recordStep prog ledger event = some next) : next.Tracks := by
  obtain ⟨after, move, rfl⟩ := map_eq_some_iff.mp ran
  simp only [inOrder, move, all_some, Bool.and_eq_true, List.all_eq_true, Bool.or_eq_true,
    bne_iff_ne, beq_iff_eq, decide_eq_true_eq] at ord
  obtain ⟨kept, higher⟩ := ord
  refine ⟨?_, ?_, ?_⟩
  · intro row stored sealed
    by_cases already : ledger.state.db.stateOf row.id = some .committed
    · obtain ⟨old, hit, wasCommitted⟩ := map_eq_some_iff.mp already
      obtain ⟨was, idEq⟩ := find_eq_some_iff.mp hit
      obtain ⟨entry, mem, entryID, entryKind⟩ := logs.rows old was wasCommitted
      have ks := step_kind move was stored idEq
      exact ⟨entry, List.mem_append_left _ mem, entryID.trans idEq, entryKind.trans ks.symm⟩
    · exact ⟨row, List.mem_append_right _ (mem_committedBy.mpr ⟨stored, sealed, already⟩),
        rfl, rfl⟩
  · intro entry mem
    rcases List.mem_append.mp mem with earlier | new
    · obtain ⟨old, was, oldID, oldKind, wasCommitted⟩ := logs.entries entry earlier
      have same := (kept old was).resolve_left (not_not.mpr wasCommitted)
      obtain ⟨row, hit, sealed⟩ := map_eq_some_iff.mp same
      obtain ⟨stored, idEq⟩ := find_eq_some_iff.mp hit
      exact ⟨row, stored, idEq.trans oldID,
        (step_kind move was stored idEq.symm).trans oldKind, sealed⟩
    · obtain ⟨stored, sealed, -⟩ := mem_committedBy.mp new
      exact ⟨entry, stored, rfl, rfl, sealed⟩
  · refine List.pairwise_append.mpr ⟨logs.order, ?_, ?_⟩
    · have uniq : (committedBy ledger.state.db after.db).Pairwise fun l r =>
          l.id ≠ r.id :=
        List.pairwise_map.mp (after.db.changes.nodup.sublist (List.filter_sublist.map _))
      refine uniq.imp_of_mem fun fst snd differ _ => ?_
      exact absurd (committedBy_unique move fst snd) differ
    · intro old mem row new ks
      exact (higher row new old mem).resolve_left (not_not.mpr ks)

theorem Ledger.mem_ofKind : entry ∈ ledger.ofKind k ↔ entry ∈ ledger.commits ∧ entry.kind = k := by
  simp [ofKind]

theorem Ledger.Tracks.latest (logs : ledger.Tracks) (k : String) :
    (ledger.state.db.latestCommitted k).map Change.id = (ledger.last k).map Change.id := by
  cases note : ledger.last k with
  | none =>
    cases hit : ledger.state.db.latestCommitted k with
    | none => rfl
    | some row =>
      obtain ⟨kept, io, -⟩ := latest_eq_some_iff.mp hit
      simp only [Bool.and_eq_true, beq_iff_eq] at io
      obtain ⟨entry, mem, -, ks⟩ := logs.rows row kept io.2
      have has := mem_ofKind.mpr ⟨mem, ks.trans io.1⟩
      rw [List.getLast?_eq_none_iff.mp note] at has
      cases has
  | some last =>
    obtain ⟨old, split⟩ := List.getLast?_eq_some_iff.mp note
    obtain ⟨mem, ofKind⟩ : last ∈ ledger.commits ∧ last.kind = k := by
      rw [← mem_ofKind, split]
      simp
    obtain ⟨row, kept, rowID, rowKind, shut⟩ := logs.entries last mem
    have top : ∀ alt ∈ ledger.state.db.changes.rows,
        (alt.kind == k && alt.state == .committed) = true → alt.id ≤ row.id := by
      intro alt had io
      simp only [Bool.and_eq_true, beq_iff_eq] at io
      obtain ⟨entry, recordedEntry, entryID, entryKind⟩ := logs.rows alt had io.2
      have ks : entry.kind = k := entryKind.trans io.1
      have spot := mem_ofKind.mpr ⟨recordedEntry, ks⟩
      have ord : (ledger.ofKind k).Pairwise _ := logs.order.filter _
      rw [split] at spot ord
      rcases List.mem_append.mp spot with was | final
      · have lt := (List.pairwise_append.mp ord).2.2 entry was last (by simp)
          (ks.trans ofKind.symm)
        omega
      · rw [List.mem_singleton] at final
        rw [← entryID, final, rowID]
    have hit : ledger.state.db.latestCommitted k = some row :=
      latest_eq_some_iff.mpr ⟨kept, by simp [rowKind, ofKind, shut], top⟩
    rw [hit, map_some, map_some, rowID]

/-- `LatestCommitted` is the change committed last, as long as changes of a kind are
committed in the order of their ids. -/
theorem latestCommitted_eq_last {program : Program Site Payload World} {world : World}
    {finish : Ledger Site Payload World}
    (reached : Reaches (recordStep program) (fun ledger event => inOrder program ledger event)
      ⟨.initial world, []⟩ finish) (kind : String) :
    (finish.state.db.latestCommitted kind).map Change.id = (finish.last kind).map Change.id := by
  refine (reached.invariant Ledger.Tracks ⟨?_, nofun, .nil⟩ ?_).latest kind
  · intro row stored
    cases stored
  · intro before after event tracks ordered taken
    exact tracks.step ordered taken

end

namespace Example

def approvedAs (first second : Int) : List (Event Site String) :=
  [.propose .policyCLI 1 policyPublish "" "old" "alice" 0,
    .propose .policyCLI 2 policyPublish "" "new" "alice" 1,
    .request 0 (.approve .policyCLI first "bob")] ++
    (List.range 8).map (fun tick => .statement 0 { now := 2 + tick }) ++
    [.request 1 (.approve .policyCLI second "bob")] ++
    (List.range 8).map (fun tick => .statement 1 { now := 10 + tick })

def outcome (ledger : Ledger Site String (List String)) : List Int × Option Int :=
  (ledger.commits.map Change.id, (ledger.state.db.latestCommitted policyPublish).map Change.id)

end Example

open Example

theorem latestCommitted_eq_last_in_order : ∃ finish,
    Reaches (recordStep harbor) (fun ledger event => inOrder harbor ledger event)
      ⟨empty, []⟩ finish ∧ finish.commits.map Change.id = [1, 2] ∧
      (finish.state.db.latestCommitted policyPublish).map Change.id =
        (finish.last policyPublish).map Change.id := by
  have executed : (runEvents (guarded (recordStep harbor) fun ledger event =>
      inOrder harbor ledger event) ⟨empty, []⟩ (approvedAs 1 2)).map
        outcome = some ([1, 2], some 2) := by
    decide
  obtain ⟨finish, ran, result⟩ := map_eq_some_iff.mp executed
  have reached := reaches_of_runEvents ran
  exact ⟨finish, reached, (Prod.mk.inj result).1, latestCommitted_eq_last reached policyPublish⟩

theorem latestCommitted_not_last : ¬ ∀ (events : List (Event Site String))
    (finish : Ledger Site String (List String)),
      runEvents (recordStep harbor) ⟨empty, []⟩ events = some finish →
      (finish.state.db.latestCommitted policyPublish).map Change.id =
        (finish.last policyPublish).map Change.id := by
  intro claimed
  have executed : (runEvents (recordStep harbor) ⟨empty, []⟩ (approvedAs 2 1)).map (fun ledger =>
        ((ledger.state.db.latestCommitted policyPublish).map Change.id,
          (ledger.last policyPublish).map Change.id)) = some (some 2, some 1) := by
    decide
  obtain ⟨finish, ran, result⟩ := map_eq_some_iff.mp executed
  obtain ⟨latest, last⟩ := Prod.mk.inj result
  have equal := claimed _ finish ran
  rw [latest, last] at equal
  cases equal

end Harbor.DualControl
