import Harbor.DualControl.Committers
import Harbor.DualControl.Exclusivity
import Harbor.Revocation.Bulk

/-!
# The rate limit of bulk revocations

Bulk revocations run as committers of dual-control changes.  The rate check
counts the changes that reached the committer by the time they were proposed,
so it bounds the revocations that take effect only where proposal and effect
fall in the same window.

A committer computes the start of its window before its transaction; the
advisory lock makes the count and the writes of the transaction one step.
-/

namespace Harbor.Revocation

open Library Library.Text DualControl List Option

/-- `BulkWindow`, in nanoseconds. -/
def bulkWindow : Int := 3600000000000

abbrev BulkPayload := Option BulkRevokeSpec

structure BulkWorld where
  rows : Rows
  effects : List (Int × Int)

/-- The conditions of the rate check on a row of `approvals`. -/
def inWindow (windowStart : Int) (row : Change BulkPayload) : Bool :=
  row.kind == bulkRevokeKind && (row.state == .committing || row.state == .committed) &&
    decide (windowStart ≤ row.createdAt)

def operations (changes : Table (@Change.id BulkPayload)) (windowStart : Int) : Nat :=
  (changes.rows.filter (inWindow windowStart)).length

/-- The answers of the database to one run of `applyBulk`, with the count the
rate check reads. -/
def BulkIo.counting (io : BulkIo) (count : Nat) : BulkIo :=
  { io with inWindow := io.inWindow.map fun _ => count }

section

variable (fold : CaseMap) (central : String → Bool)

def commitBulk (io : BulkIo) (changes : Table (@Change.id BulkPayload))
    (windowStart : Option Int) (clock : Int) (ch : Change BulkPayload)
    (world : BulkWorld) : Option BulkWorld :=
  match windowStart, ch.payload with
  | some start, some spec =>
    match bulkRows fold central (io.counting (operations changes start))
        world.rows spec ch.proposer with
    | .ok rows =>
      some { rows := rows, effects := world.effects ++ [(ch.id, clock)] }
    | .error _ => none
  | _, _ => none

structure BulkState where
  clock : Int
  /-- The window start of a call that has computed it. -/
  windows : Nat → Option Int
  ledger : DualControl.State Site BulkPayload BulkWorld

inductive BulkEvent where
  | tick (now : Int)
  | computeWindow (call : Nat)
  | ledger (event : DualControl.Event Site BulkPayload) (io : BulkIo)

def stamped (clock : Int) : DualControl.Event Site BulkPayload → DualControl.Event Site BulkPayload
  | .propose site id kind target payload proposer _ =>
    .propose site id kind target payload proposer clock
  | .statement call io => .statement call { io with now := clock }
  | event => event

namespace BulkState

def windowOf (state : BulkState) : DualControl.Event Site BulkPayload → Option Int
  | .statement call _ => state.windows call
  | _ => none

def program (state : BulkState) (event : DualControl.Event Site BulkPayload)
    (io : BulkIo) : Program Site BulkPayload BulkWorld :=
  controllers fun kind ch world =>
    if kind = bulkRevokeKind then
      commitBulk fold central io state.ledger.db.changes (state.windowOf event) state.clock ch world
    else some world

def step (state : BulkState) : BulkEvent → Option BulkState
  | .tick now =>
    if state.clock ≤ now then some { state with clock := now } else none
  | .computeWindow call =>
    match state.ledger.calls call, state.windows call with
    | .approveRun _ _, none =>
      some { state with
        windows := Function.update state.windows call
          (some (state.clock - bulkWindow)) }
    | _, _ => none
  | .ledger event io =>
    (DualControl.step (state.program fold central event io) state.ledger
      (stamped state.clock event)).map fun ledger => { state with ledger := ledger }

def initial (rows : Rows) (clock : Int) : BulkState where
  clock := clock
  windows _ := none
  ledger := .initial { rows := rows, effects := [] }

end BulkState

end

def recent (effects : List (Int × Int)) (now : Int) : List Int :=
  (effects.filter fun entry => decide (now - bulkWindow ≤ entry.2)).map Prod.fst

/-- The rate check of a bulk revocation counts its own change and every change
that took effect in the window that ends now. -/
def Counted (state : BulkState) : BulkEvent → Prop
  | .ledger (.statement call _) _ =>
    match state.ledger.calls call, state.windows call with
    | .approveRun _ ch, some windowStart =>
      ch.kind = bulkRevokeKind →
      ∀ id ∈ ch.id :: recent state.ledger.db.world.effects state.clock,
        (state.ledger.db.changes.find id).any (inWindow windowStart) = true
    | _, _ => True
  | _ => True

instance (state : BulkState) : DecidablePred (Counted state) := by
  intro event
  unfold Counted
  split
  · split <;> infer_instance
  · infer_instance

/-- At most `maxBulkPerWindow` of the effects lie in any interval of the
length of the window. -/
def RateLimited (effects : List (Int × Int)) : Prop :=
  ∀ start, (effects.filter fun entry =>
    decide (start ≤ entry.2) && decide (entry.2 ≤ start + bulkWindow)).length ≤ maxBulkPerWindow

section

variable {fold : CaseMap} {central : String → Bool} {io : BulkIo}
  {changes : Table (@Change.id BulkPayload)} {windowStart : Option Int}
  {t : Int} {ch : Change BulkPayload} {world fin : BulkWorld}

theorem bulkRows_within (ran : bulkRows fold central io rs spec who = .ok put) :
    ∃ count, io.inWindow = some count ∧ count ≤ maxBulkPerWindow := by
  unfold bulkRows at ran
  split at ran
  · cases ran
  · split_ifs at ran
    split at ran
    · cases ran
    · unfold bulkTx at ran
      split at ran
      · cases ran
      · rename_i count read
        split_ifs at ran with many
        exact ⟨count, read, Nat.le_of_not_lt many⟩

theorem commitBulk_accepted
    (took : commitBulk fold central io changes windowStart t ch world = some fin) :
    ∃ init, windowStart = some init ∧ operations changes init ≤ maxBulkPerWindow ∧
      fin.effects = world.effects ++ [(ch.id, t)] := by
  unfold commitBulk at took
  split at took
  · rename_i init spec body
    split at took
    · rename_i rs ran
      cases took
      obtain ⟨count, sum, few⟩ := bulkRows_within ran
      simp only [BulkIo.counting, map_eq_some_iff] at sum
      obtain ⟨_, _, rfl⟩ := sum
      exact ⟨init, rfl, few, rfl⟩
    · cases took
  · cases took

theorem length_le_operations {ids : List Int} (uniq : ids.Nodup)
    (sum : ∀ id ∈ ids, (changes.find id).any (inWindow init) = true) :
    ids.length ≤ operations changes init := by
  have subset : ids ⊆ (changes.rows.filter (inWindow init)).map Change.id := by
    intro id mem
    obtain ⟨row, hit, into⟩ := (any_eq_true _ _).mp (sum id mem)
    obtain ⟨had, eq⟩ := Table.find_eq_some_iff.mp hit
    exact mem_map.mpr ⟨row, mem_filter.mpr ⟨had, into⟩, eq⟩
  have short := (uniq.subperm subset).length_le
  rwa [length_map] at short

theorem RateLimited.append {effects : List (Int × Int)} {id now : Int}
    (few : RateLimited effects) (room : (recent effects now).length + 1 ≤ maxBulkPerWindow) :
    RateLimited (effects ++ [(id, now)]) := by
  intro init
  rw [filter_append, length_append]
  by_cases into : init ≤ now ∧ now ≤ init + bulkWindow
  · have less : (effects.filter fun entry => decide (init ≤ entry.2) &&
          decide (entry.2 ≤ init + bulkWindow)).length ≤
        (recent effects now).length := by
      rw [recent, length_map]
      refine (monotone_filter_right effects ?_).length_le
      intro entry lies
      simp only [Bool.and_eq_true, decide_eq_true_eq] at lies ⊢
      omega
    have last : ([(id, now)].filter fun entry => decide (init ≤ entry.2) &&
        decide (entry.2 ≤ init + bulkWindow)).length ≤ 1 :=
      length_filter_le _ _
    omega
  · have last : ([(id, now)].filter fun entry => decide (init ≤ entry.2) &&
        decide (entry.2 ≤ init + bulkWindow)) = [] := by
      simpa using into
    rw [last]
    exact few init

end

structure Spent (ledger : DualControl.State Site BulkPayload BulkWorld) : Prop where
  distinct : (ledger.db.world.effects.map Prod.fst).Nodup
  settled : ∀ id ∈ ledger.db.world.effects.map Prod.fst,
    ∃ known, ledger.db.stateOf id = some known ∧ known ≠ .pending
  running : ∀ me site ch, ledger.calls me = .approveRun site ch →
    ch.id ∉ ledger.db.world.effects.map Prod.fst

section

variable {fold : CaseMap} {central : String → Bool} {prog : Program Site BulkPayload BulkWorld}
  {log : DualControl.State Site BulkPayload BulkWorld}
  {db : Database BulkPayload BulkWorld} {me : Nat} {next : Call Site BulkPayload}

theorem settled_moved (sole : Exclusive log)
    (eff : Effect prog me log.db (log.calls me) db next) {id : Int}
    (fix : ∃ seen, log.db.stateOf id = some seen ∧ seen ≠ .pending) :
    ∃ seen, db.stateOf id = some seen ∧ seen ≠ .pending := by
  obtain ⟨seen, was, done⟩ := fix
  obtain ⟨rewrite, eq, _⟩ := eff.find_change id
  obtain ⟨row, hit, _⟩ := map_eq_some_iff.mp was
  have had : db.stateOf id = some (rewrite row).state := by
    rw [Database.stateOf, eq, hit]
    rfl
  refine ⟨_, had, ?_⟩
  intro due
  have back := eff.pending_of (sole.calls me) (due ▸ had)
  rw [was] at back
  exact done (Option.some.inj back)

def LogsOwn (program : Program Site BulkPayload BulkWorld) : Prop :=
  ∀ kind ch world after, program.commit kind ch world = some after → after.effects = world.effects ∨
      ∃ now, after.effects = world.effects ++ [(ch.id, now)]

theorem Spent.moved (used : Spent log) (inv : Sound log)
    (sole : Exclusive log) (logs : LogsOwn prog)
    (eff : Effect prog me log.db (log.calls me) db next) :
    Spent { db := db, calls := Function.update log.calls me next } := by
  have claims : ∀ site ch, next = .approveRun site ch →
      ch.id ∉ log.db.world.effects.map Prod.fst := by
    intro site ch runs mem
    obtain ⟨seen, st, done⟩ := used.settled ch.id mem
    rw [eff.run_pending runs] at st
    exact done (Option.some.inj st).symm
  have keep : db.world.effects = log.db.world.effects →
      Spent { db := db, calls := Function.update log.calls me next } := by
    intro same
    refine ⟨?_, ?_, ?_⟩
    · rw [same]
      exact used.distinct
    · rw [same]
      exact fun id mem =>
        settled_moved sole eff (used.settled id mem)
    · rw [same]
      intro alt site ch runs
      by_cases mine : alt = me
      · subst alt
        exact claims site ch (by simpa using runs)
      · simp only [Function.update_of_ne mine] at runs
        exact used.running alt site ch runs
  rcases eff.world_cases with same | ⟨site, ch, w, position, took,
    rfl, chs, out, rfl⟩
  · exact keep (congrArg BulkWorld.effects same)
  · rcases logs _ _ _ _ took with same | ⟨now, ins⟩
    · exact keep same
    · have new := used.running me site ch position
      refine ⟨?_, ?_, ?_⟩
      · simp only [ins, map_append, map_cons, map_nil]
        refine List.Nodup.append used.distinct (nodup_singleton _) ?_
        intro id mem last
        rw [mem_singleton] at last
        exact new (last ▸ mem)
      · intro id mem
        refine settled_moved sole eff ?_
        simp only [ins, map_append, map_cons, map_nil, mem_append, mem_singleton] at mem
        rcases mem with old | rfl
        · exact used.settled id old
        · obtain ⟨row, hit, _⟩ := inv.recorded me ch (by rw [position]; rfl)
          have own := sole.calls me
          rw [position] at own
          refine ⟨row.state, ?_, ?_⟩
          · rw [Database.stateOf, hit]
            rfl
          · intro due
            apply own.1
            rw [Database.stateOf, hit, map_some, due]
      · intro alt otherSite run runs mem
        have ne : alt ≠ me := by
          rintro rfl
          simp at runs
        simp only [Function.update_of_ne ne] at runs
        simp only [ins, map_append, map_cons, map_nil, mem_append, mem_singleton] at mem
        rcases mem with old | same
        · exact used.running alt otherSite run runs old
        · refine ne (sole.oneHolder alt me ch.id ?_ ?_)
          · rw [runs]
            exact same
          · rw [position]
            rfl

theorem Spent.proposed (used : Spent log) {ch : Change BulkPayload}
    (plan : Proposed prog log.db db ch) : Spent { db := db, calls := log.calls } := by
  have w := (propose_rows plan.added).2.2.2.1
  refine ⟨?_, ?_, ?_⟩
  · simp only [w]
    exact used.distinct
  · simp only [w]
    intro id mem
    obtain ⟨seen, st, done⟩ := used.settled id mem
    exact ⟨seen, plan.stateOf_known st, done⟩
  · simp only [w]
    exact used.running

variable {state after : BulkState} {event : BulkEvent}

theorem program_logsOwn (state : BulkState)
    (event : DualControl.Event Site BulkPayload) (io : BulkIo) :
    LogsOwn (state.program fold central event io) := by
  intro k ch w after took
  simp only [BulkState.program, controllers] at took
  split_ifs at took
  · obtain ⟨_, _, _, ins⟩ := commitBulk_accepted took
    exact .inr ⟨_, ins⟩
  · cases took
    exact .inl rfl

structure Ledgered (state : BulkState) : Prop where
  sound : Sound state.ledger
  exclusive : Exclusive state.ledger
  spent : Spent state.ledger

theorem Ledgered.step (ledgered : Ledgered state)
    (ran : state.step fold central event = some after) :
    Ledgered after := by
  obtain ⟨inv, sole, used⟩ := ledgered
  cases event with
  | tick now =>
    simp only [BulkState.step] at ran
    split_ifs at ran
    cases ran
    exact ⟨inv, sole, used⟩
  | computeWindow c =>
    simp only [BulkState.step] at ran
    split at ran
    · cases ran
      exact ⟨inv, sole, used⟩
    · cases ran
  | ledger event io =>
    simp only [BulkState.step] at ran
    obtain ⟨log, move, rfl⟩ := map_eq_some_iff.mp ran
    refine ⟨inv.step move, ?_, ?_⟩
    · cases step_cases move with
      | moved eff => exact sole.moved eff
      | proposed plan => exact sole.proposed inv plan
    · cases step_cases move with
      | moved eff => exact used.moved inv sole (program_logsOwn state event io) eff
      | proposed plan => exact used.proposed plan

theorem Ledgered.initial (rs : Rows) (t : Int) : Ledgered (.initial rs t) where
  sound := .of_quiet (State.initial_quiet _)
  exclusive := .of_quiet (State.initial_quiet _)
  spent := by
    refine ⟨nodup_nil, ?_, ?_⟩
    · intro id mem
      cases mem
    · intro me s ch runs
      cases runs

theorem recent_room {ch : Change BulkPayload} (spent : Spent state.ledger)
    (tally : Counted state (.ledger (.statement c io) reads))
    (position : state.ledger.calls c = .approveRun s ch) (k : ch.kind = bulkRevokeKind)
    (computed : state.windows c = some init)
    (few : operations state.ledger.db.changes init ≤ maxBulkPerWindow) :
    (recent state.ledger.db.world.effects state.clock).length + 1 ≤
      maxBulkPerWindow := by
  simp only [Counted, position, computed] at tally
  have logged : (recent state.ledger.db.world.effects state.clock).Sublist
      (state.ledger.db.world.effects.map Prod.fst) :=
    filter_sublist.map Prod.fst
  have uniq : (ch.id :: recent state.ledger.db.world.effects state.clock).Nodup := by
    refine nodup_cons.mpr ⟨?_, spent.distinct.sublist logged⟩
    exact fun mem =>
      spent.running c s ch position (logged.subset mem)
  have fits := length_le_operations uniq (tally k)
  rw [length_cons] at fits
  exact fits.trans few

theorem rateLimited_step (ledgered : Ledgered state)
    (limited : RateLimited state.ledger.db.world.effects) (tally : Counted state event)
    (hop : state.step fold central event = some after) :
    RateLimited after.ledger.db.world.effects := by
  cases event with
  | tick now =>
    simp only [BulkState.step] at hop
    split_ifs at hop
    cases hop
    exact limited
  | computeWindow c =>
    simp only [BulkState.step] at hop
    split at hop
    · cases hop
      exact limited
    · cases hop
  | ledger event io =>
    simp only [BulkState.step] at hop
    obtain ⟨log, moved, rfl⟩ := map_eq_some_iff.mp hop
    cases step_cases moved with
    | @moved me db next eff progress origin =>
      rcases eff.world_cases with eq | ⟨s, ch, world, position, took, rfl, chs, outcome, rfl⟩
      · simp only [eq]
        exact limited
      · simp only [BulkState.program, controllers] at took
        split_ifs at took with k
        · obtain ⟨init, computed, few, ins⟩ :=
            commitBulk_accepted took
          simp only [ins]
          cases event with
          | statement c reads =>
            rcases origin with plain | ⟨_, eq⟩
            · exact plain.elim
            · cases eq
              exact limited.append (recent_room ledgered.spent tally position k computed few)
          | _ => cases computed
        · have eq := Option.some.inj took
          simp only [← eq]
          exact limited
    | proposed proposal =>
      simp only [(propose_rows proposal.added).2.2.2.1]
      exact limited

/-- In every run in which each rate check counts every change that took effect
in its window, no interval of the length of the window has more effects than
the limit. -/
theorem bulk_rate_limited {rows : Rows} {clock : Int} {finish : BulkState}
    (reached : Reaches (BulkState.step fold central) Counted (.initial rows clock) finish) :
    RateLimited finish.ledger.db.world.effects := by
  have both := reached.invariant (fun state => Ledgered state ∧
      RateLimited state.ledger.db.world.effects) ⟨.initial rows clock, fun _ => Nat.zero_le _⟩ (by
      rintro before after event ⟨ledgered, limited⟩ counted taken
      exact ⟨ledgered.step taken, rateLimited_step ledgered limited counted taken⟩)
  exact both.2

end

namespace Example

def reads : BulkIo where
  enrollments _ := some .empty
  inWindow := some 0
  now _ := 0
  written _ := true
  commit := .ok

def ledger (event : DualControl.Event Site BulkPayload) : BulkEvent :=
  .ledger event reads

def propose (id : Int) : BulkEvent :=
  ledger (.propose .bulkRevokeCLI id bulkRevokeKind ""
    (some { fingerprints := [String.ofList (List.replicate 64 'a')] }) "alice" 0)

def approve (id : Nat) : List BulkEvent :=
  [ledger (.request id (.approve .bulkRevokeCLI id "bob"))] ++
    List.replicate 6 (ledger (.statement id {})) ++ [.computeWindow id] ++
    List.replicate 2 (ledger (.statement id {}))

def step : BulkState → BulkEvent → Option BulkState :=
  BulkState.step CaseMap.plain fun _ => false

def start : BulkState := .initial .empty 0

def prompt : List BulkEvent :=
  [propose 1] ++ approve 1 ++ [propose 2] ++ approve 2 ++ [propose 3] ++ approve 3 ++
    [propose 4] ++ approve 4 ++ [.tick (bulkWindow + 1), propose 5] ++ approve 5

def delayed : List BulkEvent :=
  [propose 1, propose 2, propose 3, propose 4, .tick (bulkWindow + 1)] ++
    approve 1 ++ approve 2 ++ approve 3 ++ approve 4

end Example

open Example

/-- Changes that are approved as soon as they are proposed are counted: the
fourth has to wait until the first has left the window. -/
theorem bulk_rate_limited_at_once :
    ∃ finish, Reaches step Counted start finish ∧
      finish.ledger.db.world.effects =
        [(1, 0), (2, 0), (3, 0), (5, bulkWindow + 1)] ∧
      RateLimited finish.ledger.db.world.effects := by
  have executed : (runEvents (guarded step Counted) start prompt).map
      (fun state => state.ledger.db.world.effects) =
        some [(1, 0), (2, 0), (3, 0), (5, bulkWindow + 1)] := by
    decide
  obtain ⟨finish, ran, effects⟩ := Option.map_eq_some_iff.mp executed
  have reached := reaches_of_runEvents ran
  exact ⟨finish, reached, effects, bulk_rate_limited reached⟩

/-- Four bulk revocations take effect at one instant. -/
theorem delayed_bulks_exceed_limit : ¬ ∀ (finish : BulkState),
      Reachable step start finish → RateLimited finish.ledger.db.world.effects := by
  intro claim
  have executed : (runEvents step start delayed).map (fun state => state.ledger.db.world.effects) =
      some [(1, bulkWindow + 1), (2, bulkWindow + 1), (3, bulkWindow + 1),
        (4, bulkWindow + 1)] := by
    decide
  obtain ⟨finish, ran, effects⟩ := Option.map_eq_some_iff.mp executed
  have limited := claim finish (reachable_of_runEvents ran) (bulkWindow + 1)
  rw [effects] at limited
  revert limited
  decide

end Harbor.Revocation
