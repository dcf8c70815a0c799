import Harbor.Fleet.Reclaim

/-!
# What a pass of the reaper selects

`ReapOnce` running alone at one reading of the clock, with the report it
returns and the lines it audits.  `pass_reaches` connects it to the statements
of the pass.  The query is an over-approximation of the trigger, a dry run
reports the hosts a real run takes back, and `TakenBack` says what that does to
the tables.
-/

namespace Harbor.Fleet

open Library Ipam Policy List

inductive Action where
  | reap
  | wouldReap
deriving DecidableEq

structure ReapLine where
  action : Action
  target : Target
  ipReclaimed : Bool := false
deriving DecidableEq

/-- `ReapReport`, together with the lines audited on the way. -/
structure ReapReport where
  candidates : Nat := 0
  reaped : Nat := 0
  wouldReap : Nat := 0
  ipsReclaimed : Nat := 0
  byReason : Reason → Nat := fun _ => 0
  audited : List ReapLine := []

def ReapReport.count (rep : ReapReport) (reason : Reason) : Reason → Nat :=
  Function.update rep.byReason reason (rep.byReason reason + 1)

def dryRunOne (rep : ReapReport) (target : Target) : ReapReport :=
  { rep with
    candidates := rep.candidates + 1
    wouldReap := rep.wouldReap + 1
    byReason := rep.count target.reason
    audited := rep.audited ++ [{ action := .wouldReap, target := target }] }

/-- The statements of `reapOne`, none of which fails. -/
def reapRows (config : Config) (now : Int) (db : Database) (target : Target) : Database :=
  ((db.release config now target.candidate.overlayIP).forget target.candidate.overlayIP).stamp
    target.candidate.deviceName now target.reason

def reapOne (config : Config) (now : Int) (run : Database × ReapReport) (target : Target) :
    Database × ReapReport :=
  let reclaimed := run.1.allocations.rows.any fun row =>
    row.ip == target.candidate.overlayIP &&
      (decide (config.quarantineTTL ≤ 0) || row.state == .allocated)
  (reapRows config now run.1 target,
    { run.2 with
      candidates := run.2.candidates + 1
      reaped := run.2.reaped + 1
      ipsReclaimed := run.2.ipsReclaimed + reclaimed.toNat
      byReason := run.2.count target.reason
      audited := run.2.audited ++
        [{ action := .reap, target := target, ipReclaimed := reclaimed }] })

def selection (config : Config) (now : Int) (db : Database) : List Target :=
  targets config.withDefaults now (loadCandidates config.withDefaults now db)

def reapOnce (config : Config) (now : Int) (db : Database) : Database × ReapReport :=
  if config.dryRun then (db, (selection config now db).foldl dryRunOne {})
  else (selection config now db).foldl (reapOne config now) (db, {})

theorem reapOne_foldl_rows (cfg : Config) (now : Int) (sel : List Target)
    (run : Database × ReapReport) : (sel.foldl (reapOne cfg now) run).1 =
      sel.foldl (reapRows cfg now) run.1 := by
  induction sel generalizing run with
  | nil => rfl
  | cons tgt rest ih => exact ih _

section

variable (cfg : Config)

abbrev PassOnly (_ : State) : Event → Prop :=
  (· = .passStatement .ok)

theorem reaches_reapRows (sel : List Target) (s : State)
    (here : s.pass = .next s.clock sel) : Reaches cfg.step PassOnly s
      { s with
        db := sel.foldl (reapRows cfg s.clock) s.db, pass := .idle } := by
  induction sel generalizing s with
  | nil =>
    obtain ⟨t, db, pass, cs⟩ := s
    cases here
    exact .refl
  | cons tgt rest ih =>
    obtain ⟨t, db, pass, cs⟩ := s
    dsimp only at here
    subst pass
    have done := ih ⟨t, reapRows cfg t db tgt, .next t rest, cs⟩ rfl
    exact .head rfl rfl (.head rfl rfl (.head rfl rfl done))

/-- The statements of a pass that runs alone do to the tables what `reapOnce` does. -/
theorem pass_reaches (s : State) (loading : s.pass = .load) :
    Reaches cfg.step PassOnly s
      { s with db := (reapOnce cfg s.clock s.db).1, pass := .idle } := by
  obtain ⟨t, db, pass, cs⟩ := s
  cases loading
  cases real : cfg.dryRun with
  | true =>
    have still : cfg.step ⟨t, db, .select (loadCandidates cfg.withDefaults t db), cs⟩
        (.passStatement .ok) = some ⟨t, (reapOnce cfg t db).1, .idle, cs⟩ := by
      simp [Config.step, advancePass, reapOnce, real]
    exact .head rfl rfl (.head rfl still .refl)
  | false =>
    have done := reaches_reapRows cfg (selection cfg t db)
      ⟨t, db, .next t (selection cfg t db), cs⟩ rfl
    have selects : cfg.step ⟨t, db, .select (loadCandidates cfg.withDefaults t db), cs⟩
        (.passStatement .ok) = some ⟨t, db, .next t (selection cfg t db), cs⟩ := by
      simp [Config.step, advancePass, selection, real]
    simp only [reapOnce, real, Bool.false_eq_true, if_false, reapOne_foldl_rows]
    exact .head rfl rfl (.head rfl selects done)

end

section

variable {cfg : Config} {now : Int} {db : Database} {beat : Heartbeat}

def joined (db : Database) (beat : Heartbeat) : Option Candidate :=
  (db.enrollments.latest fun row => row.overlayIP == beat.overlayIP).map fun enrollment =>
    { overlayIP := beat.overlayIP, deviceName := beat.deviceName
      certNotAfter := beat.certNotAfter, lastSeen := beat.lastSeen
      ephemeral := enrollment.ephemeral, groups := enrollment.groups }

def MarkedReaped (db : Database) (name : String) : Prop :=
  ∃ row, db.device name = some row ∧ row.reapedAt ≠ 0

theorem grace_ge_min (c : Candidate) (cfg : Config) :
    min cfg.persistentGrace cfg.ephemeralGrace ≤ c.grace cfg := by
  unfold Candidate.grace
  split <;> omega

theorem surfaced_of_reason {c : Candidate} (expiry : c.certNotAfter = beat.certNotAfter)
    (seen : c.lastSeen = beat.lastSeen) (due : c.reason now cfg ≠ none) :
    surfaced cfg now beat = true := by
  have wider := grace_ge_min c cfg
  unfold Candidate.reason at due
  simp only [surfaced, Bool.or_eq_true, Bool.and_eq_true, bne_iff_ne, decide_eq_true_eq]
  split at due
  · left
    omega
  · split at due
    · right
      omega
    · exact absurd rfl due

theorem candidate?_of_reason {c : Candidate} (hit : joined db beat = some c)
    (due : c.reason now cfg ≠ none) (unmarked : ¬ MarkedReaped db beat.deviceName) :
    candidate? cfg now db beat = some c := by
  obtain ⟨enrollment, latest, rfl⟩ := Option.map_eq_some_iff.mp hit
  have live : (db.device beat.deviceName).all (fun row => row.reapedAt == 0) = true := by
    cases dev : db.device beat.deviceName with
    | none => rfl
    | some row => simpa using fun reaped => unmarked ⟨row, dev, reaped⟩
  unfold candidate?
  rw [latest]
  exact if_pos ⟨surfaced_of_reason rfl rfl due, live⟩

theorem joined_of_candidate? {c : Candidate} (hit : candidate? cfg now db beat = some c) :
    joined db beat = some c := by
  unfold candidate? at hit
  unfold joined
  split at hit
  · cases hit
  · rename_i latest
    rw [latest]
    split at hit
    · exact hit
    · cases hit

end

structure Abandoned (cfg : Config) (now : Int) (db : Database) (target : Target) : Prop where
  current : ∃ beat ∈ db.heartbeats.rows, joined db beat = some target.candidate
  expired : target.candidate.certNotAfter ≠ 0 ∧ target.candidate.certNotAfter < now
  silent : target.candidate.lastSeen < now - target.candidate.grace cfg ∨
    0 < cfg.silentAfter ∧ target.candidate.lastSeen < now - cfg.silentAfter
  ungrouped : grantsReservedGroup target.candidate.groups = false
  outside : cfg.central target.candidate.overlayIP = false
  triggered : target.candidate.reason now cfg = some target.reason

theorem grace_withDefaults_pos (c : Candidate) (cfg : Config) : 0 < c.grace cfg.withDefaults := by
  unfold Candidate.grace Config.withDefaults hour
  dsimp only
  split <;> split <;> omega

theorem abandoned_of_selected {cfg : Config} {now : Int} {db : Database}
    (sel : tgt ∈ selection cfg now db) : Abandoned cfg.withDefaults now db tgt := by
  obtain ⟨c, got, io⟩ := mem_filterMap.mp sel
  obtain ⟨b, kept, hit⟩ := mem_filterMap.mp (mem_dedupByHost got)
  have pos := grace_withDefaults_pos c cfg
  cases due : c.reason now cfg.withDefaults with
  | none => simp [due] at io
  | some reason =>
    simp only [due, Option.ite_none_left_eq_some, Option.some.injEq, Candidate.excluded,
      Bool.or_eq_true, not_or, Bool.not_eq_true] at io
    obtain ⟨⟨ungrouped, outside⟩, rfl⟩ := io
    have cause := due
    unfold Candidate.reason at cause
    refine ⟨⟨b, kept, joined_of_candidate? hit⟩, ?_, ?_, ungrouped, outside, due⟩
    · dsimp only
      split at cause
      · omega
      · split at cause
        · rename_i _ lapsed
          simp only [Candidate.certStillValid, Bool.and_eq_false_iff, bne_eq_false_iff_eq,
            decide_eq_false_iff_not] at lapsed
          omega
        · cases cause
    · dsimp only
      split at cause
      · omega
      · split at cause
        · omega
        · cases cause

section

variable (cfg : Config) (now : Int)

theorem dryRunOne_foldl (sel : List Target) (rep : ReapReport) :
    (sel.foldl dryRunOne rep).audited.map ReapLine.target = rep.audited.map ReapLine.target ++ sel ∧
      (sel.foldl dryRunOne rep).wouldReap = rep.wouldReap + sel.length := by
  induction sel generalizing rep with
  | nil => simp
  | cons tgt rest ih =>
    obtain ⟨lines, tally⟩ := ih (dryRunOne rep tgt)
    rw [foldl_cons, lines, tally]
    simp [dryRunOne]
    omega

theorem reapOne_foldl (sel : List Target) (run : Database × ReapReport) :
    (sel.foldl (reapOne cfg now) run).2.audited.map ReapLine.target =
        run.2.audited.map ReapLine.target ++ sel ∧
      (sel.foldl (reapOne cfg now) run).2.reaped = run.2.reaped + sel.length := by
  induction sel generalizing run with
  | nil => simp
  | cons tgt rest ih =>
    obtain ⟨lines, tally⟩ := ih (reapOne cfg now run tgt)
    rw [foldl_cons, lines, tally]
    simp [reapOne]
    omega

theorem byReason_foldl (sel : List Target) (run : Database × ReapReport) (rep : ReapReport)
    (eq : run.2.byReason = rep.byReason) : (sel.foldl (reapOne cfg now) run).2.byReason =
      (sel.foldl dryRunOne rep).byReason := by
  induction sel generalizing run rep with
  | nil => exact eq
  | cons tgt rest ih => exact ih _ _ (by simp [reapOne, dryRunOne, ReapReport.count, eq])

end

/-! ## Who is selected -/

theorem mem_dedupByHost_of_first {earlier later : List Candidate} {c : Candidate}
    {seenIP : List Addr} {seenName : List String} (newIP : c.overlayIP ∉ seenIP)
    (newName : c.deviceName ≠ "" → c.deviceName ∉ seenName)
    (first : ∀ other ∈ earlier, other.overlayIP ≠ c.overlayIP ∧
      (c.deviceName ≠ "" → other.deviceName ≠ c.deviceName)) :
    c ∈ dedupByHost seenIP seenName (earlier ++ c :: later) := by
  induction earlier generalizing seenIP seenName with
  | nil =>
    rw [nil_append, dedupByHost, if_neg newIP, if_neg]
    · exact mem_cons_self
    · exact fun repeated => newName repeated.1 repeated.2
  | cons head rest ih =>
    have after := fun other member => first other (mem_cons_of_mem _ member)
    obtain ⟨otherIP, otherName⟩ := first head mem_cons_self
    rw [cons_append, dedupByHost]
    split_ifs with known shared unnamed
    · exact ih newIP newName after
    · exact ih newIP newName after
    all_goals refine mem_cons_of_mem _ (ih ?_ ?_ after)
    · exact not_mem_cons_of_ne_of_not_mem otherIP.symm newIP
    · exact newName
    · exact not_mem_cons_of_ne_of_not_mem otherIP.symm newIP
    · exact fun named =>
        not_mem_cons_of_ne_of_not_mem (otherName named).symm (newName named)

theorem candidate?_fields {cfg : Config} {now : Int} {db : Database} {beat : Heartbeat}
    {c : Candidate} (hit : candidate? cfg now db beat = some c) :
    c.overlayIP = beat.overlayIP ∧ c.deviceName = beat.deviceName := by
  obtain ⟨_, -, rfl⟩ := Option.map_eq_some_iff.mp (joined_of_candidate? hit)
  exact ⟨rfl, rfl⟩

theorem mem_selection {cfg : Config} {now : Int} {db : Database}
    {earlier later : List Heartbeat} {beat : Heartbeat} {c : Candidate} {reason : Reason}
    (stored : db.heartbeats.rows = earlier ++ beat :: later)
    (found : joined db beat = some c)
    (due : c.reason now cfg.withDefaults = some reason)
    (unmarked : ¬MarkedReaped db beat.deviceName)
    (included : c.excluded cfg.withDefaults = false)
    (first : ∀ other ∈ earlier, other.deviceName = beat.deviceName →
      beat.deviceName = "" ∨ candidate? cfg.withDefaults now db other = none) :
    ⟨c, reason⟩ ∈ selection cfg now db := by
  have surfaces := candidate?_of_reason found (by rw [due]; rintro ⟨⟩) unmarked
  have own := candidate?_fields surfaces
  have keys := db.heartbeats.nodup
  rw [stored, map_append, map_cons] at keys
  refine mem_filterMap.mpr ⟨c, ?_, by simp [due, included]⟩
  rw [loadCandidates, stored, filterMap_append, filterMap_cons_some surfaces]
  refine mem_dedupByHost_of_first not_mem_nil (fun _ => not_mem_nil) ?_
  intro other listed
  obtain ⟨row, member, shown⟩ := mem_filterMap.mp listed
  have fields := candidate?_fields shown
  constructor
  · rw [fields.1, own.1]
    exact (nodup_append.mp keys).2.2 _ (mem_map_of_mem member) _ mem_cons_self
  · intro named same
    rw [own.2] at named
    rcases first row member (by rw [← fields.2, same, own.2]) with blank | hidden
    · exact named blank
    · rw [hidden] at shown
      cases shown

/-! ## What taking hosts back does -/

/-- The tables after a pass has taken back some hosts: their heartbeats are gone,
their devices stamped, their addresses no longer leased, and nothing else has
changed. -/
structure TakenBack (now : Int) (before after : Database) (hosts : List Target) : Prop where
  heartbeats : ∀ beat, beat ∈ after.heartbeats.rows ↔
    beat ∈ before.heartbeats.rows ∧
      ∀ host ∈ hosts, host.candidate.overlayIP ≠ beat.overlayIP
  stamped : ∀ host ∈ hosts, ∀ row ∈ before.devices.rows,
    row.name = host.candidate.deviceName → row.reapedAt = 0 →
      ∃ alike ∈ hosts, alike.candidate.deviceName = row.name ∧
        { row with reapedAt := now, reapReason := some alike.reason } ∈ after.devices.rows
  unstamped : ∀ row ∈ before.devices.rows,
    (row.reapedAt ≠ 0 ∨ ∀ host ∈ hosts, host.candidate.deviceName ≠ row.name) →
      row ∈ after.devices.rows
  released : ∀ host ∈ hosts, ∀ row ∈ after.allocations.rows,
    row.ip = host.candidate.overlayIP → row.state = .quarantined
  kept : ∀ row : Allocation, (∀ host ∈ hosts, host.candidate.overlayIP ≠ row.ip) →
    (row ∈ after.allocations.rows ↔ row ∈ before.allocations.rows)
  enrollments : after.enrollments = before.enrollments

section

variable {config : Config} {now : Int} {db before after : Database} {ip : Addr} {row : Allocation}
  {hosts : List Target}

theorem mem_release_of_ne (apart : ip ≠ row.ip) :
    row ∈ (db.release config now ip).allocations.rows ↔ row ∈ db.allocations.rows := by
  simp only [Database.release]
  split_ifs with immediate
  · simp [Allocations.delete, Table.keep, apart.symm]
  · rw [Allocations.quarantine, Table.mem_update]
    constructor
    · rintro ⟨old, stored, became⟩
      split_ifs at became with taken
      · rw [← became] at apart
        simp only [Bool.and_eq_true, beq_iff_eq] at taken
        exact absurd taken.1.symm apart
      · exact became ▸ stored
    · exact fun stored => ⟨row, stored, if_neg (by simp [apart.symm])⟩

theorem quarantined_of_mem_release
    (stored : row ∈ (db.release config now ip).allocations.rows) (here : row.ip = ip) :
    row.state = .quarantined := by
  simp only [Database.release] at stored
  split_ifs at stored with immediate
  · simp [Allocations.delete, Table.keep, here] at stored
  · rw [Allocations.quarantine, Table.mem_update] at stored
    obtain ⟨old, _, became⟩ := stored
    split_ifs at became with taken
    · rw [← became]
    · rw [became] at taken
      cases state : row.state with
      | quarantined => rfl
      | allocated => simp [here, state] at taken

theorem mem_reapRows_devices {target : Target} {device : Device} :
    device ∈ (reapRows config now db target).devices.rows ↔
      ∃ old ∈ db.devices.rows,
        (if (old.name == target.candidate.deviceName && old.reapedAt == 0) = true then
          { old with reapedAt := now, reapReason := some target.reason }
        else old) = device := by
  rw [reapRows, Database.stamp, Table.mem_update]
  rfl

theorem TakenBack.refl (db : Database) : TakenBack now db db [] :=
  ⟨by simp, by simp, by simp, by simp, by simp, rfl⟩

theorem TakenBack.reapRows (back : TakenBack now before after hosts) (target : Target) :
    TakenBack now before (reapRows config now after target) (hosts ++ [target]) where
  heartbeats := by
    intro beat
    show beat ∈ after.heartbeats.rows.filter _ ↔ _
    have flip : (beat.overlayIP != target.candidate.overlayIP) = true ↔
        target.candidate.overlayIP ≠ beat.overlayIP := by
      rw [bne_iff_ne, ne_comm]
    rw [mem_filter, back.heartbeats, flip, and_assoc, forall_mem_append,
      forall_mem_singleton]
  stamped := by
    intro host member row stored named live
    by_cases earlier : ∃ other ∈ hosts, other.candidate.deviceName = row.name
    · obtain ⟨other, listed, same⟩ := earlier
      obtain ⟨alike, given, name, present⟩ := back.stamped other listed row stored same.symm live
      by_cases again : row.name = target.candidate.deviceName ∧ now = 0
      · refine ⟨target, by simp, again.1.symm, mem_reapRows_devices.mpr ⟨_, present, ?_⟩⟩
        simp [again]
      · refine ⟨alike, by simp [given], name, mem_reapRows_devices.mpr ⟨_, present, if_neg ?_⟩⟩
        simpa using again
    · have last : host = target := by
        rcases mem_append.mp member with old | new
        · exact absurd ⟨host, old, named.symm⟩ earlier
        · exact mem_singleton.mp new
      have present := back.unstamped row stored
        (.inr fun other listed same => earlier ⟨other, listed, same⟩)
      refine ⟨target, by simp, last ▸ named.symm, mem_reapRows_devices.mpr ⟨row, present, ?_⟩⟩
      simp [← last, named, live]
  unstamped := by
    intro row stored clean
    have present := back.unstamped row stored
      (clean.imp_right fun others host listed => others host (by simp [listed]))
    have unselected :
        ¬(row.name == target.candidate.deviceName && row.reapedAt == 0) = true := by
      rcases clean with marked | others
      · simp [marked]
      · simp [(others target (by simp)).symm]
    exact mem_reapRows_devices.mpr ⟨row, present, if_neg unselected⟩
  released := by
    intro host member row stored here
    by_cases own : row.ip = target.candidate.overlayIP
    · exact quarantined_of_mem_release stored own
    · rcases mem_append.mp member with old | new
      · exact back.released host old row ((mem_release_of_ne (Ne.symm own)).mp stored) here
      · exact absurd (mem_singleton.mp new ▸ here) own
  kept := by
    intro row others
    refine (mem_release_of_ne (others target (by simp))).trans ?_
    exact back.kept row fun host listed => others host (by simp [listed])
  enrollments := back.enrollments

theorem takenBack_foldl (back : TakenBack now before after hosts) (more : List Target) :
    TakenBack now before (more.foldl (reapRows config now) after) (hosts ++ more) := by
  induction more generalizing after hosts with
  | nil => simpa using back
  | cons target rest ih =>
    have step : TakenBack now before (reapRows config now after target) (hosts ++ [target]) :=
      back.reapRows target
    have next := ih step
    rwa [append_assoc, singleton_append] at next

theorem takenBack_reapOnce (real : config.dryRun = false) (db : Database) :
    TakenBack now db (reapOnce config now db).1 (selection config now db) := by
  simp only [reapOnce, real, Bool.false_eq_true, if_false, reapOne_foldl_rows]
  exact takenBack_foldl (.refl db) _

end

/-- A pass that runs alone takes back the hosts its query and its trigger
select, all of them abandoned, and then is over. -/
theorem pass_takes_back (config : Config) (state : State)
    (loading : state.pass = .load)
    (real : config.dryRun = false) :
    let hosts := selection config state.clock state.db
    ∃ after,
      Reaches config.step PassOnly state { state with db := after, pass := .idle } ∧
      TakenBack state.clock state.db after hosts ∧
      ∀ host ∈ hosts, Abandoned config.withDefaults state.clock state.db host :=
  ⟨_, pass_reaches config state loading, takenBack_reapOnce real state.db,
    fun _ selected => abandoned_of_selected selected⟩

namespace Example

def awaited : State :=
  run (silence ++ [.startPass])

def silentHost : Target where
  candidate :=
    { overlayIP := 10, deviceName := "alice", certNotAfter := 1, lastSeen := 0
      ephemeral := false, groups := [] }
  reason := .certExpired

end Example

open Example in
theorem pass_takes_back_silent_host :
    ∃ after, Reaches config.step PassOnly awaited { awaited with db := after, pass := .idle } ∧
      (∀ beat ∈ after.heartbeats.rows, beat.overlayIP ≠ 10) ∧
      (∀ row ∈ after.allocations.rows, row.ip = 10 → row.state = .quarantined) ∧
      ∃ row ∈ after.devices.rows, row.name = "alice" ∧ row.reapedAt = 8 * 24 * hour := by
  have clock : awaited.clock = 8 * 24 * hour := by
    decide
  have selected : silentHost ∈ selection config awaited.clock awaited.db := by
    decide
  have known : { id := 1, name := "alice" : Device } ∈ awaited.db.devices.rows := by
    decide
  obtain ⟨after, reached, back, -⟩ := pass_takes_back config awaited (by decide) rfl
  refine ⟨after, reached, ?_, back.released _ selected, ?_⟩
  · intro beat left
    exact (((back.heartbeats beat).mp left).2 _ selected).symm
  · obtain ⟨alike, -, -, stamped⟩ := back.stamped _ selected _ known rfl rfl
    exact ⟨_, stamped, rfl, clock⟩

theorem audited_reapOnce (config : Config) (now : Int) (db : Database) :
    (reapOnce config now db).2.audited.map ReapLine.target = selection config now db := by
  unfold reapOnce
  split
  · exact (dryRunOne_foldl _ {}).1
  · exact (reapOne_foldl config now _ (db, {})).1

/-- The query surfaces every unmarked host the trigger holds for; every host
acted on is abandoned, and every abandoned host whose device has no earlier row
in the query is acted on; a dry run reports what a real run takes back and
changes nothing. -/
theorem reapOnce_selection_exact (config : Config) (now : Int) (db : Database) :
    (∀ beat ∈ db.heartbeats.rows, ∀ c,
      joined db beat = some c →
      c.reason now config.withDefaults ≠ none →
      ¬MarkedReaped db beat.deviceName →
      c ∈ db.heartbeats.rows.filterMap (candidate? config.withDefaults now db)) ∧
    (∀ line ∈ (reapOnce config now db).2.audited,
      Abandoned config.withDefaults now db line.target) ∧
    (∀ earlier beat later c reason,
      db.heartbeats.rows = earlier ++ beat :: later →
      joined db beat = some c →
      c.reason now config.withDefaults = some reason →
      ¬MarkedReaped db beat.deviceName →
      c.excluded config.withDefaults = false →
      (∀ other ∈ earlier, other.deviceName = beat.deviceName →
        beat.deviceName = "" ∨
          candidate? config.withDefaults now db other = none) →
      ∃ line ∈ (reapOnce config now db).2.audited, line.target = ⟨c, reason⟩) ∧
    (let dry := reapOnce { config with dryRun := true } now db
     let real := reapOnce { config with dryRun := false } now db
     let hosts := dry.2.audited.map ReapLine.target
     hosts = real.2.audited.map ReapLine.target ∧
       TakenBack now db real.1 hosts ∧
       dry.2.wouldReap = real.2.reaped ∧
       dry.2.byReason = real.2.byReason ∧
       dry.1 = db) := by
  have reported := audited_reapOnce config now db
  refine ⟨?_, ?_, ?_, ?_⟩
  · intro beat stored c found triggered unmarked
    exact mem_filterMap.mpr ⟨beat, stored, candidate?_of_reason found triggered unmarked⟩
  · intro line member
    exact abandoned_of_selected (reported ▸ mem_map_of_mem member)
  · intro earlier beat later c reason stored found due unmarked included first
    have selected := mem_selection stored found due unmarked included first
    rw [← reported] at selected
    exact mem_map.mp selected
  · have same : selection { config with dryRun := true } now db =
        selection { config with dryRun := false } now db := rfl
    have back : TakenBack now db (reapOnce { config with dryRun := false } now db).1
        (selection { config with dryRun := false } now db) :=
      takenBack_reapOnce rfl db
    dsimp only [reapOnce] at back ⊢
    simp only [if_true, Bool.false_eq_true, if_false] at back ⊢
    rw [(dryRunOne_foldl _ {}).1, (reapOne_foldl _ now _ (db, {})).1, same]
    refine ⟨rfl, back, ?_, ?_, trivial⟩
    · rw [(dryRunOne_foldl _ {}).2, (reapOne_foldl _ now _ (db, {})).2]
    · rw [byReason_foldl _ now _ _ {} rfl]

end Harbor.Fleet
