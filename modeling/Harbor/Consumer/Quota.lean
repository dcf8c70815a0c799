import Harbor.Consumer.Ruling
import Harbor.Consumer.Ticket
import Harbor.Library.Window

/-!
# The hourly quota of a join key

The consumer's calls share one clock that does not run backwards.  `Process`
counts the recent enrollments of a key and records a new one several statements
later, so the bound holds as long as no other `Process` is under way when one
records under the key, and no enrollment that still counts is denied: a denied
row is not counted any more.
-/

namespace Harbor.Consumer

open Function Library Ipam Queue List Bool

structure Timed where
  world : World
  clock : Int

def Timed.execute (env : Env) (choice : Choice) (timed : Timed)
    (statement : Statement) : statement.Answer × Timed :=
  let now := max timed.clock choice.now
  let outcome := Consumer.execute env { choice with now := now } timed.world statement
  (outcome.1, { world := outcome.2, clock := now })

def workers (c : Config) (env : Env) :
    Service Job Statement Statement.Answer (Except Error Result) Timed Choice where
  procedure := c.procedure
  execute := Timed.execute env

def World.acceptedAt (world : World) (joinKeyID : Int) : List Int :=
  (world.enrollments.rows.filter fun row => row.joinKeyID == joinKeyID).map (·.createdAt)

/-- An enrollment is recorded under the key while no other `Process` is under
way, and is not denied within the window. -/
def orderly (c : Config) (joinKeyID : Int) : Service.Permit Job Statement Timed Choice where
  executes timed active call statement choice :=
    match statement with
    | .createEnrollment row =>
      row.joinKeyID = joinKeyID → ∀ other job, other ≠ call →
        active other = some job → job.isProcess = false
    | .claimDenied enrollmentID _ _ =>
      ∀ row ∈ timed.world.enrollments.rows,
        row.enrollmentID = enrollmentID → row.joinKeyID = joinKeyID →
        row.createdAt + c.quotaWindow ≤ max timed.clock choice.now
    | _ => True

section

variable {env : Env} {pick : Choice} {timed : Timed} {stmt : Statement}

inductive Accepting (before : World) : Statement → World → Prop where
  | still {statement : Statement} {world : World} (same : world.enrollments = before.enrollments) :
      Accepting before statement world
  | created {row new : Enrollment} {world : World}
      (rows : world.enrollments.rows = before.enrollments.rows ++ [new])
      (key : new.joinKeyID = row.joinKeyID) (time : new.createdAt = row.createdAt)
      (status : new.status = row.status) : Accepting before (.createEnrollment row) world
  | ruled {statement : Statement} {enrollmentID : String}
      {change : Enrollment → Enrollment} {world : World}
      (keepsKey : ∀ row, (change row).enrollmentID = row.enrollmentID)
      (rows : world.enrollments = before.enrollments.update
        (World.isPending enrollmentID) change keepsKey)
      (key : ∀ row, (change row).joinKeyID = row.joinKeyID)
      (time : ∀ row, (change row).createdAt = row.createdAt)
      (verdict : (∀ row, (change row).status = .issued) ∨ ∃ decidedAt approver,
          statement = .claimDenied enrollmentID decidedAt approver) :
      Accepting before statement world

variable {w : World}

theorem claimPending_accepting {id : String} {ch : Enrollment → Enrollment}
    (keyKept : ∀ row, (ch row).enrollmentID = row.enrollmentID)
    (key : ∀ row, (ch row).joinKeyID = row.joinKeyID)
    (t : ∀ row, (ch row).createdAt = row.createdAt)
    (vote : (∀ row, (ch row).status = .issued) ∨ ∃ when who,
        stmt = .claimDenied id when who) : Accepting w stmt
      (w.claimPending pick id ch keyKept).2 := by
  unfold World.claimPending
  rcases database_cases pick w (w.enrollments.affected (World.isPending id))
    { w with
      enrollments := w.enrollments.update
        (World.isPending id) ch keyKept } with
    ended | ended | ended
  · rw [ended]
    exact .ruled keyKept rfl key t vote
  · rw [ended]
    exact .still rfl
  · rw [ended]
    exact .ruled keyKept rfl key t vote

theorem execute_accepting (w : World) (stmt : Statement) : Accepting w stmt
      (Consumer.execute env pick w stmt).2 := by
  have frame := execute_framed env pick w stmt
  cases stmt with
  | createEnrollment row =>
    show Accepting _ _ (w.createEnrollment pick row).2
    unfold World.createEnrollment
    split
    · rename_i rs put
      rcases database_cases pick w () { w with enrollments := rs } with ended | ended | ended
      · rw [ended]
        exact .created (Table.insert?_eq_some put).1 rfl rfl rfl
      · rw [ended]
        exact .still rfl
      · rw [ended]
        exact .created (Table.insert?_eq_some put).1 rfl rfl rfl
    · exact .still rfl
  | claimIssued id out =>
    exact claimPending_accepting _ (fun _ => rfl) (fun _ => rfl) (.inl fun _ => rfl)
  | claimDenied id when who =>
    exact claimPending_accepting _ (fun _ => rfl) (fun _ => rfl) (.inr ⟨when, who, rfl⟩)
  | _ => exact .still (frame.enrollments nofun)

def Timed.moment (timed : Timed) (choice : Choice) : Choice :=
  { choice with now := max timed.clock choice.now }

theorem Timed.execute_eq : Timed.execute env pick timed stmt =
      ((Consumer.execute env (timed.moment pick) timed.world stmt).1,
        ⟨(Consumer.execute env (timed.moment pick) timed.world stmt).2,
          max timed.clock pick.now⟩) :=
  rfl

theorem clock_le_execute : timed.clock ≤ (Timed.execute env pick timed stmt).2.clock := by
  rw [Timed.execute_eq]
  exact le_max_left _ _

theorem timed_accepting : Accepting timed.world stmt
      (Timed.execute env pick timed stmt).2.world := by
  rw [Timed.execute_eq]
  exact execute_accepting timed.world stmt

variable {fin : World}

theorem acceptedAt_update {id : String} {ch : Enrollment → Enrollment} (kid : Int)
    (keyKept : ∀ row, (ch row).enrollmentID = row.enrollmentID)
    (rs : fin.enrollments = w.enrollments.update (World.isPending id) ch keyKept)
    (key : ∀ row, (ch row).joinKeyID = row.joinKeyID)
    (t : ∀ row, (ch row).createdAt = row.createdAt) : fin.acceptedAt kid = w.acceptedAt kid := by
  unfold World.acceptedAt
  rw [rs]
  show ((w.enrollments.rows.map _).filter _).map _ = _
  induction w.enrollments.rows with
  | nil => rfl
  | cons row rest ih =>
    have keyEq : (if World.isPending id row then ch row
        else row).joinKeyID = row.joinKeyID := by
      split_ifs
      · exact key row
      · rfl
    have sameTime : (if World.isPending id row then ch row
        else row).createdAt = row.createdAt := by
      split_ifs
      · exact t row
      · rfl
    cases chosen : row.joinKeyID == kid with
    | true => simp only [map_cons, filter_cons, keyEq, chosen, if_true, sameTime, ih]
    | false => simp only [map_cons, filter_cons, keyEq, chosen, false_eq_true, if_false, ih]

theorem acceptedAt_append (kid : Int) (rs : fin.enrollments.rows = w.enrollments.rows ++ [new]) :
    fin.acceptedAt kid = w.acceptedAt kid ++
      if new.joinKeyID = kid then [new.createdAt] else [] := by
  unfold World.acceptedAt
  rw [rs, filter_append, map_append]
  by_cases eq : new.joinKeyID = kid <;> simp [eq]

theorem Accepting.acceptedAt (accepting : Accepting w stmt fin) (keyID : Int) :
    fin.acceptedAt keyID = w.acceptedAt keyID ∨
      ∃ row, stmt = .createEnrollment row ∧ row.joinKeyID = keyID ∧
        fin.acceptedAt keyID = w.acceptedAt keyID ++ [row.createdAt] := by
  cases accepting with
  | still same =>
    left
    unfold World.acceptedAt
    rw [same]
  | @created row new _ rows key time =>
    have big := acceptedAt_append keyID rows
    by_cases same : new.joinKeyID = keyID
    · rw [if_pos same, time] at big
      exact .inr ⟨row, rfl, key.symm.trans same, big⟩
    · rw [if_neg same, append_nil] at big
      exact .inl big
  | ruled keepsKey rows key time => exact .inl (acceptedAt_update keyID keepsKey rows key time)

def Statement.records : Statement → Bool
  | .createEnrollment _ => true
  | _ => false

theorem timed_unrecorded (kid : Int) (alt : stmt.records = false) :
    (Timed.execute env pick timed stmt).2.world.acceptedAt kid =
      timed.world.acceptedAt kid := by
  have takes := @timed_accepting env pick timed stmt
  rcases takes.acceptedAt kid with eq | ⟨row, rfl, _⟩
  · exact eq
  · cases alt

variable {row : JoinKey}

theorem consume_quota {joinKeys : JoinKeys} {id cap : Int}
    (mem : row ∈ (joinKeys.consume id cap).2.rows) : ∃ old ∈ joinKeys.rows, old.id = row.id ∧
      old.quotaPerHour = row.quotaPerHour := by
  simp only [JoinKeys.consume] at mem
  obtain ⟨old, had, rfl⟩ := Table.mem_update.mp mem
  refine ⟨old, had, ?_⟩
  split_ifs <;> exact ⟨rfl, rfl⟩

theorem execute_quota (mem : row ∈ (Consumer.execute env pick w stmt).2.joinKeys.rows) :
    ∃ old ∈ w.joinKeys.rows, old.id = row.id ∧ old.quotaPerHour = row.quotaPerHour := by
  have framed := execute_framed env pick w stmt
  cases stmt with
  | consumeJoinKey id maxUses =>
    change row ∈ (w.consumeJoinKey pick id maxUses).2.joinKeys.rows at mem
    unfold World.consumeJoinKey at mem
    rcases database_cases pick w (w.joinKeys.consume id maxUses).1
      { w with joinKeys := (w.joinKeys.consume id maxUses).2 } with
      ended | ended | ended
    · rw [ended] at mem
      exact consume_quota mem
    · rw [ended] at mem
      exact ⟨row, mem, rfl, rfl⟩
    · rw [ended] at mem
      exact consume_quota mem
  | _ =>
    rw [framed.joinKeys (by intro eq; cases eq)] at mem
    exact ⟨row, mem, rfl, rfl⟩

theorem timed_quota (mem : row ∈ (Timed.execute env pick timed
      stmt).2.world.joinKeys.rows) : ∃ old ∈ timed.world.joinKeys.rows, old.id = row.id ∧
      old.quotaPerHour = row.quotaPerHour := by
  rw [Timed.execute_eq] at mem
  exact execute_quota mem

theorem database_ok_value {V : Type} {was : World} {v : V} {a : V}
    (told : (pick.database was v fin).1 = .ok a) : a = v := by
  rcases database_cases pick was v fin with ended | ended | ended
  · rw [ended] at told
    cases told
    rfl
  · rw [ended] at told
    cases told
  · rw [ended] at told
    cases told

/-- The statement of `recentEnrollments` counts these. -/
def World.recent (world : World) (joinKeyID cutoff : Int) : Nat :=
  world.enrollments.rows.countP fun row =>
    row.joinKeyID == joinKeyID && (row.status == .pending || row.status == .issued) &&
      decide (cutoff < row.createdAt)

def Truthful (timed after : Timed) : (statement : Statement) → statement.Answer → Prop
  | .clock => fun now => now = after.clock
  | .findJoinKey _ => fun answer =>
    ∀ key, answer = .ok (some key) → key ∈ timed.world.joinKeys.rows
  | .countEnrollments joinKeyID cutoff => fun answer =>
    ∀ count, answer = .ok count → count = timed.world.recent joinKeyID cutoff
  | _ => fun _ => True

theorem timed_truthful : Truthful timed (Timed.execute env pick timed stmt).2 stmt
      (Timed.execute env pick timed stmt).1 := by
  rw [Timed.execute_eq]
  cases stmt with
  | clock => rfl
  | findJoinKey hash =>
    intro key told
    have read := database_ok_value told
    exact mem_of_find?_eq_some read.symm
  | countEnrollments kid cutoff =>
    intro count told
    exact database_ok_value told
  | _ => trivial

end

section

variable {c : Config} {env : Env} {pick : Choice} {key : JoinKey}
  {timed : Timed} {stmt : Statement} {tk : Ticket}

structure Bounded (c : Config) (key : JoinKey) (timed : Timed) : Prop where
  sparse : Sparse key.quotaPerHour c.quotaWindow (timed.world.acceptedAt key.id)
  undenied : ∀ row ∈ timed.world.enrollments.rows, row.joinKeyID = key.id →
    row.status = .denied → row.createdAt + c.quotaWindow ≤ timed.clock
  quotas : ∀ row ∈ timed.world.joinKeys.rows, row.id = key.id → row.quotaPerHour = key.quotaPerHour

structure Ticket.Valid (c : Config) (key : JoinKey) (timed : Timed) (ticket : Ticket) : Prop where
  read : ∀ now ∈ ticket.readings, now ≤ timed.clock
  found : ∀ row, ticket.key = some row → row.id = key.id → row.quotaPerHour = key.quotaPerHour
  counted : ∀ count, ticket.count = some (key.id, count) →
    ticket.processes = true ∧ ∃ base, base ≤ timed.clock ∧ (∀ now ∈ ticket.readings, base ≤ now) ∧
      (timed.world.acceptedAt key.id).countP
        (fun time => decide (base - c.quotaWindow < time)) ≤ count

theorem Bounded.count_le (bd : Bounded c key timed)
    (late : timed.clock ≤ now) (soon : cutoff ≤ now - c.quotaWindow) :
    (timed.world.acceptedAt key.id).countP (fun t => decide (now - c.quotaWindow < t)) ≤
      timed.world.recent key.id cutoff := by
  unfold World.acceptedAt World.recent
  rw [countP_map, countP_filter]
  refine countP_mono_left ?_
  intro row mem sum
  simp only [comp, and_eq_true, decide_eq_true_eq, beq_iff_eq] at sum
  simp only [and_eq_true, or_eq_true, beq_iff_eq, decide_eq_true_eq]
  refine ⟨⟨sum.2, ?_⟩, lt_of_le_of_lt soon sum.1⟩
  cases st : row.status with
  | pending => exact .inl rfl
  | issued => exact .inr rfl
  | denied =>
    have old := bd.undenied row mem sum.2 st
    omega

theorem Ticket.Valid.room (ok : tk.Valid c key timed)
    (few : 0 < key.quotaPerHour) (nums : key.id ≠ 0)
    {made : Int} (lets : tk.Admits key.id) (read : made ∈ tk.readings) :
    ((timed.world.acceptedAt key.id).countP (fun t => decide (made - c.quotaWindow < t)) : Int) <
        key.quotaPerHour := by
  rcases lets with none | ⟨hit, seen, eq, bd⟩
  · exact absurd none nums
  · have quota := ok.found hit seen eq
    rw [quota] at bd
    obtain ⟨count, note, fewer⟩ := bd few
    obtain ⟨_, base, _, since, cov⟩ := ok.counted count note
    have cap := since made read
    have less : (timed.world.acceptedAt key.id).countP
        (fun t => decide (made - c.quotaWindow < t)) ≤ (timed.world.acceptedAt key.id).countP
          (fun t => decide (base - c.quotaWindow < t)) := by
      refine countP_mono_left ?_
      intro t _ lies
      rw [decide_eq_true_eq] at lies ⊢
      omega
    omega

theorem Bounded.undenied_execute (bounded : Bounded c key timed)
    (nums : key.id ≠ 0) (may : tk.may c stmt) {live : Nat → Option Job} {call : Nat}
    (order : (orderly c key.id).executes timed live call stmt pick)
    {post : World} (accepting : Accepting timed.world stmt post) :
    ∀ row ∈ post.enrollments.rows, row.joinKeyID = key.id → row.status = .denied →
      row.createdAt + c.quotaWindow ≤ max timed.clock pick.now := by
  intro row mem keyed denied
  have passed : ∀ old ∈ timed.world.enrollments.rows,
      old.joinKeyID = key.id → old.status = .denied →
      old.createdAt + c.quotaWindow ≤ max timed.clock pick.now := by
    intro old had same refused
    exact le_trans (bounded.undenied old had same refused) (le_max_left _ _)
  cases accepting with
  | still same =>
    rw [same] at mem
    exact passed row mem keyed denied
  | @created ask new _ rows sameKey sameTime sameStatus =>
    rw [rows] at mem
    rcases mem_append.mp mem with old | last
    · exact passed row old keyed denied
    · rw [mem_singleton] at last
      subst last
      obtain ⟨_, _, took, _⟩ := may
      have pos : ask.joinKeyID ≠ 0 := by
        rw [← sameKey, keyed]
        exact nums
      exact absurd (sameStatus.symm.trans denied) (took pos)
  | @ruled _ eid ch _ keepsKey rows sameKey sameTime vote =>
    rw [rows] at mem
    obtain ⟨old, had, rfl⟩ := Table.mem_update.mp mem
    split_ifs at keyed denied ⊢ with due
    · rw [sameKey] at keyed
      rw [sameTime]
      rcases vote with issued | ⟨when, who, rfl⟩
      · rw [issued old] at denied
        cases denied
      · have named : old.enrollmentID = eid := by
          simp only [World.isPending, and_eq_true, beq_iff_eq] at due
          exact due.1
        exact order old had named keyed
    · exact passed old had keyed denied

theorem Bounded.execute (bd : Bounded c key timed) (few : 0 < key.quotaPerHour) (nums : key.id ≠ 0)
    (ok : tk.Valid c key timed) (may : tk.may c stmt) {live : Nat → Option Job} {call : Nat}
    (ord : (orderly c key.id).executes timed live call stmt pick) :
    Bounded c key (Timed.execute env pick timed stmt).2 := by
  have accepting := @timed_accepting env pick timed stmt
  refine ⟨?_, ?_, ?_⟩
  · rcases accepting.acceptedAt key.id with eq | ⟨row, rfl, keyed, big⟩
    · rw [eq]
      exact bd.sparse
    · rw [big]
      obtain ⟨_, admits, _, read⟩ := may
      rw [keyed] at admits
      exact bd.sparse.append (ok.room few nums admits read)
  · exact bd.undenied_execute nums may ord accepting
  · intro row mem eq
    obtain ⟨old, had, idEq, sameQuota⟩ := timed_quota mem
    rw [← sameQuota]
    exact bd.quotas old had (idEq.trans eq)

theorem Ticket.Valid.still (ok : tk.Valid c key timed) {new : Timed}
    (late : timed.clock ≤ new.clock)
    (eq : new.world.acceptedAt key.id = timed.world.acceptedAt key.id) :
    tk.Valid c key new := by
  refine ⟨?_, ok.found, ?_⟩
  · intro now mem
    exact le_trans (ok.read now mem) late
  · intro count note
    obtain ⟨ps, base, past, since, cov⟩ := ok.counted count note
    rw [eq]
    exact ⟨ps, base, le_trans past late, since, cov⟩

theorem Ticket.Valid.other (ok : tk.Valid c key timed)
    {active : Nat → Option Job} {call alt : Nat} {job : Job}
    (ordered : (orderly c key.id).executes timed active call stmt pick)
    (ne : alt ≠ call) (live : active alt = some job) (own : tk.processes = job.isProcess) :
    tk.Valid c key (Timed.execute env pick timed stmt).2 := by
  have accepting := @timed_accepting env pick timed stmt
  rcases accepting.acceptedAt key.id with eq | ⟨row, rfl, keyed, big⟩
  · exact ok.still clock_le_execute eq
  · have off : job.isProcess = false :=
      ordered keyed alt job ne live
    refine ⟨?_, ok.found, ?_⟩
    · intro now mem
      exact le_trans (ok.read now mem) clock_le_execute
    · intro count note
      have processes := (ok.counted count note).1
      rw [own, off] at processes
      cases processes

theorem Ticket.Valid.reading (ok : tk.Valid c key timed) :
    ({ tk with readings := timed.clock :: tk.readings } : Ticket).Valid c key timed := by
  refine ⟨?_, ok.found, ?_⟩
  · intro now mem
    rcases mem_cons.mp mem with rfl | old
    · exact le_refl _
    · exact ok.read now old
  · intro count note
    obtain ⟨ps, base, past, since, cov⟩ := ok.counted count note
    refine ⟨ps, base, past, ?_, cov⟩
    intro now mem
    rcases mem_cons.mp mem with rfl | old
    · exact past
    · exact since now old

theorem Ticket.Valid.own (ok : tk.Valid c key timed)
    (bd : Bounded c key timed) (may : tk.may c stmt)
    {new : Timed} {ans : stmt.Answer} (truthful : Truthful timed new stmt ans)
    (late : timed.clock ≤ new.clock) (unlog : stmt.records = false →
      new.world.acceptedAt key.id = timed.world.acceptedAt key.id) :
    (tk.after stmt ans).Valid c key new := by
  have kept : stmt.records = false → tk.Valid c key new := fun alt => ok.still late (unlog alt)
  cases stmt with
  | clock =>
    have now : ans = new.clock := truthful
    subst now
    exact (kept rfl).reading
  | createEnrollment row =>
    refine ⟨?_, ?_, ?_⟩
    · intro now mem
      cases mem
    · intro hit seen
      cases seen
    · intro count note
      cases note
  | findJoinKey hash =>
    have ok := kept rfl
    show (tk.looked ans).Valid c key new
    match ans with
    | .error t => exact ok
    | .ok none => exact ok
    | .ok (some row) =>
      refine ⟨ok.read, ?_, ok.counted⟩
      intro hit seen eq
      cases seen
      exact bd.quotas row (truthful row rfl) eq
  | countEnrollments kid cutoff =>
    have same := kept rfl
    show (tk.tallied kid ans).Valid c key new
    match ans with
    | .error t => exact same
    | .ok count =>
      refine ⟨?_, same.found, ?_⟩
      · intro now mem
        cases mem
      · intro alt note
        cases note
        obtain ⟨ps, now, read, rfl⟩ := may
        have soon := same.read now read
        refine ⟨ps, new.clock, le_refl _, ?_, ?_⟩
        · intro late mem
          cases mem
        · rw [unlog rfl, truthful count rfl]
          exact bd.count_le late (by omega)
  | _ => exact kept rfl

theorem Ticket.after_processes (tk : Ticket) (stmt : Statement)
    (ans : stmt.Answer) : (tk.after stmt ans).processes = tk.processes := by
  cases stmt with
  | findJoinKey hash =>
    show (tk.looked ans).processes = tk.processes
    cases ans with
    | ok hit =>
      cases hit with
      | none => rfl
      | some key => rfl
    | error err => rfl
  | countEnrollments kid cutoff =>
    show (tk.tallied kid ans).processes = tk.processes
    cases ans with
    | ok count => rfl
    | error err => rfl
  | _ => rfl

end

section

variable {c : Config} {env : Env} {key : JoinKey} {start : Timed}
  {finish : Service.State Job Statement Statement.Answer
    (Except Error Result) Timed}

structure InOrder (c : Config) (key : JoinKey) (timed : Timed)
    (stages : Nat → Service.Stage Job (Except Error Result) Ticket) : Prop where
  bounded : Bounded c key timed
  valid : ∀ call job ticket, stages call = .running job ticket →
    ticket.Valid c key timed ∧ ticket.processes = job.isProcess

variable {timed : Timed}

theorem Ticket.valid_new (ps : Bool) : ({ processes := ps } : Ticket).Valid c key timed := by
  refine ⟨?_, ?_, ?_⟩
  · intro now mem
    cases mem
  · intro hit seen
    cases seen
  · intro count note
    cases note

theorem InOrder.ended {puts : Nat → Service.Stage Job (Except Error Result) Ticket}
    (ord : InOrder c key timed puts) {call : Nat}
    {lvl : Service.Stage Job (Except Error Result) Ticket} (halt : lvl.active = none) :
    InOrder c key timed (update puts call lvl) := by
  refine ⟨ord.bounded, ?_⟩
  intro alt job tk live
  by_cases eq : alt = call
  · subst eq
    rw [update_self] at live
    rw [live] at halt
    cases halt
  · rw [update_of_ne eq] at live
    exact ord.valid alt job tk live

theorem InOrder.move (few : 0 < key.quotaPerHour) (numbered : key.id ≠ 0)
    {new : Timed} {stages next : Nat →
      Service.Stage Job (Except Error Result) (ticketing c).Phase}
    (inOrder : InOrder c key timed stages)
    (move : Service.Move (workers c env) (orderly c key.id) (ticketing c)
      (fun job => { processes := job.isProcess }) (fun _ _ _ => True)
      timed stages new next) : InOrder c key new next := by
  cases move with
  | @begin call job idle =>
    refine ⟨inOrder.bounded, ?_⟩
    intro alt held tk live
    by_cases eq : alt = call
    · subst eq
      rw [update_self] at live
      cases live
      exact ⟨Ticket.valid_new _, rfl⟩
    · rw [update_of_ne eq] at live
      exact inOrder.valid alt held tk live
  | @execute call job tk s io here may ordered =>
    obtain ⟨ok, own⟩ := inOrder.valid call job tk here
    refine ⟨inOrder.bounded.execute few numbered ok may ordered, ?_⟩
    intro alt held seen live
    by_cases eq : alt = call
    · subst eq
      rw [update_self] at live
      cases live
      exact ⟨ok.own inOrder.bounded may timed_truthful
        clock_le_execute (timed_unrecorded key.id), (Ticket.after_processes _ _ _).trans own⟩
    · rw [update_of_ne eq] at live
      obtain ⟨ok, mine⟩ := inOrder.valid alt held seen live
      refine ⟨ok.other ordered eq ?_ mine, mine⟩
      rw [live]
      rfl
  | finish here past | crash here crashes => exact inOrder.ended rfl

/-- Through a join key with a quota no interval of the length of its window sees
more enrollments accepted than the quota, in every run in which no other
`Process` is under way when one records under the key and no such enrollment is
denied within the window. -/
theorem quota_kept (member : key ∈ start.world.joinKeys.rows)
    (limited : 0 < key.quotaPerHour) (numbered : key.id ≠ 0)
    (fresh : ∀ row ∈ start.world.enrollments.rows, row.joinKeyID ≠ key.id)
    (reached : Reaches (workers c env).step (orderly c key.id).Allows (.quiet start) finish) :
    Sparse key.quotaPerHour c.quotaWindow (finish.world.world.acceptedAt key.id) := by
  have none : start.world.acceptedAt key.id = [] := by
    unfold World.acceptedAt
    rw [List.map_eq_nil_iff, List.filter_eq_nil_iff]
    intro row present same
    exact fresh row present (beq_iff_eq.mp same)
  have bounded : Bounded c key start := by
    refine ⟨?_, ?_, ?_⟩
    · rw [none]
      exact sparse_nil (le_of_lt limited)
    · intro row present same
      exact absurd same (fresh row present)
    · intro row present same
      rw [start.world.joinKeys.row_eq_of_key_eq present member same]
  obtain ⟨last, inOrder, _⟩ := Service.staged_of_reaches (procedure_ticketed c) (InOrder c key)
    (fun _ => Service.Staged.idle) ⟨bounded, fun _ _ _ running => by cases running⟩
    (fun inOrder moved => inOrder.move limited numbered moved) reached
  exact inOrder.bounded.sparse

end

namespace Example

def noncedCodec : Codec :=
  { codec with
    Envelope := Bytes
    unmarshalEnvelope := some
    jwsPayload := some
    unmarshalRequest := fun payload =>
      some { nonce := if payload = [1] then "n1" else "n2", method := "token",
             requestedName := "host" }
    verifyJWS := fun _ _ => some { typ := typEnrollRequest, kid := "h" } }

def noncedConfig : Config :=
  { config with codec := noncedCodec }

def rationedKey : JoinKey where
  id := 1
  secretHash := [1]
  quotaPerHour := 1

def rationed : Timed where
  world := world .empty ⟨[rationedKey], List.nodup_singleton _⟩
  clock := 0

def firstApplicant : Candidate :=
  { candidate with requestJWS := [1] }

def secondApplicant : Candidate :=
  { candidate with enrollmentID := "e2", requestJWS := [2] }

def twoApplicants : List (Service.Event Job Choice) :=
  [.begin 0 (.process firstApplicant), .begin 1 (.process secondApplicant)] ++
    (List.replicate 12 [.step 0 {}, .step 1 {}]).flatten

def undenying : Statement → Bool
  | .claimDenied _ _ _ => false
  | _ => true

theorem orderly_of_alone (solo : ∀ alt, alt ≠ c → live alt = none) (timed : Timed)
    (s : Statement) (io : Choice) (harmless : undenying s = true) :
    (orderly noncedConfig 1).executes timed live c s io := by
  cases s with
  | createEnrollment row =>
    intro _ alt job ne busy
    rw [solo alt ne] at busy
    cases busy
  | claimDenied id who reason => cases harmless
  | _ => trivial

def served (state : Service.State Job Statement Statement.Answer
      (Except Error Result) Timed) (call : Nat) (job : Job) :
    Service.State Job Statement Statement.Answer (Except Error Result)
      Timed :=
  let ran := (noncedConfig.procedure job).run (Timed.execute env) (fun _ => {}) state.world
  { world := ran.2
    calls := update state.calls call (.returned job ran.1) }

theorem reaches_served (idle : st.calls c = .idle) (calm : ∀ alt, (st.calls alt).active = none)
    (harmless : Service.Along (Timed.execute env) (fun _ s _ => undenying s = true) (fun _ => {})
      (noncedConfig.procedure job) st.world) :
    Reaches (workers noncedConfig env).step (orderly noncedConfig 1).Allows
      st (served st c job) := by
  refine Service.reaches_alone idle trivial (harmless.mono ?_)
  intro timed s io undenied
  refine orderly_of_alone ?_ timed s io undenied
  intro alt ne
  rw [update_of_ne ne]
  exact calm alt

def firstServed : Service.State Job Statement Statement.Answer (Except Error Result) Timed :=
  served (.quiet rationed) 0 (.process firstApplicant)

theorem firstServed_quiet (c : Nat) : (firstServed.calls c).active = none := by
  simp only [firstServed, served]
  by_cases eq : c = 0
  · rw [eq, update_self]
    rfl
  · rw [update_of_ne eq]
    rfl

end Example

open Example

/-- The second of two applicants in turn is refused. -/
theorem quota_kept_in_turn :
    let finish := served firstServed 1 (.process secondApplicant)
    finish.calls 1 = .returned (.process secondApplicant) (.error .quota) ∧
      Sparse rationedKey.quotaPerHour noncedConfig.quotaWindow
        (finish.world.world.acceptedAt rationedKey.id) := by
  have first : Reaches (workers noncedConfig env).step
      (orderly noncedConfig 1).Allows (.quiet rationed)
      firstServed :=
    reaches_served rfl (fun _ => rfl) (by decide)
  have second : Reaches (workers noncedConfig env).step (orderly noncedConfig 1).Allows firstServed
      (served firstServed 1 (.process secondApplicant)) :=
    reaches_served rfl firstServed_quiet (by decide)
  have fresh : ∀ row ∈ rationed.world.enrollments.rows, row.joinKeyID ≠ rationedKey.id := by
    intro row member
    cases member
  exact ⟨rfl, quota_kept (List.mem_singleton_self _) (by decide)
    (by decide) fresh (first.trans second)⟩

/-- Both workers count no enrollment before either records its own, and a quota
of one is exceeded. -/
theorem quota_exceeded_by_two_workers : rationedKey ∈ rationed.world.joinKeys.rows ∧
    0 < rationedKey.quotaPerHour ∧ rationed.world.enrollments.rows = [] ∧
    ∃ finish, Reachable (workers noncedConfig env).step
        (.quiet rationed) finish ∧ ¬Sparse rationedKey.quotaPerHour noncedConfig.quotaWindow
        (finish.world.world.acceptedAt rationedKey.id) := by
  refine ⟨List.mem_singleton_self _, by decide, rfl, _,
    reachable_getD twoApplicants (.quiet rationed) (by decide), ?_⟩
  have accepted : ((runEvents (workers noncedConfig env).step (.quiet rationed) twoApplicants).getD
        (.quiet rationed)).world.world.acceptedAt rationedKey.id = [0, 0] := by
    decide
  intro sparse
  rw [accepted] at sparse
  exact absurd (sparse 0).1 (by decide)

end Harbor.Consumer
