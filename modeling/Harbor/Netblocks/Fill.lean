import Harbor.Netblocks.Alone

/-!
# What an allocation does

`Fill` says in terms of the two tables how an allocation in a block goes: take
the lowest free address, or double the block and go on, or give up.  A call of
`Allocate` that runs alone purges the expired quarantines and then fills.
-/

namespace Harbor.Netblocks

open Library Library.Procedure Ipam Table

def skipped (blocks : Blocks) (block : Netblock) : List Prefix :=
  if block.kind = .named then []
  else (Registry.carved blocks.listed).filter block.range.overlaps

inductive Skips (faultless : Prop) (blocks : Blocks) (block : Netblock) : List Prefix → Prop where
  | carves : Skips faultless blocks block (skipped blocks block)
  | unread : ¬faultless → block.kind ≠ .named → Skips faultless blocks block []

def Scan (faultless : Prop) (reserved : List Addr)
    (allocations : Allocations) (blocks : Blocks) (block : Netblock) (found : Option Addr) : Prop :=
  ∃ carves, Skips faultless blocks block carves ∧
    lowestFree block.range reserved (allocations.rows.map (·.ip)) carves = found

structure Lease where
  deviceID : Int
  method : String

def Lease.row (lease : Lease) (ip : Addr) (allocatedAt netblockID : Int) :
    Allocation :=
  { ip := ip
    deviceID := lease.deviceID
    state := .allocated
    allocatedAt := allocatedAt
    netblockID := netblockID
    method := lease.method }

section

variable (faultless : Prop) (r : Registry) (a : Consumer.Allocator) (lease : Lease)
  (finish : Int)

/-- How an allocation in a block goes, from a time on and up to `finish`. -/
inductive Fill : Netblock → Allocations → Blocks → Int →
    Except Consumer.AllocateError Addr → Allocations → Blocks → Prop where
  | taken {block : Netblock} {allocations after : Allocations}
      {blocks : Blocks} {since time : Int} {ip : Addr} :
      Scan faultless a.reserved allocations blocks block (some ip) → since ≤ time →
      time ≤ finish → allocations.insert? (lease.row ip time block.id) = some after →
      Fill block allocations blocks since (.ok ip) after blocks
  | grown {block : Netblock} {allocations after : Allocations}
      {blocks final : Blocks} {since time : Int} {answer : Except Consumer.AllocateError Addr} :
      Scan faultless a.reserved allocations blocks block none → a.grower = true → since ≤ time →
      time ≤ finish → Doubles r blocks (allocations.liveAddrs time) block →
      Fill (Blocks.recut (parentOf block.range) none block) allocations
        (blocks.setCIDR block.name block.range (parentOf block.range) none)
        time answer after final → Fill block allocations blocks since answer after final
  | exhausted {block : Netblock} {allocations : Allocations} {blocks : Blocks} {since time : Int} :
      Scan faultless a.reserved allocations blocks block none → since ≤ time →
      time ≤ finish → (a.grower = true → ¬Doubles r blocks (allocations.liveAddrs time) block) →
      Fill block allocations blocks since (.error .poolExhausted) allocations blocks
  | broken {block : Netblock} {allocations after : Allocations}
      {blocks final : Blocks} {since : Int} {error : Consumer.AllocateError} : ¬faultless →
      Fill block allocations blocks since (.error error) after final

end

section

variable {env : Consumer.Env} {ps : Choice → Prop} {r : Registry}
  {a : Consumer.Allocator} {w fin : World}

theorem store_outcome (out : Outcome (execute env) ps (send (.store s)) w ans fin) :
    ∃ io, ps io ∧ ans = (Consumer.execute env { io.base with now := (w.tick io).now } w.store s).1 ∧
      fin = { w.tick io with
        store := (Consumer.execute env
          { io.base with now := (w.tick io).now } w.store
          s).2 } :=
  outcome_request.mp out

variable {Answered : Type}

theorem choice_database (may : ps pick) (now : Int) (was eff : Consumer.World)
    (told : Answered) : Consumer.Choice.database { pick.base with now := now } was told
        eff = (.ok told, eff) ∨ ¬Faultless ps ∧ ∃ text, (Consumer.Choice.database
        { pick.base with now := now } was told eff).1 =
          .error text := by
  cases f : pick.base.fault with
  | ok =>
    left
    simp [Consumer.Choice.database, Fault.settle, f]
  | failed | lost =>
    refine .inr ⟨not_faultless may (by rw [f]; rintro ⟨⟩), pick.base.text, ?_⟩
    simp [Consumer.Choice.database, Fault.settle, f]

theorem choice_database_snd (io : Consumer.Choice)
    (was eff : Consumer.World) (told : Answered) : (io.database was told eff).2 = was ∨
      (io.database was told eff).2 = eff := by
  unfold Consumer.Choice.database
  rcases Fault.settle_snd io.fault (Except.error io.text) was
    (Except.ok told, eff) with kept | ⟨_, edit⟩
  · exact .inl kept
  · exact .inr edit

theorem choice_database_read (io : Consumer.Choice) (was : Consumer.World) (told : Answered) :
    (io.database was told was).2 = was :=
  (choice_database_snd io was was told).elim id id

theorem Quiet.store_tick {p : Nat} {io : Choice} {db : Consumer.World} (eq : db = w.store) :
    Quiet p w { w.tick io with store := db } where
  store := eq
  netblocks := rfl
  later := now_le_tick w io
  fresh := fun new => new

theorem clock_outcome (out : Outcome (execute env) ps (r.expand .clock) w now
      fin) : Quiet r.process w fin ∧ now = fin.now := by
  obtain ⟨io, _, rfl, rfl⟩ := store_outcome out
  exact ⟨.store_tick rfl, rfl⟩

theorem pluck_outcome (out : Outcome (execute env) ps (r.expand .pluckAllocations) w ans fin) :
    Quiet r.process w fin ∧ (ans = .ok (w.store.allocations.rows.map (·.ip)) ∨
        ¬Faultless ps ∧ ∃ t, ans = .error t) := by
  obtain ⟨io, may, rfl, rfl⟩ := store_outcome out
  refine ⟨.store_tick (choice_database_read _ _ _), ?_⟩
  rcases choice_database may (w.tick io).now w.store w.store (w.store.allocations.rows.map (·.ip))
    with success | failure
  · exact .inl (congrArg Prod.fst success)
  · exact .inr failure

theorem skippedCarves_outcome {blk : Netblock} {cv : List Prefix}
    (reg : a.resolver = .registry) (new : FreshCache w r.process) (out : Outcome (execute env) ps
      ((a.skippedCarves blk.resolved).translate r.expand) w cv fin) :
    Quiet r.process w fin ∧ Skips (Faultless ps) w.netblocks blk cv := by
  unfold Consumer.Allocator.skippedCarves at out
  split at out
  · rename_i unnamed
    have alt : blk.kind ≠ .named := by
      simpa [Netblock.resolved] using unnamed.2
    obtain ⟨ans, mid, fst, snd⟩ := outcome_translate_send.mp out
    have read := carves_reads fst
    rcases read.answered new with rfl | ⟨bad, t, rfl⟩
    · obtain ⟨rfl, rfl⟩ := outcome_done.mp snd
      refine ⟨read.quiet, ?_⟩
      have has : skipped w.netblocks blk = (Registry.carved w.netblocks.listed).filter
            blk.range.overlaps := if_neg alt
      exact has ▸ .carves
    · obtain ⟨rfl, rfl⟩ := outcome_done.mp snd
      exact ⟨read.quiet, .unread bad alt⟩
  · rename_i same
    have k : blk.kind = .named := by
      simpa [reg, Netblock.resolved] using same
    obtain ⟨rfl, rfl⟩ := outcome_done.mp out
    refine ⟨⟨rfl, rfl, le_rfl, fun new => new⟩, ?_⟩
    have none : skipped fin.netblocks blk = [] := if_pos k
    exact none ▸ .carves

def scanned : Option Addr → Except Consumer.AllocateError Addr
  | some ip => .ok ip
  | none => .error .poolExhausted

theorem firstFree_outcome {blk : Netblock} {answer : Except Consumer.AllocateError Addr}
    (reg : a.resolver = .registry) (new : FreshCache w r.process) (out : Outcome (execute env) ps
      ((a.firstFree blk.resolved).translate r.expand) w answer fin) : Quiet r.process w fin ∧
      ((∃ hit, Scan (Faultless ps) a.reserved w.store.allocations
          w.netblocks blk hit ∧ answer = scanned hit) ∨
        ¬Faultless ps ∧ ∃ t, answer = .error (.load t)) := by
  unfold Consumer.Allocator.firstFree at out
  obtain ⟨occupied, middle, fst, second⟩ := outcome_translate_send.mp out
  obtain ⟨calm, rfl | ⟨faulty, t, rfl⟩⟩ := pluck_outcome fst
  · obtain ⟨cv, cur, trd, fourth⟩ :=
      outcome_translate_then.mp second
    obtain ⟨quietCarves, skips⟩ := skippedCarves_outcome reg (calm.fresh new) trd
    rw [calm.netblocks] at skips
    have fix : answer = scanned (lowestFree blk.range a.reserved
        (w.store.allocations.rows.map (·.ip)) cv) ∧ fin = cur := by
      change Outcome (execute env) ps (Procedure.translate r.expand
        (match lowestFree blk.range a.reserved (w.store.allocations.rows.map (·.ip)) cv with
          | some ip => pure (.ok ip)
          | none => pure (.error .poolExhausted))) cur answer
        fin at fourth
      split at fourth
      · rename_i ip fr
        rw [fr]
        exact outcome_done.mp fourth
      · rename_i full
        rw [full]
        exact outcome_done.mp fourth
    obtain ⟨rfl, rfl⟩ := fix
    exact ⟨calm.trans quietCarves, .inl ⟨_, ⟨cv, skips, rfl⟩, rfl⟩⟩
  · obtain ⟨rfl, rfl⟩ := outcome_done.mp second
    exact ⟨calm, .inr ⟨faulty, t, rfl⟩⟩

theorem create_outcome (fr : row.ip ∉ w.store.allocations.rows.map (·.ip))
    (out : Outcome (execute env) ps (r.expand (.createAllocation row))
      w ans fin) : ans = .ok () ∧ w.store.allocations.insert? row = some fin.store.allocations ∧
        fin.netblocks = w.netblocks ∨ ¬Faultless ps ∧ ∃ t, ans = .error (.failed t) := by
  obtain ⟨put, insert⟩ := exists_insert? w.store.allocations row fr
  obtain ⟨io, may, rfl, rfl⟩ := store_outcome out
  simp only [Consumer.execute, Consumer.World.createAllocation, insert]
  cases f : io.base.fault with
  | ok => exact .inl ⟨rfl, rfl, rfl⟩
  | failed | lost => exact .inr ⟨not_faultless may (by rw [f]; rintro ⟨⟩), _, rfl⟩

variable {bs : Blocks}

theorem Fill.earlier {good : Prop}
    (fill : Fill good r a l stop blk allocs bs since ans final last) (ord : was ≤ since) :
    Fill good r a l stop blk allocs bs was ans final
      last := by
  cases fill with
  | taken scan late old put => exact .taken scan (ord.trans late) old put
  | grown scan wired late old dup rest => exact .grown scan wired (ord.trans late) old dup rest
  | exhausted scan late old cannot => exact .exhausted scan (ord.trans late) old cannot
  | broken bad => exact .broken bad

theorem Doubles.find (dup : Doubles r bs live blk) (had : bs.table.find blk.name = some blk) :
    (bs.setCIDR blk.name blk.range (parentOf blk.range) none).table.find blk.name =
      some (Blocks.recut (parentOf blk.range) none blk) := by
  show (bs.table.update _ _ (Blocks.recut_name _ _)).find _ = _
  rw [find_update, had]
  have hit : Blocks.isBlock blk.name blk.range blk = true := by
    simp [Blocks.isBlock, ← dup.stored]
  simp [hit]

theorem Doubles.bits_lt (dup : Doubles r bs live blk) (bd : blk.range.bits < n + 1) :
    (Blocks.recut (parentOf blk.range) none blk).range.bits <
      n := by
  obtain ⟨bud, sib, _⟩ := dup.free
  show blk.range.bits - 1 < n
  have pos : blk.range.bits ≠ 0 := by
    intro all
    simp [buddyOf, all] at sib
  omega

theorem recut_resolved (blk : Netblock) : (Blocks.recut (parentOf blk.range) none blk).resolved =
      { blk.resolved with cidr := parentOf blk.range } := by
  simp [Netblock.resolved, Netblock.range, Blocks.recut]

def leaseAddr (lease : Lease) (netblockID : Int)
    (retry : Consumer.Run (Except Consumer.AllocateError Addr)) (ip : Addr) :
    Consumer.Run (Except Consumer.AllocateError Addr) := do
  let now ← Consumer.clock
  match ← Consumer.send (.createAllocation (lease.row ip now netblockID)) with
  | .ok () => return .ok ip
  | .error .duplicatedKey => retry
  | .error (.failed text) => return .error (.create text)

def growBlock (a : Consumer.Allocator) (res : Resolved)
    (retry : Prefix → Consumer.Run (Except Consumer.AllocateError Addr)) :
    Consumer.Run (Except Consumer.AllocateError Addr) :=
  if res.named = true ∧ a.grower = true then do
    match ← Consumer.send (.grow res.name) with
    | .ok (some grown) => retry grown
    | _ => return .error .poolExhausted
  else return .error .poolExhausted

theorem allocateLoop_succ (a : Consumer.Allocator) (l : Lease) (n : Nat) (res : Resolved) :
    a.allocateLoop l.deviceID l.method (n + 1) res = (do
      match ← a.firstFree res with
      | .error .poolExhausted =>
        growBlock a res fun grew =>
          a.allocateLoop l.deviceID l.method n { res with cidr := grew }
      | .error err => return .error err
      | .ok ip => leaseAddr l res.id (a.allocateLoop l.deviceID l.method n res) ip) := by
  show a.firstFree res >>= _ = _
  congr 1
  funext ans
  rcases ans with err | ip
  · cases err <;> rfl
  · show Consumer.clock >>= _ = Consumer.clock >>= _
    congr 1
    funext now
    show Consumer.send _ >>= _ = Consumer.send _ >>= _
    congr 1
    funext made
    rcases made with (_ | text) | _ <;> rfl

section

variable {l : Lease} {blk : Netblock} {middle : World}
  {answer : Except Consumer.AllocateError Addr}

theorem leaseAddr_fills (calm : Quiet r.process w middle)
    (scan : Scan (Faultless ps) a.reserved w.store.allocations
      w.netblocks blk (some ip)) (out : Outcome (execute env) ps
      ((leaseAddr l blk.id retry ip).translate r.expand) middle answer fin) :
    Fill (Faultless ps) r a l fin.now blk w.store.allocations w.netblocks w.now answer
      fin.store.allocations
      fin.netblocks := by
  obtain ⟨now, cur, ticked, rest⟩ := outcome_translate_send.mp out
  obtain ⟨same, rfl⟩ := clock_outcome ticked
  have was := calm.trans same
  obtain ⟨made, last, creation, past⟩ := outcome_translate_send.mp rest
  have fr : ip ∉ cur.store.allocations.rows.map (·.ip) := by
    obtain ⟨cv, _, low⟩ := scan
    rw [was.store]
    exact (lowestFree_eq_some.mp low).1.unoccupied
  rcases create_outcome fr creation with
    ⟨rfl, put, netblocks⟩ | ⟨bad, t, rfl⟩
  · obtain ⟨rfl, rfl⟩ := outcome_done.mp past
    rw [netblocks, was.netblocks]
    rw [was.store] at put
    exact .taken scan was.later (now_le_of_outcome creation) put
  · obtain ⟨rfl, rfl⟩ := outcome_done.mp past
    exact .broken bad

theorem exhausted_fills
    (scan : Scan (Faultless ps) a.reserved w.store.allocations w.netblocks blk none)
    (db : middle.store = w.store) (netblocks : middle.netblocks = w.netblocks)
    (late : w.now ≤ t) (old : t ≤ middle.now) (cannot : a.grower = true → ¬Doubles r w.netblocks
      (w.store.allocations.liveAddrs t) blk) (out : Outcome (execute env) ps
      (Procedure.translate r.expand (pure (.error .poolExhausted))) middle answer fin) :
    Fill (Faultless ps) r a l fin.now blk w.store.allocations w.netblocks w.now answer
      fin.store.allocations
      fin.netblocks := by
  obtain ⟨rfl, rfl⟩ := outcome_done.mp out
  rw [db, netblocks]
  exact .exhausted scan late old cannot

theorem growBlock_fills (calm : Quiet r.process w middle)
    (had : w.netblocks.table.find blk.name = some blk)
    (scan : Scan (Faultless ps) a.reserved w.store.allocations w.netblocks blk none)
    (out : Outcome (execute env) ps
      ((growBlock a blk.resolved retry).translate r.expand) middle answer fin)
    (continued : ∀ (cur : World) (t : Int),
      Doubles r w.netblocks (w.store.allocations.liveAddrs t) blk → cur.store = w.store →
      cur.netblocks = w.netblocks.setCIDR blk.name blk.range
        (parentOf blk.range) none → FreshCache cur r.process → t ≤ cur.now →
      Outcome (execute env) ps ((retry (parentOf blk.range)).translate r.expand) cur answer fin →
      Fill (Faultless ps) r a l fin.now (Blocks.recut (parentOf blk.range) none blk)
        w.store.allocations (w.netblocks.setCIDR blk.name blk.range
          (parentOf blk.range) none) t answer fin.store.allocations fin.netblocks) :
    Fill (Faultless ps) r a l fin.now blk w.store.allocations w.netblocks w.now answer
      fin.store.allocations
      fin.netblocks := by
  unfold growBlock at out
  split at out
  · rename_i growing
    obtain ⟨grown, cur, growth, past⟩ := outcome_translate_send.mp out
    obtain ⟨answered, last, grow, told⟩ := outcome_then.mp growth
    obtain ⟨rfl, rfl⟩ := outcome_done.mp told
    have here : middle.netblocks.table.find blk.name = some blk := by
      rw [calm.netblocks]
      exact had
    cases grow_outcome here grow with
    | @grown t late old twice db netblocks refreshed =>
      rw [calm.store, calm.netblocks] at twice
      rw [calm.store] at db
      rw [calm.netblocks] at netblocks
      exact .grown scan growing.2 (calm.later.trans late)
        (old.trans (now_le_of_outcome past)) twice
        (continued _ t twice db netblocks refreshed old past)
    | @refused t err late old cannot db netblocks =>
      rw [calm.store, calm.netblocks] at cannot
      exact exhausted_fills scan (db.trans calm.store)
        (netblocks.trans calm.netblocks) (calm.later.trans late) old (fun _ => cannot) past
    | broken bad =>
      obtain ⟨rfl, rfl⟩ := outcome_done.mp past
      exact .broken bad
  · rename_i fixed
    refine exhausted_fills scan calm.store calm.netblocks le_rfl calm.later ?_ out
    intro wired twice
    refine fixed ⟨?_, wired⟩
    simp [Netblock.resolved, twice.named]

end

theorem loop_fills {l : Lease} {n : Nat} {blk : Netblock}
    {ans : Except Consumer.AllocateError Addr} (reg : a.resolver = .registry)
    (new : FreshCache w r.process) (had : w.netblocks.table.find blk.name = some blk)
    (bd : blk.range.bits < n) (out : Outcome (execute env) ps
      ((a.allocateLoop l.deviceID l.method n blk.resolved).translate r.expand) w ans fin) :
    Fill (Faultless ps) r a l fin.now blk w.store.allocations w.netblocks w.now ans
      fin.store.allocations
      fin.netblocks := by
  induction n generalizing w blk with
  | zero => exact absurd bd (Nat.not_lt_zero _)
  | succ n ih =>
    rw [allocateLoop_succ] at out
    obtain ⟨fr, mid, fst, snd⟩ := outcome_translate_then.mp out
    obtain ⟨calm, ⟨hit, scan, rfl⟩ | ⟨bad, t, rfl⟩⟩ := firstFree_outcome reg new fst
    · cases hit with
      | some ip => exact leaseAddr_fills calm scan snd
      | none =>
        refine growBlock_fills calm had scan snd ?_
        intro cur time dup db netblocks refreshed old rest
        rw [← recut_resolved] at rest
        have fill := ih refreshed (netblocks ▸ dup.find had) (dup.bits_lt bd) rest
        rw [db, netblocks] at fill
        exact fill.earlier old
    · obtain ⟨rfl, rfl⟩ := outcome_done.mp snd
      exact .broken bad

end

/-- The blocks a request for a name can be served from: its own unless that is
reserved, and then `default`, or the reserved block where `default` cannot be
read. -/
inductive Targets (faultless : Prop) (rows : List Netblock) (name : String) : Netblock → Prop where
  | asked {block : Netblock} : Registry.lookup rows name = .ok block → block.kind ≠ .reserved →
      Targets faultless rows name block
  | fallback {asked block : Netblock} : Registry.lookup rows name = .ok asked →
      asked.kind = .reserved → Registry.lookup rows nameDefault = .ok block →
      Targets faultless rows name block
  | kept {block : Netblock} : Registry.lookup rows name = .ok block → block.kind = .reserved →
      (∃ error, Registry.lookup rows nameDefault = .error error) ∨ ¬faultless →
      Targets faultless rows name block

inductive AllocateEnd (faultless : Prop) (r : Registry)
    (a : Consumer.Allocator) (name method : String) (world after : World) :
    Except Consumer.AllocateError Addr → Prop where
  | filled {block : Netblock} {deviceID time : Int} {answer : Except Consumer.AllocateError Addr} :
      Targets faultless world.netblocks.listed name block → world.now ≤ time →
      time ≤ after.now → Fill faultless r a ⟨deviceID, method⟩ after.now block
        (world.store.allocations.purgeExpired time) world.netblocks time answer
        after.store.allocations after.netblocks →
      AllocateEnd faultless r a name method world after answer
  | unresolved {error : RegistryError} :
      Registry.lookup world.netblocks.listed name = .error error → after.store = world.store →
      after.netblocks = world.netblocks → AllocateEnd faultless r a name method world after
        (.error (.resolver error.message))
  | broken {error : Consumer.AllocateError} : ¬faultless →
      AllocateEnd faultless r a name method world after (.error error)

section

variable {env : Consumer.Env} {ps : Choice → Prop} {r : Registry}
  {a : Consumer.Allocator} {w post : World}
variable {name : String}

theorem mem_of_lookup (hit : Registry.lookup rs name = .ok blk) : blk ∈ rs := by
  unfold Registry.lookup Registry.named at hit
  dsimp only at hit
  generalize (if name = "" then nameDefault else name) = want at hit
  split at hit
  · rename_i row had
    cases hit
    exact List.mem_of_find?_eq_some had
  · split at hit
    · split at hit
      · rename_i row had
        cases hit
        exact List.mem_of_find?_eq_some had
      · cases hit
    · cases hit

theorem Targets.mem {good : Prop} (aims : Targets good rs name blk) : blk ∈ rs := by
  cases aims with
  | asked hit | fallback _ _ hit | kept hit => exact mem_of_lookup hit

/-- What follows the first read of `resolve`. -/
def joinGuard (res : Resolved) : Consumer.Run (Except Consumer.AllocateError Resolved) :=
  if res.reserved then do
    match ← Consumer.send (.resolveFull nameDefault) with
    | .ok fallback => return .ok fallback
    | .error _ => return .ok res
  else return .ok res

theorem resolve_registry (reg : a.resolver = .registry) (name : String) : a.resolve name = (do
      match ← Consumer.send (.resolveFull name) with
      | .error t => return .error (.resolver t)
      | .ok res => joinGuard res) := by
  unfold Consumer.Allocator.resolve
  rw [reg]
  rfl

theorem resolve_outcome (reg : a.resolver = .registry) (new : FreshCache w r.process)
    (out : Outcome (execute env) ps
      ((a.resolve name).translate r.expand) w answer post) : Quiet r.process w post ∧
      ((∃ blk, Targets (Faultless ps) w.netblocks.listed name blk ∧
          answer = .ok blk.resolved) ∨ (∃ err,
          Registry.lookup w.netblocks.listed name = .error err ∧
          answer = .error (.resolver err.message)) ∨
        ¬Faultless ps ∧ ∃ err, answer = .error err) := by
  rw [resolve_registry reg] at out
  obtain ⟨fst, mid, read, rest⟩ := outcome_translate_send.mp out
  have reads := resolveFull_reads read
  have calm := reads.quiet
  rcases reads.answered new with rfl | ⟨faulty, t, rfl⟩
  · cases looked : Registry.lookup w.netblocks.listed name with
    | error err =>
      rw [looked] at rest
      obtain ⟨rfl, rfl⟩ := outcome_done.mp rest
      exact ⟨calm, .inr (.inl ⟨err, rfl, rfl⟩)⟩
    | ok blk =>
      rw [looked] at rest
      change Outcome (execute env) ps
        ((joinGuard blk.resolved).translate r.expand) mid answer post at rest
      unfold joinGuard at rest
      split at rest
      · rename_i marked
        have held : blk.kind = .reserved := by
          simpa [Netblock.resolved] using marked
        obtain ⟨snd, cur, anew, fin⟩ := outcome_translate_send.mp rest
        have readsAgain := resolveFull_reads anew
        rw [calm.netblocks] at readsAgain
        have both := calm.trans readsAgain.quiet
        rcases readsAgain.answered (calm.fresh new) with
          rfl | ⟨faulty, t, rfl⟩
        · cases dflt : Registry.lookup w.netblocks.listed nameDefault with
          | error err =>
            rw [dflt] at fin
            obtain ⟨rfl, rfl⟩ := outcome_done.mp fin
            exact ⟨both, .inl ⟨blk, .kept looked held (.inl ⟨err, dflt⟩), rfl⟩⟩
          | ok fallback =>
            rw [dflt] at fin
            obtain ⟨rfl, rfl⟩ := outcome_done.mp fin
            exact ⟨both, .inl ⟨fallback, .fallback looked held dflt, rfl⟩⟩
        · obtain ⟨rfl, rfl⟩ := outcome_done.mp fin
          exact ⟨both, .inl ⟨blk, .kept looked held (.inr faulty), rfl⟩⟩
      · rename_i unmarked
        have norm : blk.kind ≠ .reserved := by
          simpa [Netblock.resolved] using unmarked
        obtain ⟨rfl, rfl⟩ := outcome_done.mp rest
        exact ⟨calm, .inl ⟨blk, .asked looked norm, rfl⟩⟩
  · obtain ⟨rfl, rfl⟩ := outcome_done.mp rest
    exact ⟨calm, .inr (.inr ⟨faulty, _, rfl⟩)⟩

structure Untouched (process : Nat) (world after : World) : Prop where
  allocations : after.store.allocations = world.store.allocations
  netblocks : after.netblocks = world.netblocks
  later : world.now ≤ after.now
  fresh : FreshCache world process → FreshCache after process

theorem device_settles (env : Consumer.Env) (io : Consumer.Choice)
    (db : Consumer.World) (name : String) (made : Int) : ∃ dev devs,
      Consumer.execute env io db (.firstOrCreateDevice name made) =
        io.database db dev { db with devices := devs } := by
  simp only [Consumer.execute, Consumer.World.firstOrCreateDevice]
  cases hit : db.devices.find name with
  | some dev => exact ⟨dev, db.devices, rfl⟩
  | none =>
    obtain ⟨devs, put⟩ := exists_insert? db.devices
      { id := nextID (db.devices.rows.map (·.id))
        name := name
        createdAt := made } (by simpa using find_eq_none_iff.mp hit)
    simp only [put]
    exact ⟨_, devs, rfl⟩

theorem device_outcome (out : Outcome (execute env) ps
      (r.expand (.firstOrCreateDevice name createdAt)) w ans post) :
    Untouched r.process w post ∧ ((∃ dev, ans = .ok dev) ∨
        ¬Faultless ps ∧ ∃ t, ans = .error t) := by
  obtain ⟨io, may, rfl, rfl⟩ := store_outcome out
  obtain ⟨dev, devs, eq⟩ := device_settles env
    { io.base with now := (w.tick io).now } w.store name createdAt
  refine ⟨⟨?_, rfl, now_le_tick w io, fun new => new⟩, ?_⟩
  · show (Consumer.execute _ _ _ _).2.allocations = _
    rw [eq]
    rcases choice_database_snd { io.base with now := (w.tick io).now } w.store
      { w.store with devices := devs } dev with kept | changed
    · rw [kept]
    · rw [changed]
  · rw [eq]
    rcases choice_database may (w.tick io).now w.store
      { w.store with devices := devs } dev with success | failure
    · exact .inl ⟨dev, congrArg Prod.fst success⟩
    · exact .inr failure

theorem purge_outcome (out : Outcome (execute env) ps
      (r.expand .purgeExpiredQuarantine) w ans post) :
    w.now ≤ post.now ∧ post.netblocks = w.netblocks ∧
      (FreshCache w r.process → FreshCache post r.process) ∧
      (ans = .ok () ∧ post.store.allocations = w.store.allocations.purgeExpired post.now ∨
        ¬Faultless ps ∧ ∃ t, ans = .error t) := by
  obtain ⟨io, may, rfl, rfl⟩ := store_outcome out
  refine ⟨now_le_tick w io, rfl, fun new => new, ?_⟩
  rcases choice_database may (w.tick io).now w.store
    { w.store with
      allocations := w.store.allocations.purgeExpired
        (w.tick io).now } () with success | failure
  · refine .inl ⟨congrArg Prod.fst success, ?_⟩
    exact congrArg (fun pair => pair.2.allocations) success
  · exact .inr failure

theorem allocate_outcome {cfg : Config} {p : Nat} {deviceName verb : String}
    {ans : Except Consumer.AllocateError Addr}
    (reg : (cfg.allocator p).resolver = .registry) (new : FreshCache w p)
    (out : Outcome (execute env) ps (cfg.allocate p deviceName name verb) w ans post) :
    AllocateEnd (Faultless ps) (cfg.registry p) (cfg.allocator p)
      name verb w post ans := by
  unfold Config.allocate Consumer.Allocator.allocate at out
  obtain ⟨resolved, cur, fst, rest⟩ := outcome_translate_then.mp out
  obtain ⟨calm, ⟨blk, aims, rfl⟩ | ⟨err, lacks, rfl⟩ | ⟨bad, err, rfl⟩⟩ :=
    resolve_outcome (r := cfg.registry p) reg new fst
  · obtain ⟨made, clocked, snd, rest⟩ :=
      outcome_translate_send.mp rest
    obtain ⟨still, _⟩ := clock_outcome snd
    have was := calm.trans still
    obtain ⟨ensured, housed, trd, rest⟩ := outcome_translate_send.mp rest
    obtain ⟨same, ⟨dev, rfl⟩ | ⟨bad, t, rfl⟩⟩ := device_outcome trd
    · obtain ⟨purge, purged, fourth, rest⟩ := outcome_translate_send.mp rest
      obtain ⟨late, bs, cached, ⟨rfl, allocs⟩ | ⟨bad, t, rfl⟩⟩ := purge_outcome fourth
      · have tables : purged.netblocks = w.netblocks :=
          bs.trans (same.netblocks.trans was.netblocks)
        have mem : blk ∈ w.netblocks.rows := (Blocks.mem_listed _).mp aims.mem
        have had : purged.netblocks.table.find blk.name =
            some blk := by
          rw [tables]
          exact find_eq_some_iff.mpr ⟨mem, rfl⟩
        have bd : blk.range.bits < Consumer.maxAllocAttempts :=
          lt_of_le_of_lt blk.range.bits_le (by decide)
        have fill : Fill (Faultless ps) (cfg.registry p) (cfg.allocator p) ⟨dev.id, verb⟩
            post.now blk
            purged.store.allocations purged.netblocks purged.now ans
            post.store.allocations post.netblocks :=
          loop_fills reg (cached (same.fresh (was.fresh new))) had bd rest
        rw [allocs, tables, same.allocations, was.store] at fill
        exact .filled aims (was.later.trans (same.later.trans late))
          (now_le_of_outcome rest) fill
      · obtain ⟨rfl, rfl⟩ := outcome_done.mp rest
        exact .broken bad
    · obtain ⟨rfl, rfl⟩ := outcome_done.mp rest
      exact .broken bad
  · obtain ⟨rfl, rfl⟩ := outcome_done.mp rest
    exact .unresolved lacks calm.store calm.netblocks
  · obtain ⟨rfl, rfl⟩ := outcome_done.mp rest
    exact .broken bad

theorem allocate_run (env : Consumer.Env) (ps : Choice → Prop)
    (sel : Nat → Choice) {cfg : Config} {p : Nat} (dev name verb : String)
    (reg : (cfg.allocator p).resolver = .registry) (new : FreshCache w p)
    (may : ∀ idx, ps (sel idx)) : AllocateEnd (Faultless ps) (cfg.registry p) (cfg.allocator p)
      name verb w ((cfg.allocate p dev name verb).run (execute env)
        sel w).2 ((cfg.allocate p dev name verb).run (execute env) sel w).1 :=
  allocate_outcome reg new (outcome_of_run w may)

end

end Harbor.Netblocks
