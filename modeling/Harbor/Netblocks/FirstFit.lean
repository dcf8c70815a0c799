import Harbor.Netblocks.Reserved

/-!
# First fit

What a call of Allocate that runs alone and without errors does to the
allocation table, in terms of the free addresses of the block it is served from
and the doublings that block makes.
-/

namespace Harbor.Netblocks

open Library Library.Service Library.Procedure Ipam List

section

/-- `Addr.Next`; after the last address comes the zero `Addr`. -/
def nextAddr (ip : Addr) : Option Addr :=
  if ip + 1 < 2 ^ 32 then some (ip + 1) else none

/-- The loop of `firstFree`, `none` when the fuel does not suffice.  The zero
`Addr` is in no range. -/
def walk (range : Prefix) (skips : Addr → Bool) : Nat → Option Addr → Option (Option Addr)
  | 0, _ => none
  | _ + 1, none => some none
  | fuel + 1, some ip =>
    if range.contains ip then
      if skips ip then walk range skips fuel (nextAddr ip)
      else some (some ip)
    else some none

def position (range : Prefix) (offset : Nat) : Option Addr :=
  if range.network + offset < 2 ^ 32 then some (range.network + offset)
  else none

variable {rng : Prefix} {skips : Addr → Bool}

theorem walk_from (l : Nat) : ∀ (off fuel : Nat), off + l = rng.size → l < fuel →
    walk rng skips fuel (position rng off) = some (((List.range' off l).map (rng.network + ·)).find?
        fun ip => !skips ip) := by
  induction l with
  | zero =>
    intro off fuel sum bd
    obtain ⟨rest, rfl⟩ := Nat.exists_eq_succ_of_ne_zero bd.ne'
    have out : ¬rng.contains (rng.network + off) = true := by
      rw [Prefix.contains_iff, ← sum]
      exact fun lies => absurd lies.2 (Nat.lt_irrefl _)
    unfold position
    split
    · simp [walk, out]
    · simp [walk]
  | succ l induction =>
    intro off fuel sum bd
    obtain ⟨rest, rfl⟩ := Nat.exists_eq_succ_of_ne_zero (Nat.ne_zero_of_lt bd)
    have lies : rng.contains (rng.network + off) = true :=
      contains_iff_offset.mpr ⟨off, by omega, rfl⟩
    have cap : rng.network + off < 2 ^ 32 := Prefix.lt_of_contains lies
    have here : position rng off = some (rng.network + off) := if_pos cap
    have next : nextAddr (rng.network + off) = position rng (off + 1) := rfl
    rw [here, List.range'_succ, map_cons, List.find?_cons]
    simp only [walk, lies, if_true]
    cases skip : skips (rng.network + off) with
    | true =>
      simp only [if_true, Bool.not_true]
      rw [next]
      exact induction (off + 1) rest (by omega) (by omega)
    | false => simp

theorem walk_eq_lowestFree (rng : Prefix) (reserved occupied : List Addr)
    (cv : List Prefix) (enough : rng.size < fuel) :
    walk rng (fun ip => (ip == rng.network || reserved.contains ip ||
        occupied.contains ip) || inAnyCarve ip cv) fuel (some rng.network) =
      some (lowestFree rng reserved occupied cv) := by
  have init : position rng 0 = some rng.network :=
    if_pos (Prefix.lt_of_contains rng.contains_network)
  rw [← init, walk_from rng.size 0 fuel (Nat.zero_add _) enough]
  unfold lowestFree Prefix.addresses
  rw [range_eq_range']
  simp only [Bool.not_or]

end

structure Free (reserved : List Addr) (allocations : Allocations)
    (blocks : Blocks) (block : Netblock) (ip : Addr) : Prop where
  inside : block.range.contains ip = true
  notNetwork : ip ≠ block.range.network
  unreserved : ip ∉ reserved
  unoccupied : ∀ row ∈ allocations.rows, row.ip ≠ ip
  apart : block.kind = .default → ∀ other ∈ blocks.rows, other ≠ block →
    other.range.contains ip = false

def Purged (before after : Allocations) (time : Int) : Prop :=
  ∀ row, row ∈ after.rows ↔ row ∈ before.rows ∧
    ¬(row.state = .quarantined ∧ row.quarantineUntil ≤ time)

/-- The block and the table after a number of doublings, each of which was made
no later than `finish` and when the block had no free address. -/
inductive Doublings (r : Registry) (a : Consumer.Allocator)
    (allocations : Allocations) (finish : Int) :
    Netblock → Blocks → Int → Nat → Netblock → Blocks → Prop where
  | none {block : Netblock} {blocks : Blocks} {since : Int} :
      Doublings r a allocations finish block blocks since 0 block blocks
  | double {block last : Netblock} {blocks final : Blocks} {since time : Int} {count : Nat} :
      (∀ ip, ¬Free a.reserved allocations blocks block ip) → a.grower = true →
      since ≤ time → time ≤ finish →
      Doubles r blocks (allocations.liveAddrs time) block →
      Doublings r a allocations finish
        (Blocks.recut (parentOf block.range) none block)
        (blocks.setCIDR block.name block.range (parentOf block.range) none) time count last final →
      Doublings r a allocations finish block blocks since (count + 1) last final

/-- The row of the lowest free address, or a refusal at a time when none was
free and the block could not double. -/
inductive Fits (r : Registry) (a : Consumer.Allocator) (method : String)
    (allocations : Allocations) (block : Netblock) (blocks : Blocks)
    (since finish : Int) :
    Except Consumer.AllocateError Addr → Allocations → Prop where
  | leased {ip : Addr} {row : Allocation} {after : Allocations} :
      Free a.reserved allocations blocks block ip →
      (∀ other, Free a.reserved allocations blocks block other → ip ≤ other) →
      after.rows = allocations.rows ++ [row] → row.ip = ip → row.state = .allocated →
      row.netblockID = block.id → row.method = method →
      Fits r a method allocations block blocks since finish (.ok ip) after
  | exhausted {time : Int} :
      (∀ ip, ¬Free a.reserved allocations blocks block ip) →
      since ≤ time → time ≤ finish →
      (a.grower = true → ¬Doubles r blocks (allocations.liveAddrs time) block) →
      Fits r a method allocations block blocks since finish
        (.error .poolExhausted) allocations

section

variable {r : Registry} {a : Consumer.Allocator} {l : Lease}
  {blk : Netblock} {allocs fin : Allocations} {bs final : Blocks}
  {since : Int} {ip : Addr}

theorem purged_purgeExpired (allocs : Allocations) (t : Int) :
    Purged allocs (allocs.purgeExpired t) t := by
  intro row
  simp only [Allocations.purgeExpired, Table.keep, mem_filter,
    Bool.not_eq_true', ← Bool.not_eq_true, Bool.and_eq_true, beq_iff_eq, decide_eq_true_eq]

def Apart (blocks : Blocks) (block : Netblock) : Prop :=
  block.kind = .default → ∀ other ∈ blocks.rows, other ≠ block →
    block.range.overlaps other.range = false

theorem usable_iff_free (norm : blk.kind ≠ .reserved)
    (had : bs.table.find blk.name = some blk) (off : Apart bs blk) :
    Usable blk.range a.reserved (allocs.rows.map (·.ip)) (skipped bs blk) ip ↔
      Free a.reserved allocs bs blk ip := by
  constructor
  · rintro ⟨lies, notNet, left, fr, _⟩
    refine ⟨lies, notNet, left, ?_, ?_⟩
    · intro row mem eq
      exact fr (mem_map.mpr ⟨row, mem, eq⟩)
    · intro isDefault alt mem ne
      exact overlaps_eq_false.mp (off isDefault alt mem ne) ip lies
  · rintro ⟨lies, notNet, left, fr, out⟩
    refine ⟨lies, notNet, left, ?_, ?_⟩
    · intro occupied
      obtain ⟨row, mem, eq⟩ := mem_map.mp occupied
      exact fr row mem eq
    · intro carve mem
      unfold skipped at mem
      split at mem
      · cases mem
      · rename_i unnamed
        have isDefault : blk.kind = .default := by
          cases k : blk.kind with
          | reserved => exact absurd k norm
          | default => rfl
          | named => exact absurd k unnamed
        obtain ⟨carved, _⟩ := mem_filter.mp mem
        obtain ⟨alt, filtered, rfl⟩ := mem_map.mp carved
        obtain ⟨has, k⟩ := mem_filter.mp filtered
        refine out isDefault alt ((Blocks.mem_listed _).mp has) ?_
        rintro rfl
        simp [isDefault] at k

theorem Scan.free (norm : blk.kind ≠ .reserved)
    (had : bs.table.find blk.name = some blk) (ne : Apart bs blk)
    (scan : Scan True a.reserved allocs bs blk hit) :
    match hit with
    | some ip => Free a.reserved allocs bs blk ip ∧
        ∀ alt, Free a.reserved allocs bs blk alt → ip ≤ alt
    | none => ∀ ip, ¬Free a.reserved allocs bs blk ip := by
  obtain ⟨cv, skips, low⟩ := scan
  cases skips with
  | carves =>
    cases hit with
    | some ip => simpa only [usable_iff_free norm had ne] using lowestFree_eq_some.mp low
    | none => simpa only [usable_iff_free norm had ne] using lowestFree_eq_none.mp low
  | unread bad => exact absurd trivial bad

theorem Fill.fits (fill : Fill True r a l stop blk allocs bs since ans fin final)
    (usual : blk.kind ≠ .reserved) (had : bs.table.find blk.name = some blk)
    (ne : Apart bs blk) : ∃ count last t, since ≤ t ∧
      Doublings r a allocs stop blk bs since count last final ∧
      Fits r a l.method allocs last final t stop ans fin := by
  induction fill with
  | taken scan late _ put =>
    obtain ⟨fr, least⟩ := scan.free usual had ne
    exact ⟨0, _, _, le_rfl, .none, .leased fr least (Table.insert?_eq_some put).1 rfl rfl rfl rfl⟩
  | @grown blk allocs fin bs final since t ans scan wired late old twice _ induction =>
      have full := scan.free usual had ne
      have unaffected : Apart (bs.setCIDR blk.name blk.range (parentOf blk.range) none)
          (Blocks.recut (parentOf blk.range) none blk) := by
        intro isDefault
        have named : blk.kind = .default := isDefault
        rw [twice.named] at named
        cases named
      obtain ⟨count, last, past, ord, doublings, fits⟩ :=
        induction usual (twice.find had) unaffected
      exact ⟨count + 1, last, past, late.trans ord,
        .double full wired late old twice doublings, fits⟩
  | exhausted scan late old cannot =>
    exact ⟨0, _, _, le_rfl, .none, .exhausted (scan.free usual had ne) late old cannot⟩
  | broken bad => exact absurd trivial bad

end

theorem Targets.unique (fst : Targets True rs n l) (snd : Targets True rs n r) : l = r := by
  have eq : ∀ {one two : Netblock} {want : String}, Registry.lookup rs want = .ok one →
      Registry.lookup rs want = .ok two → one = two := by
    intro one two want hit anew
    rw [hit, Except.ok.injEq] at anew
    exact anew
  cases fst with
  | asked hit norm =>
    cases snd with
    | asked anew _ => exact eq hit anew
    | fallback anew held _ => exact absurd (eq hit anew ▸ held) norm
    | kept anew held _ => exact absurd (eq hit anew ▸ held) norm
  | fallback hit held foundDefault =>
    cases snd with
    | asked anew norm => exact absurd (eq hit anew ▸ held) norm
    | fallback _ _ againDefault => exact eq foundDefault againDefault
    | kept _ _ left =>
      rcases left with ⟨err, lacks⟩ | faulty
      · rw [foundDefault] at lacks
        cases lacks
      · exact absurd trivial faulty
  | kept hit held left =>
    cases snd with
    | asked anew norm => exact absurd (eq hit anew ▸ held) norm
    | fallback _ _ againDefault =>
      rcases left with ⟨err, lacks⟩ | faulty
      · rw [againDefault] at lacks
        cases lacks
      · exact absurd trivial faulty
    | kept anew _ _ => exact eq hit anew

/-- An Allocate that runs alone and without errors, for a name served from a
default or named block, removes exactly the quarantines whose window has passed;
then, after the fewest doublings of its block that make an address free, it adds
one row for the lowest free address, or it returns ErrPoolExhausted when no
address is free and the block cannot double.  The scan ends for every block.
However calls interleave, no two rows hold the same address. -/
theorem allocate_first_fit {config : Config} {env : Consumer.Env}
    {process : Nat} {world : World} {deviceName name method : String}
    {choices : Nat → Choice} {block : Netblock}
    (registry : (config.allocator process).resolver = .registry)
    (disjoint :
      ∀ left ∈ world.netblocks.rows, ∀ right ∈ world.netblocks.rows,
        left ≠ right → left.range.overlaps right.range = false)
    (fresh : FreshCache world process)
    (succeeds : ∀ index, (choices index).base.fault = .ok)
    (targets : Targets True world.netblocks.listed name block)
    (usual : block.kind ≠ .reserved) :
    let call :=
      (config.allocate process deviceName name method).run (execute env)
        choices world
    (∃ purged time count last later,
      world.now ≤ time ∧
      Purged world.store.allocations purged time ∧
      time ≤ later ∧
      time ≤ call.2.now ∧
      Doublings (config.registry process) (config.allocator process) purged
        call.2.now block world.netblocks time count last call.2.netblocks ∧
      Fits (config.registry process) (config.allocator process) method purged
        last call.2.netblocks later call.2.now call.1
        call.2.store.allocations) ∧
    (∀ (range : Prefix) (reserved occupied : List Addr)
        (carves : List Prefix) (fuel : Nat),
      range.size < fuel →
      walk range
          (fun ip => (ip == range.network || reserved.contains ip ||
            occupied.contains ip) || inAnyCarve ip carves)
          fuel (some range.network) =
        some (lowestFree range reserved occupied carves)) ∧
    ∀ finish, Reachable (system config env).step (State.quiet world) finish →
      (finish.world.store.allocations.rows.map (·.ip)).Nodup := by
  intro call
  refine ⟨?_, ?_, fun finish _ => finish.world.store.allocations.nodup⟩
  · have strict : Faultless (fun choice => choice.base.fault = .ok) = True :=
      eq_true fun _ success => success
    have ended := allocate_run env (fun choice => choice.base.fault = .ok)
      choices deviceName name method registry fresh succeeds
    rw [strict] at ended
    change AllocateEnd _ _ _ _ _ _ call.2 call.1 at ended
    generalize call = finished at ended ⊢
    obtain ⟨answer, after⟩ := finished
    cases ended with
    | @filled served deviceID time _ again later old fill =>
      obtain rfl := again.unique targets
      have member : served ∈ world.netblocks.rows :=
        (Blocks.mem_listed _).mp again.mem
      obtain ⟨count, last, ended, order, doublings, fits⟩ := fill.fits usual
        (Table.find_eq_some_iff.mpr ⟨member, rfl⟩) fun _ other present different =>
          disjoint served member other present different.symm
      exact ⟨_, time, count, last, ended, later, purged_purgeExpired _ time,
        order, old, doublings, fits⟩
    | unresolved missing =>
      obtain ⟨asked, found⟩ := targets.lookup
      rw [found] at missing
      cases missing
    | broken faulty => exact absurd trivial faulty
  · intro range reserved occupied carves fuel enough
    exact walk_eq_lowestFree range reserved occupied carves enough

namespace Example

def centralOnly : World where
  store := store
  netblocks :=
    { table :=
        ⟨[{ id := 1, name := "central", cidr := first, kind := .reserved }],
          nodup_singleton _⟩
      lastID := 1
      ascending := pairwise_singleton _ _
      bounded := fun row member => by rw [mem_singleton.mp member] }

end Example

open Example

/-- Without a default block a request for central is told that the pool is
exhausted while central has a free address, and a request for an unknown name
ends with the resolver's error. -/
theorem missing_default_refuses : (((config.allocate 0 "host" "central" "token").run
          (execute env) (fun _ => {}) centralOnly).1 = .error .poolExhausted ∧
      ∃ block ∈ centralOnly.netblocks.rows,
        Targets True centralOnly.netblocks.listed "central" block ∧
        Free (config.allocator 0).reserved centralOnly.store.allocations
          centralOnly.netblocks block firstAddr) ∧
    ∃ text, ((config.allocate 0 "host" "b" "token").run
        (execute env) (fun _ => {}) centralOnly).1 = .error (.resolver text) := by
  refine ⟨⟨by decide, _, mem_cons_self, ?_, ?_⟩, _, rfl⟩
  · exact .kept rfl rfl (.inl ⟨_, rfl⟩)
  · exact ⟨by decide, by decide, by decide, by rintro _ ⟨⟩, by rintro ⟨⟩⟩

namespace Example

def tight : World :=
  { carved (cidr 0 31) with
    store := { store with
      allocations := ⟨[{ ip := firstAddr }], nodup_singleton _⟩ } }

def tightCall : Except Consumer.AllocateError Addr × World :=
  (config.allocate 0 "host" "a" "token").run (execute env) (fun _ => {}) tight

end Example

theorem allocate_first_fit_tight :
    tightCall.1 = .ok 167772162 ∧
    ∃ block purged time count last later,
      tight.now ≤ time ∧
      Purged tight.store.allocations purged time ∧
      time ≤ later ∧
      time ≤ tightCall.2.now ∧
      Doublings (config.registry 0) (config.allocator 0) purged
        tightCall.2.now block tight.netblocks time count last
        tightCall.2.netblocks ∧
      Fits (config.registry 0) (config.allocator 0) "token" purged
        last tightCall.2.netblocks later tightCall.2.now tightCall.1
        tightCall.2.store.allocations :=
  ⟨by decide, _, (allocate_first_fit rfl (by decide) (by rintro _ ⟨⟩)
    (fun _ => rfl) (.asked rfl (by decide)) (by decide)).1⟩

end Harbor.Netblocks
