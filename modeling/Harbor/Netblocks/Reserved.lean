import Harbor.Netblocks.Provenance

/-!
# Reserved blocks and join sources

An allocation for a join source is to stay out of reserved blocks.  The guard is
made of three reads: the block of the requested name, `default` in place of a
reserved one, and the carves that a scan of an unnamed block skips.  A failed
second read keeps the reserved block, and a failed third skips nothing.
-/

namespace Harbor.Netblocks

open Library Library.Procedure Ipam List

/-- Some block of kind `reserved` contains the address. -/
def InReserved (blocks : Blocks) (ip : Addr) : Prop :=
  ∃ block ∈ blocks.rows, block.kind = .reserved ∧ block.range.contains ip = true

structure Offers (reserved : List Addr) (block : Netblock) (ip : Addr) : Prop where
  inside : block.range.contains ip = true
  notNetwork : ip ≠ block.range.network
  unreserved : ip ∉ reserved

section

variable {faultless : Prop} {r : Registry} {a : Consumer.Allocator}
  {l : Lease} {blk : Netblock} {allocations after : Allocations}
  {bs final : Blocks} {since : Int} {ip : Addr} {live : List Addr}

theorem inReserved_setCIDR (had : bs.table.find blk.name = some blk) (same : blk.kind = .named) :
    InReserved (bs.setCIDR blk.name old new desc) ip ↔
      InReserved bs ip := by
  have miss : ∀ row ∈ bs.rows, row.kind = .reserved → ¬Blocks.isBlock blk.name old row = true := by
    intro row mem kept hit
    simp only [Blocks.isBlock, Bool.and_eq_true, beq_iff_eq] at hit
    have eq : row = blk := bs.table.row_eq_of_key_eq mem (Table.find_eq_some_iff.mp had).1 hit.1
    rw [eq, same] at kept
    cases kept
  constructor
  · rintro ⟨row, mem, kept, lies⟩
    obtain ⟨earlier, has, rfl⟩ := Blocks.mem_setCIDR.mp mem
    have k : earlier.kind = .reserved := by
      split at kept <;> exact kept
    rw [if_neg (miss earlier has k)] at lies
    exact ⟨earlier, has, k, lies⟩
  · rintro ⟨row, mem, kept, lies⟩
    refine ⟨row, Blocks.mem_setCIDR.mpr ⟨row, mem, ?_⟩, kept, lies⟩
    rw [if_neg (miss row mem kept)]

theorem Scan.not_inReserved (scan : Scan faultless a.reserved allocations bs blk (some ip))
    (safe : Offers a.reserved blk ip →
      blk.kind = .named ∨ ¬faultless → ¬InReserved bs ip) : ¬InReserved bs ip := by
  obtain ⟨cv, skips, low⟩ := scan
  have fit := (lowestFree_eq_some.mp low).1
  have gives : Offers a.reserved blk ip := ⟨fit.inside, fit.notNetwork, fit.unreserved⟩
  cases skips with
  | carves =>
    by_cases same : blk.kind = .named
    · exact safe gives (.inl same)
    · rintro ⟨alt, mem, kept, lies⟩
      have carved : alt.range ∈ skipped bs blk := by
        unfold skipped Registry.carved
        rw [if_neg same, mem_filter, mem_map]
        refine ⟨⟨alt, ?_, rfl⟩, Prefix.overlaps_iff.mpr ⟨ip, fit.inside, lies⟩⟩
        rw [mem_filter]
        exact ⟨(Blocks.mem_listed _).mpr mem, by simp [kept]⟩
      have out := fit.uncarved alt.range carved
      rw [out] at lies
      cases lies
  | unread bad _ => exact safe gives (.inr bad)

theorem Doubles.offers (dup : Doubles r bs live blk)
    (had : bs.table.find blk.name = some blk) (offers : Offers a.reserved
      (Blocks.recut (parentOf blk.range) none blk) ip) :
    Offers a.reserved blk ip ∨ ¬InReserved bs ip := by
  obtain ⟨bud, sib, fr⟩ := dup.free
  have net : (parentOf blk.range).addr = blk.range.network := by
    rw [dup.lower]
    exact blk.cidr.masked_network.symm
  have rng : (Blocks.recut (parentOf blk.range) none blk).range =
      parentOf blk.range := parentOf_masked _
  obtain ⟨lies, notNet, left⟩ := offers
  rw [rng] at lies notNet
  rw [parentOf_network, net] at notNet
  rcases (contains_parentOf_iff net sib ip).mp lies with old | new
  · exact .inl ⟨old, notNet, left⟩
  · right
    rintro ⟨alt, mem, kept, contained⟩
    by_cases eq : alt.name = blk.name
    · have one : alt = blk := bs.table.row_eq_of_key_eq mem (Table.find_eq_some_iff.mp had).1 eq
      rw [one, dup.named] at kept
      cases kept
    · have out := (fr.vacant ip new).2 alt mem eq
      rw [out] at contained
      cases contained

theorem Fill.not_inReserved (fill : Fill faultless r a l finish blk allocations bs since
      (.ok ip) after final) (had : bs.table.find blk.name = some blk)
    (safe : ∀ ip, Offers a.reserved blk ip →
      blk.kind = .named ∨ ¬faultless → ¬InReserved bs ip) : ¬InReserved bs ip := by
  generalize told : (Except.ok ip : Except Consumer.AllocateError Addr) = ans at fill
  induction fill with
  | taken scan =>
    cases told
    exact scan.not_inReserved (safe _)
  | grown _ _ _ _ doubles _ ih =>
    intro kept
    refine ih (doubles.find had) ?_ told ((inReserved_setCIDR had doubles.named).mpr kept)
    intro alt gives named
    rw [inReserved_setCIDR had doubles.named]
    rcases doubles.offers had gives with old | added
    · exact safe alt old named
    · exact added
  | exhausted | broken => cases told

end

structure Tolerant (permits : Choice → Prop) : Prop where
  plain : permits {}
  evicting : permits { evicted := true }
  failing : ¬Faultless permits → permits { base := { fault := .failed } }

section

variable {env : Consumer.Env} {lets : Choice → Prop} {r : Registry}
  {a : Consumer.Allocator} {w : World}

def MayReturn (env : Consumer.Env) (permits : Choice → Prop) {Value : Type}
    (procedure : Run Value) (world : World) (value : Value) : Prop :=
  ∃ after, Outcome (execute env) permits procedure world value after ∧
    after.store.allocations = world.store.allocations ∧ after.netblocks = world.netblocks

theorem MayReturn.bind {V Other : Type} {p : Run V} {next : V → Run Other} {val : V} {alt : Other}
    (fst : MayReturn env lets p w val) (snd : ∀ mid : World,
      mid.store.allocations = w.store.allocations → mid.netblocks = w.netblocks →
      MayReturn env lets (next val) mid alt) : MayReturn env lets (p.bind next) w alt := by
  obtain ⟨mid, out, allocs, bs⟩ := fst
  obtain ⟨new, rest, rowsEq, sameNetblocks⟩ := snd mid allocs bs
  exact ⟨new, outcome_bind.mpr ⟨val, mid, out, rest⟩, rowsEq.trans allocs, sameNetblocks.trans bs⟩

theorem mayReturn_pure {V : Type} {val : V} : MayReturn env lets (pure val) w val :=
  ⟨w, outcome_done.mpr ⟨rfl, rfl⟩, rfl, rfl⟩

theorem mayReturn_send {s : Statement} (io : Choice) (may : lets io)
    (allocs : (execute env io w s).2.store.allocations =
      w.store.allocations) (bs : (execute env io w s).2.netblocks =
      w.netblocks) : MayReturn env lets (send s) w (execute env io w s).1 :=
  ⟨_, outcome_request.mpr ⟨io, may, rfl, rfl⟩, allocs, bs⟩

theorem readCache_may (lax : Tolerant lets) :
    ∃ gen, MayReturn env lets (send (.readCache r.process)) w (none, gen) := by
  have sent : MayReturn env lets (send (.readCache r.process)) w
      (execute env { evicted := true } w (.readCache r.process)).1 :=
    mayReturn_send _ lax.evicting rfl rfl
  refine ⟨w.generations r.process + 1, ?_⟩
  have evicted : (execute env { evicted := true } w (.readCache r.process)).1 =
      (none, w.generations r.process + 1) := by
    simp only [execute, perform, World.invalidate, World.tick, if_true, Function.update_self]
    rfl
  exact evicted ▸ sent

theorem list_may (lax : Tolerant lets) : MayReturn env lets Registry.list w
      (.ok w.netblocks.listed) :=
  MayReturn.bind (mayReturn_send {} lax.plain rfl rfl) fun _ _ _ => mayReturn_pure

theorem list_may_fail (lax : Tolerant lets) (bad : ¬Faultless lets) :
    MayReturn env lets Registry.list w (.error (.database "list" "")) :=
  MayReturn.bind (mayReturn_send { base := { fault := .failed } }
    (lax.failing bad) rfl rfl) fun _ _ _ => mayReturn_pure

theorem snapshot_may (lax : Tolerant lets) :
    MayReturn env lets r.snapshot w (.ok w.netblocks.listed) := by
  obtain ⟨gen, read⟩ := readCache_may (r := r) lax
  refine MayReturn.bind read fun cur _ bs => ?_
  rw [← bs]
  refine MayReturn.bind (list_may lax) fun mid _ _ => ?_
  refine MayReturn.bind (mayReturn_send {} lax.plain ?_ ?_) fun _ _ _ => mayReturn_pure
  · simp only [execute, perform, World.publish]
    split <;> rfl
  · simp only [execute, perform, World.publish]
    split <;> rfl

theorem snapshot_may_fail (lax : Tolerant lets) (bad : ¬Faultless lets) :
    MayReturn env lets r.snapshot w (.error (.database "list" "")) := by
  obtain ⟨gen, read⟩ := readCache_may (r := r) lax
  refine MayReturn.bind read fun cur _ _ => ?_
  exact MayReturn.bind (list_may_fail lax bad) fun _ _ _ => mayReturn_pure

theorem resolveFull_may (env : Consumer.Env) (r : Registry) (w : World)
    (lax : Tolerant lets) (n : String) : MayReturn env lets (r.expand (.resolveFull n)) w
      (told ((Registry.lookup w.netblocks.listed n).map (·.resolved))) :=
  MayReturn.bind (MayReturn.bind (snapshot_may lax)
    fun _ _ _ => mayReturn_pure) fun _ _ _ => mayReturn_pure

theorem resolveFull_may_fail (lax : Tolerant lets) (bad : ¬Faultless lets) (n : String) :
    MayReturn env lets (r.expand (.resolveFull n)) w
      (.error (RegistryError.database "list" "").message) :=
  MayReturn.bind (MayReturn.bind (snapshot_may_fail lax bad)
    fun _ _ _ => mayReturn_pure) fun _ _ _ => mayReturn_pure

theorem carves_may_fail (lax : Tolerant lets) (bad : ¬Faultless lets) :
    MayReturn env lets (r.expand .carves) w (.error (RegistryError.database "list" "").message) :=
  MayReturn.bind (MayReturn.bind (snapshot_may_fail lax bad)
    fun _ _ _ => mayReturn_pure) fun _ _ _ => mayReturn_pure

variable {name : String} {blk : Netblock}

theorem joinGuard_may (lax : Tolerant lets)
    {ask : Netblock} (has : List Netblock) (eq : w.netblocks.listed = has)
    (hit : Registry.lookup has name = .ok ask) (aims : Targets (Faultless lets) has name blk) :
    MayReturn env lets ((joinGuard ask.resolved).translate r.expand) w (.ok blk.resolved) := by
  have back := resolveFull_may env r w lax nameDefault
  unfold joinGuard
  cases aims with
  | asked saw norm =>
    rw [saw, Except.ok.injEq] at hit
    subst hit
    rw [if_neg (by simpa [Netblock.resolved] using norm)]
    exact mayReturn_pure
  | fallback saw held dflt =>
    rw [saw, Except.ok.injEq] at hit
    subst hit
    rw [if_pos (by simpa [Netblock.resolved] using held)]
    rw [eq, dflt] at back
    exact MayReturn.bind back fun _ _ _ => mayReturn_pure
  | kept saw held left =>
    rw [saw, Except.ok.injEq] at hit
    subst hit
    rw [if_pos (by simpa [Netblock.resolved] using held)]
    rcases left with ⟨err, dflt⟩ | faulty
    · rw [eq, dflt] at back
      exact MayReturn.bind back fun _ _ _ => mayReturn_pure
    · exact MayReturn.bind (resolveFull_may_fail lax faulty nameDefault) fun _ _ _ => mayReturn_pure

theorem Targets.lookup {good : Prop} {rs : List Netblock}
    (aims : Targets good rs name blk) : ∃ ask, Registry.lookup rs name = .ok ask := by
  cases aims with
  | asked hit | fallback hit | kept hit => exact ⟨_, hit⟩

theorem resolve_may (lax : Tolerant lets) (reg : a.resolver = .registry)
    (aims : Targets (Faultless lets) w.netblocks.listed name blk) :
    MayReturn env lets ((a.resolve name).translate r.expand) w (.ok blk.resolved) := by
  obtain ⟨ask, hit⟩ := aims.lookup
  have read := resolveFull_may env r w lax name
  rw [hit] at read
  rw [resolve_registry reg]
  refine MayReturn.bind read fun mid _ bs => ?_
  exact joinGuard_may lax w.netblocks.listed (by rw [bs]) hit aims

theorem skippedCarves_may (lax : Tolerant lets)
    (exposed : blk.kind = .named ∨ ¬Faultless lets) : MayReturn env lets
      ((a.skippedCarves blk.resolved).translate r.expand) w [] := by
  unfold Consumer.Allocator.skippedCarves
  split
  · rename_i unnamed
    have bad : ¬Faultless lets := by
      refine exposed.resolve_left fun same => ?_
      simp [Netblock.resolved, same] at unnamed
    exact MayReturn.bind (carves_may_fail lax bad) fun _ _ _ => mayReturn_pure
  · exact mayReturn_pure

variable {ip : Addr}

theorem firstFree_may (lax : Tolerant lets)
    (exposed : blk.kind = .named ∨ ¬Faultless lets) (low : lowestFree blk.range a.reserved
      (w.store.allocations.rows.map (·.ip)) [] = some ip) :
    MayReturn env lets ((a.firstFree blk.resolved).translate r.expand) w (.ok ip) := by
  have plucked : MayReturn env lets (r.expand .pluckAllocations) w
      (.ok (w.store.allocations.rows.map (·.ip))) :=
    mayReturn_send {} lax.plain rfl rfl
  unfold Consumer.Allocator.firstFree
  refine MayReturn.bind plucked fun mid _ _ => ?_
  show MayReturn env lets (Procedure.translate r.expand (a.skippedCarves blk.resolved >>= _)) mid _
  rw [translate_bind]
  refine MayReturn.bind (skippedCarves_may lax exposed) fun cur _ _ => ?_
  have fr : lowestFree blk.resolved.cidr a.reserved
      (w.store.allocations.rows.map (·.ip)) [] = some ip := low
  rw [fr]
  exact mayReturn_pure

theorem create_may (env : Consumer.Env) (r : Registry) (w : World)
    (lax : Tolerant lets) (row : Allocation) (fr : row.ip ∉ w.store.allocations.rows.map (·.ip)) :
    ∃ new, Outcome (execute env) lets (r.expand (.createAllocation row)) w (.ok ()) new := by
  obtain ⟨put, insert⟩ := Table.exists_insert? w.store.allocations row fr
  refine ⟨_, outcome_request.mpr ⟨{}, lax.plain, ?_, rfl⟩⟩
  simp only [execute, perform, Consumer.execute,
    Consumer.World.createAllocation, World.tick, insert]
  rfl

theorem loop_may (env : Consumer.Env) (r : Registry) (w : World) (tolerant : Tolerant lets)
    (deviceID : Int) (verb : String) (tries : Nat)
    (exposed : blk.kind = .named ∨ ¬Faultless lets) (low : lowestFree blk.range a.reserved
      (w.store.allocations.rows.map (·.ip)) [] = some ip) :
    ∃ post, Outcome (execute env) lets ((a.allocateLoop deviceID verb (tries + 1)
        blk.resolved).translate r.expand) w (.ok ip) post := by
  have scanned : MayReturn env lets ((a.firstFree blk.resolved).translate r.expand) w (.ok ip) :=
    firstFree_may tolerant exposed low
  obtain ⟨mid, fst, allocs, _⟩ := scanned
  have free : ip ∉ mid.store.allocations.rows.map (·.ip) := by
    rw [allocs]
    exact (lowestFree_eq_some.mp low).1.unoccupied
  obtain ⟨post, made⟩ := create_may env r (mid.tick {}) tolerant
    { ip := ip
      deviceID := deviceID
      state := .allocated
      allocatedAt := (mid.tick {}).now
      netblockID := blk.id
      method := verb } free
  refine ⟨post, outcome_translate_then.mpr ⟨_, mid, fst, ?_⟩⟩
  refine outcome_translate_send.mpr ⟨(mid.tick {}).now, mid.tick {},
    outcome_request.mpr ⟨{}, tolerant.plain, rfl, rfl⟩, ?_⟩
  exact outcome_translate_send.mpr ⟨_, post, made, outcome_done.mpr ⟨rfl, rfl⟩⟩

theorem device_may (env : Consumer.Env) (r : Registry) (w : World)
    (lax : Tolerant lets) (name : String) (made : Int) :
    ∃ dev, MayReturn env lets (r.expand (.firstOrCreateDevice name made)) w (.ok dev) := by
  obtain ⟨dev, devs, eq⟩ := device_settles env { now := (w.tick {}).now } w.store name made
  refine ⟨dev, { w.tick {} with
    store := { w.store with devices := devs } },
    outcome_request.mpr ⟨{}, lax.plain, ?_, ?_⟩, rfl, rfl⟩
  · exact (congrArg Prod.fst eq).symm
  · have db := congrArg Prod.snd eq
    show _ = { w.tick {} with store := (Consumer.execute env
      { now := (w.tick {}).now } w.store
      (.firstOrCreateDevice name made)).2 }
    rw [db]
    rfl

theorem purge_may (lax : Tolerant lets)
    (unpurged : ∀ now, w.store.allocations.purgeExpired now = w.store.allocations) :
    MayReturn env lets (r.expand .purgeExpiredQuarantine) w (.ok ()) :=
  mayReturn_send {} lax.plain (unpurged _) rfl

theorem allocate_may (env : Consumer.Env) (w : World) (lax : Tolerant lets)
    {cfg : Config} {p : Nat} (deviceName verb : String)
        (reg : (cfg.allocator p).resolver = .registry)
    (aims : Targets (Faultless lets) w.netblocks.listed name blk)
    (exposed : blk.kind = .named ∨ ¬Faultless lets)
    (unpurged : ∀ now, w.store.allocations.purgeExpired now = w.store.allocations)
    (low : lowestFree blk.range (cfg.allocator p).reserved
      (w.store.allocations.rows.map (·.ip)) [] = some ip) : ∃ new, Outcome (execute env) lets
      (cfg.allocate p deviceName name verb) w (.ok ip)
      new := by
  have resolved : MayReturn env lets (((cfg.allocator p).resolve name).translate
        (cfg.registry p).expand) w (.ok blk.resolved) :=
    resolve_may lax reg aims
  obtain ⟨cur, fst, allocs, _⟩ := resolved
  obtain ⟨dev, housed, trd, rowsEq, _⟩ :=
    device_may env (cfg.registry p) (cur.tick {}) lax deviceName (cur.tick {}).now
  have kept : housed.store.allocations = w.store.allocations := rowsEq.trans allocs
  have purged : MayReturn env lets
      ((cfg.registry p).expand .purgeExpiredQuarantine) housed (.ok ()) := by
    refine purge_may lax ?_
    rw [kept]
    exact unpurged
  obtain ⟨last, fourth, lastAllocations, _⟩ := purged
  obtain ⟨new, looped⟩ := loop_may env (cfg.registry p) last lax dev.id verb 99 exposed (by
      rw [lastAllocations, kept]
      exact low)
  refine ⟨new, outcome_translate_then.mpr ⟨_, cur, fst, ?_⟩⟩
  refine outcome_translate_send.mpr ⟨(cur.tick {}).now, cur.tick {},
    outcome_request.mpr ⟨{}, lax.plain, rfl, rfl⟩, ?_⟩
  refine outcome_translate_send.mpr ⟨_, housed, trd, ?_⟩
  exact outcome_translate_send.mpr ⟨_, last, fourth, looped⟩

end

section

variable {kept : List Addr} {blk : Netblock} {ip : Addr}

def crowded (block : Netblock) (ip : Addr) : Allocations where
  rows := (block.range.addresses.filter fun other => other != ip).map fun other => { ip := other }
  nodup := by
    rw [List.map_map]
    refine List.Nodup.map (fun _ _ same => same) (List.Nodup.filter _ ?_)
    exact List.Nodup.map (fun _ _ same => Nat.add_left_cancel same) List.nodup_range

def crowdedWorld (blocks : Blocks) (block : Netblock) (ip : Addr) : World where
  store := { Example.store with allocations := crowded block ip }
  netblocks := blocks

theorem mem_crowded : alt ∈ (crowded blk ip).rows.map (·.ip) ↔
      blk.range.contains alt = true ∧ alt ≠ ip := by
  simp [crowded, mem_addresses]

theorem crowded_purgeExpired (now : Int) : (crowded blk ip).purgeExpired now = crowded blk ip := by
  have all : ∀ row ∈ (crowded blk ip).rows, row.state = .allocated := by
    intro row mem
    obtain ⟨_, _, rfl⟩ := mem_map.mp mem
    rfl
  unfold Allocations.purgeExpired Table.keep
  congr 1
  refine filter_eq_self.mpr ?_
  intro row mem
  simp [all row mem]

theorem lowestFree_crowded (gives : Offers kept blk ip) :
    lowestFree blk.range kept ((crowded blk ip).rows.map (·.ip)) [] =
      some ip := by
  rw [lowestFree_eq_some]
  refine ⟨⟨gives.inside, gives.notNetwork, gives.unreserved, ?_, ?_⟩, ?_⟩
  · rw [mem_crowded]
    exact fun ran => ran.2 rfl
  · rintro _ ⟨⟩
  · intro alt fit
    have eq : alt = ip := by
      by_contra ne
      exact fit.unoccupied (mem_crowded.mpr ⟨fit.inside, ne⟩)
    exact eq.ge

end

/-- Which tables and names keep join sources out of reserved blocks.  When
resolver reads can fail (`faulty`), every block the name can end up with must
offer no address of a reserved block; when they cannot, only a named block must
not. -/
theorem reserved_blocks_kept_iff {config : Config} {env : Consumer.Env} {process : Nat}
    (registry : (config.allocator process).resolver = .registry)
    (blocks : Blocks) (name : String) (faulty : Bool) :
    (∀ (world : World) (deviceName method : String) (choices : Nat → Choice) (ip : Addr),
      world.netblocks = blocks → FreshCache world process →
      (faulty = false → ∀ index, (choices index).base.fault = .ok) →
      ((config.allocate process deviceName name method).run (execute env)
        choices world).1 = .ok ip → ¬InReserved blocks ip) ↔
    ∀ block ip, Targets (faulty = false) blocks.listed name block →
      Offers (config.allocator process).reserved block ip → block.kind = .named ∨ faulty = true →
      ¬InReserved blocks ip := by
  let permits : Choice → Prop := fun choice =>
    faulty = false → choice.base.fault = .ok
  have faultless : Faultless permits = (faulty = false) := by
    refine propext ⟨?_, fun strict choice permitted => permitted strict⟩
    intro all
    by_contra loose
    have failed := all { base := { fault := .failed } } fun strict => absurd strict loose
    cases failed
  have tolerant : Tolerant permits := by
    refine ⟨fun _ => rfl, fun _ => rfl, ?_⟩
    rw [faultless]
    exact fun loose strict => absurd strict loose
  have exposed : ∀ block : Netblock, block.kind = .named ∨ faulty = true ↔
      block.kind = .named ∨ ¬faulty = false := by
    intro block
    rw [Bool.not_eq_false]
  constructor
  · intro safe block ip targets offers exposure inReserved
    rw [exposed block, ← faultless] at exposure
    rw [← faultless] at targets
    obtain ⟨after, outcome⟩ := allocate_may env (crowdedWorld blocks block ip)
      tolerant "" "" registry targets exposure crowded_purgeExpired (lowestFree_crowded offers)
    obtain ⟨choices, permitted, ran⟩ := run_of_outcome outcome tolerant.plain
    refine safe (crowdedWorld blocks block ip) "" "" choices ip rfl
      (by rintro _ ⟨⟩) (fun strict index => permitted index strict) ?_ inReserved
    rw [ran]
  · rintro shielded world deviceName method choices ip rfl fresh reads returned
    have ended := allocate_run env permits choices deviceName name method
      registry fresh fun index strict => reads strict index
    rw [returned, faultless] at ended
    cases ended with
    | filled targets _ _ fill =>
      refine fill.not_inReserved (Table.find_eq_some_iff.mpr
        ⟨(Blocks.mem_listed _).mp targets.mem, rfl⟩) ?_
      intro other offers exposure
      exact shielded _ other targets offers ((exposed _).mpr exposure)

instance (blocks : Blocks) : DecidablePred (InReserved blocks) :=
  fun _ => inferInstanceAs (Decidable (∃ block ∈ blocks.rows, _ ∧ _))

namespace Example

def genesis : World where
  store := store
  netblocks :=
    { table :=
        { rows :=
            [{ id := 1, name := "central", cidr := first, kind := .reserved },
              { id := 2, name := "default", cidr := second,
                kind := .default }]
          nodup := by decide }
      lastID := 2
      ascending := by decide
      bounded := by decide }

/-- The first read of the resolver succeeds; before the read of default and
before that of the carves another mutation evicts the cache, and both reads
fail. -/
def brokenReads (index : Nat) : Choice :=
  if index = 3 ∨ index = 9 then { evicted := true }
  else if index = 4 ∨ index = 10 then { base := { fault := .failed } }
  else {}

end Example

open Example

/-- With disjoint blocks and two failed reads a join source bound to central
gets an address of central. -/
theorem broken_reads_leak_central : ((config.allocate 0 "host" "central" "token").run
        (execute env) brokenReads genesis).1 = .ok firstAddr ∧
    InReserved genesis.netblocks firstAddr := by
  decide

theorem reserved_blocks_kept_genesis : (config.allocator 0).resolver = .registry ∧
      ∀ (world : World) (deviceName method : String) (choices : Nat → Choice) (ip : Addr),
        world.netblocks = genesis.netblocks → FreshCache world 0 →
        (false = false → ∀ index, (choices index).base.fault = .ok) →
        ((config.allocate 0 deviceName "central" method).run
          (execute env) choices world).1 = .ok ip → ¬InReserved genesis.netblocks ip := by
  refine ⟨rfl, (reserved_blocks_kept_iff rfl genesis.netblocks "central" false).mpr ?_⟩
  intro block ip targets _ exposed
  have unnamed : ∀ row ∈ genesis.netblocks.listed, row.kind ≠ .named := by
    decide
  rcases exposed with named | faulty
  · exact absurd named (unnamed block targets.mem)
  · cases faulty

end Harbor.Netblocks
