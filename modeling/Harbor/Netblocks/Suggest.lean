import Harbor.Netblocks.Alone

/-!
# Placing a new netblock

`Suggest` looks for the start of a free growth envelope, then for the partial
envelope with the most free slots, then for ever smaller envelopes.  Whatever
the search falls back to, the answer is a free slot, and there is an answer
whenever a free slot exists.
-/

namespace Harbor.Netblocks.Suggest

open Ipam Library.Procedure List Int

def marginBits : Nat := 3

def envelopeFloor : Nat := 24

inductive Error where
  | badPrefixLen
  | poolFull
deriving DecidableEq, Repr

/-- `PrefixFrom(…).Masked()`. -/
def place (bits : Nat) (short : bits ≤ 32) (range : Prefix) : Prefix :=
  Prefix.masked ⟨range.addr, bits, range.addr_lt, short⟩

/-- `none` when the address space wraps. -/
def nextSlot (p : Prefix) : Option Prefix :=
  let v := (p.network + p.size) % 2 ^ 32
  if v < p.network then none else some ⟨v, p.bits, Nat.mod_lt _ (by decide), p.bits_le⟩

def slotsFrom : Nat → Prefix → List Prefix
  | 0, _ => []
  | count + 1, cur =>
    cur :: match nextSlot cur with
      | none => []
      | some next => slotsFrom count next

def slots (pool : Prefix) (bits : Nat) : List Prefix :=
  if within : pool.bits ≤ bits ∧ bits ≤ 32 then
    slotsFrom (2 ^ (bits - pool.bits)) (place bits within.2 pool)
  else []

section

variable (reserved : List Addr) (carves : List Prefix)

def rangeClear (rng : Prefix) : Bool :=
  !reserved.any rng.contains && !carves.any rng.overlaps

/-- The lowest free slot and the number of free slots. -/
def freeSlotsIn (env : Prefix) (bits : Nat) : Option Prefix × Nat :=
  let free := (slots env bits).filter (rangeClear reserved carves)
  (free.head?, free.length)

/-- The partial envelope with the most free slots; the first of several wins. -/
def worstFit (envs : List Prefix) (bits : Nat) : Option Prefix :=
  let best := envs.foldl (fun best env =>
    let found := freeSlotsIn reserved carves env bits
    if best.2 < (found.2 : Int) then (found.1, (found.2 : Int)) else best) (none, -1)
  if 0 < best.2 then best.1 else none

/-- The four steps of the search in a masked pool. -/
def search (bits : Nat) (short : bits ≤ 32) (pool : Prefix) : Option Prefix :=
  let e := min bits (max (max envelopeFloor pool.bits) (bits - marginBits))
  let clear := rangeClear reserved carves
  (((slots pool e).find? clear).map (place bits short)).or <|
  (worstFit reserved carves (slots pool e) bits).or <|
  (((range' (e + 1) (bits - e)).findSome? fun e => (slots pool e).find? clear).map
    (place bits short)).or <|
  (slots pool bits).find? clear

def suggest (reqPrefixLen : Int) (pool : Prefix) : Except Error Prefix :=
  if within : (pool.bits : Int) ≤ reqPrefixLen ∧ reqPrefixLen ≤ 32 then
    match search reserved carves reqPrefixLen.toNat (toNat_le.mpr within.2) pool.masked with
    | some p => .ok p
    | none => .error .poolFull
  else .error .badPrefixLen

end

/-- A slot of this length for a new block. -/
structure Placement (pool : Prefix) (reserved : List Addr) (carves : List Prefix) (bits : Int)
    (p : Prefix) : Prop where
  bits : (p.bits : Int) = bits
  aligned : p.masked = p
  inside : prefixInside p pool = true
  unreserved : ∀ ip ∈ reserved, p.contains ip = false
  apart : ∀ carve ∈ carves, ∀ ip, p.contains ip = true → carve.contains ip = false

section

variable {pool cur p : Prefix} {bits : Nat}

theorem eq_iff : p = cur ↔ p.addr = cur.addr ∧ p.bits = cur.bits := by
  cases p
  cases cur
  simp

theorem masked_eq_iff : p.masked = p ↔ p.size ∣ p.addr := by
  constructor
  · intro aligned
    rw [← aligned]
    exact Nat.dvd_mul_left _ _
  · intro divides
    exact eq_iff.mpr ⟨Nat.div_mul_cancel divides, rfl⟩

theorem nextSlot_eq (aligned : cur.size ∣ cur.addr) (fits : cur.addr + cur.size < 2 ^ 32) :
    nextSlot cur = some ⟨cur.addr + cur.size, cur.bits, fits, cur.bits_le⟩ := by
  have network : cur.network = cur.addr := Nat.div_mul_cancel aligned
  simp only [nextSlot, network, Nat.mod_eq_of_lt fits]
  exact if_neg (Nat.not_lt.mpr (Nat.le_add_right _ _))

theorem mem_slotsFrom {count : Nat} (aligned : cur.size ∣ cur.addr)
    (fits : cur.addr + count * cur.size ≤ 2 ^ 32) : p ∈ slotsFrom count cur ↔
      p.bits = cur.bits ∧ ∃ i < count, p.addr = cur.addr + i * cur.size := by
  induction count generalizing cur with
  | zero => simp [slotsFrom]
  | succ count ih =>
    have shift : ∀ i, cur.addr + (i + 1) * cur.size = cur.addr + cur.size + i * cur.size := by
      intro i
      rw [Nat.succ_mul, Nat.add_comm (i * _), Nat.add_assoc]
    rw [slotsFrom, mem_cons, eq_iff, Nat.exists_lt_succ_left]
    simp only [Nat.zero_mul, Nat.add_zero, shift]
    cases count with
    | zero => cases nextSlot cur <;> simp [slotsFrom, and_comm]
    | succ count =>
      rw [shift] at fits
      have pos : 0 < (count + 1) * cur.size := Nat.mul_pos (Nat.succ_pos _) cur.size_pos
      have below : cur.addr + cur.size < 2 ^ 32 :=
        Nat.lt_of_lt_of_le (Nat.lt_add_of_pos_right pos) fits
      rw [nextSlot_eq aligned below]
      have more := @ih ⟨cur.addr + cur.size, cur.bits, below, cur.bits_le⟩
        (Nat.dvd_add aligned (Nat.dvd_refl _)) fits
      rw [more]
      tauto

theorem exists_multiple_iff {a m size count : Nat} (pos : 0 < size) (divides : size ∣ a) :
    (∃ i < count, m = a + i * size) ↔ size ∣ m ∧ a ≤ m ∧ m < a + count * size := by
  constructor
  · rintro ⟨i, below, rfl⟩
    exact ⟨Nat.dvd_add divides (Nat.dvd_mul_left _ _), Nat.le_add_right _ _,
      Nat.add_lt_add_left (Nat.mul_lt_mul_of_pos_right below pos) _⟩
  · rintro ⟨slot, low, high⟩
    obtain ⟨i, here⟩ := Nat.dvd_sub slot divides
    have eq : m = a + i * size := by
      rw [Nat.mul_comm, ← here, Nat.add_sub_of_le low]
    exact ⟨i, Nat.lt_of_mul_lt_mul_right (Nat.lt_of_add_lt_add_left (eq ▸ high)), eq⟩

/-- The slots are the aligned prefixes of that length inside the pool. -/
theorem mem_slots (aligned : pool.masked = pool) (within : pool.bits ≤ bits ∧ bits ≤ 32) :
    p ∈ slots pool bits ↔ p.bits = bits ∧ p.masked = p ∧ prefixInside p pool = true := by
  have start : pool.size ∣ pool.addr := masked_eq_iff.mp aligned
  have network : pool.network = pool.addr := Nat.div_mul_cancel start
  have divides : 2 ^ (32 - bits) ∣ pool.addr :=
    (Nat.pow_dvd_pow 2 (Nat.sub_le_sub_left within.1 32)).trans start
  have first : (place bits within.2 pool).addr = pool.addr := Nat.div_mul_cancel divides
  have step : (place bits within.2 pool).size = 2 ^ (32 - bits) := rfl
  have total : 2 ^ (bits - pool.bits) * 2 ^ (32 - bits) = pool.size := by
    rw [← Nat.pow_add, Prefix.size]
    congr 1
    omega
  rw [slots, dif_pos within, mem_slotsFrom, first, step,
    exists_multiple_iff (Nat.two_pow_pos _) divides, total]
  · refine and_congr_right fun same => ?_
    change p.bits = bits at same
    subst same
    rw [masked_eq_iff]
    refine and_congr_right fun slot => ?_
    have own : p.network = p.addr := Nat.div_mul_cancel slot
    simp [prefixInside, Prefix.contains_iff, network, own, within.1]
  · exact first ▸ divides
  · rw [first, step, total, ← network]
    exact pool.network_add_size_le

end

section

variable {pool env p : Prefix} {reserved : List Addr} {carves : List Prefix} {bits e : Nat}

theorem rangeClear_iff : rangeClear reserved carves p = true ↔
      (∀ ip ∈ reserved, p.contains ip = false) ∧
        ∀ carve ∈ carves, ∀ ip, p.contains ip = true → carve.contains ip = false := by
  simp only [rangeClear, Bool.and_eq_true, Bool.not_eq_true', any_eq_false, Bool.not_eq_true,
    Prefix.overlaps_iff, not_exists, not_and]

theorem inside_of_contains (inside : prefixInside env pool = true) {ip : Addr}
    (lies : env.contains ip = true) : pool.contains ip = true := by
  simp only [prefixInside, Bool.and_eq_true, decide_eq_true_eq] at inside
  exact Prefix.contains_of_common inside.1 inside.2 env.contains_network lies

theorem prefixInside_trans (inner : prefixInside p env = true)
    (outer : prefixInside env pool = true) : prefixInside p pool = true := by
  have lies := inside_of_contains outer (inside_of_contains inner p.contains_network)
  simp only [prefixInside, Bool.and_eq_true, decide_eq_true_eq] at inner outer ⊢
  exact ⟨outer.1.trans inner.1, lies⟩

theorem prefixInside_masked : prefixInside p pool.masked = prefixInside p pool := by
  rw [prefixInside, prefixInside, Prefix.masked_contains]
  rfl

theorem placement_of_clear (aligned : p.masked = p) (inside : prefixInside p pool = true)
    (clear : rangeClear reserved carves p = true) : Placement pool reserved carves p.bits p := by
  obtain ⟨unreserved, apart⟩ := rangeClear_iff.mp clear
  exact ⟨rfl, aligned, inside, unreserved, apart⟩

/-- The start of a clear envelope is a clear slot. -/
theorem placement_of_envelope (short : bits ≤ 32) (finer : env.bits ≤ bits)
    (inside : prefixInside env pool = true) (clear : rangeClear reserved carves env = true) :
    Placement pool reserved carves bits (place bits short env) := by
  have within : ∀ ip, (place bits short env).contains ip = true → env.contains ip = true := by
    intro ip lies
    refine Prefix.contains_of_common finer env.contains_addr ?_ lies
    rw [place, Prefix.masked_contains]
    exact Prefix.contains_addr _
  have inner : prefixInside (place bits short env) env = true := by
    simp only [prefixInside, Bool.and_eq_true, decide_eq_true_eq]
    exact ⟨finer, within _ (Prefix.contains_network _)⟩
  obtain ⟨unreserved, apart⟩ := rangeClear_iff.mp clear
  refine ⟨rfl, Prefix.masked_masked _, prefixInside_trans inner inside, ?_,
    fun carve mem ip lies => apart carve mem ip (within ip lies)⟩
  intro ip mem
  rw [← Bool.not_eq_true]
  intro lies
  exact absurd (within ip lies) (by simp [unreserved ip mem])

theorem worstFit_some {envs : List Prefix} (found : worstFit reserved carves envs bits = some p) :
    ∃ env ∈ envs, p ∈ slots env bits ∧ rangeClear reserved carves p = true := by
  unfold worstFit at found
  dsimp only at found
  split_ifs at found
  revert found
  refine foldlRecOn (motive := fun best : Option Prefix × Int => best.1 = some p →
    ∃ env ∈ envs, p ∈ slots env bits ∧ rangeClear reserved carves p = true) envs _ ?_ ?_
  · intro none
    cases none
  · intro best known env mem found
    split_ifs at found
    · exact ⟨env, mem, mem_filter.mp (mem_of_mem_head? found)⟩
    · exact known found

theorem mem_slots_masked (short : e ≤ 32) (mem : env ∈ slots pool.masked e) :
    env.bits = e ∧ env.masked = env ∧ prefixInside env pool = true := by
  have coarse : pool.masked.bits ≤ e := by
    by_contra less
    rw [slots, dif_neg fun both => less both.1] at mem
    cases mem
  have slot := (mem_slots pool.masked_masked ⟨coarse, short⟩).mp mem
  rwa [prefixInside_masked] at slot

theorem search_some {short : bits ≤ 32}
    (found : search reserved carves bits short pool.masked = some p) :
    Placement pool reserved carves bits p := by
  have starts : ∀ e ≤ bits, ∀ env,
      (slots pool.masked e).find? (rangeClear reserved carves) = some env →
      Placement pool reserved carves bits (place bits short env) := by
    intro e finer env hit
    obtain ⟨rfl, -, inside⟩ := mem_slots_masked (finer.trans short) (mem_of_find?_eq_some hit)
    exact placement_of_envelope short finer inside (find?_some hit)
  simp only [search, Option.or_eq_some_iff, Option.map_eq_some_iff] at found
  rcases found with ⟨env, hit, rfl⟩ | ⟨-, packed | ⟨-, ⟨env, hit, rfl⟩ | ⟨-, hit⟩⟩⟩
  · exact starts _ (Nat.min_le_left _ _) env hit
  · obtain ⟨env, outer, inner, clear⟩ := worstFit_some packed
    obtain ⟨same, aligned, inside⟩ := mem_slots_masked ((Nat.min_le_left _ _).trans short) outer
    have wide : env.bits ≤ bits := same ▸ Nat.min_le_left _ _
    obtain ⟨rfl, own, within⟩ := (mem_slots aligned ⟨wide, short⟩).mp inner
    exact placement_of_clear own (prefixInside_trans within inside) clear
  · obtain ⟨e, between, hit⟩ := exists_of_findSome?_eq_some hit
    exact starts e (by rw [mem_range'_1] at between; omega) env hit
  · obtain ⟨rfl, own, inside⟩ := mem_slots_masked short (mem_of_find?_eq_some hit)
    exact placement_of_clear own inside (find?_some hit)

theorem search_none {short : bits ≤ 32} (wide : pool.bits ≤ bits)
    (full : search reserved carves bits short pool.masked = none) :
    ¬Placement pool reserved carves bits p := by
  rintro ⟨same, aligned, inside, unreserved, apart⟩
  simp only [search, Option.or_eq_none_iff] at full
  have slot : p ∈ slots pool.masked bits := by
    rw [mem_slots pool.masked_masked ⟨wide, short⟩, prefixInside_masked]
    exact ⟨ofNat_inj.mp same, aligned, inside⟩
  exact find?_eq_none.mp full.2.2.2 p slot (rangeClear_iff.mpr ⟨unreserved, apart⟩)

theorem placement_of_suggest {n : Int} (found : suggest reserved carves n pool = .ok p) :
    Placement pool reserved carves n p := by
  unfold suggest at found
  split_ifs at found with within
  split at found <;> cases found
  rename_i hit
  rw [← toNat_of_nonneg ((natCast_nonneg _).trans within.1)]
  exact search_some hit

/-- `Suggest` returns a free aligned slot of the requested length inside the
pool, and finds the pool full only when there is none. -/
theorem suggest_exact (reserved : List Addr) (carves : List Prefix) (reqPrefixLen : Int)
    (pool : Prefix) :
    match suggest reserved carves reqPrefixLen pool with
    | .ok p => Placement pool reserved carves reqPrefixLen p
    | .error .badPrefixLen => reqPrefixLen < pool.bits ∨ 32 < reqPrefixLen
    | .error .poolFull => ∀ p, ¬Placement pool reserved carves reqPrefixLen p := by
  cases found : suggest reserved carves reqPrefixLen pool with
  | ok p => exact placement_of_suggest found
  | error err =>
    unfold suggest at found
    split_ifs at found with within
    · split at found <;> cases found
      rename_i full
      intro p
      rw [← toNat_of_nonneg ((natCast_nonneg _).trans within.1)]
      exact search_none (ofNat_le.mp (by omega)) full
    · cases found
      dsimp only
      omega

/-- As long as the rows stay as `Suggest` saw them, `validateCIDR` accepts the
block it suggests. -/
theorem suggested_validates {r : Registry} {world : World} {reqPrefixLen : Int}
    {env : Consumer.Env} {choices : Nat → Choice}
    (suggested : suggest r.reserved (world.netblocks.listed.map (·.range)) reqPrefixLen r.pool =
      .ok p) (faultless : ∀ index, (choices index).base.fault = .ok) :
    ∃ compared, ((r.validateCIDR (some p) "").run (execute env) choices world).1 =
      .ok ⟨p, compared⟩ := by
  obtain ⟨-, aligned, inside, unreserved, apart⟩ := placement_of_suggest suggested
  have vacant : r.reserved.find? p.contains = none := by
    simpa using unreserved
  have disjoint : (Registry.others world.netblocks.listed "").find?
      (fun row => p.overlaps row.range) = none := by
    refine find?_eq_none.mpr fun row mem hit => ?_
    obtain ⟨ip, here, there⟩ := Prefix.overlaps_iff.mp hit
    have clear := apart _ (mem_map_of_mem (mem_others.mp mem).1) ip here
    exact absurd there (by simp [clear])
  simp only [Registry.validateCIDR, aligned, inside, vacant, Bool.true_eq_false, if_false]
  have ran : Outcome (execute env) (·.base.fault = .ok) Registry.list world _ _ :=
    outcome_of_run world faultless
  obtain ⟨-, -, listed | ⟨bad, -⟩⟩ := list_outcome ran
  · rw [run_bind, listed]
    simp only [disjoint]
    exact ⟨_, rfl⟩
  · exact absurd (fun _ ok => ok) bad

end

open Example

/-- The first block is taken, and an address of the second is reserved. -/
def keptRegistry : Registry :=
  { config with reserved := [second.addr + 7] : Config }.registry 0

theorem suggested_validates_third :
    ∃ compared,
      ((keptRegistry.validateCIDR (some (cidr 512 24)) "").run (execute env)
        (fun _ => {}) (carved first)).1 = .ok ⟨cidr 512 24, compared⟩ := by
  have found : suggest keptRegistry.reserved ((carved first).netblocks.listed.map (·.range)) 24
      keptRegistry.pool = .ok (cidr 512 24) := by
    decide
  exact suggested_validates found fun _ => rfl

end Harbor.Netblocks.Suggest
