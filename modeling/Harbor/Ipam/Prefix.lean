import Harbor.Ipam.Allocation

/-!
# Address ranges

A prefix is the aligned range of addresses that agree with it on its leading
bits.  The tests on prefixes are read as statements about the addresses they
contain, and doubling a lower half adds exactly its buddy.
-/

namespace Harbor.Ipam

namespace Prefix

theorem size_pos (rng : Prefix) : 0 < rng.size :=
  Nat.two_pow_pos _

theorem size_dvd (rng : Prefix) : rng.size ∣ 2 ^ 32 :=
  Nat.pow_dvd_pow 2 (Nat.sub_le _ _)

theorem network_le (rng : Prefix) : rng.network ≤ rng.addr :=
  Nat.div_mul_le_self _ _

theorem network_mod (rng : Prefix) : rng.network % rng.size = 0 :=
  Nat.mul_mod_left _ _

variable {ip : Addr}

theorem contains_iff {rng : Prefix} : rng.contains ip = true ↔
      rng.network ≤ ip ∧ ip < rng.network + rng.size := by
  have pos := rng.size_pos
  unfold contains network
  rw [beq_iff_eq]
  constructor
  · intro eq
    rw [← eq]
    exact ⟨Nat.div_mul_le_self _ _, Nat.lt_div_mul_add pos⟩
  · rintro ⟨low, up⟩
    refine Nat.div_eq_of_lt_le low ?_
    rw [Nat.succ_mul]
    exact up

theorem contains_network (rng : Prefix) : rng.contains rng.network = true :=
  contains_iff.mpr ⟨le_rfl, Nat.lt_add_of_pos_right rng.size_pos⟩

theorem contains_addr (rng : Prefix) : rng.contains rng.addr = true := by
  simp [contains]

theorem network_add_size_le (rng : Prefix) : rng.network + rng.size ≤ 2 ^ 32 := by
  obtain ⟨num, sum⟩ := rng.size_dvd
  have lt : rng.addr / rng.size < num := by
    rw [Nat.div_lt_iff_lt_mul rng.size_pos, Nat.mul_comm, ← sum]
    exact rng.addr_lt
  unfold network
  calc rng.addr / rng.size * rng.size + rng.size
      = (rng.addr / rng.size + 1) * rng.size := (Nat.succ_mul _ _).symm
    _ ≤ num * rng.size := Nat.mul_le_mul_right _ lt
    _ = 2 ^ 32 := by rw [sum, Nat.mul_comm]

theorem lt_of_contains {rng : Prefix} (lies : rng.contains ip = true) : ip < 2 ^ 32 :=
  lt_of_lt_of_le (contains_iff.mp lies).2 rng.network_add_size_le

/-- `Masked`. -/
def masked (range : Prefix) : Prefix where
  addr := range.network
  bits := range.bits
  addr_lt := lt_of_le_of_lt range.network_le range.addr_lt
  bits_le := range.bits_le

@[simp]
theorem masked_network (rng : Prefix) : rng.masked.network = rng.network := by
  show rng.network / rng.size * rng.size = rng.network
  exact Nat.div_mul_cancel (Nat.dvd_of_mod_eq_zero rng.network_mod)

@[simp]
theorem masked_size (rng : Prefix) : rng.masked.size = rng.size := rfl

@[simp]
theorem masked_contains (rng : Prefix) (ip : Addr) : rng.masked.contains ip = rng.contains ip := by
  rw [Bool.eq_iff_iff, contains_iff, contains_iff, masked_network, masked_size]

@[simp]
theorem masked_masked (rng : Prefix) : rng.masked.masked = rng.masked := by
  simp only [masked, mk.injEq, and_true]
  exact masked_network rng

theorem contains_of_common {wide narrow : Prefix} {alt : Addr}
    (wider : wide.bits ≤ narrow.bits) (inWide : wide.contains ip = true)
    (inNarrow : narrow.contains ip = true)
    (also : narrow.contains alt = true) : wide.contains alt = true := by
  have divides : narrow.size ∣ wide.size := Nat.pow_dvd_pow 2 (by omega)
  obtain ⟨factor, product⟩ := divides
  have coarser : ∀ addr : Addr, addr / wide.size = addr / narrow.size / factor := by
    intro addr
    rw [product, Nat.div_div_eq_div_mul]
  simp only [contains, beq_iff_eq] at inWide inNarrow also ⊢
  rw [coarser alt, also, ← inNarrow, ← coarser, inWide]

theorem overlaps_iff {l r : Prefix} : l.overlaps r = true ↔
      ∃ ip, l.contains ip = true ∧ r.contains ip = true := by
  unfold overlaps
  rw [Bool.or_eq_true]
  constructor
  · rintro (inLeft | inRight)
    · exact ⟨r.addr, inLeft, r.contains_addr⟩
    · exact ⟨l.addr, l.contains_addr, inRight⟩
  · rintro ⟨ip, inLeft, inRight⟩
    rcases le_total l.bits r.bits with wider | wider
    · exact .inl (contains_of_common wider inLeft inRight r.contains_addr)
    · exact .inr (contains_of_common wider inRight inLeft l.contains_addr)

end Prefix

/-- `netip.Prefix.String`. -/
def prefixString (range : Prefix) : String :=
  addrString range.addr ++ "/" ++ toString range.bits

/-- Whether `inner` is wholly contained in `outer`. -/
def prefixInside (inner outer : Prefix) : Bool :=
  decide (outer.bits ≤ inner.bits) && outer.contains inner.network

def parentOf (range : Prefix) : Prefix :=
  Prefix.masked
    { addr := range.network
      bits := range.bits - 1
      addr_lt := range.masked.addr_lt
      bits_le := by
        have bound := range.bits_le
        omega }

def buddyOf (range : Prefix) : Option Prefix :=
  if range.bits = 0 then none
  else
    some
      { addr :=
          if (parentOf range).addr = range.network then
            (range.network + range.size) % 2 ^ 32
          else (range.network + 2 ^ 32 - range.size) % 2 ^ 32
        bits := range.bits
        addr_lt := by split <;> exact Nat.mod_lt _ (by decide)
        bits_le := range.bits_le }

section

variable {rng buddy : Prefix}

@[simp]
theorem parentOf_masked (rng : Prefix) : (parentOf rng).masked = parentOf rng :=
  Prefix.masked_masked _

theorem parentOf_network (rng : Prefix) : (parentOf rng).network = (parentOf rng).addr := by
  unfold parentOf
  rw [Prefix.masked_network]
  rfl

theorem parentOf_size (pos : rng.bits ≠ 0) : (parentOf rng).size = 2 * rng.size := by
  have cap := rng.bits_le
  show 2 ^ (32 - (rng.bits - 1)) = 2 * 2 ^ (32 - rng.bits)
  rw [← Nat.pow_succ']
  congr 1
  omega

theorem mem_halves_iff (fst half ip : Nat) :
    fst ≤ ip ∧ ip < fst + 2 * half ↔ (fst ≤ ip ∧ ip < fst + half) ∨
        fst + half ≤ ip ∧ ip < fst + half + half := by
  omega

theorem contains_parentOf_iff (low : (parentOf rng).addr = rng.network)
    (sib : buddyOf rng = some buddy) (ip : Addr) : (parentOf rng).contains ip = true ↔
      rng.contains ip = true ∨ buddy.contains ip = true := by
  unfold buddyOf at sib
  split at sib
  · cases sib
  · rename_i pos
    have sum := (parentOf rng).network_add_size_le
    rw [parentOf_network, low, parentOf_size pos] at sum
    have fits : rng.network + rng.size < 2 ^ 32 := by
      have into := ((mem_halves_iff rng.network rng.size _).mpr
        (.inr ⟨le_rfl, Nat.lt_add_of_pos_right rng.size_pos⟩)).2
      exact lt_of_lt_of_le into sum
    simp only [Option.some.injEq] at sib
    have size : buddy.size = rng.size := by rw [← sib]; rfl
    have net : buddy.network = rng.network + rng.size := by
      have addr : buddy.addr = rng.network + rng.size := by
        rw [← sib]
        exact Nat.mod_eq_of_lt fits
      unfold Prefix.network
      rw [addr, size]
      exact Nat.div_mul_cancel (Nat.dvd_add
        (Nat.dvd_of_mod_eq_zero rng.network_mod) (Nat.dvd_refl _))
    rw [Prefix.contains_iff, Prefix.contains_iff, Prefix.contains_iff,
      parentOf_network, low, parentOf_size pos, net, size]
    exact mem_halves_iff rng.network rng.size ip

end

section

variable {rng : Prefix} {reserved occupied : List Addr} {cs : List Prefix} {ip : Addr}

structure Usable (range : Prefix) (reserved occupied : List Addr)
    (carves : List Prefix) (ip : Addr) : Prop where
  inside : range.contains ip = true
  notNetwork : ip ≠ range.network
  unreserved : ip ∉ reserved
  unoccupied : ip ∉ occupied
  uncarved : ∀ carve ∈ carves, carve.contains ip = false

theorem usable_iff (lies : rng.contains ip = true) :
    (!(ip == rng.network || reserved.contains ip || occupied.contains ip) &&
        !inAnyCarve ip cs) = true ↔
      Usable rng reserved occupied cs ip := by
  simp only [inAnyCarve, Bool.and_eq_true, Bool.not_eq_true', Bool.or_eq_false_iff,
    beq_eq_false_iff_ne, List.contains_eq_mem, decide_eq_false_iff_not,
    List.any_eq_false, Bool.not_eq_true]
  constructor
  · rintro ⟨⟨⟨notNet, left⟩, fr⟩, uncarved⟩
    exact ⟨lies, notNet, left, fr, uncarved⟩
  · rintro ⟨_, notNet, left, fr, uncarved⟩
    exact ⟨⟨⟨notNet, left⟩, fr⟩, uncarved⟩

theorem contains_iff_offset : rng.contains ip = true ↔
      ∃ offset < rng.size, rng.network + offset = ip := by
  rw [Prefix.contains_iff]
  constructor
  · rintro ⟨low, up⟩
    exact ⟨ip - rng.network, Nat.sub_lt_left_of_lt_add low up, Nat.add_sub_cancel' low⟩
  · rintro ⟨offset, lt, rfl⟩
    exact ⟨Nat.le_add_right _ _, Nat.add_lt_add_left lt _⟩

theorem mem_addresses : ip ∈ rng.addresses ↔ rng.contains ip = true := by
  rw [contains_iff_offset]
  simp [Prefix.addresses]

theorem lowestFree_eq_none : lowestFree rng reserved occupied cs = none ↔
      ∀ ip, ¬Usable rng reserved occupied cs ip := by
  unfold lowestFree
  rw [List.find?_eq_none]
  constructor
  · intro none ip fit
    exact none ip (mem_addresses.mpr fit.inside) ((usable_iff fit.inside).mpr fit)
  · intro none ip mem test
    exact none ip ((usable_iff (mem_addresses.mp mem)).mp test)

theorem lowestFree_eq_some : lowestFree rng reserved occupied cs = some ip ↔
      Usable rng reserved occupied cs ip ∧ ∀ o, Usable rng reserved occupied cs o → ip ≤ o := by
  unfold lowestFree Prefix.addresses
  rw [List.find?_map, Option.map_eq_some_iff]
  constructor
  · rintro ⟨offset, hit, rfl⟩
    obtain ⟨test, mem, old⟩ := List.find?_range_eq_some.mp hit
    refine ⟨(usable_iff (contains_iff_offset.mpr ⟨offset, List.mem_range.mp mem, rfl⟩)).mp test, ?_⟩
    intro o fit
    obtain ⟨smaller, _, rfl⟩ := contains_iff_offset.mp fit.inside
    refine Nat.add_le_add_left (Nat.le_of_not_lt fun less => ?_) _
    have untaken := old smaller less
    rw [Bool.not_eq_true', ← Bool.not_eq_true] at untaken
    exact untaken ((usable_iff fit.inside).mpr fit)
  · rintro ⟨fit, least⟩
    obtain ⟨offset, lt, rfl⟩ := contains_iff_offset.mp fit.inside
    refine ⟨offset, List.find?_range_eq_some.mpr
      ⟨(usable_iff fit.inside).mpr fit, List.mem_range.mpr lt, ?_⟩, rfl⟩
    intro smaller less
    rw [Bool.not_eq_true', ← Bool.not_eq_true]
    intro test
    have lies : rng.contains (rng.network + smaller) = true :=
      contains_iff_offset.mpr ⟨smaller, less.trans lt, rfl⟩
    have cap := least _ ((usable_iff lies).mp test)
    exact absurd (Nat.le_of_add_le_add_left cap) (Nat.not_le_of_lt less)

end

end Harbor.Ipam
