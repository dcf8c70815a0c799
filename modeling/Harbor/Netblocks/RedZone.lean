import Harbor.Netblocks.Alone
import Harbor.Netblocks.Overlay

/-!
# The red zone of the address bar and the growth target

The console counts a block's doubling buddy from the start of its envelope, the
registry from the block itself.  They agree for a block at the start of its
envelope; elsewhere the red zone may even be the block.
-/

namespace Harbor.Netblocks.Overlay

open Library Ipam

/-- The range `Grow` asks to be free and then adds. -/
def growTarget (pool cur : Prefix) : Option Prefix :=
  match buddyOf cur with
  | none => none
  | some buddy =>
    let next := parentOf cur
    if next.addr ≠ cur.addr then none
    else if next.bits < pool.bits ∨ prefixInside next pool = false then none
    else some buddy

/-- `Grow` doubles a block iff its target is free. -/
theorem doubles_iff {r : Registry} {bs : Blocks} {live : List Addr} {b : Netblock} :
    Doubles r bs live b ↔ b.kind = .named ∧ b.cidr = b.range ∧
      ∃ bud, growTarget r.pool b.range = some bud ∧ RangeFree r bs live bud b.name := by
  constructor
  · rintro ⟨same, kept, low, ⟨fits, ins⟩, bud, sib, fr⟩
    refine ⟨same, kept, bud, ?_, fr⟩
    simp [growTarget, sib, low, ins, fits]
  · rintro ⟨same, kept, bud, target, fr⟩
    unfold growTarget at target
    split at target
    · cases target
    · rename_i sib
      dsimp only at target
      split_ifs at target with up outside
      cases target
      simp only [not_or, not_lt, Bool.not_eq_false] at outside
      exact ⟨same, kept, not_not.mp up, outside, bud, sib, fr⟩

section

variable {pool b : Prefix}

theorem dvd_of_placed {e : Nat} (finer : e < b.bits) (put : maskBase b.addr e = b.addr) :
    2 ^ (32 - (b.bits - 1)) ∣ b.addr := by
  have coarse : 2 ^ (32 - e) ∣ b.addr := put ▸ Nat.dvd_mul_left _ _
  exact (Nat.pow_dvd_pow 2 (by omega)).trans coarse

theorem growTarget_of_dvd (masked : b.masked = b) (ins : prefixInside b pool = true)
    (room : pool.bits < b.bits) (low : 2 ^ (32 - (b.bits - 1)) ∣ b.addr) :
    growTarget pool b = some ⟨(b.addr + b.size) % 2 ^ 32, b.bits,
      Nat.mod_lt _ (by decide), b.bits_le⟩ := by
  have net : b.network = b.addr := congrArg Prefix.addr masked
  have parent : (parentOf b).addr = b.addr := by
    show b.network / 2 ^ (32 - (b.bits - 1)) * 2 ^ (32 - (b.bits - 1)) = b.addr
    rw [net]
    exact Nat.div_mul_cancel low
  have fits : prefixInside (parentOf b) pool = true := by
    simp only [prefixInside, Bool.and_eq_true, decide_eq_true_eq] at ins ⊢
    rw [parentOf_network, parent, ← net]
    exact ⟨Nat.le_sub_one_of_lt room, ins.2⟩
  have finer : ¬(parentOf b).bits < pool.bits := not_lt.mpr (Nat.le_sub_one_of_lt room)
  have pos : b.bits ≠ 0 := by omega
  simp [growTarget, buddyOf, pos, parent, net, fits, finer]

theorem dvd_of_growTarget (masked : b.masked = b) {target : Prefix}
    (grows : growTarget pool b = some target) : 2 ^ (32 - (b.bits - 1)) ∣ b.addr := by
  have net : b.network = b.addr := congrArg Prefix.addr masked
  unfold growTarget at grows
  split at grows
  · cases grows
  · dsimp only at grows
    split_ifs at grows with moved
    have parent : b.network / 2 ^ (32 - (b.bits - 1)) * 2 ^ (32 - (b.bits - 1)) =
        b.addr := not_not.mp moved
    exact Dvd.intro_left _ parent

/-- The block after a lower half is still below the end of the addresses. -/
theorem add_size_lt (room : 0 < b.bits) (low : 2 ^ (32 - (b.bits - 1)) ∣ b.addr) :
    b.addr + b.size < 2 ^ 32 := by
  have short : b.bits - 1 ≤ 32 := (Nat.sub_le _ _).trans b.bits_le
  have fits := maskBase_add_le b.addr_lt short
  have own : maskBase b.addr (b.bits - 1) = b.addr := Nat.div_mul_cancel low
  have smaller : b.size < 2 ^ (32 - (b.bits - 1)) := by
    have bound := b.bits_le
    exact Nat.pow_lt_pow_right (by decide) (by omega)
  rw [own] at fits
  exact (Nat.add_lt_add_left smaller _).trans_le fits

end

/-- For a block inside the pool: the red zone is what `Grow` would add, and
without one the block fills its envelope, exactly if the block starts its
envelope. -/
theorem red_eq_growTarget (pool block : Prefix)
    (masked : block.masked = block)
    (inside : prefixInside block pool = true) :
    (match (envelopeZone block pool.bits).red with
      | some red => growTarget pool block = some red
      | none => block.bits ≤ envelopeBits block.bits pool.bits) ↔
      maskBase block.addr (envelopeBits block.bits pool.bits) = block.addr := by
  by_cases full : block.bits ≤ envelopeBits block.bits pool.bits
  · have whole : envelopeBits block.bits pool.bits = block.bits :=
      le_antisymm (Nat.min_le_left _ _) full
    have own : maskBase block.addr block.bits = block.addr := congrArg Prefix.addr masked
    simp [envelopeZone_full full, whole, own]
  · have room := not_le.mp full
    have below : pool.bits ≤ envelopeBits block.bits pool.bits := by
      unfold envelopeBits at full ⊢
      omega
    rw [envelopeZone_red room]
    constructor
    · intro agrees
      change growTarget pool block = some _ at agrees
      have low := dvd_of_growTarget masked agrees
      rw [growTarget_of_dvd masked inside (by omega) low, Option.some.injEq,
        Prefix.mk.injEq, redBase_mod room,
        Nat.mod_eq_of_lt (add_size_lt (by omega) low)] at agrees
      exact (Nat.add_right_cancel agrees.1).symm
    · intro placed
      simp only [placed]
      exact growTarget_of_dvd masked inside (by omega) (dvd_of_placed room placed)

def cidrOf (addr bits : Nat) (small : addr < 2 ^ 32 := by decide) (short : bits ≤ 32 := by decide) :
    Prefix :=
  ⟨addr, bits, small, short⟩

theorem red_eq_growTarget_lower :
    growTarget (cidrOf 0 16) (cidrOf 256 27) = some (cidrOf 288 27) :=
  (red_eq_growTarget (cidrOf 0 16) (cidrOf 256 27) (by decide) (by decide)).mpr
    (by decide)

/-- A block typed into the second place of its envelope is its own red zone,
and `Grow` never extends it. -/
theorem red_zone_is_block : (cidrOf 32 27).masked = cidrOf 32 27 ∧
    prefixInside (cidrOf 32 27) (cidrOf 0 16) = true ∧
    (envelopeZone (cidrOf 32 27) 16).red = some (cidrOf 32 27) ∧
      growTarget (cidrOf 0 16) (cidrOf 32 27) = none := by
  decide

end Harbor.Netblocks.Overlay
