import Mathlib.Data.List.Basic

/-!
# Length-prefixed fields

Integers are written big-endian in a fixed number of bytes, and a field as its
length followed by its bytes.  Such a writing can be read back in one way only:
two equal writings have equal first fields and equal rests.
-/

namespace Harbor.Library

open List

def lengthBound : Nat := 9223372036854775808

structure Octets where
  bytes : List UInt8
  bounded : bytes.length < lengthBound
deriving DecidableEq, Repr

theorem Octets.ext_bytes {l r : Octets} (eq : l.bytes = r.bytes) : l = r := by
  cases l
  cases r
  cases eq
  rfl

/-- The last `width` bytes of a number, most significant first. -/
def bigEndian : Nat → Nat → List UInt8
  | 0, _ => []
  | width + 1, value =>
    bigEndian width (value / 256) ++ [UInt8.ofNat value]

def capacity : Nat → Nat
  | 0 => 1
  | width + 1 => capacity width * 256

def ofBigEndian (bytes : List UInt8) : Nat :=
  bytes.foldl (fun value byte => value * 256 + byte.toNat) 0

@[simp]
theorem length_bigEndian (len v : Nat) : (bigEndian len v).length = len := by
  induction len generalizing v with
  | zero => rfl
  | succ len ih => simp [bigEndian, ih]

theorem ofBigEndian_concat (bytes : List UInt8) (byte : UInt8) :
    ofBigEndian (bytes ++ [byte]) = ofBigEndian bytes * 256 + byte.toNat := by
  simp only [ofBigEndian, foldl_append, foldl_cons, foldl_nil]

theorem ofBigEndian_bigEndian (fits : v < capacity len) :
    ofBigEndian (bigEndian len v) = v := by
  induction len generalizing v with
  | zero =>
    simp only [capacity] at fits
    rw [Nat.lt_one_iff.mp fits]
    rfl
  | succ len ih =>
    simp only [capacity] at fits
    have high := ih (Nat.div_lt_of_lt_mul (Nat.mul_comm _ _ ▸ fits))
    have low : (UInt8.ofNat v).toNat = v % 256 := by
      simp
    rw [bigEndian, ofBigEndian_concat, high, low]
    omega

theorem bigEndian_injective (leftFits : l < capacity len) (rightFits : r < capacity len)
    (eq : bigEndian len l = bigEndian len r) : l = r := by
  rw [← ofBigEndian_bigEndian leftFits, ← ofBigEndian_bigEndian rightFits, eq]

theorem bigEndian_append_inj (leftFits : l < capacity len) (rightFits : r < capacity len)
    (eq : bigEndian len l ++ rest = bigEndian len r ++ o) : l = r ∧ rest = o := by
  obtain ⟨head, back⟩ := append_inj eq (by simp)
  exact ⟨bigEndian_injective leftFits rightFits head, back⟩

def framed (field : Octets) : List UInt8 :=
  bigEndian 8 field.bytes.length ++ field.bytes

theorem framed_append_inj {l r : Octets} {rest o : List UInt8}
    (eq : framed l ++ rest = framed r ++ o) :
    l = r ∧ rest = o := by
  have fits : ∀ col : Octets, col.bytes.length < capacity 8 := by
    intro col
    exact Nat.lt_trans col.bounded (by decide)
  simp only [framed, append_assoc] at eq
  obtain ⟨lengths, tails⟩ := bigEndian_append_inj (fits l) (fits r) eq
  obtain ⟨fields, rests⟩ := append_inj tails lengths
  exact ⟨Octets.ext_bytes fields, rests⟩

end Harbor.Library
