import Mathlib.Data.List.Basic

/-!
# Unpadded base64url

Three bytes are written as four characters, each for six bits; a rest of one or
two bytes takes two or three characters.  The decoder skips carriage returns and
line feeds wherever they stand and does not look at the unused bits of a rest.
Without skipped characters and without a rest, a text is determined by what it
decodes to.
-/

namespace Harbor.Library.Base64

open List

def alphabet : List Char :=
  ['A', 'B', 'C', 'D', 'E', 'F', 'G', 'H', 'I', 'J', 'K', 'L', 'M',
    'N', 'O', 'P', 'Q', 'R', 'S', 'T', 'U', 'V', 'W', 'X', 'Y', 'Z',
    'a', 'b', 'c', 'd', 'e', 'f', 'g', 'h', 'i', 'j', 'k', 'l', 'm',
    'n', 'o', 'p', 'q', 'r', 's', 't', 'u', 'v', 'w', 'x', 'y', 'z',
    '0', '1', '2', '3', '4', '5', '6', '7', '8', '9', '-', '_']

def charOf (sextet : Nat) : Char :=
  alphabet.getD sextet 'A'

def sextetOf (char : Char) : Option Nat :=
  alphabet.findIdx? fun candidate => candidate == char

def isSkipped (char : Char) : Bool :=
  char == '\r' || char == '\n'

def pack : List Nat → Option (List UInt8)
  | [] => some []
  | [_] => none
  | [a, b] => some [UInt8.ofNat (a * 4 + b / 16)]
  | [a, b, c] =>
    some [UInt8.ofNat (a * 4 + b / 16), UInt8.ofNat (b % 16 * 16 + c / 4)]
  | a :: b :: c :: d :: rest =>
    (pack rest).map fun bytes =>
      UInt8.ofNat (a * 4 + b / 16) ::
      UInt8.ofNat (b % 16 * 16 + c / 4) ::
      UInt8.ofNat (c % 4 * 64 + d) :: bytes

def unpack : List UInt8 → List Nat
  | [] => []
  | [x] => [x.toNat / 4, x.toNat % 4 * 16]
  | [x, y] =>
    [x.toNat / 4, x.toNat % 4 * 16 + y.toNat / 16, y.toNat % 16 * 4]
  | x :: y :: z :: rest =>
    x.toNat / 4 :: (x.toNat % 4 * 16 + y.toNat / 16) ::
    (y.toNat % 16 * 4 + z.toNat / 64) :: z.toNat % 64 :: unpack rest

def encode (bytes : List UInt8) : String :=
  String.ofList ((unpack bytes).map charOf)

def decode (text : String) : Option (List UInt8) :=
  ((text.toList.filter fun char => !isSkipped char).mapM sextetOf).bind pack

section

variable {sextet : Nat}

theorem charOf_sextetOf (read : sextetOf char = some sextet) :
    sextet < 64 ∧ charOf sextet = char := by
  obtain ⟨lies, eq, _⟩ := List.findIdx?_eq_some_iff_getElem.mp read
  refine ⟨Nat.lt_of_lt_of_eq lies (by decide), ?_⟩
  unfold charOf
  rw [getD_eq_getElem?_getD, List.getElem?_eq_getElem lies]
  exact beq_iff_eq.mp eq

theorem sextetOf_charOf (low : sextet < 64) : sextetOf (charOf sextet) = some sextet := by
  have all : ∀ sextet : Fin 64, sextetOf (charOf sextet) = some sextet.val := by decide +kernel
  exact all ⟨sextet, low⟩

theorem not_isSkipped_charOf (low : sextet < 64) : isSkipped (charOf sextet) = false := by
  have all : ∀ sextet : Fin 64, isSkipped (charOf sextet) = false := by
    decide +kernel
  exact all ⟨sextet, low⟩

theorem map_charOf_of_mapM {chars : List Char} {six : List Nat}
    (read : chars.mapM sextetOf = some six) :
    (∀ sextet ∈ six, sextet < 64) ∧ six.map charOf = chars := by
  induction chars generalizing six with
  | nil =>
    cases read
    exact ⟨fun _ mem => (not_mem_nil mem).elim, rfl⟩
  | cons char rest ih =>
    simp only [mapM_cons, Option.bind_eq_bind, Option.bind_eq_some_iff,
      Option.pure_def, Option.some.injEq] at read
    obtain ⟨first, one, others, more, rfl⟩ := read
    obtain ⟨low, same⟩ := charOf_sextetOf one
    obtain ⟨bounded, mapped⟩ := ih more
    refine ⟨?_, ?_⟩
    · intro sextet mem
      rcases mem_cons.mp mem with rfl | later
      · exact low
      · exact bounded sextet later
    · rw [map_cons, same, mapped]

end

theorem unpack_of_pack (all : bs.length % 3 = 0) (low : ∀ six ∈ sextets, six < 64)
    (packed : pack sextets = some bs) : unpack bs = sextets := by
  induction sextets using pack.induct generalizing bs with
  | case1 =>
    cases packed
    rfl
  | case2 => cases packed
  | case3 | case4 =>
    cases packed
    cases all
  | case5 a b c d tl ih =>
    obtain ⟨tail, packedTail, rfl⟩ := Option.map_eq_some_iff.mp packed
    have short : tail.length % 3 = 0 := by
      simp only [length_cons] at all
      omega
    have rest := ih short (fun six mem => low six (by simp [mem])) packedTail
    have fst := low a (by simp)
    have snd := low b (by simp)
    have trd := low c (by simp)
    have fourth := low d (by simp)
    simp only [unpack, rest, UInt8.toNat_ofNat', List.cons.injEq, and_true]
    omega

theorem ofNat_of_eq (eq : v = byte.toNat) : UInt8.ofNat v = byte := by
  rw [eq, UInt8.ofNat_toNat]

theorem pack_unpack (bs : List UInt8) : pack (unpack bs) = some bs := by
  induction bs using unpack.induct with
  | case1 => rfl
  | case2 x =>
    have xBound := x.toNat_lt
    simp only [unpack, pack, Option.some.injEq, List.cons.injEq, and_true]
    exact ofNat_of_eq (by omega)
  | case3 x y =>
    have xBound := x.toNat_lt
    have yBound := y.toNat_lt
    simp only [unpack, pack, Option.some.injEq, List.cons.injEq, and_true]
    exact ⟨ofNat_of_eq (by omega), ofNat_of_eq (by omega)⟩
  | case4 x y z rest ih =>
    have xBound := x.toNat_lt
    have yBound := y.toNat_lt
    have zBound := z.toNat_lt
    simp only [unpack, pack, ih, Option.map_some, Option.some.injEq, List.cons.injEq, and_true]
    exact ⟨ofNat_of_eq (by omega), ofNat_of_eq (by omega), ofNat_of_eq (by omega)⟩

theorem unpack_small (bs : List UInt8) : ∀ six ∈ unpack bs, six < 64 := by
  induction bs using unpack.induct with
  | case1 =>
    intro six mem
    cases mem
  | case2 x =>
    have xBound := x.toNat_lt
    simp only [unpack, forall_mem_cons]
    exact ⟨by omega, by omega, fun _ mem => (not_mem_nil mem).elim⟩
  | case3 x y =>
    have xBound := x.toNat_lt
    have yBound := y.toNat_lt
    simp only [unpack, forall_mem_cons]
    exact ⟨by omega, by omega, by omega, fun _ mem => (not_mem_nil mem).elim⟩
  | case4 x y z rest ih =>
    have xBound := x.toNat_lt
    have yBound := y.toNat_lt
    have zBound := z.toNat_lt
    simp only [unpack, forall_mem_cons]
    exact ⟨by omega, by omega, by omega, by omega, ih⟩

theorem mapM_charOf {sextets : List Nat} (low : ∀ six ∈ sextets, six < 64) :
    (sextets.map charOf).mapM sextetOf = some sextets := by
  induction sextets with
  | nil => rfl
  | cons six tail ih =>
    have rest := ih fun late mem =>
      low late (mem_cons_of_mem _ mem)
    have fst := sextetOf_charOf (low six mem_cons_self)
    simp [mapM_cons, fst, rest]

theorem decode_encode (bs : List UInt8) : decode (encode bs) = some bs := by
  have low := unpack_small bs
  have kept : ((unpack bs).map charOf).filter (fun char => !isSkipped char) =
      (unpack bs).map charOf := by
    rw [filter_eq_self]
    intro char mem
    obtain ⟨six, here, rfl⟩ := mem_map.mp mem
    rw [not_isSkipped_charOf (low six here)]
    rfl
  unfold decode encode
  rw [String.toList_ofList, kept, mapM_charOf low]
  exact pack_unpack bs

theorem encode_of_decode {bs : List UInt8} (tidy : ∀ char ∈ t.toList, isSkipped char = false)
    (all : bs.length % 3 = 0) (decoded : decode t = some bs) : encode bs = t := by
  have kept : t.toList.filter (fun char => !isSkipped char) =
      t.toList := by
    rw [filter_eq_self]
    intro char mem
    rw [tidy char mem]
    rfl
  unfold decode at decoded
  rw [kept, Option.bind_eq_some_iff] at decoded
  obtain ⟨six, read, packed⟩ := decoded
  obtain ⟨low, put⟩ := map_charOf_of_mapM read
  unfold encode
  rw [unpack_of_pack all low packed, put, String.ofList_toList]

end Harbor.Library.Base64
