import Harbor.Data.Enrollment
import Harbor.Library.Base64
import Harbor.Library.Framing

/-!
# Enrollment nonces

A nonce is the base64url form of eight bytes of time and a truncated
authentication code over that time and the key hash of the host.  `Verify`
decodes it, checks its age against lifetime and skew and compares the code with
that of every key in use.
-/

namespace Harbor.Nonce

open Library List

def label : Bytes := "ncp-nonce-v1".toUTF8.toList

def macLen : Nat := 16

def tsLen : Nat := 8

/-- A second, in nanoseconds. -/
def second : Int := 1000000000

def clockBound : Int := 9223372036854775808

structure Rules where
  hmac : Bytes → Bytes → Bytes
  ttl : Int
  maxSkew : Int
  ttlPositive : 0 < ttl
  ttlFits : ttl < clockBound
  maxSkewPositive : 0 < maxSkew
  maxSkewFits : maxSkew < clockBound

inductive VerifyError where
  | malformed
  | expired
  | badMAC
deriving DecidableEq, Repr

def unix (now : Int) : Int :=
  now / second

def words : Nat := 18446744073709551616

def timestamp (raw : Bytes) : Int :=
  Int.bmod (ofBigEndian (raw.take tsLen)) words

def age (raw : Bytes) (now : Int) : Int :=
  (unix now - timestamp raw).bmod words

namespace Rules

variable (rules : Rules)

def mac (key tsb binding : Bytes) : Bytes :=
  (rules.hmac key (label ++ tsb ++ binding)).take macLen

/-- `Mint` with the primary key of a keyring. -/
def mint (key binding : Bytes) (now : Int) : String :=
  let tsb := bigEndian tsLen (unix now % words).toNat
  Base64.encode (tsb ++ rules.mac key tsb binding)

def isFresh (raw : Bytes) (now : Int) : Bool :=
  decide (age raw now ≤ rules.ttl / second) &&
    decide (-(rules.maxSkew / second) ≤ age raw now)

/-- `Verify` for a keyring with these keys; on success the bytes of the
nonce. -/
def verify (keys : List Bytes) (nonce : String) (binding : Bytes)
    (now : Int) : Except VerifyError Bytes :=
  match Base64.decode nonce with
  | none => .error .malformed
  | some raw =>
    if raw.length ≠ tsLen + macLen then .error .malformed
    else if rules.isFresh raw now = false then .error .expired
    else if keys.any fun key =>
        raw.drop tsLen == rules.mac key (raw.take tsLen) binding then
      .ok raw
    else .error .badMAC

def span : Int :=
  (rules.ttl / second + rules.maxSkew / second + 1) * second

end Rules

section

variable {rs : Rules} {raw : Bytes} {earlier later : Int}

theorem lt_of_isFresh (earlierFits : 0 ≤ earlier ∧ earlier < clockBound)
    (laterFits : 0 ≤ later ∧ later < clockBound) (old : rs.isFresh raw earlier = true)
    (young : rs.isFresh raw later = true) : later < earlier + rs.span := by
  have ttlPositive := rs.ttlPositive
  have ttlFits := rs.ttlFits
  have maxSkewPositive := rs.maxSkewPositive
  have maxSkewFits := rs.maxSkewFits
  simp only [Rules.isFresh, Bool.and_eq_true, decide_eq_true_eq] at old young
  obtain ⟨was, first⟩ := @Int.dvd_self_sub_bmod (unix earlier - timestamp raw) words
  obtain ⟨after, last⟩ := @Int.dvd_self_sub_bmod (unix later - timestamp raw) words
  simp only [age, second] at old young
  simp only [Rules.span, second]
  have size : (words : Int) = 18446744073709551616 := rfl
  rw [size] at first last
  unfold unix second at first last old young
  unfold clockBound at ttlFits maxSkewFits earlierFits laterFits
  omega

end

section

variable {rs : Rules} {keys : List Bytes} {nonce : String} {binding raw : Bytes} {now : Int}

theorem decoded_of_verify (good : rs.verify keys nonce binding now = .ok raw) :
    Base64.decode nonce = some raw ∧ raw.length = tsLen + macLen ∧ rs.isFresh raw now = true := by
  unfold Rules.verify at good
  split at good
  · cases good
  · rename_i bytes decoded
    split_ifs at good with wrong stale real
    cases good
    exact ⟨decoded, not_not.mp wrong, Bool.not_eq_false _ ▸ stale⟩

end

section

variable {rs : Rules} {keys : List Bytes} {key binding : Bytes} {made now : Int}

def stamp (minted : Int) : Bytes :=
  bigEndian tsLen (unix minted % words).toNat

theorem bmod_words (nn : 0 ≤ seconds)
    (fits : seconds < clockBound) : seconds.bmod words = seconds := by
  have word : (words : Int) = 18446744073709551616 := rfl
  unfold clockBound at fits
  apply Int.bmod_eq_of_le
  · omega
  · omega

theorem unix_bounds (fits : 0 ≤ made ∧ made < clockBound) :
    0 ≤ unix made ∧ unix made < clockBound := by
  unfold unix second
  unfold clockBound at *
  omega

theorem timestamp_stamp (fits : 0 ≤ made ∧ made < clockBound)
    (rest : Bytes) : timestamp (stamp made ++ rest) = unix made := by
  obtain ⟨nn, low⟩ := unix_bounds fits
  have kept : unix made % words = unix made := by
    refine Int.emod_eq_of_lt nn (lt_trans low ?_)
    decide
  have all : (unix made).toNat < capacity tsLen := by
    have size : capacity tsLen = 18446744073709551616 := by decide
    unfold clockBound at low
    omega
  have front : (stamp made ++ rest).take tsLen = stamp made := take_left' (length_bigEndian _ _)
  unfold timestamp
  rw [front, stamp, kept, ofBigEndian_bigEndian all, Int.toNat_of_nonneg nn, bmod_words nn low]

theorem isFresh_stamp (fits : 0 ≤ made ∧ made < clockBound) (late : made ≤ now ∧ now < clockBound)
    (young : unix now - unix made ≤ rs.ttl / second) (rest : Bytes) :
    rs.isFresh (stamp made ++ rest) now = true := by
  obtain ⟨nn, _⟩ := unix_bounds fits
  obtain ⟨_, low⟩ := unix_bounds ⟨le_trans fits.1 late.1, late.2⟩
  have ordered : unix made ≤ unix now := Int.ediv_le_ediv (by decide) late.1
  have aged : age (stamp made ++ rest) now = unix now - unix made := by
    unfold age
    rw [timestamp_stamp fits, bmod_words (by omega) (by omega)]
  have skew : 0 ≤ rs.maxSkew / second := Int.ediv_nonneg (le_of_lt rs.maxSkewPositive) (by decide)
  unfold Rules.isFresh
  rw [aged, decide_eq_true young, Bool.true_and, decide_eq_true_eq]
  omega

/-- A minted nonce verifies for its key hash throughout its lifetime, whichever
other keys are in use. -/
theorem verify_mint {rules : Rules} (coded : ∀ message, macLen ≤ (rules.hmac key message).length)
    (held : key ∈ keys) (fits : 0 ≤ made ∧ made < clockBound)
    (later : made ≤ now ∧ now < clockBound)
    (young : unix now - unix made ≤ rules.ttl / second) :
    rules.verify keys (rules.mint key binding made) binding now =
      .ok (stamp made ++ rules.mac key (stamp made) binding) := by
  have decoded : Base64.decode (rules.mint key binding made) =
      some (stamp made ++ rules.mac key (stamp made) binding) :=
    Base64.decode_encode _
  have short : (stamp made).length = tsLen := length_bigEndian _ _
  have code : (rules.mac key (stamp made) binding).length = macLen := by
    unfold Rules.mac
    rw [length_take, min_eq_left (coded _)]
  have sized : (stamp made ++ rules.mac key (stamp made) binding).length = tsLen + macLen := by
    rw [length_append, short, code]
  have genuine : (keys.any fun other =>
      (stamp made ++ rules.mac key (stamp made) binding).drop tsLen ==
        rules.mac other ((stamp made ++
          rules.mac key (stamp made) binding).take tsLen) binding) =
      true := by
    rw [any_eq_true]
    refine ⟨key, held, ?_⟩
    rw [drop_left' short, take_left' short, beq_self_eq_true]
  unfold Rules.verify
  rw [decoded]
  simp [sized, isFresh_stamp fits later young, genuine]

theorem verify_mint_rotated : ∃ rules : Rules, rules.ttl = 300 * second ∧
    rules.verify [[2], [1]] (rules.mint [1] [7] second) [7] (200 * second) =
      .ok (stamp second ++ rules.mac [1] (stamp second) [7]) := by
  exact ⟨⟨fun key _ => key ++ replicate 15 0, 300 * second, second, by decide, by decide,
    by decide, by decide⟩, rfl,
    verify_mint (fun _ => le_rfl) (by decide) (by decide) (by decide) (by decide)⟩

end

end Harbor.Nonce
