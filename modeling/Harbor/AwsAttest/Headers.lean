import Harbor.Library.Text

/-!
# Header names

Two spellings of a header name meet in the attestation: the check lower-cases
it with `strings.ToLower`, the request that is sent stores it under the key
`textproto.CanonicalMIMEHeaderKey` computes.  For names the transport accepts
the two identify the same names.
-/

namespace Harbor.AwsAttest

open Library.Text List

def tokenSymbols : List Char :=
  ['-', '!', '#', '$', '%', '&', '\x27', '*', '+', '.', '^', '_', '\x60', '|', '~']

def isTokenChar (c : Char) : Bool :=
  c.isAlphanum || tokenSymbols.contains c

def validHeaderFieldName (name : String) : Bool :=
  !name.isEmpty && name.toList.all isTokenChar

def validHeaderFieldValue (value : String) : Bool :=
  value.toList.all fun c =>
    c == ' ' || c == '\t' || !(decide (c.toNat < 32) || c.toNat == 127)

def canonicalLetters (upper : Bool) : List Char → List Char
  | [] => []
  | c :: rest =>
    (if upper then c.toUpper else c.toLower) :: canonicalLetters (c == '-') rest

/-- `textproto.CanonicalMIMEHeaderKey`: a key with another byte than a token
byte is left alone. -/
def canonicalMIMEHeaderKey (key : String) : String :=
  if key.toList.all isTokenChar then
    String.ofList (canonicalLetters true key.toList)
  else key

variable {c : Char}

theorem isTokenChar_ascii (token : isTokenChar c = true) : c.toNat < 128 := by
  change ((c.isUpper || c.isLower || c.isDigit) || tokenSymbols.contains c) = true at token
  simp only [Bool.or_eq_true, contains_iff_mem] at token
  rcases token with ((upper | lower) | digit) | symbol
  · have bound : c.toNat ≤ 90 := (of_decide_eq_true upper).2
    omega
  · have bound : c.toNat ≤ 122 :=
      of_decide_eq_true (Bool.and_eq_true_iff.mp lower).2
    omega
  · have bound : c.toNat ≤ 57 :=
      of_decide_eq_true (Bool.and_eq_true_iff.mp digit).2
    omega
  · simp only [tokenSymbols, mem_cons, not_mem_nil, or_false] at symbol
    rcases symbol with rfl | rfl | rfl | rfl | rfl | rfl | rfl | rfl | rfl |
      rfl | rfl | rfl | rfl | rfl | rfl <;> decide

private theorem toLower_toUpper (low : c.toNat < 128) : c.toUpper.toLower = c.toLower :=
  ascii_induction (fun c => c.toUpper.toLower = c.toLower) (by decide) low

private theorem toLower_toLower (low : c.toNat < 128) : c.toLower.toLower = c.toLower :=
  ascii_induction (fun c => c.toLower.toLower = c.toLower) (by decide) low

private theorem toUpper_toLower (low : c.toNat < 128) : c.toLower.toUpper = c.toUpper :=
  ascii_induction (fun c => c.toLower.toUpper = c.toUpper) (by decide) low

private theorem toLower_hyphen (low : c.toNat < 128) : (c.toLower == '-') = (c == '-') :=
  ascii_induction (fun c => (c.toLower == '-') = (c == '-')) (by decide) low

theorem canonicalLetters_toLower
    (low : ∀ c ∈ key, c.toNat < 128) : canonicalLetters up (key.map Char.toLower) =
      canonicalLetters up key := by
  induction key generalizing up with
  | nil => rfl
  | cons c rest induction =>
    have hdLow : c.toNat < 128 := low c (by simp)
    have tailSmall : ∀ alt ∈ rest, alt.toNat < 128 := by
      intro alt mem
      exact low alt (by simp [mem])
    simp only [map_cons, canonicalLetters, toUpper_toLower hdLow,
      toLower_toLower hdLow, toLower_hyphen hdLow,
      induction tailSmall]

theorem toLower_canonicalLetters
    (low : ∀ c ∈ key, c.toNat < 128) : (canonicalLetters up key).map Char.toLower =
      key.map Char.toLower := by
  induction key generalizing up with
  | nil => rfl
  | cons c rest induction =>
    have hdLow : c.toNat < 128 := low c (by simp)
    have tailSmall : ∀ alt ∈ rest, alt.toNat < 128 := by
      intro alt mem
      exact low alt (by simp [mem])
    cases up with
    | false =>
      simp [canonicalLetters, toLower_toLower hdLow,
        induction tailSmall]
    | true =>
      simp [canonicalLetters, toLower_toUpper hdLow,
        induction tailSmall]

theorem CaseMap.lower_eq_of_ascii (fold : CaseMap) (low : ∀ c ∈ t.toList, c.toNat < 128) :
    fold.lower t = String.ofList (t.toList.map Char.toLower) := by
  unfold CaseMap.lower
  congr 1
  apply map_congr_left
  intro c mem
  exact fold.ascii c (low c mem)

theorem ascii_of_token {t : String} (token : t.toList.all isTokenChar = true) :
    ∀ c ∈ t.toList, c.toNat < 128 := by
  intro c mem
  exact isTokenChar_ascii (all_eq_true.mp token c mem)

theorem canonicalMIMEHeaderKey_eq_iff (fold : CaseMap)
    (keyToken : key.toList.all isTokenChar = true) (nameToken : n.toList.all isTokenChar = true) :
    canonicalMIMEHeaderKey key = canonicalMIMEHeaderKey n ↔ fold.lower key = fold.lower n := by
  have keySmall := ascii_of_token keyToken
  have nameSmall := ascii_of_token nameToken
  rw [CaseMap.lower_eq_of_ascii fold keySmall, CaseMap.lower_eq_of_ascii fold nameSmall]
  simp only [canonicalMIMEHeaderKey, keyToken, nameToken, if_true, String.ofList_inj]
  constructor
  · intro eq
    have low := congrArg (List.map Char.toLower) eq
    rwa [toLower_canonicalLetters keySmall, toLower_canonicalLetters nameSmall] at low
  · intro eq
    have canon := congrArg (canonicalLetters true) eq
    rwa [canonicalLetters_toLower keySmall, canonicalLetters_toLower nameSmall] at canon

end Harbor.AwsAttest
