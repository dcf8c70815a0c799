import Harbor.AwsAttest.Verify

/-!
# What the sent request is bound to

The checks read one map and the sent request is another one.  When two keys of
the header map differ only in letter case, one iteration may keep the value of
the first and the other that of the second, so a request can be checked with
one nonce and sent with another.  Where the spellings of the three headers
agree, the two maps do.
-/

namespace Harbor.AwsAttest

open Library Library.Text Option

/-- The `Authorization` value lists both binding headers as signed. -/
def SignsBinding (fold : CaseMap) (authorization : String) : Prop :=
  ∃ signed, signedHeaderSet fold authorization = .ok signed ∧
    "x-harbor-nonce" ∈ signed ∧ "x-harbor-pubkey-hash" ∈ signed

/-- The request carries the nonce and the hash, and its signature is said to
cover both headers. -/
structure Bound (fold : CaseMap) (sent : SentRequest) (nonce pubkeyHash : String) : Prop where
  nonce : sent.value headerNonce = some nonce
  pubkeyHash : sent.value headerPubkeyHash = some pubkeyHash
  signed : ∃ authorization, sent.value "Authorization" = some authorization ∧
    SignsBinding fold authorization

/-- All spellings of a header name have one value, without blanks around it. -/
def Agreeing (fold : CaseMap) (headers : HeaderMap) (name : String) : Prop :=
  ∀ left ∈ headers.rows, fold.lower left.1 = fold.lower name →
    fieldValue left.2 = left.2 ∧
    ∀ right ∈ headers.rows, fold.lower right.1 = fold.lower name →
      left.2 = right.2

/-- No spellings of the binding headers or of `Authorization` disagree. -/
structure Unambiguous (fold : CaseMap) (headers : HeaderMap) : Prop where
  nonce : Agreeing fold headers headerNonce
  pubkeyHash : Agreeing fold headers headerPubkeyHash
  authorization : Agreeing fold headers "Authorization"

instance (fold : CaseMap) (headers : HeaderMap) (name : String) :
    Decidable (Agreeing fold headers name) := by
  unfold Agreeing
  infer_instance

section

variable {fold : CaseMap} {headers : HeaderMap} {name value : String}
  {order sendOrder : List (String × String)}

/-- The names the transport does not write by itself. -/
def Plain (name : String) : Prop :=
  canonicalMIMEHeaderKey name = name ∧ name.toList.all isTokenChar = true ∧
    name ∉ ["Host", "Content-Length", "Transfer-Encoding", "Trailer", "User-Agent",
      "Accept-Encoding"]

instance (name : String) : Decidable (Plain name) := by
  unfold Plain
  infer_instance

theorem Plain.lower {fold : CaseMap} (plain : Plain name)
    (lowered : String.ofList (name.toList.map Char.toLower) = folded) :
    fold.lower name = folded := by
  rw [CaseMap.lower_eq_of_ascii fold (ascii_of_token plain.2.1), lowered]

theorem value_of_plain {sent : SentRequest} (plain : Plain name) :
    sent.value name = sent.header name := by
  obtain ⟨canonical, -, own⟩ := plain
  simp only [List.mem_cons, List.not_mem_nil, or_false, not_or] at own
  simp [SentRequest.value, canonical, own]

theorem value_congr {left right : String} (sent : SentRequest)
    (same : canonicalMIMEHeaderKey left = canonicalMIMEHeaderKey right) :
    sent.value left = sent.value right := by
  simp only [SentRequest.value, same]

theorem exists_entry_of_sentHeader (sent : sentHeader order name = some value) :
    ∃ entry ∈ order, canonicalMIMEHeaderKey entry.1 = name ∧ fieldValue entry.2 = value := by
  obtain ⟨raw, found, written⟩ := map_eq_some_iff.mp sent
  obtain ⟨entry, member, renamed, rfl⟩ := mem_of_collect_eq_some found
  exact ⟨entry, member, renamed, written⟩

/-- A header that is sent has the value that was checked. -/
theorem Agreeing.sent_eq_checked (agreeing : Agreeing fold headers name) (plain : Plain name)
    (checks : order.Perm headers.rows) (sends : sendOrder.Perm headers.rows)
    (accepted : transportAccepts sendOrder = true)
    (sent : sentHeader sendOrder name = some value) :
    value = lowerHeaders fold order (fold.lower name) := by
  obtain ⟨entry, member, renamed, written⟩ := exists_entry_of_sentHeader sent
  have stored := sends.mem_iff.mp member
  have token := token_of_transportAccepts accepted member
  have spelled : fold.lower entry.1 = fold.lower name :=
    (canonicalMIMEHeaderKey_eq_iff fold token plain.2.1).mp (renamed.trans plain.1.symm)
  obtain ⟨trimmed, same⟩ := agreeing entry stored spelled
  unfold lowerHeaders
  cases found : collect fold.lower order (fold.lower name) with
  | none => exact absurd spelled (collect_eq_none_iff.mp found entry (checks.mem_iff.mpr stored))
  | some checked =>
    obtain ⟨other, listed, alike, rfl⟩ := mem_of_collect_eq_some found
    rw [← written, trimmed]
    exact same other (checks.mem_iff.mp listed) alike

end

namespace Example

def authorization : String :=
  "SignedHeaders=host;x-harbor-nonce;x-harbor-pubkey-hash, Signature=f"

def presigned (headers : HeaderMap) : PresignedRequest where
  method := "POST"
  url := "https://sts.eu-west-1.amazonaws.com/"
  headers := headers
  body := stsBody

def genuine : PresignedRequest :=
  presigned ⟨[("x-harbor-nonce", "n1"), ("X-Harbor-Pubkey-Hash", "h"),
    ("Authorization", authorization)], by decide⟩

/-- A request signed for an earlier nonce `n1`, sent again with a lower-case
copy of the nonce header that holds the fresh nonce `n2`. -/
def replayed : PresignedRequest :=
  presigned ⟨[("X-Harbor-Nonce", "n1"), ("x-harbor-nonce", "n2"), ("X-Harbor-Pubkey-Hash", "h"),
    ("Authorization", authorization)], by decide⟩

def endpoint : ParsedURL :=
  ⟨"https", "sts.eu-west-1.amazonaws.com", "sts.eu-west-1.amazonaws.com"⟩

def env : Env where
  fold := .plain
  parseURL url :=
    if url = "https://sts.eu-west-1.amazonaws.com/" then .ok endpoint else .error "parse"

def identity : Identity :=
  ⟨"111122223333", "arn:aws:sts::111122223333:assumed-role/web/i-1", "AROA"⟩

/-- An STS that knows one signature, over the nonce `n1`. -/
def sts : Sts env.fold where
  covered _ name :=
    if name = "host" then "sts.eu-west-1.amazonaws.com"
    else if name = "x-harbor-nonce" then "n1" else "h"
  respond sent :=
    if sent.value "Authorization" = some authorization ∧
        sent.value "Host" = some "sts.eu-west-1.amazonaws.com" ∧
        sent.value headerNonce = some "n1" ∧ sent.value headerPubkeyHash = some "h" then
      some ⟨200, some identity⟩
    else some ⟨403, none⟩
  honest := by
    intro sent response answered accepted
    split_ifs at answered with agree
    · obtain ⟨signed, host, nonce, hash⟩ := agree
      refine ⟨authorization, ["host", "x-harbor-nonce", "x-harbor-pubkey-hash"],
        ?_, by decide +kernel, ?_⟩
      · rwa [value_of_plain (by decide)] at signed
      · simp only [List.forall_mem_cons, List.not_mem_nil, false_imp_iff, implies_true, and_true]
        exact ⟨(value_congr sent (by decide)).trans host,
          (value_congr sent (by decide)).trans nonce, (value_congr sent (by decide)).trans hash⟩
    · cases answered
      simp at accepted

end Example

open Example

end Harbor.AwsAttest
