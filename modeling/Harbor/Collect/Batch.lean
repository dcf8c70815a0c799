import Harbor.Library.Base64
import Harbor.Queue.Durable
import Mathlib.Algebra.Ring.Nat
import Mathlib.Data.List.TakeDrop

/-!
# The size of a claimed batch

The gateway admits an enroll request by its size and queues the whole body.  A
claim writes the leased rows as JSON, in which a body grows by a third, and the
collector reads the answer up to a fixed number of bytes.  Everything written
is ASCII, so a character is a byte.
-/

namespace Harbor.Collect.Batch

open Library Queue List

/-! ## Encoding -/

def stdChar (sextet : Nat) : Char :=
  if sextet = 62 then '+'
  else if sextet = 63 then '/'
  else Base64.charOf sextet

/-- `base64.StdEncoding`, as a byte slice is written in JSON. -/
def stdEncode (bytes : Bytes) : List Char :=
  (Base64.unpack bytes).map stdChar ++ List.replicate ((3 - bytes.length % 3) % 3) '='

def hexPair (code : Nat) : List Char :=
  [(Nat.digitChar (code / 16)), Nat.digitChar (code % 16)]

def isPlain (c : Char) : Bool :=
  Nat.ble 32 c.toNat && c != '"' && c != '\\' && c != '<' && c != '>' &&
    c != '&' && c.toNat != 0x2028 && c.toNat != 0x2029

def escaped (c : Char) : List Char :=
  if c = '"' ∨ c = '\\' then ['\\', c]
  else if c = '\n' then ['\\', 'n']
  else if c = '\r' then ['\\', 'r']
  else if c = '\t' then ['\\', 't']
  else if c.toNat = 8 then ['\\', 'b']
  else if c.toNat = 12 then ['\\', 'f']
  else if c.toNat = 0x2028 then "\\u2028".toList
  else if c.toNat = 0x2029 then "\\u2029".toList
  else ['\\', 'u', '0', '0'] ++ hexPair c.toNat

def jsonChar (c : Char) : List Char :=
  if isPlain c then [c] else escaped c

def jsonString (text : List Char) : List Char :=
  '"' :: (text.flatMap jsonChar ++ ['"'])

def joined : List (List Char) → List Char
  | [] => []
  | [item] => item
  | item :: next :: rest => item ++ ',' :: joined (next :: rest)

/-- `time.Time` as JSON writes it, without its quotes: RFC 3339 with up to nine
fractional digits and an offset. -/
structure TimeFormat where
  text : Int → List Char
  short : ∀ time, (text time).length ≤ 35

/-- An `int64` in decimal. -/
def intText (value : Int) : List Char :=
  if value < 0 then '-' :: Nat.toDigits 10 value.natAbs
  else Nat.toDigits 10 value.natAbs

inductive Piece where
  | candidates
  | newline
  | leaseID
  | enrollmentID
  | pubkeyHash
  | requestJWS
  | retrievalSecretHash
  | receivedAt
  | closing

def Piece.text : Piece → List Char
  | .candidates => "\x7b\"candidates\":[".toList
  | .newline => "]\x7d\n".toList
  | .leaseID => "\x7b\"lease_id\":".toList
  | .enrollmentID => ",\"enrollment_id\":".toList
  | .pubkeyHash => ",\"pubkey_hash\":".toList
  | .requestJWS => ",\"request_jws\":\"".toList
  | .retrievalSecretHash => "\",\"retrieval_secret_hash\":\"".toList
  | .receivedAt => "\",\"received_at\":\"".toList
  | .closing => "\"\x7d".toList

/-- A `Candidate` of the claim response. -/
def candidateJSON (format : TimeFormat) (leased : Leased) : List Char :=
  Piece.leaseID.text ++ intText leased.id ++ Piece.enrollmentID.text ++
    jsonString leased.candidate.enrollmentID.toList ++ Piece.pubkeyHash.text ++
    jsonString leased.candidate.pubkeyHash.toList ++
    Piece.requestJWS.text ++ stdEncode leased.candidate.requestJWS ++
    Piece.retrievalSecretHash.text ++ stdEncode leased.candidate.retrievalSecretHash ++
    Piece.receivedAt.text ++ format.text leased.candidate.receivedAt ++ Piece.closing.text

/-- What `writeJSON` sends for a `ClaimResponse`. -/
def claimResponse (format : TimeFormat) (leased : List Leased) : List Char :=
  Piece.candidates.text ++ joined (leased.map (candidateJSON format)) ++ Piece.newline.text

/-! ## Limits -/

def collectMaxBody : Nat := 1048576

def defaultClaim : Int := 64

def maxClaim : Int := 512

def defaultMaxBody : Nat := 16384

def batchLimit (setting : Int) : Int :=
  if setting ≤ 0 then defaultClaim else setting

/-- The limit `handleClaim` uses for a request. -/
def claimLimit (requested : Int) : Nat :=
  (if requested ≤ 0 ∨ maxClaim < requested then defaultClaim
    else requested).toNat

/-- `handleClaim` for a collector with the default batch. -/
def handleClaim (format : TimeFormat) (mac : Candidate → Bytes)
    (items : Items) (leaseTTL now : Int) : List Char :=
  claimResponse format (claim items mac (claimLimit (batchLimit 0)) leaseTTL now).1

/-- What `post` hands to the decoder. -/
def readBody (response : List Char) : List Char :=
  response.take collectMaxBody

/-! ## Admission -/

/-- The hash and the checks of `handleEnroll`: the key in a body that is a JWS
envelope with a well-formed request, a valid signature and a fresh nonce. -/
structure Vetting where
  sha256 : Bytes → Bytes
  sha256_length : ∀ bytes, (sha256 bytes).length = 32
  key : Bytes → Option Bytes

/-- `handleEnroll` up to the publication: the body cap, the checks and the
candidate, for the random bytes of its two tokens. -/
def handleEnroll (vetting : Vetting) (maxBody : Nat) (body id secret : Bytes)
    (now : Int) : Option Candidate :=
  if maxBody < body.length then none
  else
    (vetting.key body).map fun publicKey =>
      { enrollmentID := Base64.encode id
        pubkeyHash := Base64.encode (vetting.sha256 publicKey)
        requestJWS := body
        retrievalSecretHash := vetting.sha256
          (Base64.encode secret).toUTF8.toList
        receivedAt := now }

/-- A candidate that `handleEnroll` made with the default body limit. -/
def Admitted (vetting : Vetting) (candidate : Candidate) : Prop :=
  ∃ body id secret now, id.length = 16 ∧ secret.length = 32 ∧
    handleEnroll vetting defaultMaxBody body id secret now = some candidate

/-! ## Lengths -/

theorem length_unpack (bs : List UInt8) : (Base64.unpack bs).length = (4 * bs.length + 2) / 3 := by
  induction bs using Base64.unpack.induct with
  | case1 => rfl
  | case2 x | case3 x y => simp [Base64.unpack]
  | case4 x y z tail ih =>
    simp only [Base64.unpack, length_cons, ih]
    omega

theorem length_stdEncode (bs : Bytes) : (stdEncode bs).length = 4 * ((bs.length + 2) / 3) := by
  simp only [stdEncode, length_append, length_map, length_unpack, length_replicate]
  omega

theorem jsonChar_charOf (six : Nat) : jsonChar (Base64.charOf six) = [Base64.charOf six] := by
  have every : Base64.alphabet.all isPlain = true := by
    decide
  have bare : isPlain (Base64.charOf six) = true := by
    unfold Base64.charOf
    rw [getD_eq_getElem?_getD]
    cases hit : Base64.alphabet[six]? with
    | none => decide
    | some c => exact all_eq_true.mp every c (mem_of_getElem? hit)
  simp [jsonChar, bare]

theorem length_jsonString_encode (bs : Bytes) :
    (jsonString (Base64.encode bs).toList).length = (4 * bs.length + 2) / 3 + 2 := by
  have bare : (Base64.encode bs).toList.flatMap jsonChar =
      (Base64.unpack bs).map Base64.charOf := by
    unfold Base64.encode
    rw [String.toList_ofList]
    induction Base64.unpack bs with
    | nil => rfl
    | cons six tail ih => simp only [map_cons, flatMap_cons, jsonChar_charOf, ih, singleton_append]
  simp [jsonString, bare, length_unpack]

theorem length_joined (nonempty : xs ≠ []) :
    (joined xs).length + 1 = (xs.map fun item => item.length + 1).sum := by
  induction xs using joined.induct with
  | case1 => exact absurd rfl nonempty
  | case2 item => simp [joined]
  | case3 item next rest ih =>
    have later := ih (cons_ne_nil _ _)
    rw [joined, map_cons, sum_cons, ← later, length_append, length_cons]
    omega

theorem le_length_joined (long : ∀ i ∈ xs, cap ≤ i.length) :
    xs.length * cap ≤ (joined xs).length := by
  induction xs using joined.induct with
  | case1 => simp [joined]
  | case2 i =>
    have here := long i mem_cons_self
    simpa [joined] using here
  | case3 i next tail ih =>
    have here := long i mem_cons_self
    have late := ih fun alt mem =>
      long alt (mem_cons_of_mem _ mem)
    simp only [joined, length_append, length_cons] at late ⊢
    have split : (tail.length + 1 + 1) * cap = (tail.length + 1) * cap + cap := Nat.succ_mul _ _
    omega

def Piece.size : Piece → Nat
  | .candidates => 15
  | .newline => 3
  | .leaseID => 12
  | .enrollmentID => 17
  | .pubkeyHash => 15
  | .requestJWS => 16
  | .retrievalSecretHash => 27
  | .receivedAt => 17
  | .closing => 2

theorem Piece.length_text (piece : Piece) : piece.text.length = piece.size := by
  cases piece <;> decide

theorem length_candidateJSON (format : TimeFormat) (lent : Leased) :
    (candidateJSON format lent).length = 106 + (intText lent.id).length +
        (jsonString lent.candidate.enrollmentID.toList).length +
        (jsonString lent.candidate.pubkeyHash.toList).length +
        (stdEncode lent.candidate.requestJWS).length +
        (stdEncode lent.candidate.retrievalSecretHash).length +
        (format.text lent.candidate.receivedAt).length := by
  simp only [candidateJSON, length_append, Piece.length_text, Piece.size]
  omega

/-- The bytes a claimed message takes in the response, the comma that separates
it from the next one included. -/
def room (format : TimeFormat) (leased : Leased) : Nat :=
  220 + (intText leased.id).length +
    4 * ((leased.candidate.requestJWS.length + 2) / 3) +
    (format.text leased.candidate.receivedAt).length

theorem length_candidateJSON_admitted (format : TimeFormat)
    (admitted : Admitted vetting leased.candidate) :
    (candidateJSON format leased).length + 1 = room format leased := by
  obtain ⟨body, id, secret, now, idLength, -, made⟩ := admitted
  unfold handleEnroll at made
  split_ifs at made
  obtain ⟨publicKey, -, candidate⟩ := Option.map_eq_some_iff.mp made
  rw [length_candidateJSON, length_stdEncode, length_stdEncode, room]
  rw [← candidate]
  simp only [length_jsonString_encode, vetting.sha256_length, idLength]
  omega

/-! ## What a claim returns -/

section

variable {mac : Candidate → Bytes} {till : Int} {xs : Items}
  {leased : List Leased} {rest : List Item}

/-- The loop of `Claim` over the selected rows. -/
def leaseAll (mac : Candidate → Bytes) (leaseUntil : Int)
    (rest : List Item) (state : Items × List Leased) : Items × List Leased :=
  rest.foldl (fun state item => lease mac leaseUntil item state.1 state.2) state

theorem lease_cases (mac : Candidate → Bytes) (till : Int) (item : Item)
    (xs : Items) (leased : List Leased) : (lease mac till item xs leased).2 = leased ∨
      (lease mac till item xs leased).2 =
        leased ++ [⟨item.id, item.candidate, item.attempts + 1⟩] := by
  simp only [lease]
  split_ifs
  · exact .inl rfl
  · exact .inl rfl
  · exact .inr rfl

theorem leaseAll_sound (mac : Candidate → Bytes) (till : Int)
    (rest : List Item) (s : Items × List Leased) :
    ∀ one ∈ (leaseAll mac till rest s).2, one ∈ s.2 ∨
      ∃ item ∈ rest, one.id = item.id ∧ one.candidate = item.candidate := by
  induction rest generalizing s with
  | nil => exact fun one member => .inl member
  | cons item rest ih =>
    intro one member
    rcases ih (lease mac till item s.1 s.2) one member with old | ⟨other, has, named⟩
    · rcases lease_cases mac till item s.1 s.2 with same | added
      · exact .inl (same ▸ old)
      · rw [added, mem_append, mem_singleton] at old
        rcases old with was | rfl
        · exact .inl was
        · exact .inr ⟨item, mem_cons_self, rfl, rfl⟩
    · exact .inr ⟨other, mem_cons_of_mem _ has, named⟩

theorem claim_sound {m : Nat} {ttl now : Int} :
    ∀ one ∈ (claim xs mac m ttl now).1,
      ∃ row ∈ xs.rows, one.candidate = row.candidate := by
  intro one member
  rcases leaseAll_sound mac (now + ttl) _ (reclaim xs now, []) one member with
    empty | ⟨item, has, -, candidate⟩
  · cases empty
  · have ordered := mem_of_mem_take has
    rw [mem_insertionSort] at ordered
    have kept := (mem_filter.mp ordered).1
    unfold reclaim at kept
    obtain ⟨row, had, same⟩ := Table.mem_update.mp kept
    refine ⟨row, had, ?_⟩
    rw [candidate, ← same]
    split <;> rfl

theorem leaseAll_ready (mac : Candidate → Bytes) (till : Int)
    (leased : List Leased) (uniq : (rest.map Item.id).Nodup)
    (had : ∀ item ∈ rest, item ∈ xs.rows ∧ item.status = .ready ∧
      item.mac = mac item.candidate) : (leaseAll mac till rest (xs, leased)).2 =
      leased ++ rest.map fun item =>
        ⟨item.id, item.candidate, item.attempts + 1⟩ := by
  induction rest generalizing xs leased with
  | nil => simp [leaseAll]
  | cons item rest ih =>
    obtain ⟨mem, due, authentic⟩ := had item mem_cons_self
    rw [map_cons, nodup_cons] at uniq
    have hit : xs.affected (Item.isReady item.id) ≠ 0 := by
      simp only [Table.affected, ne_eq, countP_eq_zero, not_forall]
      exact ⟨item, mem, by simp [Item.isReady, due]⟩
    show (leaseAll mac till rest (lease mac till item xs leased)).2 = _
    simp only [lease, authentic, ne_eq, not_true_eq_false, if_false, hit]
    rw [ih _ uniq.2]
    · simp
    · intro alt has
      obtain ⟨kept, otherReady, otherAuthentic⟩ := had alt (mem_cons_of_mem _ has)
      refine ⟨Table.mem_update.mpr ⟨alt, kept, ?_⟩, otherReady, otherAuthentic⟩
      have ne : alt.id ≠ item.id := fun same =>
        uniq.1 (same ▸ mem_map_of_mem has)
      simp [Item.isReady, ne]

end

theorem length_claimResponse (format : TimeFormat) (lent : List Leased) :
    (claimResponse format lent).length =
      18 + (joined (lent.map (candidateJSON format))).length := by
  simp only [claimResponse, length_append, Piece.length_text, Piece.size]
  omega

theorem claimLimit_default : claimLimit (batchLimit 0) = 64 := by
  decide

theorem claimResponse_fits_iff (format : TimeFormat)
    (admitted : ∀ one ∈ leased, Admitted vetting one.candidate) :
    (claimResponse format leased).length ≤ collectMaxBody ↔
      (leased.map (room format)).sum + 17 ≤ collectMaxBody := by
  have rooms : leased.map (room format) =
      (leased.map (candidateJSON format)).map fun item => item.length + 1 := by
    rw [map_map]
    exact map_congr_left fun one member =>
      (length_candidateJSON_admitted format (admitted one member)).symm
  rw [length_claimResponse, rooms]
  cases leased with
  | nil =>
    simp only [map_nil, joined, length_nil, sum_nil]
    decide
  | cons one rest =>
    rw [← length_joined (by simp)]
    omega

/-- The collector reads the whole answer to a claim at the default batch if and
only if the messages claimed take at most its body limit, less the 17 bytes
around them. -/
theorem claimed_batch_fits (vetting : Vetting) (format : TimeFormat)
    (mac : Candidate → Bytes) {items : Items}
    (admitted : ∀ row ∈ items.rows, Admitted vetting row.candidate)
    (leaseTTL now : Int) :
    readBody (handleClaim format mac items leaseTTL now) =
        handleClaim format mac items leaseTTL now ↔
      ((claim items mac 64 leaseTTL now).1.map (room format)).sum + 17 ≤
        collectMaxBody := by
  unfold handleClaim
  rw [claimLimit_default, ← claimResponse_fits_iff format]
  · exact List.take_eq_self_iff _
  · intro one member
    obtain ⟨row, present, candidate⟩ := claim_sound one member
    exact candidate ▸ admitted row present

/-! ## Full bodies -/

def queueOf (candidates : Nat → Candidate) (mac : Candidate → Bytes) (count : Nat) : Items where
  rows := (List.range count).map fun (index : Nat) =>
    { id := (index : Int) + 1
      candidate := candidates index
      mac := mac (candidates index) }
  nodup := by
    rw [List.map_map]
    refine (List.nodup_range).map ?_
    intro left right same
    have shifted : (left : Int) + 1 = right + 1 := same
    omega

theorem claim_queueOf (cs : Nat → Candidate) (mac : Candidate → Bytes)
    (enough : number ≤ limit) (ttl now : Int) :
    (claim (queueOf cs mac number) mac limit ttl now).1 =
      (queueOf cs mac number).rows.map fun i =>
        ⟨i.id, i.candidate, i.attempts + 1⟩ := by
  have due : ∀ i ∈ (queueOf cs mac number).rows, i.status = .ready ∧ i.mac = mac i.candidate := by
    intro i mem
    obtain ⟨idx, -, rfl⟩ := mem_map.mp mem
    exact ⟨rfl, rfl⟩
  have kept : reclaim (queueOf cs mac number) now =
      queueOf cs mac number := by
    refine Table.update_of_affected_eq_zero _ ?_
    rw [Table.affected, countP_eq_zero]
    intro i mem
    simp [(due i mem).1]
  have all : (queueOf cs mac number).rows.filter (fun i => i.status == .ready) =
        (queueOf cs mac number).rows := by
    rw [filter_eq_self]
    intro i mem
    simp [(due i mem).1]
  have ord : ((queueOf cs mac number).rows.insertionSort
      fun l r => l.id ≤ r.id) = (queueOf cs mac number).rows := by
    refine List.Pairwise.insertionSort_eq ?_
    refine pairwise_map.mpr (pairwise_lt_range.imp ?_)
    intro l r less
    show (l : Int) + 1 ≤ r + 1
    omega
  have full : (queueOf cs mac number).rows.take limit = (queueOf cs mac number).rows := by
    refine take_of_length_le ?_
    simpa [queueOf] using enough
  have lent := leaseAll_ready mac (now + ttl) [] (queueOf cs mac number).nodup
    (fun i mem => ⟨mem, due i mem⟩)
  unfold claim
  simp only [kept, readyItems, all, ord, full]
  simpa [leaseAll] using lent

theorem full_bodies_overflow (format : TimeFormat) (mac : Candidate → Bytes)
    (cs : Nat → Candidate) (full : ∀ idx,
      (cs idx).requestJWS.length = defaultMaxBody) (ttl now : Int) : collectMaxBody <
      (handleClaim format mac (queueOf cs mac 64) ttl now).length := by
  unfold handleClaim
  rw [claimLimit_default, claim_queueOf _ _ le_rfl, length_claimResponse]
  have long : ∀ i ∈ ((queueOf cs mac 64).rows.map fun i =>
      (⟨i.id, i.candidate, i.attempts + 1⟩ : Leased)).map
        (candidateJSON format), 21848 ≤ i.length := by
    intro i mem
    obtain ⟨one, has, rfl⟩ := mem_map.mp mem
    obtain ⟨row, had, rfl⟩ := mem_map.mp has
    obtain ⟨idx, -, rfl⟩ := mem_map.mp had
    rw [length_candidateJSON, length_stdEncode]
    dsimp only
    rw [full idx]
    unfold defaultMaxBody
    omega
  have sum := le_length_joined long
  simp only [length_map, queueOf, length_range] at sum
  simp only [queueOf]
  unfold collectMaxBody
  omega

namespace Example

def request : Bytes := [123, 125]

def vetting : Vetting where
  sha256 _ := List.replicate 32 0
  sha256_length _ := rfl
  key body :=
    if (body.reverse.dropWhile (· == 32)).reverse = request then
      some (List.replicate 65 4)
    else none

def padded (blanks : Nat) : Bytes :=
  request ++ List.replicate blanks 32

theorem length_padded (blanks : Nat) : (padded blanks).length = blanks + 2 := by
  rw [padded, length_append, length_replicate]
  exact Nat.add_comm 2 blanks

theorem vetting_padded (blanks : Nat) :
    vetting.key (padded blanks) = some (List.replicate 65 4) := by
  have trim : ((padded blanks).reverse.dropWhile (· == 32)).reverse =
      request := by
    unfold padded
    rw [reverse_append, reverse_replicate, dropWhile_append_of_pos]
    · decide
    · intro byte mem
      simp [eq_of_mem_replicate mem]
  simp [vetting, trim]

def token (index : Nat) : Bytes :=
  UInt8.ofNat index :: List.replicate 15 0

def candidate (blanks index : Nat) : Candidate where
  enrollmentID := Base64.encode (token index)
  pubkeyHash := Base64.encode (List.replicate 32 0)
  requestJWS := padded blanks
  retrievalSecretHash := List.replicate 32 0
  receivedAt := 0

theorem candidate_admitted (low : blanks ≤ 16382)
    (idx : Nat) : Admitted vetting (candidate blanks idx) := by
  refine ⟨padded blanks, token idx, List.replicate 32 0, 0, rfl, rfl, ?_⟩
  have length : ¬defaultMaxBody < (padded blanks).length := by
    rw [length_padded, defaultMaxBody]
    omega
  simp only [handleEnroll, length, if_false, vetting_padded, Option.map_some, Option.some.injEq]
  rfl

def format : TimeFormat where
  text _ := "2026-01-02T03:04:05Z".toList
  short _ := by decide

end Example

open Example

/-- One request of the largest size. -/
theorem claimed_batch_fits_single : readBody (handleClaim format (fun _ => [])
      (queueOf (candidate 16382) (fun _ => []) 1) 60 0) =
    handleClaim format (fun _ => []) (queueOf (candidate 16382) (fun _ => []) 1) 60 0 := by
  refine (claimed_batch_fits vetting format (fun _ => []) ?_ 60 0).mpr ?_
  · intro row member
    obtain ⟨index, -, rfl⟩ := List.mem_map.mp member
    exact candidate_admitted (by decide) index
  · have body : (candidate 16382 0).requestJWS.length = 16384 := length_padded 16382
    rw [claim_queueOf _ _ (by decide)]
    simp only [queueOf, List.range_one, map_cons, map_nil, sum_cons, sum_nil, room, body]
    decide

/-- Sixty-four admitted requests of the largest size: the response is cut
off. -/
theorem claimed_batch_cut_off : (∀ row ∈ (queueOf (candidate 16382) (fun _ => []) 64).rows,
      Admitted vetting row.candidate) ∧ collectMaxBody < (handleClaim format (fun _ => [])
        (queueOf (candidate 16382) (fun _ => []) 64) 60 0).length ∧
      readBody (handleClaim format (fun _ => [])
          (queueOf (candidate 16382) (fun _ => []) 64) 60 0) ≠ handleClaim format (fun _ => [])
          (queueOf (candidate 16382) (fun _ => []) 64) 60 0 := by
  have overflow := full_bodies_overflow format (fun _ => []) (candidate 16382)
    (fun _ => length_padded 16382) 60 0
  refine ⟨?_, overflow, ?_⟩
  · intro row member
    obtain ⟨index, -, rfl⟩ := List.mem_map.mp member
    exact candidate_admitted (by decide) index
  · intro whole
    have cut := congrArg List.length whole
    rw [readBody, List.length_take] at cut
    omega

end Harbor.Collect.Batch
