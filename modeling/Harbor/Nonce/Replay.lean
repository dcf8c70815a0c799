import Harbor.Library.Pool
import Harbor.Library.Procedure
import Harbor.Nonce.Keyring

/-!
# Nonces are spent once

A Core verifies the nonce of a request and then inserts it, as it was written,
into the replay table; only the first insert passes.  Rows expire some time
after they were made and are swept at any time.

The table is keyed by the text of a nonce and the verification by its bytes, so
the bound is one pass for every text.  It is one for every nonce when the texts
have no characters that the decoder skips, and when no Core stalls between its
check and its insert for so long that the row of an earlier pass has expired.
-/

namespace Harbor.Nonce

open Library List Table

/-- A row of `nonce_replays`. -/
structure Sighting where
  nonce : String
  expiresAt : Int
deriving DecidableEq, Repr

abbrev Sightings := Table Sighting.nonce

structure Spent where
  call : Nat
  nonce : String
  raw : Bytes
  verifiedAt : Int
deriving DecidableEq, Repr

structure Store where
  sightings : Sightings
  clock : Int
  spent : List Spent

structure StoreIo where
  fault : Fault := .ok
  text : String := ""

inductive StoreRequest where
  | tick (now : Int)
  | present (keys : List Bytes) (nonce : String) (binding : Bytes)
  | sweep

inductive StoreCall where
  | tick (now : Int)
  | verify (keys : List Bytes) (nonce : String) (binding : Bytes)
  | observe (nonce : String) (raw : Bytes) (verifiedAt : Int)
  | insert (nonce : String) (raw : Bytes) (verifiedAt expiresAt : Int)
  | sweepRead
  | sweepDelete (reading : Int)
  | passed (nonce : String)
  | refused (error : VerifyError)
  | replayed
  | failed (text : String)
  | done

namespace Store

variable (rules : Rules) (retention : Int) (store : Store) (io : StoreIo)

def initial : Store where
  sightings := .empty
  clock := 0
  spent := []

/-- The insert of `Observe`, with `ON CONFLICT DO NOTHING`. -/
def insert (index : Nat) (nonce : String) (raw : Bytes)
    (verifiedAt expiresAt : Int) : Store × StoreCall :=
  if io.fault = .failed then
    (store, .failed ("enrollment: replay store: " ++ io.text))
  else
    match store.sightings.insert? ⟨nonce, expiresAt⟩ with
    | none =>
      (store, if io.fault = .ok then .replayed
        else .failed ("enrollment: replay store: " ++ io.text))
    | some sightings =>
      if io.fault = .ok then
        ({ store with
          sightings := sightings
          spent := store.spent ++ [⟨index, nonce, raw, verifiedAt⟩] },
          .passed nonce)
      else
        ({ store with sightings := sightings }, .failed ("enrollment: replay store: " ++ io.text))

/-- `expires_at < ?`. -/
def sweep (reading : Int) : Store :=
  { store with
    sightings := store.sightings.keep fun row =>
      !decide (row.expiresAt < reading) }

def advance (index : Nat) : StoreCall → Option (Store × StoreCall)
  | .tick now =>
    if store.clock ≤ now ∧ now < clockBound then
      some ({ store with clock := now }, .done)
    else none
  | .verify keys nonce binding =>
    match rules.verify keys nonce binding store.clock with
    | .error error => some (store, .refused error)
    | .ok raw => some (store, .observe nonce raw store.clock)
  | .observe nonce raw verifiedAt =>
    some (store, .insert nonce raw verifiedAt (store.clock + retention))
  | .insert nonce raw verifiedAt expiresAt =>
    some (store.insert io index nonce raw verifiedAt expiresAt)
  | .sweepRead => some (store, .sweepDelete store.clock)
  | .sweepDelete reading =>
    if io.fault = .failed then some (store, .failed io.text)
    else some (store.sweep reading, .done)
  | _ => none

end Store

def machine (rules : Rules) (retention : Int) : Machine Store StoreRequest StoreIo StoreCall where
  accept _
    | .tick now => .tick now
    | .present keys nonce binding => .verify keys nonce binding
    | .sweep => .sweepRead
  advance index store io call := store.advance rules retention io index call

def isClean (nonce : String) : Bool :=
  nonce.toList.all fun char => !Base64.isSkipped char

/-- Nonces are checked as the encoder writes them, and inserted before the row
of an earlier pass can have expired. -/
def Store.regular (rules : Rules) (retention : Int) (store : Store) : StoreCall → Bool
  | .verify _ nonce _ => isClean nonce
  | .insert _ _ verifiedAt _ =>
    decide (store.clock + rules.span ≤ verifiedAt + retention)
  | _ => true

def Regular (rules : Rules) (retention : Int) (pool : Pool Store StoreCall) :
    Pool.Event StoreRequest StoreIo → Prop
  | .statement index _ =>
    pool.calls[index]?.all (pool.shared.regular rules retention) = true
  | .request _ => True

instance (rules : Rules) (retention : Int) (pool : Pool Store StoreCall) :
    DecidablePred (Regular rules retention pool)
  | .statement index _ =>
    inferInstanceAs (Decidable
      (pool.calls[index]?.all (pool.shared.regular rules retention) = true))
  | .request _ => inferInstanceAs (Decidable True)

structure Checked (rules : Rules) (nonce : String) (raw : Bytes) (verifiedAt : Int) : Prop where
  clean : isClean nonce = true
  decoded : Base64.decode nonce = some raw
  length : raw.length = tsLen + macLen
  fresh : rules.isFresh raw verifiedAt = true
  fits : 0 ≤ verifiedAt ∧ verifiedAt < clockBound

def Store.Keeps (retention : Int) (store : Store) (spent : Spent) : Prop :=
  (∃ row, store.sightings.find spent.nonce = some row ∧
    spent.verifiedAt + retention ≤ row.expiresAt) ∨
  spent.verifiedAt + retention < store.clock

structure Store.Guarded (rules : Rules) (retention : Int) (store : Store) : Prop where
  fits : 0 ≤ store.clock ∧ store.clock < clockBound
  checked : ∀ spent ∈ store.spent, Checked rules spent.nonce spent.raw spent.verifiedAt
  kept : ∀ spent ∈ store.spent, store.Keeps retention spent
  once : ∀ left ∈ store.spent, ∀ right ∈ store.spent, left.raw = right.raw → left.call = right.call

def StoreCall.Sound (rules : Rules) (retention : Int) (store : Store)
    (index : Nat) : StoreCall → Prop
  | .observe nonce raw verifiedAt =>
    Checked rules nonce raw verifiedAt ∧ verifiedAt ≤ store.clock
  | .insert nonce raw verifiedAt expiresAt =>
    Checked rules nonce raw verifiedAt ∧ verifiedAt + retention ≤ expiresAt
  | .sweepDelete reading => reading ≤ store.clock
  | .passed nonce => ∃ spent ∈ store.spent, spent.call = index ∧ spent.nonce = nonce
  | _ => True

section

variable {rs : Rules} {keep : Int} {db fin : Store} {io : StoreIo}
  {idx : Nat} {call next : StoreCall}

theorem Checked.text_eq (lOk : Checked rs l raw leftAt)
    (rOk : Checked rs r raw rightAt) : l = r := by
  have full : raw.length % 3 = 0 := by
    rw [lOk.length]
    rfl
  have ok : ∀ {n : String}, isClean n = true →
      ∀ char ∈ n.toList, Base64.isSkipped char = false := by
    intro n all char mem
    have kept := all_eq_true.mp all char mem
    simpa using kept
  rw [← Base64.encode_of_decode (ok lOk.clean) full lOk.decoded]
  exact Base64.encode_of_decode (ok rOk.clean) full rOk.decoded

theorem Store.Keeps.mono {used : Spent} (keeps : db.Keeps keep used)
    (late : db.clock ≤ fin.clock) (rs : ∀ row, db.sightings.find used.nonce = some row →
      fin.sightings.find used.nonce = some row ∨ row.expiresAt < fin.clock) :
    fin.Keeps keep used := by
  rcases keeps with ⟨row, hit, lasts⟩ | past
  · rcases rs row hit with same | expired
    · exact .inl ⟨row, same, lasts⟩
    · exact .inr (lt_of_le_of_lt lasts expired)
  · exact .inr (lt_of_lt_of_le past late)

theorem StoreCall.Sound.mono (inv : call.Sound rs keep db idx)
    (late : db.clock ≤ fin.clock) (used : ∀ one ∈ db.spent, one ∈ fin.spent) :
    call.Sound rs keep fin idx := by
  cases call with
  | observe n raw when => exact ⟨inv.1, le_trans inv.2 late⟩
  | insert n raw when exp => exact inv
  | sweepDelete read => exact le_trans inv late
  | passed n =>
    obtain ⟨one, mem, seen⟩ := inv
    exact ⟨one, used one mem, seen⟩
  | _ => trivial

structure Kept (rules : Rules) (retention : Int) (store : Store) (index : Nat)
    (after : Store) (next : StoreCall) : Prop where
  guarded : after.Guarded rules retention
  own : next.Sound rules retention after index
  later : store.clock ≤ after.clock
  spent : ∀ one ∈ store.spent, one ∈ after.spent

theorem Kept.still (guarded : db.Guarded rs keep) (own : next.Sound rs keep db idx) :
    Kept rs keep db idx db next where
  guarded := guarded
  own := own
  later := le_refl _
  spent _ member := member

theorem Store.Guarded.insertRow (safe : db.Guarded rs keep)
    {row : Sighting} {sightings : Sightings} {ok : List Spent}
    (put : db.sightings.insert? row = some sightings) : ∀ used ∈ db.spent,
      ({ db with sightings := sightings, spent := ok } : Store).Keeps
        keep used := by
  intro used mem
  refine (safe.kept used mem).mono (le_refl _) ?_
  intro old hit
  left
  show sightings.find used.nonce = some old
  rw [find_insert? put, if_neg]
  · exact hit
  · intro same
    rw [same, (Table.insert?_eq_some put).2] at hit
    cases hit

theorem Store.Guarded.unspent (safe : db.Guarded rs keep)
    (test : Checked rs n raw when) (gone : db.sightings.find n = none)
    (prompt : db.clock + rs.span ≤ when + keep) : ∀ used ∈ db.spent, used.raw ≠ raw := by
  intro used mem eq
  subst eq
  have old := safe.checked used mem
  have t := old.text_eq test
  have near := lt_of_isFresh old.fits test.fits old.fresh test.fresh
  rcases safe.kept used mem with ⟨row, hit, _⟩ | past
  · rw [t, gone] at hit
    cases hit
  · omega

theorem insert_kept (safe : db.Guarded rs keep) {n : String} {raw : Bytes} {when exp : Int}
    (test : Checked rs n raw when) (lasts : when + keep ≤ exp)
    (prompt : db.clock + rs.span ≤ when + keep) : Kept rs keep db idx
      (db.insert io idx n raw when exp).1 (db.insert io idx n raw when exp).2 := by
  unfold Store.insert
  split
  · exact .still safe trivial
  · split
    · refine .still safe ?_
      split <;> trivial
    · rename_i sightings put
      have gone := (Table.insert?_eq_some put).2
      split
      · have new := safe.unspent test gone prompt
        refine ⟨⟨safe.fits, ?_, ?_, ?_⟩, ?_, le_refl _, ?_⟩
        · intro used mem
          rcases mem_append.mp mem with old | last
          · exact safe.checked used old
          · rw [mem_singleton] at last
            subst last
            exact test
        · intro used mem
          rcases mem_append.mp mem with old | last
          · exact safe.insertRow put used old
          · rw [mem_singleton] at last
            subst last
            refine .inl ⟨⟨n, exp⟩, ?_, lasts⟩
            show sightings.find n = _
            rw [find_insert? put, if_pos rfl]
        · intro l memL r memR eq
          rcases mem_append.mp memL with leftOld | leftLast
          · rcases mem_append.mp memR with rightOld | rightLast
            · exact safe.once l leftOld r rightOld eq
            · rw [mem_singleton] at rightLast
              subst rightLast
              exact absurd eq (new l leftOld)
          · rw [mem_singleton] at leftLast
            subst leftLast
            rcases mem_append.mp memR with rightOld | rightLast
            · exact absurd eq.symm (new r rightOld)
            · rw [mem_singleton] at rightLast
              rw [rightLast]
        · exact ⟨_, mem_append_right _ (mem_singleton_self _), rfl, rfl⟩
        · intro one mem
          exact mem_append_left _ mem
      · exact ⟨⟨safe.fits, safe.checked, safe.insertRow put,
          safe.once⟩, trivial, le_refl _, fun _ mem => mem⟩

theorem Store.Guarded.sweep (safe : db.Guarded rs keep)
    (soon : reading ≤ db.clock) : (db.sweep reading).Guarded rs keep := by
  refine ⟨safe.fits, safe.checked, ?_, safe.once⟩
  intro used mem
  refine (safe.kept used mem).mono (le_refl _) ?_
  intro row hit
  by_cases expired : row.expiresAt < reading
  · exact .inr (lt_of_lt_of_le expired soon)
  · left
    obtain ⟨here, same⟩ := find_eq_some_iff.mp hit
    refine find_eq_some_iff.mpr ⟨mem_filter.mpr ⟨here, ?_⟩, same⟩
    simpa using expired

theorem Store.Guarded.tick (safe : db.Guarded rs keep)
    {now : Int} (late : db.clock ≤ now) (fits : now < clockBound) :
    ({ db with clock := now } : Store).Guarded rs keep := by
  refine ⟨⟨le_trans safe.fits.1 late, fits⟩, safe.checked, ?_, safe.once⟩
  intro used mem
  exact (safe.kept used mem).mono late fun row hit => .inl hit

theorem advance_kept (safe : db.Guarded rs keep) (inv : call.Sound rs keep db idx)
    (regular : db.regular rs keep call = true)
    (ran : db.advance rs keep io idx call = some (fin, next)) :
    Kept rs keep db idx fin next := by
  cases call with
  | tick now =>
    simp only [Store.advance] at ran
    split_ifs at ran with late
    cases ran
    exact ⟨safe.tick late.1 late.2, trivial, late.1, fun _ mem => mem⟩
  | verify keys n binding =>
    simp only [Store.advance] at ran
    split at ran
    · cases ran
      exact .still safe trivial
    · rename_i raw good
      cases ran
      obtain ⟨decoded, length, new⟩ := decoded_of_verify good
      refine .still safe ⟨?_, le_refl _⟩
      exact ⟨regular, decoded, length, new, safe.fits⟩
  | observe n raw seenAt =>
    cases ran
    refine .still safe ⟨inv.1, ?_⟩
    have old := inv.2
    omega
  | insert n raw seenAt exp =>
    have kept := @insert_kept rs keep db io idx safe n raw
      seenAt exp inv.1 inv.2 (of_decide_eq_true regular)
    simp only [Store.advance, Option.some.injEq] at ran
    rw [ran] at kept
    exact kept
  | sweepRead =>
    cases ran
    exact .still safe (le_refl _)
  | sweepDelete reading =>
    simp only [Store.advance] at ran
    split_ifs at ran
    · cases ran
      exact .still safe trivial
    · cases ran
      exact ⟨safe.sweep inv, trivial, le_refl _, fun _ mem => mem⟩
  | _ => cases ran

end

section

variable {rules : Rules} {retention : Int} {pool : Pool Store StoreCall}

theorem guarded_of_reaches (met : Reaches (machine rules retention).step
      (Regular rules retention) (.quiet .initial) pool) : pool.shared.Guarded rules retention ∧
      pool.All fun idx c =>
        c.Sound rules retention pool.shared idx := by
  refine met.rely (Store.Guarded rules retention)
    (fun db idx c => c.Sound rules retention db idx) ?_ ?_ ?_
  · refine ⟨⟨by decide, ?_, ?_, ?_⟩, ?_⟩
    · intro used mem
      cases mem
    · intro used mem
      cases mem
    · intro l mem
      cases mem
    · intro idx c there
      cases there
  · intro db idx req _
    cases req <;> trivial
  · intro pool idx io c next db may here safe inv ran
    have regular : pool.shared.regular rules retention c = true := by
      have all : pool.calls[idx]?.all (pool.shared.regular rules retention) = true := may
      rwa [here] at all
    have kept := advance_kept safe inv regular ran
    exact ⟨kept.guarded, kept.own, fun alt there _ _ held =>
      held.mono kept.later kept.spent⟩

/-- At most one request passes with a nonce that was minted, whatever text it
presents the nonce in, in every run in which presented texts have no characters
the decoder skips and no Core stalls before its insert. -/
theorem nonce_spent_once (reached : Reaches (machine rules retention).step
      (Regular rules retention) (.quiet .initial) pool)
    (key binding : Bytes) (issuedAt : Int) {left right : Nat} {one two : String}
    (leftPassed : pool.calls[left]? = some (.passed one))
    (rightPassed : pool.calls[right]? = some (.passed two)) (leftText : Base64.decode one =
      Base64.decode (rules.mint key binding issuedAt)) (rightText : Base64.decode two =
      Base64.decode (rules.mint key binding issuedAt)) : left = right := by
  obtain ⟨guarded, sound⟩ := guarded_of_reaches reached
  obtain ⟨first, firstSpent, rfl, rfl⟩ := sound left _ leftPassed
  obtain ⟨second, secondSpent, rfl, rfl⟩ := sound right _ rightPassed
  refine guarded.once first firstSpent second secondSpent ?_
  have firstBytes := (guarded.checked first firstSpent).decoded
  have secondBytes := (guarded.checked second secondSpent).decoded
  rw [leftText, ← rightText, secondBytes, Option.some.injEq] at firstBytes
  exact firstBytes.symm

end

namespace Example

def rules : Rules where
  hmac _ _ := List.replicate 32 0
  ttl := 60 * second
  maxSkew := 30 * second
  ttlPositive := by decide
  ttlFits := by decide
  maxSkewPositive := by decide
  maxSkewFits := by decide

def retention : Int := 120 * second

def minted : String :=
  rules.mint [] [] 0

def repeated : List (Pool.Event StoreRequest StoreIo) :=
  [.request (.present [[]] minted []), .request (.present [[]] minted [])] ++
    List.replicate 3 (.statement 0 {}) ++ List.replicate 3 (.statement 1 {})

def reworded : List (Pool.Event StoreRequest StoreIo) :=
  [.request (.present [[]] minted []), .request (.present [[]] (minted.push '\n') [])] ++
    List.replicate 3 (.statement 0 {}) ++ List.replicate 3 (.statement 1 {})

end Example

open Example

theorem nonce_spent_once_repeated : ∃ pool, Reaches (machine rules retention).step
        (Regular rules retention) (.quiet .initial) pool ∧ pool.calls[0]? = some (.passed minted) ∧
      ∀ index, pool.calls[index]? = some (.passed minted) → index = 0 := by
  have reached := @reaches_getD _ _ (machine rules retention).step
    (Regular rules retention) _ (.quiet .initial) repeated (.quiet .initial) (by decide)
  refine ⟨_, reached, rfl, ?_⟩
  intro index passed
  exact nonce_spent_once reached [] [] 0 passed rfl rfl rfl

/-- The same nonce passes twice, once with a line feed behind it. -/
theorem nonce_spent_twice_reworded :
    ∃ pool, Reachable (machine rules retention).step (.quiet .initial) pool ∧
      pool.calls[0]? = some (.passed minted) ∧ pool.calls[1]? = some (.passed (minted.push '\n')) ∧
      Base64.decode (minted.push '\n') = Base64.decode minted := by
  have reached := @reachable_getD _ _ (machine rules retention).step (.quiet .initial)
    reworded (.quiet .initial) (by decide)
  exact ⟨_, reached, rfl, rfl, by decide⟩

end Harbor.Nonce
