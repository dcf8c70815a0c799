import Harbor.Keys.Registry
import Harbor.Library.Int64
import Harbor.Library.Run

/-!
# Accelerated drains

While a draining CA is under a force-renew, a heartbeat tells a host that still
chains to it to renew once the host's bucket has opened.  Buckets open with
the elapsed time and never close, so the answer turns to yes once and stays.
-/

namespace Harbor.CaDrain.Accelerated

open Library Library.Text Keys Option

/-- The fingerprints of parsed certificates: lower-case hexadecimal. -/
def Normal (fingerprint : String) : Prop :=
  fingerprint ≠ "" ∧ trimSpace fingerprint = fingerprint ∧
    ∀ fold : CaseMap, fold.lower fingerprint = fingerprint

/-- The columns of `ca_certs` a drain reads. -/
structure Ca where
  id : Int
  fingerprint : String
  state : KeyState
  forceRenewStartedAt : Int := 0
  forceRenewWindowNS : Int := 0
  normal : Normal fingerprint

abbrev Cas := Table Ca.fingerprint

inductive Action where
  | stage (ca : Ca)
  | activate (id : Int)
  | forceRenew (id window now : Int)
  | stopForceRenew (id : Int)
  | retire (id : Int)

/-- The row an action needs. -/
def Action.needs : Action → Ca → Bool
  | .stage _, _ => false
  | .activate id, ca => ca.id == id && ca.state == .staged
  | .forceRenew id window _, ca => decide (0 < window) && ca.id == id && ca.state == .draining
  | .stopForceRenew id, ca => ca.id == id
  | .retire id, ca => ca.id == id && ca.state == .draining

/-- What the updates of an action make of a row. -/
def Action.change : Action → Ca → Ca
  | .stage _, ca => ca
  | .activate id, ca =>
    if ca.state = .active then { ca with state := .draining }
    else if ca.id = id ∧ ca.state = .staged then { ca with state := .active }
    else ca
  | .forceRenew id window now, ca =>
    if ca.id = id ∧ ca.state = .draining then
      { ca with forceRenewStartedAt := now, forceRenewWindowNS := window }
    else ca
  | .stopForceRenew id, ca =>
    if ca.id = id then { ca with forceRenewStartedAt := 0, forceRenewWindowNS := 0 } else ca
  | .retire id, ca =>
    if ca.id = id ∧ ca.state = .draining then { ca with state := .retired } else ca

theorem Action.change_fingerprint (action : Action) (ca : Ca) :
    (action.change ca).fingerprint = ca.fingerprint := by
  cases action <;> simp only [change] <;> split_ifs <;> rfl

def step (cas : Cas) : Action → Option Cas
  | .stage ca => if ca.state = .staged then cas.insert? ca else none
  | action =>
    if cas.rows.any action.needs then
      some (cas.update (fun _ => true) action.change action.change_fingerprint)
    else none

def activeFingerprint (cas : Cas) : String :=
  ((cas.rows.find? fun ca => ca.state == .active).map Ca.fingerprint).getD ""

def drainWave (fold : CaseMap) (cas : Cas) (caFingerprint : String) : Option (Int × Int) :=
  let fp := fold.lower (trimSpace caFingerprint)
  if fp = "" then none
  else (cas.find fp).bind fun ca =>
    if ca.state ≠ .draining ∨ ca.forceRenewStartedAt = 0 ∨ ca.forceRenewWindowNS ≤ 0 then none
    else some (ca.forceRenewStartedAt, ca.forceRenewWindowNS)

/-- `fnv.New32a`. -/
def fnv32a (text : String) : UInt32 :=
  text.toUTF8.toList.foldl (fun hash byte => (hash ^^^ byte.toUInt32) * 16777619) 2166136261

def inDrainWave (overlayIP : String) (startedNS windowNS nowNS : Int) : Bool :=
  if startedNS ≤ 0 ∨ windowNS ≤ 0 then false
  else
    let elapsed := int64 (nowNS - startedNS)
    if elapsed < 0 then false
    else if windowNS ≤ elapsed then true
    else (fnv32a overlayIP % 100).toNat ≤ (int64 (elapsed * 100)).tdiv windowNS

/-- `strings.EqualFold`. -/
def equalFold (fold : CaseMap) (left right : String) : Bool :=
  fold.lower left == fold.lower right

/-- What a heartbeat reads beside the registry: whether the two reads of it
succeed, the local signer and its breaker, `none` when that read fails. -/
structure Reads where
  active : Bool := true
  wave : Bool := true
  signer : Option String
  breaker : Option Bool := some false

def forceRenewStraggler (fold : CaseMap) (cas : Option Cas) (reads : Reads)
    (overlayIP hostCAFp : String) (now : Int) : Bool :=
  match cas with
  | none => false
  | some cas =>
    let activeFp := activeFingerprint cas
    if hostCAFp = "" then false
    else if reads.active = false ∨ activeFp = "" ∨ equalFold fold hostCAFp activeFp then false
    else if reads.signer.any (equalFold fold · activeFp) = false then false
    else
      match drainWave fold cas hostCAFp with
      | none => false
      | some (startedNS, windowNS) =>
        reads.wave && inDrainWave overlayIP startedNS windowNS now && reads.breaker != some true

/-- The breaker is closed, the signer is on the active CA and no read fails. -/
structure Ready (fold : CaseMap) (cas : Cas) (reads : Reads) : Prop where
  active : reads.active = true ∧ ∃ ca ∈ cas.rows, ca.state = .active
  wave : reads.wave = true
  signer : ∃ signer, reads.signer = some signer ∧
    equalFold fold signer (activeFingerprint cas) = true
  breaker : reads.breaker = some false

theorem find_step {cas : Cas} (hit : cas.find want = some ca) (hop : step cas action = some fin) :
    fin.find want = some (action.change ca) := by
  unfold step at hop
  split at hop
  · split_ifs at hop
    obtain ⟨-, new⟩ := Table.insert?_eq_some hop
    rw [Table.find_insert? hop, if_neg fun eq => ?_, hit]
    · rfl
    · rw [← eq, hit] at new
      cases new
  · split_ifs at hop
    cases hop
    rw [Table.find_update, hit]
    rfl

/-- One year. -/
def year : Int := 365 * 24 * 3600 * 1000000000

/-- The drain of the CA `fp`, started once. -/
structure Drain where
  id : Int
  fp : String
  started : Int
  window : Int
  clock : 0 < started ∧ started < 2 ^ 63
  length : 0 < window ∧ window ≤ year

namespace Drain

def On (d : Drain) (cas : Cas) : Prop :=
  ∃ ca, cas.find d.fp = some ca ∧ ca.id = d.id ∧ ca.state = .draining ∧
    ca.forceRenewStartedAt = d.started ∧ ca.forceRenewWindowNS = d.window

def Off (d : Drain) (cas : Cas) : Prop :=
  ∃ ca, cas.find d.fp = some ca ∧ ca.id = d.id ∧
    (ca.state = .retired ∨ ca.state = .draining ∧ ca.forceRenewStartedAt = 0)

def Restarts (d : Drain) : Action → Prop
  | .forceRenew id _ _ => id = d.id
  | _ => False

def Ends (d : Drain) : Action → Prop
  | .stopForceRenew id | .retire id => id = d.id
  | _ => False

variable {d : Drain} {cas fin : Cas} {action : Action} {fold : CaseMap} {reads : Reads}

theorem On.step (on : d.On cas) (once : ¬d.Restarts action)
    (hop : Accelerated.step cas action = some fin) :
    (¬d.Ends action → d.On fin) ∧ (d.Ends action → d.Off fin) := by
  obtain ⟨ca, hit, eq, dries, started, window⟩ := on
  have found := find_step hit hop
  by_cases ends : d.Ends action
  · refine ⟨fun goes => (goes ends).elim, fun _ => ⟨_, found, ?_⟩⟩
    cases action <;> first | exact ends.elim | simp_all [Action.change, Ends]
  · refine ⟨fun _ => ⟨ca, ?_, eq, dries, started, window⟩, fun now => (ends now).elim⟩
    have spared : action.change ca = ca := by
      cases action with
      | stage => rfl
      | activate => simp [Action.change, dries]
      | forceRenew => exact if_neg fun both => once (both.1.symm.trans eq)
      | stopForceRenew => exact if_neg fun equal => ends (equal.symm.trans eq)
      | retire => exact if_neg fun both => ends (both.1.symm.trans eq)
    rwa [spared] at found

theorem Off.step (off : d.Off cas) (once : ¬d.Restarts action)
    (hop : Accelerated.step cas action = some fin) : d.Off fin := by
  obtain ⟨ca, hit, eq, done⟩ := off
  refine ⟨_, find_step hit hop, ?_⟩
  cases action with
  | stage => exact ⟨eq, done⟩
  | forceRenew id =>
    have o : ca.id ≠ id := fun equal => once (equal.symm.trans eq)
    simpa [Action.change, o] using ⟨eq, done⟩
  | _ =>
    rcases done with gone | ⟨dries, zero⟩ <;> simp only [Action.change] <;>
      split_ifs <;> simp_all

theorem normal (hit : cas.find d.fp = some ca) : Normal d.fp :=
  (Table.find_eq_some_iff.mp hit).2 ▸ ca.normal

theorem straggler_of_on (on : d.On cas) (due : Ready fold cas reads) (ip : String) (now : Int) :
    forceRenewStraggler fold (some cas) reads ip d.fp now =
      inDrainWave ip d.started d.window now := by
  obtain ⟨ca, hit, -, dries, started, window⟩ := on
  obtain ⟨⟨readable, o, mem, live⟩, wave, ⟨signer, own, eq⟩, shut⟩ := due
  obtain ⟨filled, trim, low⟩ := normal hit
  obtain ⟨cur, fst⟩ : ∃ cur, cas.rows.find? (fun ca => ca.state == .active) = some cur :=
    isSome_iff_exists.mp (List.find?_isSome.mpr ⟨o, mem, by simp [live]⟩)
  have fingerprint : activeFingerprint cas = cur.fingerprint := by
    simp [activeFingerprint, fst]
  have off : d.fp ≠ cur.fingerprint := by
    intro equal
    have anew := Table.find_eq_some_iff.mpr ⟨List.mem_of_find?_eq_some fst, equal.symm⟩
    rw [hit] at anew
    have isActive := List.find?_some fst
    simp [← some.inj anew, dries] at isActive
  have pos := d.length.1
  have nonzero := d.clock.1.ne'
  have drained : drainWave fold cas d.fp = some (d.started, d.window) := by
    simp [drainWave, trim, low, filled, hit, dries, started, window, nonzero, pos]
  have cutOver : fold.lower signer = cur.fingerprint := by
    simpa [equalFold, fingerprint, cur.normal.2.2] using eq
  simp [forceRenewStraggler, filled, readable, fingerprint, cur.normal.1, equalFold, low,
    cur.normal.2.2, off, own, cutOver, drained, wave, shut]

theorem straggler_of_off (off : d.Off cas) (ip : String) (now : Int) :
    forceRenewStraggler fold (some cas) reads ip d.fp now = false := by
  obtain ⟨ca, hit, -, done⟩ := off
  obtain ⟨filled, trim, low⟩ := normal hit
  have none : drainWave fold cas d.fp = none := by
    rcases done with gone | ⟨dries, zero⟩ <;> simp [drainWave, *]
  simp [forceRenewStraggler, none]

theorem inDrainWave_of_over {now : Int} (ip : String) (past : d.started + d.window ≤ now)
    (fits : now < 2 ^ 63) : inDrainWave ip d.started d.window now = true := by
  obtain ⟨pos, -⟩ := d.length
  have t := d.clock
  unfold inDrainWave
  rw [if_neg (by omega), int64_eq_self (by omega) (by omega), if_neg (by omega), if_pos (by omega)]

theorem inDrainWave_mono {ip : String} {now late : Int} (seen : 0 ≤ now) (ord : now ≤ late)
    (fits : late < 2 ^ 63) (told : inDrainWave ip d.started d.window now = true) :
    inDrainWave ip d.started d.window late = true := by
  obtain ⟨pos, short⟩ := d.length
  have t := d.clock
  by_cases past : d.started + d.window ≤ late
  · exact inDrainWave_of_over ip past fits
  by_cases soon : now < d.started
  · unfold inDrainWave at told
    rw [if_neg (by omega), int64_eq_self (by omega) (by omega), if_pos (by omega)] at told
    cases told
  have year : d.window ≤ 31536000000000000 := short
  unfold inDrainWave at told ⊢
  rw [if_neg (by omega), int64_eq_self (by omega) (by omega), if_neg (by omega), if_neg (by omega),
    int64_eq_self (by omega) (by omega), decide_eq_true_eq] at told ⊢
  refine told.trans ?_
  rw [Int.tdiv_eq_ediv_of_nonneg (by omega), Int.tdiv_eq_ediv_of_nonneg (by omega)]
  exact Int.ediv_le_ediv pos (by omega)

/-- The registry runs on, without another start or the end of the drain. -/
def Continues (d : Drain) : Cas → Cas → Prop :=
  Reaches step fun _ action => ¬d.Restarts action ∧ ¬d.Ends action

theorem On.continues (on : d.On cas) (ran : d.Continues cas fin) : d.On fin :=
  ran.invariant d.On on fun on may hop => (on.step may.1 hop).1 may.2

end Drain

open Drain

/-- Over every run of the registry from the start of a drain to its end: every
host of the CA is told to renew once the window is over, a host on the active
CA is not told, a host told once is told at every later heartbeat, and after
the drain is stopped or the CA retired no host is told. -/
theorem drain_completes (d : Drain) (fold : CaseMap) (start cas : Cas) (on : d.On start)
    (ran : d.Continues start cas) (ip : String) (reads : Reads) :
    (Ready fold cas reads → ∀ now < 2 ^ 63, d.started + d.window ≤ now →
      forceRenewStraggler fold (some cas) reads ip d.fp now = true) ∧
    (∀ now host, equalFold fold host (activeFingerprint cas) = true →
      forceRenewStraggler fold (some cas) reads ip host now = false) ∧
    (∀ later reads', d.Continues cas later → Ready fold cas reads → Ready fold later reads' →
      ∀ now ≥ 0, ∀ after < 2 ^ 63, now ≤ after →
      forceRenewStraggler fold (some cas) reads ip d.fp now = true →
      forceRenewStraggler fold (some later) reads' ip d.fp after = true) ∧
    ∀ action ended later, d.Ends action → step cas action = some ended →
      Reaches step (fun _ action => ¬d.Restarts action) ended later →
      ∀ now, forceRenewStraggler fold (some later) reads ip d.fp now = false := by
  have now := On.continues on ran
  refine ⟨?_, ?_, ?_, ?_⟩
  · intro ready time fits past
    rw [straggler_of_on now ready]
    exact inDrainWave_of_over ip past fits
  · intro time host same
    simp [forceRenewStraggler, same]
  · intro later reads' more ready ready' first known second fits order told
    rw [straggler_of_on now ready] at told
    rw [straggler_of_on (On.continues now more) ready']
    exact inDrainWave_mono known order fits told
  · intro action ended later ends taken more time
    have once : ¬d.Restarts action := by
      cases action <;> first | exact id | exact ends.elim
    refine straggler_of_off (more.invariant d.Off ((On.step now once taken).2 ends) ?_) ip time
    exact fun off may taken => off.step may taken

theorem normal_of_plain {t : String} (filled : t ≠ "") (trim : trimSpace t = t)
    (low : t.toList.all (fun c => decide (c.toNat < 128) && c.toLower == c) = true) :
    Normal t :=
  ⟨filled, trim, fun fold => lower_eq_self fold low⟩

def oldCa : Ca where
  id := 1
  fingerprint := "aa"
  state := .draining
  forceRenewStartedAt := 1
  forceRenewWindowNS := 100
  normal := normal_of_plain (by decide) (by decide) (by decide)

def newCa : Ca where
  id := 2
  fingerprint := "bb"
  state := .active
  normal := normal_of_plain (by decide) (by decide) (by decide)

def twoCas : Cas := ⟨[oldCa, newCa], by decide⟩

theorem drain_completes_over :
    forceRenewStraggler .plain (some twoCas) { signer := some "bb" } "10.0.0.2" "aa" 101 = true :=
  (drain_completes ⟨1, "aa", 1, 100, by decide, by decide⟩ .plain twoCas twoCas
    ⟨oldCa, rfl, rfl, rfl, rfl, rfl⟩ .refl "10.0.0.2" { signer := some "bb" }).1
    ⟨⟨rfl, newCa, by simp [twoCas], rfl⟩, rfl, ⟨"bb", rfl, by decide⟩, rfl⟩ 101 (by decide)
    (by decide)

end Harbor.CaDrain.Accelerated
