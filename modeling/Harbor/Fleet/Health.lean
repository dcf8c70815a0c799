import Harbor.Library.Int64
import Mathlib.Data.List.Sort

/-!
# Health counts and their drill-downs

`Summarize` counts each condition through `classify`, in times and durations;
`ConditionSQL` selects the rows of the same condition by integer comparisons.
A time is its nanoseconds since the epoch.  The alert texts are left out.
-/

namespace Harbor.Health

open Library List

/-- `Time.Sub`: a difference out of range becomes the nearest duration. -/
def sub (late early : Int) : Int :=
  max (-2 ^ 63) (min (2 ^ 63 - 1) (late - early))

def abs (n : Int) : Int :=
  if n < 0 then -n else n

structure Row where
  overlayIP : String
  deviceName : String
  certNotAfter : Int
  lastSeen : Int
  clockOffsetMs : Int
  health : String

structure Thresholds where
  expiryWindow : Int
  staleAfter : Int
  clockSkewMs : Int

inductive Condition where
  | expired
  | expiring
  | stale
  | clockSkewed
  | unhealthy

structure Conditions where
  (expired expiring stale clockSkewed unhealthy : Bool)

def Conditions.holds (c : Conditions) : Condition → Bool
  | .expired => c.expired
  | .expiring => c.expiring
  | .stale => c.stale
  | .clockSkewed => c.clockSkewed
  | .unhealthy => c.unhealthy

def classify (r : Row) (now : Int) (th : Thresholds) : Conditions where
  expired := r.certNotAfter != 0 && r.certNotAfter < now
  expiring := !(r.certNotAfter != 0 && r.certNotAfter < now) &&
    (r.certNotAfter != 0 && sub r.certNotAfter now < th.expiryWindow)
  stale := 0 < th.staleAfter && th.staleAfter < sub now r.lastSeen
  clockSkewed := 0 < th.clockSkewMs && th.clockSkewMs < abs r.clockOffsetMs
  unhealthy := r.health != "" && r.health != "ok"

def conditionSQL (cond : Condition) (now : Int) (th : Thresholds) (r : Row) : Bool :=
  let nowNs := int64 now
  match cond with
  | .expired => r.certNotAfter != 0 && r.certNotAfter < nowNs
  | .expiring =>
    r.certNotAfter != 0 && nowNs ≤ r.certNotAfter &&
      r.certNotAfter < int64 (nowNs + th.expiryWindow)
  | .stale => if th.staleAfter ≤ 0 then 1 == 0 else r.lastSeen < int64 (nowNs - th.staleAfter)
  | .clockSkewed =>
    if th.clockSkewMs ≤ 0 then 1 == 0
    else th.clockSkewMs < r.clockOffsetMs || r.clockOffsetMs < int64 (-th.clockSkewMs)
  | .unhealthy => r.health != "" && r.health != "ok"

structure Device where
  row : Row
  reasons : List Condition

structure Report where
  total : Nat
  expired : Nat := 0
  expiringSoon : Nat := 0
  stale : Nat := 0
  clockSkewed : Nat := 0
  unhealthy : Nat := 0
  atRisk : List Device := []

def Report.count (rep : Report) : Condition → Nat
  | .expired => rep.expired
  | .expiring => rep.expiringSoon
  | .stale => rep.stale
  | .clockSkewed => rep.clockSkewed
  | .unhealthy => rep.unhealthy

def device (now : Int) (th : Thresholds) (r : Row) : Device where
  row := r
  reasons := [.expired, .expiring, .stale].filter (classify r now th).holds

def tally (now : Int) (th : Thresholds) (rep : Report) (r : Row) : Report :=
  let c := classify r now th
  let d := device now th r
  { total := rep.total
    expired := rep.expired + c.expired.toNat
    expiringSoon := rep.expiringSoon + c.expiring.toNat
    stale := rep.stale + c.stale.toNat
    clockSkewed := rep.clockSkewed + c.clockSkewed.toNat
    unhealthy := rep.unhealthy + c.unhealthy.toNat
    atRisk := if 0 < d.reasons.length then rep.atRisk ++ [d] else rep.atRisk }

/-- The order of rows with one expiry is left open by `sort.Slice`. -/
def summarize (rows : List Row) (now : Int) (th : Thresholds) : Report :=
  let rep := rows.foldl (tally now th) { total := rows.length }
  { rep with
    atRisk := rep.atRisk.mergeSort fun a b => a.row.certNotAfter ≤ b.row.certNotAfter }

/-- No value or sum is out of its machine type, and a row's times are not
before the epoch. -/
structure Sane (now : Int) (th : Thresholds) (r : Row) : Prop where
  clock : -2 ^ 63 ≤ now ∧ now < 2 ^ 63
  certNotAfter : 0 ≤ r.certNotAfter ∧ r.certNotAfter < 2 ^ 63
  lastSeen : 0 ≤ r.lastSeen ∧ r.lastSeen < 2 ^ 63
  window : th.expiryWindow < 2 ^ 63
  expiry : -2 ^ 63 ≤ now + th.expiryWindow ∧ now + th.expiryWindow < 2 ^ 63
  stale : -2 ^ 63 ≤ now - th.staleAfter
  skew : th.clockSkewMs < 2 ^ 63
  offset : -2 ^ 31 ≤ r.clockOffsetMs ∧ r.clockOffsetMs < 2 ^ 31

section

variable {now : Int} {th : Thresholds} {r : Row}

theorem lt_abs_iff {bd n : Int} (pos : 0 < bd) : bd < abs n ↔ bd < n ∨ n < -bd := by
  unfold abs
  split_ifs <;> omega

/-- The two definitions of a condition agree. -/
theorem holds_classify (sane : Sane now th r) (cond : Condition) :
    (classify r now th).holds cond = conditionSQL cond now th r := by
  obtain ⟨t, cert, seen, window, exp, stale, skew, offset⟩ := sane
  have full : int64 now = now := int64_eq_self t.1 t.2
  cases cond with
  | expired => simp only [Conditions.holds, classify, conditionSQL, full]
  | expiring =>
    simp only [Conditions.holds, classify, conditionSQL, full, int64_eq_self exp.1 exp.2, sub]
    rw [Bool.eq_iff_iff]
    simp only [Bool.and_eq_true, Bool.not_eq_true', Bool.and_eq_false_iff, bne_iff_ne,
      bne_eq_false_iff_eq, decide_eq_true_eq, decide_eq_false_iff_not, sup_lt_iff, inf_lt_iff]
    omega
  | stale =>
    simp only [Conditions.holds, classify, conditionSQL, full, sub]
    split_ifs with off
    · simp [off]
    · rw [int64_eq_self stale (by omega), Bool.eq_iff_iff]
      simp only [Bool.and_eq_true, decide_eq_true_eq, lt_sup_iff, lt_inf_iff]
      omega
  | clockSkewed =>
    simp only [Conditions.holds, classify, conditionSQL]
    split_ifs with off
    · simp [off]
    · rw [int64_eq_self (by omega) (by omega), Bool.eq_iff_iff]
      simp only [Bool.and_eq_true, Bool.or_eq_true, decide_eq_true_eq, lt_abs_iff (not_le.mp off)]
      omega
  | unhealthy => rfl

theorem count_tally (rep : Report) (cond : Condition) :
    (tally now th rep r).count cond = rep.count cond + ((classify r now th).holds cond).toNat := by
  cases cond <;> rfl

theorem count_foldl (rs : List Row) (rep : Report) (cond : Condition) :
    (rs.foldl (tally now th) rep).count cond =
      rep.count cond + rs.countP fun r => (classify r now th).holds cond := by
  induction rs generalizing rep with
  | nil => rfl
  | cons r rs ih =>
    rw [foldl_cons, ih, count_tally, countP_cons]
    cases (classify r now th).holds cond
    · simp
    · simp only [Bool.toNat_true, if_true]
      omega

theorem atRisk_foldl (rs : List Row) (rep : Report) :
    (rs.foldl (tally now th) rep).atRisk = rep.atRisk ++
      (rs.map (device now th)).filter fun d => 0 < d.reasons.length := by
  induction rs generalizing rep with
  | nil => simp
  | cons r rs ih =>
    rw [foldl_cons, ih, map_cons, filter_cons]
    simp only [tally]
    split_ifs <;> simp_all

end

/-- The counts are those of the drill-downs, no row counts as expired and as
expiring, and the rows at risk are those expired, expiring or stale. -/
theorem summarize_counts (rows : List Row) (now : Int) (th : Thresholds)
    (sane : ∀ r ∈ rows, Sane now th r) :
    (∀ cond, (summarize rows now th).count cond = rows.countP (conditionSQL cond now th)) ∧
      (∀ r, ((classify r now th).expired && (classify r now th).expiring) = false) ∧
      (summarize rows now th).atRisk.map Device.row ~ rows.filter fun r =>
        conditionSQL .expired now th r || conditionSQL .expiring now th r ||
          conditionSQL .stale now th r := by
  refine ⟨?_, ?_, ?_⟩
  · intro cond
    have same : (summarize rows now th).count cond =
        (rows.foldl (tally now th) { total := rows.length }).count cond := by cases cond <;> rfl
    have zero : ({ total := rows.length } : Report).count cond = 0 := by cases cond <;> rfl
    rw [same, count_foldl, zero, Nat.zero_add]
    exact countP_congr fun r mem => by rw [holds_classify (sane r mem)]
  · intro r
    simp only [classify]
    cases r.certNotAfter != 0 && decide (r.certNotAfter < now) <;> rfl
  · refine ((mergeSort_perm _ _).map Device.row).trans (Perm.of_eq ?_)
    rw [atRisk_foldl, nil_append, filter_map, map_map]
    refine (map_id _).trans (filter_congr fun r mem => ?_)
    simp only [← holds_classify (sane r mem)]
    simp only [Function.comp, device, filter_cons, filter_nil]
    cases (classify r now th).holds .expired <;> cases (classify r now th).holds .expiring <;>
      cases (classify r now th).holds .stale <;> rfl

def lateRow : Row := ⟨"10.0.0.2", "web", 5, 5, 0, "ok"⟩

theorem summarize_counts_late : (summarize [lateRow] 10 ⟨3, 3, 3⟩).stale =
    [lateRow].countP (conditionSQL .stale 10 ⟨3, 3, 3⟩) :=
  (summarize_counts [lateRow] 10 ⟨3, 3, 3⟩ fun r mem => by
    rw [mem_singleton.mp mem]
    constructor <;> decide).1 .stale

end Harbor.Health
