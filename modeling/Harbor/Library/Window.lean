import Mathlib.Data.Int.Order.Basic
import Mathlib.Data.List.Basic

/-!
# Sliding windows

A list of times is sparse when no half-open interval of one window's length
holds more of them than the limit.  A time may be added when fewer than that
many lie in the window that ends with it.
-/

namespace Harbor.Library

open List

/-- No interval of the length of the window, open on either side, holds more
than `limit` of the times. -/
def Sparse (limit window : Int) (times : List Int) : Prop :=
  ∀ start, (times.countP (fun time =>
      decide (start ≤ time) && decide (time < start + window)) : Int) ≤ limit ∧
    (times.countP (fun time =>
      decide (start < time) && decide (time ≤ start + window)) : Int) ≤ limit

variable {limit window now : Int} {times : List Int}

theorem sparse_nil (nonneg : 0 ≤ limit) : Sparse limit window [] :=
  fun _ => ⟨nonneg, nonneg⟩

theorem countP_append_le (bd : (times.countP lies : Int) ≤ limit)
    (room : (times.countP (fun t => decide (now - window < t)) : Int) < limit)
    (cov : lies now = true → ∀ t, lies t = true → now - window < t) :
    ((times ++ [now]).countP lies : Int) ≤ limit := by
  rw [countP_append, countP_singleton]
  split
  · rename_i mem
    have fewer : times.countP lies ≤ times.countP (fun t => decide (now - window < t)) := by
      refine countP_mono_left ?_
      intro t _ io
      exact decide_eq_true (cov mem t io)
    omega
  · rw [Nat.add_zero]
    exact bd

theorem Sparse.append (sparse : Sparse limit window times)
    (room : (times.countP (fun t => decide (now - window < t)) : Int) <
      limit) : Sparse limit window (times ++ [now]) := by
  intro init
  obtain ⟨closed, opened⟩ := sparse init
  refine ⟨countP_append_le closed room ?_, countP_append_le opened room ?_⟩
  · intro lies t io
    simp only [Bool.and_eq_true, decide_eq_true_eq] at lies io
    omega
  · intro lies t io
    simp only [Bool.and_eq_true, decide_eq_true_eq] at lies io
    omega

end Harbor.Library
