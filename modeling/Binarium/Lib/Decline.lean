import Mathlib.Algebra.BigOperators.Intervals
import Mathlib.Algebra.Order.BigOperators.Group.Finset
import Mathlib.Tactic.Ring
import Mathlib.Tactic.Linarith

set_option autoImplicit false

/-! # A quantity that declines by a fixed fraction each period

`decline d x = x - x / d` with integer division, applied once per period of `I` steps. The sum over
all steps is bounded without any geometric series: one period's loss `x / d` is at least
`(x - (d - 1)) / d`, so the amounts telescope against the losses (`sum_decline_le`). The division
makes the decline stop below `d`, which costs `d - 1` per step. -/

namespace Decline

open Nat hiding eq_zero_or_pos

/-- One period's decline. -/
def decline (d x : ℕ) : ℕ := x - x / d

variable {d : ℕ}

theorem decline_le (x : ℕ) : decline d x ≤ x := sub_le _ _

theorem decline_mono {x y : ℕ} (h : x ≤ y) : decline d x ≤ decline d y := by
  obtain ⟨k, rfl⟩ := Nat.exists_eq_add_of_le h
  unfold decline
  rcases Nat.eq_zero_or_pos d with rfl | hd
  · simp
  · -- adding `k` adds at most `k` to the quotient
    have hk : (x + k) / d ≤ x / d + k := by
      rw [← add_mul_div_right x k hd]
      exact Nat.div_le_div_right (Nat.add_le_add_left (Nat.le_mul_of_pos_right k hd) x)
    omega

/-- The decline never widens a gap. -/
theorem decline_add_le (x k : ℕ) : decline d (x + k) ≤ decline d x + k := by
  have hmono : x / d ≤ (x + k) / d := Nat.div_le_div_right (Nat.le_add_right x k)
  unfold decline
  omega

theorem iterate_decline_mono {x y : ℕ} (h : x ≤ y) (k : ℕ) :
    (decline d)^[k] x ≤ (decline d)^[k] y := by
  induction k generalizing x y with
  | zero => exact h
  | succ k ih => exact ih (decline_mono h)

theorem iterate_decline_add_le (x k n : ℕ) : (decline d)^[n] (x + k) ≤ (decline d)^[n] x + k := by
  induction n generalizing x with
  | zero => exact le_rfl
  | succ n ih =>
    calc (decline d)^[n] (decline d (x + k))
        ≤ (decline d)^[n] (decline d x + k) := iterate_decline_mono (decline_add_le x k) n
      _ ≤ (decline d)^[n] (decline d x) + k := ih _

theorem iterate_decline_antitone (x : ℕ) {k n : ℕ} (h : k ≤ n) :
    (decline d)^[n] x ≤ (decline d)^[k] x := by
  induction n, h using le_induction with
  | base => exact le_rfl
  | succ n _ ih =>
    rw [Function.iterate_succ_apply']
    exact le_trans (decline_le _) ih

/-- What is there now, against what the next decline removes. -/
theorem le_mul_loss (hd : 0 < d) (x : ℕ) : x ≤ d * (x - decline d x) + (d - 1) := by
  have hx : x / d ≤ x := div_le_self x d
  have hloss : x - decline d x = x / d := Nat.sub_sub_self hx
  have hmod : x % d < d := mod_lt x hd
  have hdiv := div_add_mod x d
  rw [hloss]
  omega

/-- **The sum over `n` steps of a quantity that declines every `I` steps.** -/
theorem sum_decline_le (hd : 0 < d) {I : ℕ} (hI : 0 < I) (x n : ℕ) :
    ∑ h ∈ Finset.range n, (decline d)^[h / I] x ≤ d * I * x + (d - 1) * n := by
  -- what the next `I` steps pay, `d` times over, covers what was lost so far
  have key : ∑ h ∈ Finset.range n, (decline d)^[h / I] x
      + d * ∑ j ∈ Finset.range I, (decline d)^[(j + n) / I] x ≤ d * I * x + (d - 1) * n := by
    induction n with
    | zero =>
      have hfirst : ∑ j ∈ Finset.range I, (decline d)^[j / I] x = I * x := by
        rw [Finset.sum_congr rfl fun j hj => by
          rw [div_eq_of_lt (Finset.mem_range.mp hj), Function.iterate_zero_apply]]
        simp
      simp [hfirst, mul_assoc]
    | succ n ih =>
      -- the window loses the amount of step `n` and gains the same declined once more
      have hwindow : ∑ j ∈ Finset.range I, (decline d)^[(j + (n + 1)) / I] x + (decline d)^[n / I] x
          = ∑ j ∈ Finset.range I, (decline d)^[(j + n) / I] x + decline d ((decline d)^[n / I] x) := by
        have hlast : (I + n) / I = n / I + 1 := add_div_left n hI
        rw [← Function.iterate_succ_apply' (decline d), succ_eq_add_one, ← hlast,
          ← Finset.sum_range_succ fun j => (decline d)^[(j + n) / I] x, Finset.sum_range_succ']
        simp [add_assoc, add_comm 1]
      have hloss := le_mul_loss hd ((decline d)^[n / I] x)
      have hle := @decline_le d ((decline d)^[n / I] x)
      rw [Finset.sum_range_succ]
      zify [hle, hd] at *
      linarith [congrArg (fun s : ℤ => d * s) hwindow]
  exact le_trans (Nat.le_add_right _ _) key

end Decline
