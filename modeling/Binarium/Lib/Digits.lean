import Binarium.Lib.Words
import Mathlib.Data.Nat.ModEq
import Mathlib.Tactic.LinearCombination

set_option autoImplicit false

/-! # Digits of word arrays

Addition, multiplication and comparison of word arrays go through the words one at a time, the first
two from the least significant word up with a carry. This file has what such a loop needs: the value
of the words below an index (`value_mod_succ`), what writing one word does to the value
(`value_set`), and the value of the complement. A carry loop is then verified by a conservation law:
value of the array plus carry at its position is the sum of what was put in. -/

namespace WordArray

open Nat Finset

variable {w n : ℕ}

variable (a : WordArray w n)

/-- The words below `m + 1` are the words below `m` and word `m` on top. -/
theorem value_mod_succ (m : ℕ) :
    a.value % 2 ^ (w * (m + 1)) = a.value % 2 ^ (w * m) + (a.get m).toNat * 2 ^ (w * m) := by
  rw [← value_div_mod_word, mul_add, mul_one, pow_add, mod_mul, mul_comm (2 ^ _)]

theorem value_mod_width : a.value % 2 ^ (w * n) = a.value :=
  mod_eq_of_lt a.value_lt

theorem value_zero : (zero w n).value = 0 := by
  induction n with
  | zero => rfl
  | succ n ih =>
    have htail : Fin.tail (zero w (n + 1)) = zero w n := rfl
    simp [value, htail, ih, zero]

theorem value_eq_sum : a.value = ∑ i, (a i).toNat * 2 ^ (w * i) := by
  induction n with
  | zero => simp [value]
  | succ n ih => simp [value, ih, Fin.sum_univ_succ, Fin.tail, mul_sum, mul_add, pow_add, mul_comm,
      mul_left_comm]

/-- **Writing a word replaces its digit in the value.** -/
theorem value_set (i : ℕ) (x : BitVec w) (hi : i < n) :
    (a.set i x).value + (a.get i).toNat * 2 ^ (w * i) = a.value + x.toNat * 2 ^ (w * i) := by
  have hupdate := Function.apply_update (fun (j : Fin n) (y : BitVec w) => y.toNat * 2 ^ (w * j)) a
    ⟨i, hi⟩ x
  have hold := sum_eq_add_sum_sdiff_singleton (⟨i, hi⟩ : Fin n)
    (fun j : Fin n => (a j).toNat * 2 ^ (w * j)) fun h => absurd (mem_univ _) h
  rw [value_eq_sum, value_eq_sum, set, dif_pos hi, get, dif_pos hi, sum_congr rfl fun j _ => hupdate j,
    sum_update_of_mem (mem_univ _), hold]
  ring

/-- The words of an array, each complemented. -/
def complement : WordArray w n := fun i => ~~~a i

theorem value_complement : a.complement.value + a.value + 1 = 2 ^ (w * n) := by
  induction n with
  | zero => simp [value]
  | succ n ih =>
    have htail : Fin.tail a.complement = complement (w := w) (n := n) (Fin.tail a) := rfl
    have hrest := ih (Fin.tail a)
    have hword : (a.complement 0).toNat + (a 0).toNat + 1 = 2 ^ w := by
      rw [complement, BitVec.toNat_not]
      omega
    rw [value, value, htail, mul_add, mul_one, pow_add, ← hrest]
    linear_combination hword

theorem ext_value {a b : WordArray w n} (h : a.value = b.value) : a = b := by
  apply ext_get
  intro i _
  apply BitVec.eq_of_toNat_eq
  rw [← value_div_mod_word, ← value_div_mod_word, h]

/-- Setting a clear bit adds its weight. -/
theorem value_set_bit (k : ℕ) (hw : 0 < w) (hk : k < w * n) (hclear : 2 ^ (k + 1) ∣ a.value) :
    (a.set (k / w) (a.get (k / w) ||| (1#w <<< (k % w)))).value = a.value + 2 ^ k := by
  have hword : k / w < n := Nat.div_lt_of_lt_mul hk
  have hor : a.value + 2 ^ k = a.value ||| 2 ^ k := by
    obtain ⟨c, hc⟩ := hclear
    rw [hc]
    exact Nat.two_pow_add_eq_or_of_lt (Nat.pow_lt_pow_right (by decide) (by omega)) c
  have hlt : a.value ||| 2 ^ k < 2 ^ (w * n) :=
    Nat.or_lt_two_pow a.value_lt (Nat.pow_lt_pow_right (by decide) hk)
  rw [hor]
  apply value_eq_of_testBit hw _ _ hlt
  intro i hi b hb
  rw [get_set _ _ _ _ hword, testBit_or, value_testBit_word _ _ _ hb, testBit_two_pow]
  by_cases hik : i = k / w
  · subst hik
    have hbit : k = w * (k / w) + b ↔ b = k % w := by
      have := div_add_mod k w
      omega
    rw [if_pos rfl, BitVec.getLsbD_or]
    by_cases hbk : b = k % w
    · rw [decide_eq_true (hbit.mpr hbk), hbk, BitVec.getLsbD_shiftLeft]
      simp [mod_lt _ hw, hw]
    · rw [decide_eq_false (fun h => hbk (hbit.mp h)), BitVec.getLsbD_shiftLeft]
      rcases lt_or_ge b (k % w) with hlow | hhigh
      · simp [hlow]
      · have hne : b - k % w ≠ 0 := by omega
        simp [hne]
  · have hbit : ¬ (k = w * i + b) := by
      rintro rfl
      apply hik
      rw [mul_add_div hw, div_eq_of_lt hb, add_zero]
    simp [hik, hbit]

end WordArray
