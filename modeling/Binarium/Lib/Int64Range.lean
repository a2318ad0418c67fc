import Mathlib.Algebra.BigOperators.Group.List.Basic
import Mathlib.Tactic.NormNum

set_option autoImplicit false

/-! # Signed 64-bit arithmetic and the integers

`Int64` arithmetic wraps. These lemmas move it to `ℤ`: exactly, when the exact result is in range,
and as an inequality when it may have wrapped in one direction only. -/

namespace Int64

open Int64

theorem bmod_eq_of_range {x : ℤ} (h : -2 ^ 63 ≤ x) (h' : x < 2 ^ 63) : x.bmod (2 ^ 64) = x :=
  Int.bmod_eq_of_le_mul_two (by norm_num at *; omega) (by norm_num at *; omega)

variable {a b : Int64}

theorem toInt_add_of_range (h : -2 ^ 63 ≤ a.toInt + b.toInt) (h' : a.toInt + b.toInt < 2 ^ 63) :
    (a + b).toInt = a.toInt + b.toInt := by
  rw [toInt_add, bmod_eq_of_range h h']

/-- A sum that does not wrap upwards is at most the exact one. -/
theorem toInt_add_le (h : -2 ^ 63 ≤ a.toInt + b.toInt) : (a + b).toInt ≤ a.toInt + b.toInt := by
  rw [toInt_add]
  by_cases hlt : a.toInt + b.toInt < 2 ^ 63
  · rw [bmod_eq_of_range h hlt]
  · -- beyond the range the result is below it, the sum is not
    have hwrap : (a.toInt + b.toInt).bmod (2 ^ 64) < 2 ^ 63 := Int.bmod_lt (by norm_num)
    exact le_trans hwrap.le (not_lt.mp hlt)

theorem toInt_sub_of_range (h : -2 ^ 63 ≤ a.toInt - b.toInt) (h' : a.toInt - b.toInt < 2 ^ 63) :
    (a - b).toInt = a.toInt - b.toInt := by
  rw [toInt_sub, bmod_eq_of_range h h']

theorem toInt_mul_of_range (h : -2 ^ 63 ≤ a.toInt * b.toInt) (h' : a.toInt * b.toInt < 2 ^ 63) :
    (a * b).toInt = a.toInt * b.toInt := by
  rw [toInt_mul, bmod_eq_of_range h h']

/-- Truncating division of a nonnegative number is floor division. -/
theorem toInt_div_of_nonneg (ha : 0 ≤ a.toInt) (hb : 0 < b.toInt) :
    (a / b).toInt = a.toInt / b.toInt := by
  have hne : b ≠ -1 := by
    rintro rfl
    exact absurd hb (by decide)
  rw [toInt_div_of_ne_right a b hne, Int.tdiv_eq_ediv_of_nonneg ha]

/-! ## Unsigned numbers in between -/

theorem toInt_toInt64_of_lt {x : UInt64} (h : x.toNat < 2 ^ 63) : x.toInt64.toInt = x.toNat := by
  have hmsb : 2 * x.toBitVec.toNat < 2 ^ 64 := by
    rw [UInt64.toNat_toBitVec]
    omega
  rw [← toInt_toBitVec, UInt64.toBitVec_toInt64, BitVec.toInt_eq_toNat_of_lt hmsb,
    UInt64.toNat_toBitVec]

theorem toNat_toUInt64_of_nonneg (h : 0 ≤ a.toInt) : (a.toUInt64.toNat : ℤ) = a.toInt := by
  rw [← UInt64.toNat_toBitVec, toBitVec_toUInt64, ← toInt_toBitVec]
  rw [← toInt_toBitVec] at h
  rw [BitVec.toInt_eq_toNat_cond] at h ⊢
  split_ifs at h ⊢ <;> omega

/-! ## Sums and differences -/

/-- A running sum wraps once for all of its terms. -/
theorem toInt_foldl_add {α : Type*} (f : α → Int64) (l : List α) : ∀ acc : Int64,
    (l.foldl (fun acc a => acc + f a) acc).toInt
      = (acc.toInt + (l.map fun a => (f a).toInt).sum).bmod (2 ^ 64) := by
  induction l with
  | nil =>
    intro acc
    simp
  | cons a rest ih =>
    intro acc
    rw [List.foldl_cons, ih, toInt_add, Int.bmod_add_bmod, List.map_cons, List.sum_cons, add_assoc]

/-- A running sum that does not wrap upwards is at least the exact one. -/
theorem sum_le_toInt_foldl_add {α : Type*} (f : α → Int64) (l : List α)
    (h : (l.map fun a => (f a).toInt).sum < 2 ^ 63) :
    (l.map fun a => (f a).toInt).sum ≤ (l.foldl (fun acc a => acc + f a) 0).toInt := by
  rw [toInt_foldl_add, toInt_zero, zero_add]
  by_cases hlow : -2 ^ 63 ≤ (l.map fun a => (f a).toInt).sum
  · rw [bmod_eq_of_range hlow h]
  · have hwrap : -(2 ^ 63) ≤ (l.map fun a => (f a).toInt).sum.bmod (2 ^ 64) :=
      Int.le_bmod (by norm_num)
    omega

theorem toInt_add_le_of_le_sub {c : Int64} (hba : b ≤ a) (hc : 0 ≤ c.toInt) (h : c ≤ a - b) :
    b.toInt + c.toInt ≤ a.toInt := by
  rw [le_iff_toInt_le] at hba h
  have ha := toInt_lt a
  have hb := le_toInt b
  by_cases hlt : a.toInt - b.toInt < 2 ^ 63
  · rw [toInt_sub_of_range (by omega) hlt] at h
    omega
  · have hwrap : (a.toInt - b.toInt).bmod (2 ^ 64) = a.toInt - b.toInt - 2 ^ 64 := by
      rw [Int.bmod_def]
      omega
    rw [toInt_sub, hwrap] at h
    exact absurd (hc.trans h) (by omega)

end Int64
