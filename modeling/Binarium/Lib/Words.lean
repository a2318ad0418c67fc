import Mathlib.Data.Nat.Size
import Mathlib.Data.Nat.Bitwise
import Mathlib.Algebra.BigOperators.Fin
import Mathlib.Tactic.Ring

set_option autoImplicit false

/-! # Arrays of machine words as numbers

A number too wide for one machine word is kept as an array of `n` words of `w` bits, least
significant word first. This file gives such an array its value in `ℕ` and a bit-level reading of
it: bit `j` of the value is bit `j % w` of word `j / w` (`value_testBit`). Word-level algorithms are
then verified by computing one word of the result at a time and comparing bits
(`value_eq_of_testBit`), without any carry reasoning.

Reads and writes are total, as the index arithmetic of such algorithms is checked by the algorithm
itself: a read past the end gives `0` and a write past the end does nothing. -/

/-- An array of `n` words of `w` bits, least significant word first. -/
abbrev WordArray (w n : ℕ) := Fin n → BitVec w

namespace WordArray

open Nat

variable {w n : ℕ}

/-! ## Reading and writing one word -/

variable (a : WordArray w n)

/-- The word at index `i`, `0` past the end. -/
def get (i : ℕ) : BitVec w :=
  if h : i < n then a ⟨i, h⟩ else 0

/-- Write the word at index `i`; past the end nothing happens. -/
def set (i : ℕ) (x : BitVec w) : WordArray w n :=
  if h : i < n then Function.update a ⟨i, h⟩ x else a

/-- The all-zero array. -/
def zero (w n : ℕ) : WordArray w n := fun _ => 0

@[simp] theorem get_zero (i : ℕ) : (zero w n).get i = 0 := by
  unfold get zero
  split <;> rfl

theorem get_of_le {i : ℕ} (h : n ≤ i) : a.get i = 0 :=
  dif_neg (by omega)

theorem get_set (i j : ℕ) (x : BitVec w) (hi : i < n) :
    (a.set i x).get j = if j = i then x else a.get j := by
  unfold get set
  rw [dif_pos hi]
  by_cases hj : j < n
  · rw [dif_pos hj, dif_pos hj]
    by_cases hij : j = i
    · subst hij
      simp
    · rw [if_neg hij, Function.update_of_ne (by simpa using hij)]
  · rw [dif_neg hj, dif_neg hj, if_neg (by omega)]

theorem ext_get {a b : WordArray w n} (h : ∀ i < n, a.get i = b.get i) : a = b := by
  funext ⟨i, hi⟩
  have := h i hi
  simpa [get, hi] using this

/-! ## The value of an array -/

/-- The number an array stands for. -/
def value : {n : ℕ} → WordArray w n → ℕ
  | 0, _ => 0
  | _ + 1, a => (a 0).toNat + 2 ^ w * value (Fin.tail a)

theorem get_tail (a : WordArray w (n + 1)) (i : ℕ) :
    get (w := w) (n := n) (Fin.tail a) i = a.get (i + 1) := by
  unfold get
  by_cases h : i < n
  · rw [dif_pos h, dif_pos (by omega)]
    rfl
  · simp [h]

theorem get_head (a : WordArray w (n + 1)) : a.get 0 = a 0 := by
  simp [get]

/-- **Bit `j` of the value is bit `j % w` of word `j / w`.** -/
theorem value_testBit (hw : 0 < w) (a : WordArray w n) (j : ℕ) :
    (value a).testBit j = (a.get (j / w)).getLsbD (j % w) := by
  induction n generalizing j with
  | zero => simp [value, get]
  | succ n ih =>
    rw [value, add_comm, testBit_two_pow_mul_add _ (a 0).isLt]
    by_cases hj : j < w
    · rw [if_pos hj, div_eq_of_lt hj, mod_eq_of_lt hj, get_head, BitVec.testBit_toNat]
    · have hle : w ≤ j := by omega
      have hdiv : j / w = (j - w) / w + 1 := by
        rw [div_eq_sub_div hw hle]
      have hmod : j % w = (j - w) % w := mod_eq_sub_mod hle
      rw [if_neg hj, ih, get_tail, hdiv, hmod]

theorem value_testBit_word (i b : ℕ) (hb : b < w) :
    (value a).testBit (w * i + b) = (a.get i).getLsbD b := by
  have hw : 0 < w := by omega
  rw [value_testBit hw, mul_add_div hw, div_eq_of_lt hb, mul_add_mod, mod_eq_of_lt hb, add_zero]

/-- Word `i` of an array is the `i`-th digit of its value in base `2^w`. -/
theorem value_div_mod_word (i : ℕ) : value a / 2 ^ (w * i) % 2 ^ w = (a.get i).toNat := by
  apply eq_of_testBit_eq
  intro b
  rw [testBit_mod_two_pow, ← shiftRight_eq_div_pow, testBit_shiftRight, BitVec.testBit_toNat]
  by_cases hb : b < w
  · simp [hb, value_testBit_word a i b hb]
  · simp [hb, BitVec.getLsbD_of_ge _ _ (not_lt.mp hb)]

theorem value_lt : value a < 2 ^ (w * n) := by
  induction n with
  | zero => simp [value]
  | succ n ih =>
    have htail := ih (Fin.tail a)
    have hhead : (a 0).toNat < 2 ^ w := (a 0).isLt
    calc (a 0).toNat + 2 ^ w * value (Fin.tail a)
        < 2 ^ w + 2 ^ w * value (Fin.tail a) := Nat.add_lt_add_right hhead _
      _ = 2 ^ w * (value (Fin.tail a) + 1) := by ring
      _ ≤ 2 ^ w * 2 ^ (w * n) := mul_le_mul_left _ htail
      _ = 2 ^ (w * (n + 1)) := by rw [← pow_add]; congr 1; ring

/-- An array has the value `x` once the bits of its words are those of `x`. -/
theorem value_eq_of_testBit (hw : 0 < w) (a : WordArray w n) (x : ℕ) (hx : x < 2 ^ (w * n))
    (h : ∀ i < n, ∀ b < w, (a.get i).getLsbD b = x.testBit (w * i + b)) : value a = x := by
  apply eq_of_testBit_eq
  intro j
  rw [value_testBit hw]
  by_cases hj : j < w * n
  · rw [h _ (Nat.div_lt_of_lt_mul hj) _ (Nat.mod_lt _ hw), Nat.div_add_mod]
  · have hle : n ≤ j / w := by
      rw [le_div_iff_mul_le hw, mul_comm]
      omega
    have hbit : x.testBit j = false :=
      Nat.testBit_lt_two_pow (lt_of_lt_of_le hx (Nat.pow_le_pow_right (by omega) (by omega)))
    simp [get_of_le _ hle, hbit]

end WordArray
