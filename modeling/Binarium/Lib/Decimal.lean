import Mathlib.Algebra.BigOperators.Group.List.Basic
import Mathlib.Tactic.Ring

set_option autoImplicit false

/-! # Decimal numbers written one after the other

`joined` writes numbers in decimal without anything between them. The text is a number of digits and
nothing else, so it does not tell where one number ends. It determines the numbers once the digit
counts are known (`joined_injOn`), and only then: for any digit counts with the same sum there are
numbers with these counts and the same text, those that are written with ones only
(`joined_repunits`). -/

namespace Decimal

open List Nat

variable (numbers : List ℕ)

/-- The decimals of the numbers, one after the other. -/
def joined : List Char := numbers.flatMap (Nat.toDigits 10)

/-- The number of digits of every number. -/
def digitCounts : List ℕ := numbers.map fun n => (Nat.toDigits 10 n).length

theorem toDigits_injective : Function.Injective (toDigits 10) := by
  intro n m h
  rw [← ofDigitChars_ten_toDigits (n := n), h, ofDigitChars_ten_toDigits]

theorem length_joined : (joined numbers).length = (digitCounts numbers).sum := by
  simp [joined, digitCounts]

/-- **With the digit counts the text determines the numbers.** -/
theorem joined_injOn :
    ∀ {numbers' : List ℕ}, digitCounts numbers = digitCounts numbers' →
      joined numbers = joined numbers' → numbers = numbers' := by
  induction numbers with
  | nil =>
    intro numbers' hcounts _
    exact (map_eq_nil_iff.mp hcounts.symm).symm
  | cons n rest ih =>
    intro numbers' hcounts hjoined
    cases numbers' with
    | nil => simp [digitCounts] at hcounts
    | cons n' rest' =>
      simp only [digitCounts, map_cons, List.cons.injEq] at hcounts
      obtain ⟨hdigits, hrest⟩ := append_inj hjoined hcounts.1
      rw [toDigits_injective hdigits, ih hcounts.2 hrest]

/-! ## Numbers written with ones -/

/-- The number written with `n` ones. -/
def repunit : ℕ → ℕ
  | 0 => 0
  | n + 1 => 10 * repunit n + 1

theorem repunit_pos (n : ℕ) : 0 < repunit (n + 1) := succ_pos _

theorem repunit_mono : Monotone repunit :=
  monotone_nat_of_le_succ fun n => by
    rw [repunit]
    omega

theorem toDigits_repunit (n : ℕ) : toDigits 10 (repunit (n + 1)) = List.replicate (n + 1) '1' := by
  induction n with
  | zero => rfl
  | succ n ih =>
    rw [repunit, ← toDigits_append_toDigits (by omega) (repunit_pos n) (by omega), ih,
      replicate_succ' (n := n + 1)]
    rfl

theorem length_toDigits_repunit {n : ℕ} (hn : 0 < n) : (toDigits 10 (repunit n)).length = n := by
  obtain ⟨m, rfl⟩ := exists_eq_succ_of_ne_zero hn.ne'
  simp [toDigits_repunit]

/-- The text of such numbers shows the sum of the digit counts only. -/
theorem joined_repunits (counts : List ℕ) (hpos : ∀ n ∈ counts, 0 < n) :
    joined (counts.map repunit) = List.replicate counts.sum '1' := by
  induction counts with
  | nil => rfl
  | cons n rest ih =>
    obtain ⟨m, rfl⟩ := exists_eq_succ_of_ne_zero (hpos n mem_cons_self).ne'
    have hrest := ih fun k hk => hpos k (mem_cons_of_mem _ hk)
    rw [map_cons, joined, flatMap_cons, toDigits_repunit, ← joined, hrest,
      replicate_append_replicate, sum_cons]

end Decimal
