import Mathlib.Data.List.GetD
import Mathlib.Data.List.Sort

set_option autoImplicit false

/-! # The median of a sliding window

The upper median of a list, and of the last few values of a sequence. If every new value exceeds the
median of the window before it, the medians do not fall (`median_take_le`), although the values
themselves may. The reason is a count: a bound lies at or below the median exactly when enough values are
at or above the bound (`le_median_iff`), and the value that leaves the window is made up for by the one
that enters. -/

namespace Median

open List

/-- The upper median; 0 for the empty list. -/
def median (l : List ℤ) : ℤ :=
  let sorted := l.insertionSort (· ≤ ·)
  sorted.getD (sorted.length / 2) 0

/-- In a sorted list the values from a position on are those that are large enough. -/
theorem le_getElem_iff {s : List ℤ} (hs : s.Pairwise (· ≤ ·)) {i : ℕ} (hi : i < s.length) (m : ℤ) :
    m ≤ s[i] ↔ s.length - i ≤ s.countP (fun x => decide (m ≤ x)) := by
  induction s generalizing i with
  | nil => simp at hi
  | cons a rest ih =>
    obtain ⟨ha, hrest⟩ := pairwise_cons.mp hs
    -- if the head counts, everything does
    have hall : m ≤ a → rest.countP (fun x => decide (m ≤ x)) = rest.length := fun hm =>
      countP_eq_length.mpr fun x hx => decide_eq_true (hm.trans (ha x hx))
    have hle : rest.countP (fun x => decide (m ≤ x)) ≤ rest.length := countP_le_length
    cases i with
    | zero =>
      simp only [getElem_cons_zero, countP_cons, length_cons, decide_eq_true_eq]
      split_ifs <;> omega
    | succ i =>
      have htail := ih hrest (Nat.lt_of_succ_lt_succ hi)
      simp only [getElem_cons_succ, htail, countP_cons, length_cons, decide_eq_true_eq]
      split_ifs <;> omega

/-- **A bound is at or below the median** exactly when enough values are at or above it. -/
theorem le_median_iff {l : List ℤ} (hl : l ≠ []) (m : ℤ) :
    m ≤ median l ↔ l.length - l.length / 2 ≤ l.countP (fun x => decide (m ≤ x)) := by
  have hlength : (l.insertionSort (· ≤ ·)).length = l.length := length_insertionSort ..
  have hpos := length_pos_iff.mpr hl
  have hi : (l.insertionSort (· ≤ ·)).length / 2 < (l.insertionSort (· ≤ ·)).length := by omega
  have hperm : (l.insertionSort (· ≤ ·)).Perm l := perm_insertionSort ..
  have hsorted : (l.insertionSort (· ≤ ·)).Pairwise (· ≤ ·) := pairwise_insertionSort _ l
  have h := le_getElem_iff hsorted hi m
  rw [median, getD_eq_getElem _ _ hi, h, hperm.countP_eq, hlength]

/-- **The medians of a window do not fall** if every new value exceeds the median before it. -/
theorem median_take_le {t : ℤ} {l : List ℤ} {n : ℕ} (hn : 0 < n) (hl : l ≠ [])
    (ht : median (l.take n) < t) : median (l.take n) ≤ median ((t :: l).take n) := by
  obtain ⟨k, rfl⟩ : ∃ k, n = k + 1 := ⟨n - 1, by omega⟩
  have hold : l.take (k + 1) ≠ [] := by simpa using hl
  have hcount := (le_median_iff hold _).mp le_rfl
  generalize median (l.take (k + 1)) = m at *
  -- the window loses at most one value on the other side
  have hone : (l[k]?.toList).countP (fun x => decide (m ≤ x)) ≤ _ := countP_le_length
  have hlength : l[k]?.toList.length ≤ 1 := by cases l[k]? <;> simp
  rw [take_add_one, countP_append, length_append] at hcount
  rw [take_succ_cons, le_median_iff (by simp), length_cons, countP_cons,
    if_pos (decide_eq_true ht.le)]
  omega

end Median
