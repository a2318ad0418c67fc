import Mathlib.Data.List.Destutter
import Mathlib.Data.List.NodupEquivFin

set_option autoImplicit false

/-! # Searching one list in another

`searchAll wanted offered` looks for the items of `wanted` in `offered`, one after the other, and
continues each search at the place where the last item was found. Because it does not move past that
place, an item equal to the one before it is found there again. So the search does not decide
whether `wanted` is a subsequence of `offered`, but whether `wanted` with its runs of equal items
collapsed is one (`searchAll_iff`). The two agree when no item is equal to the one before it. -/

namespace Subsequence

open List

variable {α : Type} [DecidableEq α]

/-- Find each item of the first list in the second, from the place of the last one on. -/
def searchAll : List α → List α → Bool
  | [], _ => true
  | a :: rest, offered =>
    match offered.dropWhile fun b => !decide (a = b) with
    | [] => false
    | found => searchAll rest found

/-- A list that starts with `a` can as well be looked for from the first `a` on. -/
theorem cons_sublist_dropWhile_iff (a : α) (rest offered : List α) :
    (a :: rest).Sublist (offered.dropWhile fun b => !decide (a = b))
      ↔ (a :: rest).Sublist offered := by
  refine ⟨fun h => h.trans (dropWhile_sublist _), fun h => ?_⟩
  induction offered with
  | nil => simp at h
  | cons b offered ih =>
    by_cases hab : a = b
    · rwa [dropWhile_cons_of_neg (by simpa using hab)]
    · rw [dropWhile_cons_of_pos (by simpa using hab)]
      cases h with
      | cons _ h => exact ih h
      | cons_cons _ h => exact absurd rfl hab

theorem dropWhile_eq_nil_or_cons (a : α) (offered : List α) :
    offered.dropWhile (fun b => !decide (a = b)) = []
      ∨ ∃ tail, offered.dropWhile (fun b => !decide (a = b)) = a :: tail := by
  induction offered with
  | nil => exact .inl rfl
  | cons b offered ih =>
    by_cases hab : a = b
    · exact .inr ⟨offered, by simp [hab]⟩
    · rwa [dropWhile_cons_of_pos (by simpa using hab)]

/-- The first item of a collapsed list is that of the list. -/
theorem exists_destutter'_eq_cons (a : α) (rest : List α) :
    ∃ tail, rest.destutter' (· ≠ ·) a = a :: tail := by
  induction rest with
  | nil => exact ⟨[], rfl⟩
  | cons b rest ih =>
    by_cases hab : a = b
    · rwa [destutter'_cons_neg _ (by simpa using hab)]
    · exact ⟨_, destutter'_cons_pos _ hab⟩

/-- The search after `a` was found at the head of what is left. -/
theorem searchAll_cons_iff (rest : List α) (a : α) (tail : List α) : searchAll rest (a :: tail)
      ↔ (rest.destutter' (· ≠ ·) a).Sublist (a :: tail) := by
  induction rest generalizing a tail with
  | nil => simp [searchAll]
  | cons b rest ih =>
    rw [searchAll]
    by_cases hab : b = a
    · -- the same item again is found where the search stands
      subst hab
      simp [ih b tail]
    · obtain ⟨collapsed, hcollapsed⟩ := exists_destutter'_eq_cons b rest
      rw [destutter'_cons_pos _ (Ne.symm hab), cons_sublist_cons,
        dropWhile_cons_of_pos (by simpa using hab), hcollapsed,
        ← cons_sublist_dropWhile_iff]
      rcases dropWhile_eq_nil_or_cons b tail with hnil | ⟨found, hfound⟩
      · simp [hnil]
      · rw [hfound, ← hcollapsed]
        exact ih b found

/-- **What the search decides.** -/
theorem searchAll_iff (wanted offered : List α) :
    searchAll wanted offered ↔ (wanted.destutter (· ≠ ·)).Sublist offered := by
  cases wanted with
  | nil => simp [searchAll]
  | cons a rest =>
    obtain ⟨collapsed, hcollapsed⟩ := exists_destutter'_eq_cons a rest
    rw [searchAll, destutter_cons', hcollapsed, ← cons_sublist_dropWhile_iff]
    rcases dropWhile_eq_nil_or_cons a offered with hnil | ⟨found, hfound⟩
    · simp [hnil]
    · rw [hfound, ← hcollapsed]
      exact searchAll_cons_iff rest a found

/-- A list with equal neighbours gets shorter when its runs are collapsed. -/
theorem length_destutter_lt {l : List α} (h : ¬ l.IsChain (· ≠ ·)) :
    (l.destutter (· ≠ ·)).length < l.length := by
  refine lt_of_le_of_ne (l.destutter_sublist (· ≠ ·)).length_le fun heq => h ?_
  rw [← destutter_eq_self_iff]
  exact (l.destutter_sublist (· ≠ ·)).eq_of_length heq

/-- Items that are not in a list do not help it to be a subsequence. -/
theorem sublist_of_sublist_append_replicate {l front : List α} {filler : α} {n : ℕ}
    (hfiller : filler ∉ l) (h : l.Sublist (front ++ List.replicate n filler)) :
    l.Sublist front := by
  have hfilter := h.filter fun b => decide (b ≠ filler)
  have hself : l.filter (fun b => decide (b ≠ filler)) = l :=
    filter_eq_self.mpr fun b hb => decide_eq_true fun heq => hfiller (heq ▸ hb)
  rw [hself, filter_append, filter_replicate_of_neg (by simp), append_nil] at hfilter
  exact hfilter.trans filter_sublist

end Subsequence
