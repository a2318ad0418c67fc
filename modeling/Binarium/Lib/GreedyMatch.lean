import Mathlib.Data.List.NodupEquivFin

set_option autoImplicit false

/-! # Greedy matching in order

Two lists are matched by going through the second one: each of its items is given to the first item of
the first list that has none yet, if it fits. This finds an assignment that keeps the order whenever
there is one (`greedy_iff`): an assignment that leaves out an item that fits can be changed to use it. -/

namespace GreedyMatch

variable {α β : Type*} (fits : α → β → Bool)

/-- Give the items of the second list to those of the first, in order. -/
def greedy : List α → List β → Bool
  | [], _ => true
  | _ :: _, [] => false
  | a :: as, b :: bs => greedy (if fits a b then as else a :: as) bs

/-- Two lists of which the first is assigned into the second, keeping the order. -/
abbrev Matches (as : List α) (bs : List β) : Prop :=
  List.SublistForall₂ (fun a b => fits a b = true) as bs

variable {fits}

variable {as : List α} {bs : List β}

theorem Matches.tail {a : α} (h : Matches fits (a :: as) bs) : Matches fits as bs := by
  induction bs with
  | nil => exact absurd h (by rintro ⟨⟩)
  | cons b bs ih =>
    cases h with
    | cons _ htail => exact .cons_right htail
    | cons_right hrest => exact .cons_right (ih hrest)

theorem Matches.length_le (h : Matches fits as bs) : as.length ≤ bs.length := by
  obtain ⟨l, hforall, hsublist⟩ := List.sublistForall₂_iff.mp h
  rw [hforall.length_eq]
  exact hsublist.length_le

/-- **The exchange**: an item that fits the first one may be given to it. -/
theorem matches_cons_iff {a : α} {b : β} :
    Matches fits (a :: as) (b :: bs) ↔ Matches fits (if fits a b then as else a :: as) bs := by
  by_cases hfits : fits a b
  · rw [if_pos hfits]
    refine ⟨fun h => ?_, fun h => .cons hfits h⟩
    cases h with
    | cons _ htail => exact htail
    | cons_right hrest => exact Matches.tail hrest
  · rw [if_neg hfits]
    refine ⟨fun h => ?_, fun h => .cons_right h⟩
    cases h with
    | cons hab _ => exact absurd hab hfits
    | cons_right hrest => exact hrest

/-- **Greedy matching finds an assignment** whenever there is one. -/
theorem greedy_iff : greedy fits as bs ↔ Matches fits as bs := by
  induction bs generalizing as with
  | nil =>
    cases as with
    | nil => exact ⟨fun _ => .nil, fun _ => rfl⟩
    | cons a as => exact ⟨by simp [greedy], by rintro ⟨⟩⟩
  | cons b bs ih =>
    cases as with
    | nil => exact ⟨fun _ => .nil, fun _ => rfl⟩
    | cons a as => rw [greedy, ih, matches_cons_iff]

/-- An assignment as a map of positions. -/
theorem matches_iff_exists_strictMono :
    Matches fits as bs ↔ ∃ f : Fin as.length → Fin bs.length, StrictMono f ∧
      ∀ i, fits (as.get i) (bs.get (f i)) := by
  rw [Matches, List.sublistForall₂_iff]
  constructor
  · rintro ⟨l, hforall, hsublist⟩
    obtain ⟨f, hf⟩ := List.sublist_iff_exists_fin_orderEmbedding_get_eq.mp hsublist
    have hlength := hforall.length_eq
    refine ⟨fun i => f (i.cast hlength), ?_, fun i => ?_⟩
    · intro i j hij
      exact f.strictMono hij
    · rw [← hf]
      exact hforall.get i.2 (i.cast hlength).2
  · rintro ⟨f, hmono, hfits⟩
    refine ⟨List.ofFn fun i => bs.get (f i), ?_, ?_⟩
    · rw [List.forall₂_iff_get]
      refine ⟨by simp, fun i hi hi' => ?_⟩
      simpa using hfits ⟨i, hi⟩
    · rw [List.sublist_iff_exists_fin_orderEmbedding_get_eq]
      have hlength : (List.ofFn fun i => bs.get (f i)).length = as.length := List.length_ofFn
      refine ⟨OrderEmbedding.ofStrictMono (fun i => f (i.cast hlength)) ?_, fun i => ?_⟩
      · intro i j hij
        exact hmono hij
      · rw [List.get_eq_getElem, List.getElem_ofFn]
        rfl

end GreedyMatch
