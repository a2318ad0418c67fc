import Mathlib.Data.List.Sigma

set_option autoImplicit false

/-! # Folding independent updates over the entries of a map

A loop over the entries of a key-value map updates a second store, one key at a time. When the update
for a key reads and writes that key's slot only, and no key occurs twice, the loop does to every slot
what the update does to it alone, in whatever order the entries come. -/

namespace KeyedFold

open List

variable {M K V S ε : Type} (get : M → K → S) (step : M → K → V → Except ε M)

/-- **The fold is slot-wise.** If the update of `k` succeeds on slots that satisfy `pre`, relates the
    slot before and after by `post` and keeps every other slot, then the fold succeeds, relates every
    entry's slot before and after by `post`, and keeps the slots of all other keys. -/
theorem foldlM_spec (pre : K → V → S → Prop) (post : K → V → S → S → Prop)
    (hstep : ∀ m k v, pre k v (get m k) → ∃ m', step m k v = .ok m'
      ∧ post k v (get m k) (get m' k) ∧ ∀ k', k' ≠ k → get m' k' = get m k')
    (entries : List (Sigma fun _ : K => V)) :
    ∀ m, entries.NodupKeys → (∀ e ∈ entries, pre e.1 e.2 (get m e.1)) →
      ∃ m', entries.foldlM (fun m e => step m e.1 e.2) m = .ok m'
        ∧ (∀ e ∈ entries, post e.1 e.2 (get m e.1) (get m' e.1))
        ∧ ∀ k, k ∉ entries.keys → get m' k = get m k := by
  induction entries with
  | nil =>
    intro m _ _
    exact ⟨m, rfl, by simp, fun _ _ => rfl⟩
  | cons e rest ih =>
    intro m hnodup hpre
    obtain ⟨hnot, hrest⟩ := nodupKeys_cons.mp hnodup
    obtain ⟨m₁, hok, hpost, hother⟩ := hstep m e.1 e.2 (hpre e (mem_cons_self))
    -- the slots of the remaining entries are as they were
    have hkeep : ∀ e' ∈ rest, get m₁ e'.1 = get m e'.1 := by
      intro e' he'
      refine hother e'.1 ?_
      rintro heq
      exact hnot (heq ▸ mem_keys_of_mem he')
    obtain ⟨m', hfold, hposts, hkept⟩ := ih m₁ hrest (by
      intro e' he'
      rw [hkeep e' he']
      exact hpre e' (mem_cons_of_mem _ he'))
    refine ⟨m', ?_, ?_, ?_⟩
    · rwa [foldlM_cons, hok]
    · intro e' he'
      rcases mem_cons.mp he' with rfl | he'
      · rwa [hkept _ hnot]
      · rw [← hkeep e' he']
        exact hposts e' he'
    · intro k hk
      rw [keys_cons, mem_cons, not_or] at hk
      rw [hkept k hk.2, hother k hk.1]

end KeyedFold
