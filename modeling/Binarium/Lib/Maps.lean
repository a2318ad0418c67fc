import Mathlib.Algebra.BigOperators.Group.Finset.Basic
import Mathlib.Data.List.AList

set_option autoImplicit false

/-! # Operations on finite maps

What programs do to a map beyond writing and erasing a key: insert a key only if it is not there
(`insertNew`), change a value in place (`modify`), drop the entries that do not pass a test (`keep`),
ask something of every entry (`forAll`) and add something up over the entries (`total`), with what they
do to a lookup. -/

namespace Maps

open List
open AList hiding keys

variable {K V : Type} [DecidableEq K]

/-- Insert a key unless the map has it. -/
def insertNew (m : AList fun _ : K => V) (k : K) (v : V) : AList fun _ : K => V :=
  match m.lookup k with
  | some _ => m
  | none => m.insert k v

/-- Change the value of a key, if the map has it. -/
def modify (m : AList fun _ : K => V) (k : K) (f : V → V) : AList fun _ : K => V :=
  match m.lookup k with
  | some v => m.insert k (f v)
  | none => m

/-- Keep the entries that pass a test. -/
def keep (m : AList fun _ : K => V) (p : K → V → Bool) : AList fun _ : K => V :=
  ⟨m.entries.filter fun entry => p entry.1 entry.2,
    m.nodupKeys.sublist List.filter_sublist⟩

/-- Whether all entries pass a test. -/
def forAll (m : AList fun _ : K => V) (p : K → V → Bool) : Bool :=
  m.entries.all fun entry => p entry.1 entry.2

@[grind =]
theorem lookup_insert_eq_ite (m : AList fun _ : K => V) (k k' : K) (v : V) :
    (m.insert k v).lookup k' = if k' = k then some v else m.lookup k' := by
  split_ifs with h
  · subst h
    simp
  · exact lookup_insert_ne h

@[grind =]
theorem lookup_insertNew (m : AList fun _ : K => V) (k k' : K) (v : V) :
    (insertNew m k v).lookup k'
      = if k' = k then some ((m.lookup k).getD v) else m.lookup k' := by
  unfold insertNew
  cases hk : m.lookup k with
  | some old =>
    split_ifs with h
    · rw [h, hk, Option.getD_some]
    · rfl
  | none => exact lookup_insert_eq_ite m k k' v

variable {m : AList fun _ : K => V}

/-- What holds of all values of a map and of a new value. -/
theorem forall_insertNew {P : K → V → Prop} (hm : ∀ k v, m.lookup k = some v → P k v) {k₀ : K}
    {v₀ : V} (hv : P k₀ v₀) (k : K) (v : V) (h : (insertNew m k₀ v₀).lookup k = some v) :
    P k v := by
  rw [lookup_insertNew] at h
  split_ifs at h with hk
  · subst hk
    cases hold : m.lookup k with
    | none => exact Option.some.inj (hold ▸ h) ▸ hv
    | some old => exact Option.some.inj (hold ▸ h) ▸ hm k old hold
  · exact hm k v h

/-- The same for a loop that gives new keys one value. -/
theorem forall_foldl_insertNew {P : K → V → Prop} {v₀ : V} (hv : ∀ k, P k v₀) (keys : List K) :
    ∀ {m : AList fun _ : K => V}, (∀ k v, m.lookup k = some v → P k v) →
      ∀ k v, (keys.foldl (fun m key => insertNew m key v₀) m).lookup k = some v → P k v := by
  induction keys with
  | nil => exact fun hm => hm
  | cons key rest ih => exact fun hm => ih (forall_insertNew hm (hv key))

@[grind =]
theorem lookup_modify (m : AList fun _ : K => V) (k k' : K) (f : V → V) :
    (modify m k f).lookup k' = if k' = k then (m.lookup k).map f else m.lookup k' := by
  unfold modify
  cases hk : m.lookup k with
  | some v => exact lookup_insert_eq_ite m k k' (f v)
  | none =>
    split_ifs with h
    · rw [h, hk, Option.map_none]
    · rfl

theorem lookup_of_lookup_erase {k k' : K} {v : V} (h : (m.erase k).lookup k' = some v) :
    m.lookup k' = some v := by
  by_cases hk : k' = k
  · subst hk
    simp at h
  · rwa [lookup_erase_ne hk] at h

theorem lookup_foldl_erase (keys : List K) (k : K) : ∀ m : AList fun _ : K => V,
    (keys.foldl (fun m key => m.erase key) m).lookup k
      = if k ∈ keys then none else m.lookup k := by
  induction keys with
  | nil => exact fun m => by simp
  | cons key rest ih =>
    intro m
    rw [foldl_cons, ih]
    by_cases hk : k = key
    · subst hk
      simp
    · simp [hk]

theorem lookup_foldl_insertNew (v : V) (keys : List K) (k : K) : ∀ m : AList fun _ : K => V,
    (keys.foldl (fun m key => insertNew m key v) m).lookup k
      = if k ∈ keys then some ((m.lookup k).getD v) else m.lookup k := by
  induction keys with
  | nil => exact fun m => by simp
  | cons key rest ih =>
    intro m
    rw [foldl_cons, ih, lookup_insertNew]
    by_cases hk : k = key
    · subst hk
      simp
    · simp [hk]

theorem mem_keys_iff_isSome (m : AList fun _ : K => V) (k : K) : k ∈ m.keys ↔ (m.lookup k).isSome :=
  lookup_isSome.symm

theorem mem_lookup_iff_mem_entries (m : AList fun _ : K => V) (k : K) (v : V) :
    m.lookup k = some v ↔ (⟨k, v⟩ : Sigma fun _ : K => V) ∈ m.entries :=
  mem_lookup_iff

theorem forAll_iff (m : AList fun _ : K => V) (p : K → V → Bool) :
    forAll m p ↔ ∀ k v, m.lookup k = some v → p k v := by
  rw [forAll, all_eq_true]
  constructor
  · intro h k v hk
    exact h ⟨k, v⟩ ((mem_lookup_iff_mem_entries m k v).mp hk)
  · rintro h ⟨k, v⟩ hmem
    exact h k v ((mem_lookup_iff_mem_entries m k v).mpr hmem)

/-! ## Counting values -/

/-- The keys whose value passes a test. -/
def keysWith (m : AList fun _ : K => V) (p : V → Bool) : Finset K :=
  m.keys.toFinset.filter fun k => ∃ v, m.lookup k = some v ∧ p v = true

theorem mem_keysWith (m : AList fun _ : K => V) (p : V → Bool) (k : K) :
    k ∈ keysWith m p ↔ ∃ v, m.lookup k = some v ∧ p v := by
  rw [keysWith, Finset.mem_filter, and_iff_right_iff_imp, mem_toFinset]
  rintro ⟨v, hv, -⟩
  exact (mem_keys_iff_isSome m k).mpr (hv ▸ rfl)

/-- To count the entries with a value that passes a test is to count their keys. -/
theorem countP_entries (m : AList fun _ : K => V) (p : V → Bool) :
    m.entries.countP (fun entry => p entry.2) = (keysWith m p).card := by
  have hnodup : ((m.entries.filter fun entry => p entry.2).map Sigma.fst).Nodup :=
    List.NodupKeys.sublist filter_sublist m.nodupKeys
  have hkeys : keysWith m p
      = ((m.entries.filter fun entry => p entry.2).map Sigma.fst).toFinset := by
    ext k
    rw [mem_keysWith, mem_toFinset, mem_map]
    constructor
    · rintro ⟨v, hv, hp⟩
      exact ⟨⟨k, v⟩, mem_filter.mpr ⟨(mem_lookup_iff_mem_entries m k v).mp hv, hp⟩, rfl⟩
    · rintro ⟨⟨k, v⟩, hmem, rfl⟩
      obtain ⟨hmem, hp⟩ := mem_filter.mp hmem
      exact ⟨v, (mem_lookup_iff_mem_entries m k v).mpr hmem, hp⟩
  rw [hkeys, toFinset_card_of_nodup hnodup, length_map, countP_eq_length_filter]

/-! ## Totals -/

section Total

variable {M : Type} [AddCommMonoid M]

/-- The sum of a measure over the entries. -/
def total (f : K → V → M) (m : AList fun _ : K => V) : M :=
  ∑ k ∈ m.keys.toFinset, ((m.lookup k).map (f k)).getD 0

theorem sum_entries (f : K → V → M) (m : AList fun _ : K => V) :
    (m.entries.map fun entry => f entry.1 entry.2).sum = total f m := by
  rw [total, sum_toFinset _ m.keys_nodup, AList.keys, keys, map_map]
  refine congrArg List.sum (map_congr_left ?_)
  rintro ⟨k, v⟩ hmem
  simp [(mem_lookup_iff_mem_entries m k v).mpr hmem]

theorem total_congr {V' : Type} {f : K → V → M} {f' : K → V' → M} {m' : AList fun _ : K => V'}
    (h : ∀ k, (m.lookup k).map (f k) = (m'.lookup k).map (f' k)) : total f m = total f' m' := by
  have hkeys : m.keys.toFinset = m'.keys.toFinset := by
    ext k
    have hk := congrArg Option.isSome (h k)
    rw [Option.isSome_map, Option.isSome_map] at hk
    simp [mem_toFinset, mem_keys_iff_isSome, hk]
  rw [total, total, hkeys]
  exact Finset.sum_congr rfl fun k _ => by rw [h k]

/-- **A map with one key more.** -/
theorem total_eq_add {f : K → V → M} {m' : AList fun _ : K => V} {k : K} {v : V}
    (hk : m'.lookup k = some v) (hnone : m.lookup k = none)
    (hsame : ∀ k', k' ≠ k → m'.lookup k' = m.lookup k') : total f m' = f k v + total f m := by
  have hfresh : k ∉ m.keys.toFinset := by
    simp [mem_keys_iff_isSome, hnone]
  have hkeys : m'.keys.toFinset = insert k m.keys.toFinset := by
    ext x
    rw [Finset.mem_insert, mem_toFinset, mem_toFinset, mem_keys_iff_isSome, mem_keys_iff_isSome]
    by_cases hx : x = k
    · subst hx
      exact iff_of_true (by rw [hk]; rfl) (.inl rfl)
    · rw [hsame x hx, or_iff_right hx]
  rw [total, hkeys, Finset.sum_insert hfresh, hk, Option.map_some, Option.getD_some, total]
  refine congrArg (f k v + ·) (Finset.sum_congr rfl fun x hx => ?_)
  rw [hsame x (fun heq => hfresh (heq ▸ hx))]

/-- What a key contributes to a total is gone when it is erased. -/
theorem total_erase (f : K → V → M) (m : AList fun _ : K => V) (k : K) :
    ((m.lookup k).map (f k)).getD 0 + total f (m.erase k) = total f m := by
  cases hk : m.lookup k with
  | none =>
    rw [Option.map_none, Option.getD_none, zero_add]
    refine total_congr fun k' => ?_
    by_cases hk' : k' = k
    · rw [hk', lookup_erase, hk]
    · rw [lookup_erase_ne hk']
  | some v =>
    exact (total_eq_add hk (lookup_erase _ _) fun k' hk' => (lookup_erase_ne hk').symm).symm

/-- A key that is inserted contributes its new value only. -/
theorem total_insert (f : K → V → M) (m : AList fun _ : K => V) (k : K) (v : V) :
    total f (m.insert k v) = f k v + total f (m.erase k) := by
  refine total_eq_add (lookup_insert _) (lookup_erase _ _) fun k' hk' => ?_
  rw [lookup_insert_ne hk', lookup_erase_ne hk']

theorem total_insertNew (f : K → V → M) {k : K} (h : m.lookup k = none) (v : V) :
    total f (insertNew m k v) = f k v + total f m := by
  refine total_eq_add ?_ h fun k' hk' => ?_
  · simp [lookup_insertNew, h]
  · rw [lookup_insertNew, if_neg hk']

end Total

end Maps
