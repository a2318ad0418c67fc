import Mathlib.Data.List.AList
import Mathlib.Order.Lattice

set_option autoImplicit false

/-! # The latest item under each key

Items carry a key and a time. `offer` files an item under its key unless the item that is there has
the same time or a later one. Whatever order the items come in and however often, the item under a key
is one with the latest time of that key (`exists_latest_held`); among items with the same latest time
it is the one that came first (`lookup_offerAll_first`).

`replace` is the other way to settle a tie: a new item takes the place of one with the same time. The
item held in the end is then the last of the latest ones (`foldl_replace_cases`,
`foldl_replace_append`). -/

namespace Latest

open List

variable {K V T : Type} [DecidableEq K] [LinearOrder T] (key : V → K) (time : V → T)

/-- The item to hold after one more: the one held, unless the new one is later. -/
def newer (held : Option V) (item : V) : Option V :=
  match held with
  | some old => if time item ≤ time old then some old else some item
  | none => some item

variable (active : AList fun _ : K => V) (items : List V)

/-- File an item under its key, unless there is one that is not older. -/
def offer (item : V) : AList fun _ : K => V :=
  match active.lookup (key item) with
  | some old => if time item ≤ time old then active else active.insert (key item) item
  | none => active.insert (key item) item

/-- Offer all items, from the first on. -/
def offerAll : AList fun _ : K => V :=
  items.foldl (offer key time) active

/-- An item of the list that no item with the same key is later than. -/
def IsLatest (item : V) : Prop :=
  item ∈ items ∧ ∀ other ∈ items, key other = key item → time other ≤ time item

omit [DecidableEq K] in
/-- Being a latest item depends on the set of items only. -/
theorem isLatest_congr {items items' : List V} (hset : ∀ item, item ∈ items ↔ item ∈ items')
    (item : V) : IsLatest key time items item ↔ IsLatest key time items' item := by
  simp only [IsLatest, hset]

/-! ## The map read at one key -/

theorem lookup_offer (item : V) (k : K) :
    (offer key time active item).lookup k
      = if key item = k then newer time (active.lookup k) item else active.lookup k := by
  unfold offer newer
  cases hold : active.lookup (key item) <;> grind [AList.lookup_insert, AList.lookup_insert_ne]

/-- A key sees the items with that key only. -/
theorem lookup_offerAll (k : K) :
    ∀ active : AList fun _ : K => V, (offerAll key time active items).lookup k
      = (items.filter fun item => decide (key item = k)).foldl (newer time) (active.lookup k) := by
  induction items with
  | nil => exact fun _ => rfl
  | cons item rest ih =>
    intro active
    rw [offerAll, foldl_cons, ← offerAll, ih, lookup_offer]
    by_cases hk : key item = k
    · rw [if_pos hk, filter_cons_of_pos (by simpa using hk), foldl_cons]
    · rw [if_neg hk, filter_cons_of_neg (by simpa using hk)]

/-! ## What is held in the end -/

theorem foldl_newer_some (first : V) :
    ∃ held, items.foldl (newer time) (some first) = some held
      ∧ held ∈ first :: items
      ∧ (∀ other ∈ first :: items, time other ≤ time held)
      ∧ ((∀ other ∈ items, time other ≤ time first) → held = first) := by
  induction items generalizing first with
  | nil => exact ⟨first, rfl, by simp, by simp, fun _ => rfl⟩
  | cons item rest ih =>
    rw [foldl_cons]
    by_cases hle : time item ≤ time first
    · obtain ⟨held, hfold, hmem, hall, hfirst⟩ := ih first
      have hstep : newer time (some first) item = some first := if_pos hle
      rw [hstep]
      exact ⟨held, hfold, by grind, by grind, by grind⟩
    · -- the new item takes the place
      obtain ⟨held, hfold, hmem, hall, hfirst⟩ := ih item
      have hstep : newer time (some first) item = some item := if_neg hle
      rw [hstep]
      exact ⟨held, hfold, by grind, by grind, by grind⟩

/-- **The item held under a key is a latest one.** -/
theorem exists_latest_held {items : List V} {item : V} (hmem : item ∈ items) :
    ∃ held, (offerAll key time ∅ items).lookup (key item) = some held
      ∧ key held = key item ∧ IsLatest key time items held := by
  rw [lookup_offerAll, AList.lookup_empty]
  have hfiltered : item ∈ items.filter fun other => decide (key other = key item) :=
    mem_filter.mpr ⟨hmem, by simp⟩
  cases hlist : items.filter fun other => decide (key other = key item) with
  | nil => exact absurd (hlist ▸ hfiltered) (by simp)
  | cons first rest =>
    obtain ⟨held, hfold, hheld, hall, -⟩ := foldl_newer_some time rest first
    rw [← hlist] at hheld hall
    obtain ⟨hheld, hkey⟩ := mem_filter.mp hheld
    have hkey := of_decide_eq_true hkey
    refine ⟨held, hfold, hkey, hheld, fun other hother hsame => ?_⟩
    exact hall other (mem_filter.mpr ⟨hother, decide_eq_true (hsame.trans hkey)⟩)

theorem lookup_offerAll_eq_none {items : List V} {k : K} (hnone : ∀ item ∈ items, key item ≠ k) :
    (offerAll key time ∅ items).lookup k = none := by
  have hempty : (items.filter fun item => decide (key item = k)) = [] :=
    filter_eq_nil_iff.mpr fun item hitem => by simpa using hnone item hitem
  rw [lookup_offerAll, hempty, foldl_nil, AList.lookup_empty]

/-- **Among the latest items the first one stays.** -/
theorem lookup_offerAll_first {items : List V} {first : V}
    (hlatest : IsLatest key time (first :: items) first) :
    (offerAll key time ∅ (first :: items)).lookup (key first) = some first := by
  rw [lookup_offerAll, AList.lookup_empty, filter_cons_of_pos (by simp), foldl_cons]
  obtain ⟨held, hfold, -, -, hfirst⟩ := foldl_newer_some time
    (items.filter fun item => decide (key item = key first)) first
  have hheld : held = first := hfirst fun other hother => by
    obtain ⟨hmem, hkey⟩ := mem_filter.mp hother
    exact hlatest.2 other (mem_cons_of_mem _ hmem) (of_decide_eq_true hkey)
  exact hheld ▸ hfold

/-! ## Ties to the last -/

/-- The item to hold after one more: the new one, unless it is older. -/
def replace (held item : V) : V := if time item < time held then held else item

theorem foldl_replace_cases (first : V) :
    (items.foldl (replace time) first = first ∧ ∀ item ∈ items, time item < time first)
      ∨ items.foldl (replace time) first ∈ items
        ∧ time first ≤ time (items.foldl (replace time) first)
        ∧ ∀ item ∈ items, time item ≤ time (items.foldl (replace time) first) := by
  induction items generalizing first with
  | nil => exact Or.inl ⟨rfl, by simp⟩
  | cons item rest ih =>
    rw [foldl_cons]
    by_cases hlt : time item < time first
    · have hstep : replace time first item = first := if_pos hlt
      rw [hstep]
      rcases ih first with ⟨hfirst, hall⟩ | ⟨hmem, hle, hall⟩
      · exact Or.inl ⟨hfirst, by grind⟩
      · exact Or.inr ⟨mem_cons_of_mem _ hmem, hle, by grind⟩
    · -- the new item takes the place
      have hstep : replace time first item = item := if_neg hlt
      rw [hstep]
      rcases ih item with ⟨hitem, hall⟩ | ⟨hmem, hle, hall⟩
      · exact Or.inr ⟨by grind, by grind, by grind⟩
      · exact Or.inr ⟨mem_cons_of_mem _ hmem, by grind, by grind⟩

/-- **Among the latest items the last one stays.** -/
theorem foldl_replace_append {items : List V} {first last : V} (hfirst : time first ≤ time last)
    (hall : ∀ item ∈ items, time item ≤ time last) :
    (items ++ [last]).foldl (replace time) first = last := by
  rw [foldl_append, foldl_cons, foldl_nil]
  refine if_neg (not_lt_of_ge ?_)
  have := foldl_replace_cases time items first
  grind

end Latest
