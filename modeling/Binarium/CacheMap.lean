import Mathlib.Data.List.Sort
import Mathlib.Data.List.Pairwise

set_option autoImplicit false

/-! # Caches of bounded size (`cachemap.h`, `cachemultimap.h`)

A `CacheMap` keeps the items that were added last, one for each key; a `CacheMultiMap` keeps several
values for a key, but no two that its order does not tell apart. Both hold a list of items, the newest
one first, and an index into it. The index can be computed from the list, and the number of items is
the length of the list, so the model has the list alone; that the index is well defined is a field.

A cache whose maximal size is 0 grows without bound: an item is dropped only when the size is just the
maximal size, and then only if there is one. -/

namespace Binarium

variable {K V : Type} [DecidableEq K]

/-! ## One value for a key -/

/-- `CacheMap`. -/
structure CacheMap (K V : Type) where
  nMaxSize : ℕ
  listItems : List (K × V)
  nodup : (listItems.map Prod.fst).Nodup

/-- `CacheMap(nMaxSizeIn)`. -/
def CacheMap.empty (nMaxSize : ℕ) : CacheMap K V := ⟨nMaxSize, [], List.nodup_nil⟩

/-- `CacheMap::HasKey`. -/
def CacheMap.hasKey (m : CacheMap K V) (key : K) : Bool :=
  m.listItems.any fun item => decide (item.1 = key)

/-- `CacheMap::PruneLast`, if the cache is full. -/
def CacheMap.pruneIfFull (m : CacheMap K V) : CacheMap K V :=
  if m.listItems.length = m.nMaxSize then
    { m with
      listItems := m.listItems.dropLast
      nodup := m.nodup.sublist ((List.dropLast_sublist _).map _) }
  else m

/-- The value of an item that is there is changed in place. -/
def CacheMap.replace (m : CacheMap K V) (key : K) (value : V) : CacheMap K V :=
  { m with
    listItems := m.listItems.map fun item => if item.1 = key then (key, value) else item
    nodup := by
      have hkeys : (m.listItems.map fun item => if item.1 = key then (key, value) else item).map
          Prod.fst = m.listItems.map Prod.fst := by
        rw [List.map_map]
        refine List.map_congr_left fun item _ => ?_
        rw [Function.comp_apply]
        split_ifs with h
        · exact h.symm
        · rfl
      rw [hkeys]
      exact m.nodup }

/-- A key that is not there is put in front. -/
def CacheMap.push (m : CacheMap K V) (key : K) (value : V) (h : m.hasKey key = false) :
    CacheMap K V :=
  { m with
    listItems := (key, value) :: m.listItems
    nodup := by
      rw [List.map_cons, List.nodup_cons]
      refine ⟨fun hmem => ?_, m.nodup⟩
      obtain ⟨item, hitem, hkey⟩ := List.mem_map.mp hmem
      simp only [CacheMap.hasKey, List.any_eq_false, decide_eq_true_eq] at h
      exact h item hitem hkey }

theorem CacheMap.hasKey_pruneIfFull {m : CacheMap K V} {key : K} (h : m.hasKey key = false) :
    m.pruneIfFull.hasKey key = false := by
  simp only [CacheMap.hasKey, List.any_eq_false] at h ⊢
  intro item hitem
  unfold CacheMap.pruneIfFull at hitem
  split at hitem
  · exact h item ((List.dropLast_sublist _).subset hitem)
  · exact h item hitem

/-- `CacheMap::Insert`. -/
def CacheMap.insert (m : CacheMap K V) (key : K) (value : V) : CacheMap K V :=
  if h : m.hasKey key = true then m.replace key value
  else
    have hnew : m.hasKey key = false := Bool.eq_false_iff.mpr h
    m.pruneIfFull.push key value (CacheMap.hasKey_pruneIfFull hnew)

/-! ## Several values for a key -/

/-- Neither value comes before the other. -/
def equivalent (lt : V → V → Bool) (a b : V) : Bool := !lt a b && !lt b a

/-- `CacheMultiMap`, whose values are compared by `lt`. -/
structure CacheMultiMap (K V : Type) (lt : V → V → Bool) where
  nMaxSize : ℕ
  listItems : List (K × V)
  distinct : listItems.Pairwise fun a b => ¬ (a.1 = b.1 ∧ equivalent lt a.2 b.2 = true)

variable {lt : V → V → Bool}

/-- `CacheMultiMap(nMaxSizeIn)`. -/
def CacheMultiMap.empty (nMaxSize : ℕ) : CacheMultiMap K V lt := ⟨nMaxSize, [], List.Pairwise.nil⟩

variable (m : CacheMultiMap K V lt)

/-- `CacheMultiMap::PruneLast`, if the cache is full. -/
def CacheMultiMap.pruneIfFull : CacheMultiMap K V lt :=
  if m.listItems.length = m.nMaxSize then
    { m with
      listItems := m.listItems.dropLast
      distinct := m.distinct.sublist (List.dropLast_sublist _) }
  else m

/-- Whether the index has a value for the key that the order does not tell from this one. -/
def CacheMultiMap.hasValue (key : K) (value : V) : Bool :=
  m.listItems.any fun item => decide (key = item.1) && equivalent lt value item.2

/-- A value that is not there is put in front. -/
def CacheMultiMap.push (key : K) (value : V) (h : m.hasValue key value = false) :
    CacheMultiMap K V lt :=
  { m with
    listItems := (key, value) :: m.listItems
    distinct := by
      rw [List.pairwise_cons]
      refine ⟨fun item hitem hsame => ?_, m.distinct⟩
      simp only [CacheMultiMap.hasValue, List.any_eq_false] at h
      exact h item hitem (by simpa using hsame) }

/-- `CacheMultiMap::Insert`. A full cache is pruned even if the value is then not inserted. -/
def CacheMultiMap.insert (key : K) (value : V) : Bool × CacheMultiMap K V lt :=
  let m := m.pruneIfFull
  if h : m.hasValue key value = true then (false, m)
  else (true, m.push key value (Bool.eq_false_iff.mpr h))

/-- `CacheMultiMap::GetAll`: the values of a key in their order. -/
def CacheMultiMap.getAll (key : K) : List V :=
  ((m.listItems.filter fun item => decide (item.1 = key)).map Prod.snd).insertionSort
    fun a b => lt b a = false

/-- `CacheMultiMap::Erase` of one value. -/
def CacheMultiMap.erase (key : K) (value : V) : CacheMultiMap K V lt :=
  { m with
    listItems := m.listItems.filter fun item =>
      !(decide (item.1 = key) && equivalent lt item.2 value)
    distinct := m.distinct.sublist List.filter_sublist }

end Binarium
