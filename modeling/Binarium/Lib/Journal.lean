import Mathlib.Data.List.Nodup

set_option autoImplicit false

/-! # Undoing changes of a partial map

Removing keys from a partial map and putting new bindings into it, and how each is undone: keys that
were put are removed again, keys that were removed are put back with the values that were recorded.
All that is needed is that the keys put were free, and that the values recorded were the ones
there.

A batch is a list of changes that are applied in order, each of which puts a value at a key or removes
the key. -/

namespace Journal

open List Function

variable {K V : Type} [DecidableEq K]

/-- Remove keys. -/
def removeAll (keys : List K) (m : K → Option V) : K → Option V :=
  fun k => if k ∈ keys then none else m k

/-- Put bindings, one after the other. -/
def putAll : List (K × V) → (K → Option V) → K → Option V
  | [], m => m
  | (k, v) :: rest, m => putAll rest (Function.update m k (some v))

theorem removeAll_nil (m : K → Option V) : removeAll [] m = m := by
  funext k
  simp [removeAll]

theorem removeAll_cons (k : K) (keys : List K) (m : K → Option V) :
    removeAll (k :: keys) m = removeAll keys (Function.update m k none) := by
  funext k'
  unfold removeAll
  by_cases hk : k' = k
  · subst hk
    simp
  · simp [hk]

variable {k : K} {m : K → Option V} {bindings : List (K × V)}

theorem removeAll_of_none (h : m k = none) (keys : List K) : removeAll keys m k = none := by
  rw [removeAll, h, ite_self]

/-- Putting back a value that is not among the keys. -/
theorem update_removeAll {keys : List K} (hk : k ∉ keys) {v : Option V} (hv : m k = v) :
    Function.update (removeAll keys (Function.update m k none)) k v = removeAll keys m := by
  funext k'
  by_cases heq : k' = k
  · subst heq
    rw [update_self, removeAll, if_neg hk, hv]
  · simp [update_of_ne heq, removeAll]

theorem removeAll_reverse (keys : List K) (m : K → Option V) :
    removeAll keys.reverse m = removeAll keys m := by
  funext k
  simp [removeAll]

theorem removeAll_comm (keys keys' : List K) (m : K → Option V) :
    removeAll keys (removeAll keys' m) = removeAll keys' (removeAll keys m) := by
  funext k
  unfold removeAll
  split <;> split <;> rfl

theorem removeAll_append (keys keys' : List K) (m : K → Option V) :
    removeAll (keys ++ keys') m = removeAll keys (removeAll keys' m) := by
  funext k
  unfold removeAll
  by_cases hk : k ∈ keys <;> simp [hk]

theorem putAll_of_notMem (hk : k ∉ bindings.map Prod.fst) (m : K → Option V) :
    putAll bindings m k = m k := by
  induction bindings generalizing m with
  | nil => rfl
  | cons binding rest ih =>
    rw [map_cons, mem_cons, not_or] at hk
    rw [putAll, ih hk.2, update_of_ne hk.1]

theorem putAll_of_mem (hnodup : (bindings.map Prod.fst).Nodup) {v : V} (hmem : (k, v) ∈ bindings)
    (m : K → Option V) : putAll bindings m k = some v := by
  induction bindings generalizing m with
  | nil => simp at hmem
  | cons binding rest ih =>
    rw [map_cons, nodup_cons] at hnodup
    rcases mem_cons.mp hmem with rfl | hmem
    · rw [putAll, putAll_of_notMem hnodup.1, update_self]
    · exact ih hnodup.2 hmem _

/-- **Undoing what was put.** Bindings put at free keys are undone by removing the keys. -/
theorem removeAll_putAll (hfree : ∀ binding ∈ bindings, m binding.1 = none) :
    removeAll (bindings.map Prod.fst) (putAll bindings m) = m := by
  funext k
  unfold removeAll
  split
  · next hk =>
      obtain ⟨binding, hmem, rfl⟩ := mem_map.mp hk
      exact (hfree binding hmem).symm
  · next hk => exact putAll_of_notMem hk m

/-- A property of all bindings is kept by removing keys. -/
theorem forall_removeAll {P : K → V → Prop} (hm : ∀ k v, m k = some v → P k v) (keys : List K) :
    ∀ k v, removeAll keys m k = some v → P k v := by
  intro k v h
  unfold removeAll at h
  split at h
  · simp at h
  · exact hm k v h

/-- A property of all bindings is kept by putting bindings that have it. -/
theorem forall_putAll {P : K → V → Prop} (hbindings : ∀ binding ∈ bindings, P binding.1 binding.2)
    (hm : ∀ k v, m k = some v → P k v) : ∀ k v, putAll bindings m k = some v → P k v := by
  induction bindings generalizing m with
  | nil => exact hm
  | cons binding rest ih =>
    refine ih (fun b hb => hbindings b (mem_cons_of_mem _ hb)) ?_
    intro k v h
    by_cases hk : k = binding.1
    · subst hk
      rw [update_self] at h
      cases h
      exact hbindings binding mem_cons_self
    · rw [update_of_ne hk] at h
      exact hm k v h

/-! ## Batches -/

/-- Apply a batch of changes; `none` removes a key. -/
def applyAll : List (K × Option V) → (K → Option V) → K → Option V
  | [], m => m
  | (k, v) :: rest, m => applyAll rest (Function.update m k v)

theorem applyAll_append (changes changes' : List (K × Option V)) (m : K → Option V) :
    applyAll (changes ++ changes') m = applyAll changes' (applyAll changes m) := by
  induction changes generalizing m with
  | nil => rfl
  | cons change rest ih => exact ih _

/-- A key without a change keeps its value. -/
theorem applyAll_of_notMem {changes : List (K × Option V)} (hk : ∀ change ∈ changes, change.1 ≠ k)
    (m : K → Option V) : applyAll changes m k = m k := by
  induction changes generalizing m with
  | nil => rfl
  | cons change rest ih =>
    rw [forall_mem_cons] at hk
    rw [applyAll, ih hk.2, update_of_ne (Ne.symm hk.1)]

/-- A key with a change gets the value of one of its changes. -/
theorem applyAll_of_mem {changes : List (K × Option V)} (hk : ∃ change ∈ changes, change.1 = k)
    (m : K → Option V) : ∃ change ∈ changes, change.1 = k ∧ applyAll changes m k = change.2 := by
  induction changes generalizing m with
  | nil => simp at hk
  | cons change rest ih =>
    by_cases hrest : ∃ change' ∈ rest, change'.1 = k
    · obtain ⟨change', hmem, heq, hvalue⟩ := ih hrest (update m change.1 change.2)
      exact ⟨change', mem_cons_of_mem _ hmem, heq, hvalue⟩
    · obtain ⟨change', hmem, rfl⟩ := hk
      rcases mem_cons.mp hmem with rfl | hmem
      · refine ⟨change', mem_cons_self, rfl, ?_⟩
        rw [applyAll, applyAll_of_notMem (fun c hc heq => hrest ⟨c, hc, heq⟩), update_self]
      · exact absurd ⟨change', hmem, rfl⟩ hrest

/-- Writing entries and then erasing them all, and others at free keys, changes nothing. -/
theorem erase_write_of_forall {writes erases : List (K × V)} (hfree : ∀ e ∈ erases, m e.1 = none)
    (hall : ∀ w ∈ writes, ∃ e ∈ erases, e.1 = w.1) :
    applyAll (erases.map fun e => (e.1, none)) (applyAll (writes.map fun w => (w.1, some w.2)) m)
      = m := by
  funext k
  by_cases hk : ∃ e ∈ erases, e.1 = k
  · obtain ⟨e, he, rfl⟩ := hk
    have hmem : ∃ change ∈ erases.map fun e => (e.1, (none : Option V)), change.1 = e.1 :=
      ⟨_, mem_map_of_mem he, rfl⟩
    obtain ⟨change, hchange, -, hvalue⟩ :=
      applyAll_of_mem hmem (applyAll (writes.map fun w => (w.1, some w.2)) m)
    obtain ⟨e', -, rfl⟩ := mem_map.mp hchange
    rw [hvalue, hfree e he]
  · rw [applyAll_of_notMem, applyAll_of_notMem]
    · intro change hchange heq
      obtain ⟨w, hw, rfl⟩ := mem_map.mp hchange
      obtain ⟨e, he, heq'⟩ := hall w hw
      exact hk ⟨e, he, heq'.trans heq⟩
    · intro change hchange heq
      obtain ⟨e, he, rfl⟩ := mem_map.mp hchange
      exact hk ⟨e, he, heq⟩

/-- An entry written at a free key and not erased is still there. -/
theorem erase_write_ne {writes erases : List (K × V)} {w : K × V} (hw : w ∈ writes)
    (hfree : m w.1 = none) (hkept : ∀ e ∈ erases, e.1 ≠ w.1) :
    applyAll (erases.map fun e => (e.1, none)) (applyAll (writes.map fun w => (w.1, some w.2)) m)
      ≠ m := by
  have hmem : ∃ change ∈ writes.map fun w => (w.1, some w.2), change.1 = w.1 :=
    ⟨_, mem_map_of_mem hw, rfl⟩
  obtain ⟨change, hchange, -, hvalue⟩ := applyAll_of_mem hmem m
  obtain ⟨w', -, rfl⟩ := mem_map.mp hchange
  intro h
  have hafter := congrFun h w.1
  rw [applyAll_of_notMem, hvalue, hfree] at hafter
  · simp at hafter
  · intro change hchange
    obtain ⟨e, he, rfl⟩ := mem_map.mp hchange
    exact hkept e he

end Journal
