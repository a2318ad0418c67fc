import Binarium.Lib.Descent
import Binarium.Mempool.Graph

set_option autoImplicit false

/-! # The links of the memory pool

`mapLinks` keeps every link twice: with the parent, in its set of children, and with the child, in its
set of parents. `UpdateChild` and `UpdateParent` add or remove one such half of a link and change nothing
else; what the loops over them do follows from that.

The ancestors that `CalculateMemPoolAncestors` collects without limits are the entries from which links
lead to the entry (`calculateMemPoolAncestors_noLimits`). -/

namespace Binarium

open Closure Checks Descent Relation

namespace CTxMemPool

variable {pool : CTxMemPool}

/-! ## Half links -/

/-- `p` is in the set of parents of `c`. -/
def ParentLink (pool : CTxMemPool) (p c : Uint256) : Prop := p ∈ pool.getMemPoolParents c

/-- `c` is in the set of children of `p`. -/
def ChildLink (pool : CTxMemPool) (p c : Uint256) : Prop := c ∈ pool.getMemPoolChildren p

/-- `mapLinks` has the entry. -/
def hasLinks (pool : CTxMemPool) (h : Uint256) : Bool := (pool.mapLinks.lookup h).isSome

/-- The sets of parents and of children have no duplicates. -/
def NodupLinks (pool : CTxMemPool) : Prop :=
  ∀ h, (pool.getMemPoolParents h).Nodup ∧ (pool.getMemPoolChildren h).Nodup

variable {c p entry : Uint256} {link : Uint256 × Uint256}

theorem hasLinks_of_parentLink (h : pool.ParentLink p c) : pool.hasLinks c := by
  unfold ParentLink getMemPoolParents links at h
  unfold hasLinks
  cases hc : pool.mapLinks.lookup c with
  | none => simp [hc] at h
  | some l => rfl

theorem hasLinks_of_childLink (h : pool.ChildLink p c) : pool.hasLinks p := by
  unfold ChildLink getMemPoolChildren links at h
  unfold hasLinks
  cases hp : pool.mapLinks.lookup p with
  | none => simp [hp] at h
  | some l => rfl

/-! ### Sets -/

theorem mem_updateSet_true {s : SetEntries} {it x : Uint256} :
    x ∈ updateSet s it true ↔ x ∈ s ∨ x = it :=
  (mem_insertSet hashOrder).trans or_comm

theorem mem_updateSet_false {s : SetEntries} (hs : s.Nodup) {it x : Uint256} :
    x ∈ updateSet s it false ↔ x ∈ s ∧ x ≠ it :=
  (hs.mem_erase_iff).trans and_comm

theorem nodup_updateSet {s : SetEntries} (hs : s.Nodup) (it : Uint256) (add : Bool) :
    (updateSet s it add).Nodup := by
  cases add with
  | true => exact nodup_insertSet hashOrder hs
  | false => exact hs.erase it

/-! ### `UpdateChild` -/

section

variable (entry child : Uint256) (add : Bool) (h : Uint256)

include h

theorem getMemPoolChildren_updateChild :
    (pool.updateChild entry child add).getMemPoolChildren h
      = if h = entry then updateSet (pool.getMemPoolChildren entry) child add
        else pool.getMemPoolChildren h := by
  simp only [getMemPoolChildren, links, updateChild, Maps.lookup_insert_eq_ite]
  split_ifs <;> rfl

theorem getMemPoolParents_updateChild :
    (pool.updateChild entry child add).getMemPoolParents h = pool.getMemPoolParents h := by
  simp only [getMemPoolParents, links, updateChild, Maps.lookup_insert_eq_ite]
  split_ifs with heq
  · rw [heq]
    rfl
  · rfl

theorem hasLinks_updateChild :
    (pool.updateChild entry child add).hasLinks h ↔ pool.hasLinks h ∨ h = entry := by
  simp only [hasLinks, updateChild, Maps.lookup_insert_eq_ite]
  split_ifs with heq <;> simp [heq]

end

theorem parentLink_updateChild {child : Uint256} {add : Bool} :
    (pool.updateChild entry child add).ParentLink p c ↔ pool.ParentLink p c := by
  simp [ParentLink, getMemPoolParents_updateChild]

theorem childLink_updateChild_true {child : Uint256} :
    (pool.updateChild entry child true).ChildLink link.1 link.2
      ↔ pool.ChildLink link.1 link.2 ∨ link = (entry, child) := by
  rw [ChildLink, getMemPoolChildren_updateChild, Prod.ext_iff]
  split_ifs with heq
  · simp [mem_updateSet_true, ChildLink, heq]
  · simp [heq, ChildLink]

theorem childLink_updateChild_false (hpool : pool.NodupLinks) {child : Uint256} :
    (pool.updateChild entry child false).ChildLink link.1 link.2
      ↔ pool.ChildLink link.1 link.2 ∧ link ≠ (entry, child) := by
  rw [ChildLink, getMemPoolChildren_updateChild, Ne, Prod.ext_iff]
  split_ifs with heq
  · simp [mem_updateSet_false (hpool entry).2, ChildLink, heq]
  · simp [heq, ChildLink]

theorem nodupLinks_updateChild (hpool : pool.NodupLinks) (entry child : Uint256) (add : Bool) :
    (pool.updateChild entry child add).NodupLinks := by
  intro h
  rw [getMemPoolParents_updateChild, getMemPoolChildren_updateChild]
  refine ⟨(hpool h).1, ?_⟩
  split_ifs
  · exact nodup_updateSet (hpool entry).2 child add
  · exact (hpool h).2

/-! ### `UpdateParent` -/

section

variable (entry parent : Uint256) (add : Bool) (h : Uint256)

include h

theorem getMemPoolParents_updateParent :
    (pool.updateParent entry parent add).getMemPoolParents h
      = if h = entry then updateSet (pool.getMemPoolParents entry) parent add
        else pool.getMemPoolParents h := by
  simp only [getMemPoolParents, links, updateParent, Maps.lookup_insert_eq_ite]
  split_ifs <;> rfl

theorem getMemPoolChildren_updateParent :
    (pool.updateParent entry parent add).getMemPoolChildren h = pool.getMemPoolChildren h := by
  simp only [getMemPoolChildren, links, updateParent, Maps.lookup_insert_eq_ite]
  split_ifs with heq
  · rw [heq]
    rfl
  · rfl

theorem hasLinks_updateParent :
    (pool.updateParent entry parent add).hasLinks h ↔ pool.hasLinks h ∨ h = entry := by
  simp only [hasLinks, updateParent, Maps.lookup_insert_eq_ite]
  split_ifs with heq <;> simp [heq]

end

theorem childLink_updateParent {parent : Uint256} {add : Bool} :
    (pool.updateParent entry parent add).ChildLink p c ↔ pool.ChildLink p c := by
  simp [ChildLink, getMemPoolChildren_updateParent]

theorem parentLink_updateParent_true {parent : Uint256} :
    (pool.updateParent entry parent true).ParentLink link.1 link.2
      ↔ pool.ParentLink link.1 link.2 ∨ link = (parent, entry) := by
  rw [ParentLink, getMemPoolParents_updateParent, Prod.ext_iff]
  split_ifs with heq
  · simp [mem_updateSet_true, ParentLink, heq]
  · simp [heq, ParentLink]

theorem parentLink_updateParent_false (hpool : pool.NodupLinks) {parent : Uint256} :
    (pool.updateParent entry parent false).ParentLink link.1 link.2
      ↔ pool.ParentLink link.1 link.2 ∧ link ≠ (parent, entry) := by
  rw [ParentLink, getMemPoolParents_updateParent, Ne, Prod.ext_iff]
  split_ifs with heq
  · simp [mem_updateSet_false (hpool entry).1, ParentLink, heq]
  · simp [heq, ParentLink]

theorem nodupLinks_updateParent (hpool : pool.NodupLinks) (entry parent : Uint256) (add : Bool) :
    (pool.updateParent entry parent add).NodupLinks := by
  intro h
  rw [getMemPoolParents_updateParent, getMemPoolChildren_updateParent]
  refine ⟨?_, (hpool h).2⟩
  split_ifs
  · exact nodup_updateSet (hpool entry).1 parent add
  · exact (hpool h).1

/-! ## Ancestors -/

theorem not_gt_noLimit (n : UInt64) : ¬ n > 0xffffffffffffffff := by
  intro h
  have hlt := UInt64.lt_iff_toNat_lt.mp h
  have hmax := n.toNat_lt
  have hlimit : (0xffffffffffffffff : UInt64).toNat = 2 ^ 64 - 1 := rfl
  omega

theorem stageParents_noLimits (setAncestors parents : SetEntries) :
    ∀ parentHashes, ∃ staged, stageParents noLimits setAncestors parents parentHashes = .ok staged := by
  induction parents with
  | nil => exact fun parentHashes => ⟨parentHashes, rfl⟩
  | cons phash rest ih =>
    intro parentHashes
    have hlimit : ∀ n, ¬ n > noLimits.limitAncestorCount := not_gt_noLimit
    simp only [stageParents, if_neg (hlimit _)]
    exact ih _

theorem checkAncestor_noLimits (entry stageit : CTxMemPoolEntry) (total : UInt64) :
    checkAncestor noLimits entry stageit total = .ok () := by
  have hsize : ∀ n, ¬ n > noLimits.limitDescendantSize := not_gt_noLimit
  have hcount : ∀ n, ¬ n > noLimits.limitDescendantCount := not_gt_noLimit
  have htotal : ∀ n, ¬ n > noLimits.limitAncestorSize := not_gt_noLimit
  rw [checkAncestor, if_neg (hsize _), if_neg (hcount _), if_neg (htotal _)]

theorem walkAncestors_noLimits (entry : CTxMemPoolEntry) (rounds : ℕ) :
    ∀ total stage found, ∃ setAncestors,
      pool.walkAncestors noLimits entry rounds total stage found = .ok setAncestors := by
  induction rounds with
  | zero => exact fun total stage found => ⟨found, rfl⟩
  | succ rounds ih =>
    intro total stage found
    cases stage with
    | nil => exact ⟨found, rfl⟩
    | cons it stage =>
      rw [walkAncestors, checkAncestor_noLimits]
      obtain ⟨staged, hstaged⟩ := stageParents_noLimits (insertSet hashOrder it found)
        (pool.getMemPoolParents it) stage
      simp only [hstaged]
      exact ih _ _ _

theorem reached_parents_iff {roots : SetEntries} (h : Uint256) :
    Reached pool.getMemPoolParents roots h ↔ ∃ root ∈ roots, ReflTransGen pool.ParentLink h root := by
  refine exists_congr fun root => and_congr_right fun _ => ?_
  rw [← reflTransGen_swap]
  rfl

/-- **The ancestors of an entry, without limits**, are the entries from which links lead to it. -/
theorem calculateMemPoolAncestors_noLimits (hpool : pool.ParentsExist) (hnodup : pool.NodupLinks)
    (entry : CTxMemPoolEntry) (hentry : pool.existsTx entry.tx.hash) :
    ∃ setAncestors, pool.calculateMemPoolAncestors entry noLimits false = .ok setAncestors
      ∧ setAncestors.Nodup
      ∧ ∀ h, h ∈ setAncestors ↔ TransGen pool.ParentLink h entry.tx.hash := by
  obtain ⟨setAncestors, hwalk⟩ := pool.walkAncestors_noLimits entry pool.mapTx.keys.length
    (UInt64.ofNat entry.getTxSize) (pool.getMemPoolParents entry.tx.hash) []
  have hdone := walkAncestors_walking hpool (hpool _ hentry) (Walking.ofStage (hnodup _).1) (by simp)
    hwalk
  refine ⟨setAncestors, hwalk, hdone.nodupVisited, fun h => ?_⟩
  rw [hdone.mem_iff, reached_parents_iff, TransGen.tail'_iff]
  exact exists_congr fun root => and_comm

/-- **The ancestors of a new transaction, if no limit stops the walk**, are its parents and the entries
    from which links lead to them. -/
theorem calculateMemPoolAncestors_search (hpool : pool.ParentsExist) {limits : AncestorLimits}
    {entry : CTxMemPoolEntry} {setAncestors : SetEntries}
    (hok : pool.calculateMemPoolAncestors entry limits true = .ok setAncestors) :
    setAncestors.Nodup ∧ ∀ h, h ∈ setAncestors ↔ ∃ p, (pool.existsTx p
      ∧ ∃ txin ∈ entry.tx.vin, txin.prevout.hash = p) ∧ ReflTransGen pool.ParentLink h p := by
  obtain ⟨parents, hparents, hwalk⟩ := bind_eq_ok_iff.mp hok
  obtain ⟨hnodup, hmem⟩ := searchParents_spec List.nodup_nil hparents
  simp only [List.not_mem_nil, false_or] at hmem
  have hdone := walkAncestors_walking hpool (fun root hroot => ((hmem root).mp hroot).1)
    (Walking.ofStage hnodup) (by simp) hwalk
  refine ⟨hdone.nodupVisited, fun h => ?_⟩
  rw [hdone.mem_iff, reached_parents_iff]
  exact exists_congr fun p => and_congr_left fun _ => hmem p

end CTxMemPool

end Binarium
