import Binarium.Mempool.Tallies

set_option autoImplicit false

/-! # Removing entries from the memory pool

`RemoveStaged` works in three loops. The first takes every staged entry out of the totals of its
ancestors, and out of the sets of children of its parents; the ancestors are found by the links to
parents, which stay as they are until the second loop. The second takes the staged entries out of the
sets of parents of their children, and the third erases them.

`Removed` says what is left in the end: the other entries with the links among them, and totals that no
longer count what was removed. `Consistent` is what the pool keeps track of apart from the totals, and
`Exact` is that the totals are those of the descendants. Both outlive a removal
(`Consistent.removeStaged`, `Exact.removeStaged`), the second one if what descends from a removed entry
is removed too, unless nothing that stays leads to it. -/

namespace Binarium

open Closure Checks Descent Relation CTxMemPoolEntry Finset AList

namespace CTxMemPool

/-! ## What the pool keeps track of -/

/-- `totalTxSize` is the size of all entries. -/
def TotalSize (pool : CTxMemPool) : Prop :=
  pool.totalTxSize = UInt64.ofNat (Maps.total (fun _ entry => entry.getTxSize) pool.mapTx)

/-- The links are stored at both ends, they run between entries and in no circle; `mapNextTx` holds the
    inputs of the entries; the entries have the fee deltas of `mapDeltas`; `totalTxSize` is the size of
    all entries. -/
structure Consistent (pool : CTxMemPool) : Prop where
  keyed : ∀ {h entry}, pool.mapTx.lookup h = some entry → entry.tx.hash = h
  hasLinks : ∀ h, pool.hasLinks h = pool.existsTx h
  nodup : pool.NodupLinks
  both : ∀ p c, pool.ParentLink p c ↔ pool.ChildLink p c
  acyclic : ∀ h, ¬ TransGen pool.ChildLink h h
  nextTx_sound : ∀ {outpoint next}, pool.mapNextTx.lookup outpoint = some next →
    pool.checkNext outpoint next = true
  nextTx_complete : ∀ {h entry}, pool.mapTx.lookup h = some entry → ∀ txin ∈ entry.tx.vin,
    ∃ next, pool.mapNextTx.lookup txin.prevout = some next ∧ next.ptx = entry.tx
  deltas : ∀ {h entry}, pool.mapTx.lookup h = some entry →
    entry.feeDelta = (pool.mapDeltas.lookup h).getD 0
  totalSize : pool.TotalSize

namespace Consistent

variable {pool : CTxMemPool} (hpool : pool.Consistent)

include hpool

theorem exists_of_childLink {p c : Uint256} (h : pool.ChildLink p c) :
    pool.existsTx p ∧ pool.existsTx c := by
  rw [← hpool.hasLinks, ← hpool.hasLinks]
  exact ⟨hasLinks_of_childLink h, hasLinks_of_parentLink ((hpool.both p c).mpr h)⟩

theorem parentLink_eq : pool.ParentLink = pool.ChildLink :=
  funext fun p => funext fun c => propext (hpool.both p c)

theorem parentsExist : pool.ParentsExist :=
  fun c _ p hp => (hpool.exists_of_childLink ((hpool.both p c).mp hp)).1

theorem childrenExist : pool.ChildrenExist :=
  fun _ _ _ hc => (hpool.exists_of_childLink hc).2

theorem hash_deref {h : Uint256} (hh : pool.existsTx h) : (pool.deref h).tx.hash = h := by
  obtain ⟨entry, hentry⟩ := existsTx_iff.mp hh
  rw [deref_of_lookup hentry]
  exact hpool.keyed hentry

end Consistent

/-! ## The part of the pool that is not in question -/

/-- Neither the spent outpoints nor the deltas nor the total size have changed. -/
structure Framed (pool pool' : CTxMemPool) : Prop where
  mapNextTx : pool'.mapNextTx = pool.mapNextTx
  mapDeltas : pool'.mapDeltas = pool.mapDeltas
  totalTxSize : pool'.totalTxSize = pool.totalTxSize

theorem Framed.refl (pool : CTxMemPool) : Framed pool pool := ⟨rfl, rfl, rfl⟩

theorem Framed.trans {pool pool' pool'' : CTxMemPool} (h : Framed pool pool')
    (h' : Framed pool' pool'') : Framed pool pool'' :=
  ⟨h'.mapNextTx.trans h.mapNextTx, h'.mapDeltas.trans h.mapDeltas,
    h'.totalTxSize.trans h.totalTxSize⟩

theorem Framed.foldl {α : Type} {f : CTxMemPool → α → CTxMemPool}
    (hf : ∀ pool a, Framed pool (f pool a)) (l : List α) (pool : CTxMemPool) :
    Framed pool (l.foldl f pool) :=
  foldl_invariant (fun s a h => Framed.trans h (hf s a)) l (Framed.refl pool)

variable {pool pool' : CTxMemPool}

section
variable (h : pool'.mapLinks = pool.mapLinks)
include h

theorem parentLink_of_mapLinks : pool'.ParentLink = pool.ParentLink := by
  unfold ParentLink getMemPoolParents links
  rw [h]

theorem childLink_of_mapLinks : pool'.ChildLink = pool.ChildLink := by
  unfold ChildLink getMemPoolChildren links
  rw [h]

theorem hasLinks_of_mapLinks : pool'.hasLinks = pool.hasLinks := by
  unfold hasLinks
  rw [h]

theorem nodupLinks_of_mapLinks (hpool : pool.NodupLinks) : pool'.NodupLinks := by
  unfold NodupLinks getMemPoolParents getMemPoolChildren links
  rw [h]
  exact hpool

end

/-! ## `UpdateAncestorsOf` -/

section UpdateAncestorsOf

variable {add : Bool} {it : Uint256} {setAncestors : SetEntries}

theorem framed_updateAncestorsOf : Framed pool (pool.updateAncestorsOf add it setAncestors) := by
  refine Framed.trans ?_ (Framed.foldl (fun _ _ => ?_) setAncestors _)
  · exact Framed.foldl (fun _ _ => by exact ⟨rfl, rfl, rfl⟩) _ pool
  · exact ⟨rfl, rfl, rfl⟩

/-- The links change only in the loop over the parents. -/
theorem mapLinks_updateAncestorsOf : (pool.updateAncestorsOf add it setAncestors).mapLinks
    = ((pool.getMemPoolParents it).foldl (fun pool piter => pool.updateChild piter it add)
        pool).mapLinks :=
  foldl_keeps (g := mapLinks) (fun _ _ => by rfl) setAncestors _

theorem parentLink_updateAncestorsOf :
    (pool.updateAncestorsOf add it setAncestors).ParentLink = pool.ParentLink := by
  rw [parentLink_of_mapLinks mapLinks_updateAncestorsOf]
  refine foldl_keeps (g := ParentLink) (fun s a => ?_) _ pool
  exact funext fun p => funext fun c => propext parentLink_updateChild

theorem nodupLinks_updateAncestorsOf (hpool : pool.NodupLinks) :
    (pool.updateAncestorsOf add it setAncestors).NodupLinks := by
  refine nodupLinks_of_mapLinks mapLinks_updateAncestorsOf ?_
  exact foldl_invariant (Q := NodupLinks) (fun s a hs => nodupLinks_updateChild hs a it add) _ hpool

theorem hasLinks_updateAncestorsOf (h : Uint256) :
    (pool.updateAncestorsOf add it setAncestors).hasLinks h
      ↔ pool.hasLinks h ∨ pool.ParentLink h it := by
  rw [hasLinks_of_mapLinks mapLinks_updateAncestorsOf]
  refine (foldl_gains (Q := fun (s : CTxMemPool) x => s.hasLinks x) (g := id) (b := h)
    fun s a b => hasLinks_updateChild a it add b).trans ?_
  simp [ParentLink]

theorem childLink_updateAncestorsOf_true (p c : Uint256) :
    (pool.updateAncestorsOf true it setAncestors).ChildLink p c
      ↔ pool.ChildLink p c ∨ (c = it ∧ pool.ParentLink p it) := by
  rw [childLink_of_mapLinks mapLinks_updateAncestorsOf]
  refine (foldl_gains (Q := fun (s : CTxMemPool) link => s.ChildLink link.1 link.2)
    (b := (p, c)) (g := fun piter => (piter, it)) fun s a b => childLink_updateChild_true).trans ?_
  grind [ParentLink]

theorem childLink_updateAncestorsOf_false (hpool : pool.NodupLinks) (p c : Uint256) :
    (pool.updateAncestorsOf false it setAncestors).ChildLink p c
      ↔ pool.ChildLink p c ∧ ¬ (c = it ∧ pool.ParentLink p it) := by
  rw [childLink_of_mapLinks mapLinks_updateAncestorsOf]
  refine (foldl_loses (Q := fun (s : CTxMemPool) link => s.ChildLink link.1 link.2)
    (b := (p, c)) (g := fun piter => (piter, it)) (I := NodupLinks)
    (fun s a hs => nodupLinks_updateChild hs a it false)
    (fun s a b hs => childLink_updateChild_false hs) hpool).trans ?_
  grind [ParentLink]

/-- The totals change only in the loop over the ancestors. -/
theorem retallied_updateAncestorsOf {δ : Tally} (hnodup : setAncestors.Nodup)
    (hδ : change ((if add then 1 else -1) * Int64.ofNat (pool.deref it).getTxSize)
      ((if add then 1 else -1) * (pool.deref it).getModifiedFee) (if add then 1 else -1) = δ) :
    Retallied pool (pool.updateAncestorsOf add it setAncestors)
      (fun h => if h ∈ setAncestors then δ else 0) := by
  have hlinks : ((pool.getMemPoolParents it).foldl
      (fun pool piter => pool.updateChild piter it add) pool).mapTx = pool.mapTx :=
    foldl_keeps (g := mapTx) (fun _ _ => by rfl) _ pool
  subst hδ
  refine ((Retallied.of_mapTx hlinks).trans
    (retallied_foldl_modifyTx _ _ _ setAncestors hnodup)).congr fun x _ => ?_
  simp

end UpdateAncestorsOf

/-! ## The first loop of `UpdateForRemoveFromMempool` -/

/-- What the totals of an entry lose with some entries: what those count for that it is an ancestor
    of. -/
noncomputable def lost (pool : CTxMemPool) (gone : Finset Uint256) (h : Uint256) : Tally :=
  open Classical in ∑ d ∈ gone, if TransGen pool.ChildLink h d then pool.weight d else 0

/-- The entries have been taken out of the totals of their ancestors and out of the sets of children of
    their parents. -/
structure Forgotten (pool pool' : CTxMemPool) (done : Finset Uint256) : Prop where
  parentLink : pool'.ParentLink = pool.ParentLink
  childLink : ∀ p c, pool'.ChildLink p c ↔ pool.ChildLink p c ∧ c ∉ done
  hasLinks : ∀ h, pool'.hasLinks h = true ↔ pool.hasLinks h = true
  nodup : pool'.NodupLinks
  entries : Retallied pool pool' fun h => -pool.lost done h
  rest : Framed pool pool'

variable {stage : SetEntries}

namespace Forgotten

variable {done : Finset Uint256} (hpool : pool.Consistent)

include hpool

theorem nil : Forgotten pool pool ∅ where
  parentLink := rfl
  childLink := fun p c => by simp
  hasLinks := fun _ => Iff.rfl
  nodup := hpool.nodup
  entries := (Retallied.of_mapTx rfl).congr fun x _ => by simp [lost]
  rest := Framed.refl pool

/-- **One round.** -/
theorem step (h : Forgotten pool pool' done) {d : Uint256} (hd : pool.existsTx d)
    (hfresh : d ∉ done) : Forgotten pool (pool'.forgetDescendant d) (insert d done) := by
  have hhash : (pool'.deref d).tx.hash = d := by rw [h.entries.tx_deref, hpool.hash_deref hd]
  have hparents : pool'.ParentsExist := by
    intro c _ p hp
    have hlink : pool'.ParentLink p c := hp
    rw [h.parentLink, hpool.both] at hlink
    rw [h.entries.exists_eq]
    exact (hpool.exists_of_childLink hlink).1
  obtain ⟨setAncestors, hcalc, hnodup, hmem⟩ := calculateMemPoolAncestors_noLimits hparents h.nodup
    (pool'.deref d) (by rw [hhash, h.entries.exists_eq, hd])
  rw [hhash, h.parentLink, hpool.parentLink_eq] at hmem
  have hforget : pool'.forgetDescendant d = pool'.updateAncestorsOf false d setAncestors := by
    rw [forgetDescendant, hcalc]
    rfl
  rw [hforget]
  refine ⟨?_, ?_, ?_, nodupLinks_updateAncestorsOf h.nodup, ?_, h.rest.trans framed_updateAncestorsOf⟩
  · rw [parentLink_updateAncestorsOf, h.parentLink]
  · intro p c
    rw [childLink_updateAncestorsOf_false h.nodup, h.childLink, h.parentLink, hpool.parentLink_eq]
    grind
  · intro x
    rw [hasLinks_updateAncestorsOf, h.hasLinks, h.parentLink, or_iff_left_iff_imp, hpool.hasLinks]
    exact fun hlink => (hpool.exists_of_childLink ((hpool.both x d).mp hlink)).1
  · have htotals : Retallied pool' (pool'.updateAncestorsOf false d setAncestors)
        (fun x => if x ∈ setAncestors then -(pool'.deref d).weight else 0) :=
      retallied_updateAncestorsOf hnodup (pool'.deref d).change_remove
    refine (h.entries.trans htotals).congr fun x _ => ?_
    have hweight : (pool'.deref d).weight = pool.weight d :=
      weight_of_core (h.entries.core_deref d)
    rw [Pi.add_apply, lost, lost, sum_insert hfresh, neg_add_rev, hweight, ← hmem]
    split_ifs <;> simp

/-- **The whole loop.** -/
theorem loop (hexists : ∀ d ∈ stage, pool.existsTx d) (hnodup : stage.Nodup) :
    Forgotten pool (stage.foldl forgetDescendant pool) stage.toFinset :=
  foldl_done (Q := Forgotten pool) hnodup
    (fun _ _ d hd hfresh h => h.step hpool (hexists d hd) hfresh) (nil hpool)

end Forgotten

/-! ## The second loop -/

/-- The entries have been taken out of the sets of parents of their children. -/
structure Severed (pool pool' : CTxMemPool) (done : Finset Uint256) : Prop where
  childLink : pool'.ChildLink = pool.ChildLink
  parentLink : ∀ p c, pool'.ParentLink p c ↔ pool.ParentLink p c ∧ ¬ (p ∈ done ∧ pool.ChildLink p c)
  hasLinks : ∀ h, pool'.hasLinks h = true ↔ pool.hasLinks h = true
  nodup : pool'.NodupLinks
  mapTx : pool'.mapTx = pool.mapTx
  rest : Framed pool pool'

namespace Severed

variable {done : Finset Uint256}

theorem nil (hnodup : pool.NodupLinks) : Severed pool pool ∅ where
  childLink := rfl
  parentLink := fun p c => by simp
  hasLinks := fun _ => Iff.rfl
  nodup := hnodup
  mapTx := rfl
  rest := Framed.refl pool

/-- One round. -/
theorem step (hlinks : ∀ p c, pool.ChildLink p c → pool.hasLinks c)
    (h : Severed pool pool' done) (it : Uint256) :
    Severed pool (pool'.updateChildrenForRemoval it) (insert it done) := by
  have hchild : ∀ c, c ∈ pool'.getMemPoolChildren it ↔ pool.ChildLink it c := by
    intro c
    rw [← h.childLink]
    rfl
  refine ⟨?_, ?_, ?_, ?_, ?_, ?_⟩
  · rw [← h.childLink]
    refine foldl_keeps (g := ChildLink) (fun s a => ?_) _ pool'
    exact funext fun p => funext fun c => propext childLink_updateParent
  · intro p c
    refine (foldl_loses (Q := fun (s : CTxMemPool) link => s.ParentLink link.1 link.2)
      (b := (p, c)) (g := fun updateIt => (it, updateIt)) (I := NodupLinks)
      (fun s a hs => nodupLinks_updateParent hs a it false)
      (fun s a b hs => parentLink_updateParent_false hs) h.nodup).trans ?_
    rw [h.parentLink]
    grind
  · intro x
    refine (foldl_gains (Q := fun (s : CTxMemPool) x => s.hasLinks x) (g := id) (b := x)
      fun s a b => hasLinks_updateParent a it false b).trans ?_
    rw [h.hasLinks]
    grind
  · exact foldl_invariant (Q := NodupLinks) (fun s a hs => nodupLinks_updateParent hs a it false) _
      h.nodup
  · exact (foldl_keeps (g := CTxMemPool.mapTx) (fun _ _ => by rfl) _ pool').trans h.mapTx
  · exact h.rest.trans (Framed.foldl (fun _ _ => by exact ⟨rfl, rfl, rfl⟩) _ pool')

/-- The whole loop. -/
theorem loop (hlinks : ∀ p c, pool.ChildLink p c → pool.hasLinks c)
    (hnodupLinks : pool.NodupLinks) (hnodup : stage.Nodup) :
    Severed pool (stage.foldl updateChildrenForRemoval pool) stage.toFinset :=
  foldl_done (Q := Severed pool) hnodup (fun _ _ it _ _ h => h.step hlinks it) (nil hnodupLinks)

end Severed

/-! ## The third loop -/

/-- One of the entries spends the outpoint. -/
def SpentIn (pool : CTxMemPool) (gone : Finset Uint256) (outpoint : COutPoint) : Prop :=
  ∃ d ∈ gone, ∃ txin ∈ (pool.deref d).tx.vin, txin.prevout = outpoint

/-- The entries have been erased. -/
structure Erased (pool pool' : CTxMemPool) (done : Finset Uint256) : Prop where
  mapTx : ∀ h, pool'.mapTx.lookup h = if h ∈ done then none else pool.mapTx.lookup h
  mapLinks : ∀ h, pool'.mapLinks.lookup h = if h ∈ done then none else pool.mapLinks.lookup h
  spent : ∀ {outpoint}, pool.SpentIn done outpoint → pool'.mapNextTx.lookup outpoint = none
  unspent : ∀ {outpoint}, ¬ pool.SpentIn done outpoint →
    pool'.mapNextTx.lookup outpoint = pool.mapNextTx.lookup outpoint
  mapDeltas : pool'.mapDeltas = pool.mapDeltas
  totalSize : pool'.TotalSize

namespace Erased

variable {done : Finset Uint256}

theorem nil (hsize : pool.TotalSize) : Erased pool pool ∅ where
  mapTx := fun h => by simp
  mapLinks := fun h => by simp
  spent := fun ⟨_, hd, _⟩ => absurd hd (by simp)
  unspent := fun _ => rfl
  mapDeltas := rfl
  totalSize := hsize

theorem totalSize_removeUnchecked (hsize : pool.TotalSize) {it : Uint256}
    (hit : pool.existsTx it) : (pool.removeUnchecked it).TotalSize := by
  obtain ⟨entry, hentry⟩ := existsTx_iff.mp hit
  have htotal : Maps.total (fun _ entry => entry.getTxSize) pool.mapTx
      = entry.getTxSize
        + Maps.total (fun _ entry => entry.getTxSize) (pool.removeUnchecked it).mapTx :=
    Maps.total_eq_add hentry (lookup_erase _ _)
      fun k hk => (lookup_erase_ne hk).symm
  unfold TotalSize at hsize ⊢
  rw [htotal, UInt64.ofNat_add] at hsize
  show pool.totalTxSize - UInt64.ofNat (pool.deref it).getTxSize = _
  rw [hsize, deref_of_lookup hentry, UInt64.add_comm, UInt64.add_sub_cancel]

/-- One round. -/
theorem step (h : Erased pool pool' done) {it : Uint256} (hit : pool.existsTx it)
    (hfresh : it ∉ done) : Erased pool (pool'.removeUnchecked it) (insert it done) := by
  have hlookup : pool'.mapTx.lookup it = pool.mapTx.lookup it := by rw [h.mapTx, if_neg hfresh]
  have hderef : pool'.deref it = pool.deref it := by rw [deref, deref, hlookup]
  have hnext : ∀ outpoint, (pool'.removeUnchecked it).mapNextTx.lookup outpoint
      = if outpoint ∈ (pool.deref it).tx.vin.map CTxIn.prevout then none
        else pool'.mapNextTx.lookup outpoint := by
    intro outpoint
    rw [← Maps.lookup_foldl_erase, List.foldl_map, ← hderef]
    rfl
  have hspentIn : ∀ outpoint, pool.SpentIn (insert it done) outpoint
      ↔ outpoint ∈ (pool.deref it).tx.vin.map CTxIn.prevout ∨ pool.SpentIn done outpoint := by
    simp [SpentIn]
  refine ⟨fun x => ?_, fun x => ?_, fun {outpoint} hspent => ?_, fun {outpoint} hunspent => ?_,
    h.mapDeltas, totalSize_removeUnchecked h.totalSize (by rw [existsTx, hlookup]; exact hit)⟩
  · show (pool'.mapTx.erase it).lookup x = _
    grind [lookup_erase, lookup_erase_ne, h.mapTx]
  · show (pool'.mapLinks.erase it).lookup x = _
    grind [lookup_erase, lookup_erase_ne, h.mapLinks]
  · grind [h.spent]
  · grind [h.unspent]

/-- The whole loop. -/
theorem loop (hsize : pool.TotalSize) (hexists : ∀ d ∈ stage, pool.existsTx d)
    (hnodup : stage.Nodup) : Erased pool (stage.foldl removeUnchecked pool) stage.toFinset :=
  foldl_done (Q := Erased pool) hnodup (fun _ _ it hit hfresh h => h.step (hexists it hit) hfresh)
    (nil hsize)

section

variable (h : Erased pool pool' done)

include h

theorem childLink_iff (p c : Uint256) : pool'.ChildLink p c ↔ pool.ChildLink p c ∧ p ∉ done := by
  unfold ChildLink getMemPoolChildren links
  rw [h.mapLinks]
  split_ifs with hp <;> simp [hp]

theorem parentLink_iff (p c : Uint256) : pool'.ParentLink p c ↔ pool.ParentLink p c ∧ c ∉ done := by
  unfold ParentLink getMemPoolParents links
  rw [h.mapLinks]
  split_ifs with hc <;> simp [hc]

theorem hasLinks_iff (x : Uint256) : pool'.hasLinks x ↔ pool.hasLinks x ∧ x ∉ done := by
  unfold CTxMemPool.hasLinks
  rw [h.mapLinks]
  split_ifs with hx <;> simp [hx]

theorem nodupLinks (hnodup : pool.NodupLinks) : pool'.NodupLinks := by
  intro x
  have hx := hnodup x
  unfold getMemPoolParents getMemPoolChildren links at hx ⊢
  rw [h.mapLinks]
  split_ifs
  · simp
  · exact hx

end

end Erased

/-! ## `RemoveStaged` -/

/-- The second pool is what is left of the first one without some entries. -/
structure Removed (pool pool' : CTxMemPool) (gone : Finset Uint256) : Prop where
  exists_iff : ∀ h, pool'.existsTx h = true ↔ pool.existsTx h = true ∧ h ∉ gone
  entries : ∀ {h entry'}, pool'.mapTx.lookup h = some entry' → ∃ entry,
    pool.mapTx.lookup h = some entry ∧ entry'.core = entry.core
      ∧ ∀ t, entry.Tallies t → entry'.Tallies (t - pool.lost gone h)
  childLink : ∀ p c, pool'.ChildLink p c ↔ pool.ChildLink p c ∧ p ∉ gone ∧ c ∉ gone
  parentLink : ∀ p c, pool'.ParentLink p c ↔ pool.ParentLink p c ∧ p ∉ gone ∧ c ∉ gone
  hasLinks : ∀ h, pool'.hasLinks h = true ↔ pool.hasLinks h = true ∧ h ∉ gone
  nodup : pool'.NodupLinks
  spent : ∀ {outpoint}, pool.SpentIn gone outpoint → pool'.mapNextTx.lookup outpoint = none
  unspent : ∀ {outpoint}, ¬ pool.SpentIn gone outpoint →
    pool'.mapNextTx.lookup outpoint = pool.mapNextTx.lookup outpoint
  mapDeltas : pool'.mapDeltas = pool.mapDeltas
  totalSize : pool'.TotalSize

/-- **`RemoveStaged` removes the staged entries**, with their links, inputs and share of the totals. -/
theorem removed_removeStaged (hpool : pool.Consistent)
    (hexists : ∀ d ∈ stage, pool.existsTx d) (hnodup : stage.Nodup) :
    Removed pool (pool.removeStaged stage) stage.toFinset := by
  have hforgotten := Forgotten.loop hpool hexists hnodup
  set forgotten := stage.foldl forgetDescendant pool
  have hlinks : ∀ p c, forgotten.ChildLink p c → forgotten.hasLinks c := by
    intro p c hlink
    rw [hforgotten.hasLinks, hpool.hasLinks]
    exact (hpool.exists_of_childLink ((hforgotten.childLink p c).mp hlink).1).2
  have hsevered := Severed.loop hlinks hforgotten.nodup hnodup
  have hmapTx := hsevered.mapTx
  set severed := stage.foldl updateChildrenForRemoval forgotten
  have hcore : ∀ h, severed.deref h = forgotten.deref h := fun h => by rw [deref, deref, hmapTx]
  have hsize : severed.TotalSize := by
    unfold TotalSize
    rw [hsevered.rest.totalTxSize, hforgotten.rest.totalTxSize, hmapTx,
      hforgotten.entries.total_getTxSize]
    exact hpool.totalSize
  have hthere : ∀ h, severed.existsTx h = pool.existsTx h := by
    intro h
    rw [existsTx, hmapTx]
    exact hforgotten.entries.exists_eq h
  have herased : Erased severed (pool.removeStaged stage) stage.toFinset :=
    Erased.loop hsize (fun d hd => by rw [hthere, hexists d hd]) hnodup
  have hspentIn : ∀ outpoint, severed.SpentIn stage.toFinset outpoint
      ↔ pool.SpentIn stage.toFinset outpoint := by
    intro outpoint
    refine exists_congr fun d => and_congr_right fun _ => ?_
    rw [hcore, hforgotten.entries.tx_deref]
  have hnext : severed.mapNextTx = pool.mapNextTx :=
    hsevered.rest.mapNextTx.trans hforgotten.rest.mapNextTx
  constructor
  case exists_iff =>
    intro h
    rw [← hthere, existsTx, herased.mapTx]
    split_ifs with hgone <;> simp [hgone, existsTx]
  case entries =>
    intro h entry' hentry'
    rw [herased.mapTx, hmapTx] at hentry'
    split_ifs at hentry'
    obtain ⟨entry, hentry, hsame, htally⟩ := hforgotten.entries.of_lookup hentry'
    exact ⟨entry, hentry, hsame, fun t ht => sub_eq_add_neg t _ ▸ htally t ht⟩
  case childLink =>
    intro p c
    rw [herased.childLink_iff, hsevered.childLink, hforgotten.childLink, and_assoc]
    exact and_congr_right fun _ => and_comm
  case parentLink =>
    intro p c
    rw [herased.parentLink_iff, hsevered.parentLink, hforgotten.parentLink, hforgotten.childLink,
      hpool.both]
    tauto
  case hasLinks =>
    simp [herased.hasLinks_iff, hsevered.hasLinks, hforgotten.hasLinks]
  case nodup => exact herased.nodupLinks hsevered.nodup
  case spent => exact fun hspent => herased.spent ((hspentIn _).mpr hspent)
  case unspent =>
    intro outpoint hunspent
    rw [herased.unspent fun h => hunspent ((hspentIn _).mp h), hnext]
  case mapDeltas =>
    rw [herased.mapDeltas, hsevered.rest.mapDeltas, hforgotten.rest.mapDeltas]
  case totalSize => exact herased.totalSize

/-! ## What outlives a removal -/

/-- The entries that links lead to from an entry, and itself. -/
noncomputable def descendants (pool : CTxMemPool) (h : Uint256) : Finset Uint256 :=
  open Classical in pool.mapTx.keys.toFinset.filter fun d => ReflTransGen pool.ChildLink h d

theorem mem_descendants {h d : Uint256} :
    d ∈ pool.descendants h ↔ pool.existsTx d ∧ ReflTransGen pool.ChildLink h d := by
  simp only [descendants, mem_filter, mem_keys_iff]

/-- **The totals of every entry that is not dirty are those of its descendants.** -/
def Exact (pool : CTxMemPool) : Prop :=
  ∀ {h entry}, pool.mapTx.lookup h = some entry →
    entry.Tallies (∑ d ∈ pool.descendants h, pool.weight d)

namespace Removed

variable {gone : Finset Uint256} (h : Removed pool pool' gone)

include h

variable {x : Uint256}

theorem kept {entry : CTxMemPoolEntry} (hentry : pool.mapTx.lookup x = some entry) (hx : x ∉ gone) :
    ∃ entry', pool'.mapTx.lookup x = some entry' ∧ entry'.core = entry.core := by
  have hexists := h.exists_iff x
  have hentries := fun entry' => @Removed.entries _ _ _ h x entry'
  grind [existsTx_iff]

theorem not_gone {entry' : CTxMemPoolEntry} (hentry' : pool'.mapTx.lookup x = some entry') :
    x ∉ gone :=
  ((h.exists_iff x).mp (existsTx_iff.mpr ⟨entry', hentry'⟩)).2

theorem weight_eq (hx : pool'.existsTx x) : pool'.weight x = pool.weight x := by
  obtain ⟨entry', hentry'⟩ := existsTx_iff.mp hx
  obtain ⟨entry, hentry, hcore, -⟩ := h.entries hentry'
  rw [weight, weight, deref_of_lookup hentry', deref_of_lookup hentry, weight_of_core hcore]

theorem spends_iff {p c : Uint256} : pool'.Spends p c ↔ pool.Spends p c ∧ p ∉ gone ∧ c ∉ gone := by
  have hexists := h.exists_iff p
  have hentries := fun entry' => @Removed.entries _ _ _ h c entry'
  have hkept := fun entry => @Removed.kept _ _ _ h c entry
  have hgone := fun entry' => @Removed.not_gone _ _ _ h c entry'
  grind [Spends, → tx_of_core]

/-- An element of `mapNextTx` that is left belongs to an entry that is left. -/
theorem nextTx_sound (hpool : pool.Consistent) {outpoint : COutPoint} {next : CInPoint}
    (hnext : pool'.mapNextTx.lookup outpoint = some next) : pool'.checkNext outpoint next := by
  have hkept : ¬ pool.SpentIn gone outpoint := by
    intro hspent
    simp [h.spent hspent] at hnext
  rw [h.unspent hkept] at hnext
  obtain ⟨hentry, hinput⟩ := (Bool.and_eq_true _ _).mp (hpool.nextTx_sound hnext)
  obtain ⟨entry, hlookup, htx⟩ := (Option.any_eq_true _ _).mp hentry
  have htx := of_decide_eq_true htx
  obtain ⟨entry', hentry', hcore⟩ := h.kept hlookup fun hgone => hkept ⟨_, hgone, by
    obtain ⟨txin, hin, hprevout⟩ := Option.map_eq_some_iff.mp (of_decide_eq_true hinput)
    rw [deref_of_lookup hlookup, htx]
    exact ⟨txin, List.mem_of_getElem? hin, hprevout⟩⟩
  refine (Bool.and_eq_true _ _).mpr ⟨?_, hinput⟩
  rw [hentry', Option.any_some, tx_of_core hcore]
  exact decide_eq_true htx

/-- The inputs of the entries that are left are still in `mapNextTx`. -/
theorem nextTx_complete (hpool : pool.Consistent) (hgone : ∀ d ∈ gone, pool.existsTx d)
    {entry' : CTxMemPoolEntry} (hentry' : pool'.mapTx.lookup x = some entry') {txin : CTxIn}
    (hin : txin ∈ entry'.tx.vin) :
    ∃ next, pool'.mapNextTx.lookup txin.prevout = some next ∧ next.ptx = entry'.tx := by
  obtain ⟨entry, hentry, hcore, -⟩ := h.entries hentry'
  rw [tx_of_core hcore] at hin ⊢
  obtain ⟨next, hnext, hptx⟩ := hpool.nextTx_complete hentry txin hin
  refine ⟨next, ?_, hptx⟩
  rw [h.unspent, hnext]
  rintro ⟨d, hd, txin', hin', hsame⟩
  -- an outpoint is spent by one entry only
  obtain ⟨other, hother⟩ := existsTx_iff.mp (hgone d hd)
  rw [deref_of_lookup hother] at hin'
  obtain ⟨next', hnext', hptx'⟩ := hpool.nextTx_complete hother txin' hin'
  rw [hsame, hnext] at hnext'
  cases hnext'
  have hxd : x = d := by rw [← hpool.keyed hentry, ← hpool.keyed hother, ← hptx, ← hptx']
  exact h.not_gone hentry' (hxd ▸ hd)

/-- **What the pool keeps track of outlives a removal.** -/
theorem consistent (hpool : pool.Consistent) (hgone : ∀ d ∈ gone, pool.existsTx d) :
    pool'.Consistent where
  keyed := fun {x entry'} hentry' => by
    obtain ⟨entry, hentry, hcore, -⟩ := h.entries hentry'
    rw [tx_of_core hcore]
    exact hpool.keyed hentry
  hasLinks := fun x => by
    rw [Bool.eq_iff_iff, h.hasLinks, h.exists_iff, hpool.hasLinks]
  nodup := h.nodup
  both := fun p c => by rw [h.parentLink, h.childLink, hpool.both]
  acyclic := fun x hcycle =>
    hpool.acyclic x (TransGen.mono (fun p c hlink => ((h.childLink p c).mp hlink).1) _ _ hcycle)
  nextTx_sound := h.nextTx_sound hpool
  nextTx_complete := fun hentry' _ hin => h.nextTx_complete hpool hgone hentry' hin
  deltas := fun {x entry'} hentry' => by
    obtain ⟨entry, hentry, hcore, -⟩ := h.entries hentry'
    rw [feeDelta_of_core hcore, h.mapDeltas]
    exact hpool.deltas hentry
  totalSize := h.totalSize

/-- Removing some entries takes them out of the descendants of the others. -/
theorem descendants_eq (hgone : Entire pool.ChildLink (· ∈ gone)) (hx : x ∉ gone) :
    pool'.descendants x = pool.descendants x \ gone := by
  ext d
  rw [mem_descendants, mem_sdiff, mem_descendants, h.exists_iff,
    reaches_remove (fun p c => h.childLink p c) hgone hx]
  tauto

/-- **Exact totals outlive the removal of entries with all their descendants**, and that of entries
    without ancestors. -/
theorem exact (hexists : ∀ d ∈ gone, pool.existsTx d) (hgone : Entire pool.ChildLink (· ∈ gone))
    (hpool : pool.Exact) : pool'.Exact := by
  intro x entry' hentry'
  obtain ⟨entry, hentry, -, htally⟩ := h.entries hentry'
  have hx := h.not_gone hentry'
  have hlost : pool.lost gone x = ∑ d ∈ pool.descendants x ∩ gone, pool.weight d := by
    classical
    rw [lost, ← sum_filter]
    refine sum_congr (Finset.ext fun d => ?_) fun _ _ => rfl
    rw [mem_filter, mem_inter, mem_descendants, and_comm]
    refine and_congr_left fun hd => ?_
    rw [and_iff_right (hexists d hd), reflTransGen_iff_eq_or_transGen]
    exact (or_iff_right fun heq : d = x => hx (heq ▸ hd)).symm
  have hsum : ∑ d ∈ pool'.descendants x, pool'.weight d
      = ∑ d ∈ pool.descendants x, pool.weight d - pool.lost gone x := by
    rw [hlost, ← sum_sdiff_eq_sub inter_subset_left, sdiff_inter_self_left,
      ← h.descendants_eq hgone hx]
    exact sum_congr rfl fun d hd => h.weight_eq (mem_descendants.mp hd).1
  rw [hsum]
  exact htally _ (hpool hentry)

end Removed

end CTxMemPool

end Binarium
