import Binarium.Mempool.Limit
import Binarium.Mempool.Reorg

set_option autoImplicit false

/-! # The memory that the pool counts as its own

`DynamicMemoryUsage` adds up the nodes of the four maps, which is quickly done, and what the entries and
their sets of links take, which the pool counts as it goes: `cachedInnerUsage` grows and shrinks with
every entry and every element of a set. `MeteredPool` is the pool with that counter, and its functions
are those of the pool with the changes of the counter where the code has them.

A pool whose counter is right is `meter sizes pool`, and every function on it is the function on the
pool: `(meter sizes pool).f = meter sizes (pool.f)`. So the counter stays right, and what is known of
the functions on the pool is known of the ones that count. -/

namespace Binarium

open Closure List CTxMemPool Maps Nat

/-- `CTxMemPool` with `cachedInnerUsage`. -/
structure MeteredPool extends CTxMemPool where
  cachedInnerUsage : ℕ

namespace NodeSizes

variable (sizes : NodeSizes)

/-- `memusage::DynamicUsage` of the parents and the children. -/
def linksUsage (links : TxLinks) : ℕ := sizes.set * (links.parents.length + links.children.length)

/-- What `UpdateChild` and `UpdateParent` do to the counter: it changes if the set does. -/
def updateUsage (s : SetEntries) (it : Uint256) (add : Bool) (usage : ℕ) : ℕ :=
  if add then if it ∈ s then usage else usage + sizes.set
  else if it ∈ s then usage - sizes.set else usage

/-- The pool with the counter that `CTxMemPool::check` asserts. -/
def meter (pool : CTxMemPool) : MeteredPool := ⟨pool, sizes.innerUsage pool⟩

end NodeSizes

/-! ## The functions of the pool -/

namespace MeteredPool

variable (sizes : NodeSizes)

/-- `CTxMemPool::UpdateChild`. -/
def updateChild (m : MeteredPool) (entry child : Uint256) (add : Bool) : MeteredPool :=
  ⟨m.toCTxMemPool.updateChild entry child add,
    sizes.updateUsage (m.getMemPoolChildren entry) child add m.cachedInnerUsage⟩

/-- `CTxMemPool::UpdateParent`. -/
def updateParent (m : MeteredPool) (entry parent : Uint256) (add : Bool) : MeteredPool :=
  ⟨m.toCTxMemPool.updateParent entry parent add,
    sizes.updateUsage (m.getMemPoolParents entry) parent add m.cachedInnerUsage⟩

/-- `mapTx.modify`. -/
def modifyTx (m : MeteredPool) (it : Uint256) (f : CTxMemPoolEntry → CTxMemPoolEntry) : MeteredPool :=
  ⟨m.toCTxMemPool.modifyTx it f, m.cachedInnerUsage⟩

/-- `CTxMemPool::UpdateAncestorsOf`. -/
def updateAncestorsOf (m : MeteredPool) (add : Bool) (it : Uint256) (setAncestors : SetEntries) :
    MeteredPool :=
  let parentIters := m.getMemPoolParents it
  let updateCount : Int64 := if add then 1 else -1
  let updateSize := updateCount * Int64.ofNat (m.deref it).getTxSize
  let updateFee := updateCount * (m.deref it).getModifiedFee
  let m := parentIters.foldl (fun m piter => updateChild sizes m piter it add) m
  setAncestors.foldl
    (fun m ancestorIt => modifyTx m ancestorIt fun e => e.updateState updateSize updateFee updateCount)
    m

/-- `CTxMemPool::UpdateChildrenForRemoval`. -/
def updateChildrenForRemoval (m : MeteredPool) (it : Uint256) : MeteredPool :=
  (m.getMemPoolChildren it).foldl (fun m updateIt => updateParent sizes m updateIt it false) m

/-- One round of the first loop of `UpdateForRemoveFromMempool`. -/
def forgetDescendant (m : MeteredPool) (removeIt : Uint256) : MeteredPool :=
  let setAncestors := m.calculateMemPoolAncestors (m.deref removeIt) CTxMemPool.noLimits false
  updateAncestorsOf sizes m false removeIt (setAncestors.toOption.getD [])

/-- `CTxMemPool::UpdateForRemoveFromMempool`. -/
def updateForRemoveFromMempool (m : MeteredPool) (entriesToRemove : SetEntries) : MeteredPool :=
  entriesToRemove.foldl (updateChildrenForRemoval sizes)
    (entriesToRemove.foldl (forgetDescendant sizes) m)

/-- `CTxMemPool::removeUnchecked`. -/
def removeUnchecked (m : MeteredPool) (it : Uint256) : MeteredPool :=
  ⟨m.toCTxMemPool.removeUnchecked it,
    m.cachedInnerUsage - sizes.tx (m.deref it).tx - sizes.linksUsage (m.links it)⟩

/-- `CTxMemPool::RemoveStaged`. -/
def removeStaged (m : MeteredPool) (stage : SetEntries) : MeteredPool :=
  stage.foldl (removeUnchecked sizes) (updateForRemoveFromMempool sizes m stage)

/-- `CTxMemPool::addUnchecked`. The entry is counted when it is inserted, before it has links. -/
def addUnchecked (m : MeteredPool) (entry : CTxMemPoolEntry) (setAncestors : SetEntries) : MeteredPool :=
  let setParentTransactions :=
    entry.tx.vin.foldl (fun s txin => insertSet hashOrder txin.prevout.hash s) []
  let m : MeteredPool := ⟨m.insertEntry entry, m.cachedInnerUsage + sizes.tx entry.tx⟩
  let m := setParentTransactions.foldl
    (fun m phash => if m.existsTx phash then updateParent sizes m entry.tx.hash phash true else m) m
  let m := updateAncestorsOf sizes m true entry.tx.hash setAncestors
  { m with totalTxSize := m.totalTxSize + UInt64.ofNat entry.getTxSize }

/-- `CTxMemPool::PrioritiseTransaction`, which leaves links and transactions alone. -/
def prioritiseTransaction (m : MeteredPool) (hash : Uint256) (nFeeDelta : CAmount) : MeteredPool :=
  ⟨m.toCTxMemPool.prioritiseTransaction hash nFeeDelta, m.cachedInnerUsage⟩

/-- `CTxMemPool::ClearPrioritisation`. -/
def clearPrioritisation (m : MeteredPool) (hash : Uint256) : MeteredPool :=
  { m with mapDeltas := m.mapDeltas.erase hash }

/-- `CTxMemPool::Expire`. -/
def expire (m : MeteredPool) (time : ℤ) : MeteredPool :=
  let toremove := m.mapTx.entries.foldl
    (fun s e => if e.2.nTime < time then insertSet hashOrder e.1 s else s) []
  removeStaged sizes m (toremove.foldl (fun stage it => m.calculateDescendants it stage) [])

/-- One element of `mapNextTx` that spends an output of the entry, with the children so far. -/
def linkChild (setAlreadyIncluded : List Uint256) (it : Uint256) (s : SetEntries × MeteredPool)
    (childHash : Uint256) : SetEntries × MeteredPool :=
  if childHash ∈ s.1 then s
  else
    (insertSet hashOrder childHash s.1,
      if childHash ∈ setAlreadyIncluded then s.2
      else updateParent sizes (updateChild sizes s.2 it childHash true) childHash it true)

/-- The loop over `mapNextTx`. -/
def linkChildren (m : MeteredPool) (setAlreadyIncluded : List Uint256) (it : Uint256) : MeteredPool :=
  ((m.childrenCheck it).foldl (linkChild sizes setAlreadyIncluded it) ([], m)).2

/-- The end of a round, with the descendants or the mark. -/
def updateOrMark (m : MeteredPool) (setAlreadyIncluded : List Uint256) (cached : DescendantCache)
    (it : Uint256) : MeteredPool × DescendantCache :=
  match m.updateForDescendants it 100 cached setAlreadyIncluded with
  | some (pool, cached) => (⟨pool, m.cachedInnerUsage⟩, cached)
  | none => (modifyTx m it CTxMemPoolEntry.setDirty, cached)

/-- One round of `UpdateTransactionsFromBlock`. -/
def updateFromBlock (setAlreadyIncluded : List Uint256) (s : MeteredPool × DescendantCache)
    (hash : Uint256) : MeteredPool × DescendantCache :=
  if s.1.existsTx hash then
    updateOrMark (linkChildren sizes s.1 setAlreadyIncluded hash) setAlreadyIncluded s.2 hash
  else s

/-- `CTxMemPool::UpdateTransactionsFromBlock`. -/
def updateTransactionsFromBlock (m : MeteredPool) (vHashesToUpdate : List Uint256) : MeteredPool :=
  (vHashesToUpdate.reverse.foldl (updateFromBlock sizes vHashesToUpdate) (m, ∅)).1

/-- `CTxMemPool::DynamicMemoryUsage`. -/
def dynamicMemoryUsage (m : MeteredPool) : ℕ :=
  sizes.entry * m.mapTx.keys.length + sizes.nextTx * m.mapNextTx.keys.length
    + sizes.delta * m.mapDeltas.keys.length + sizes.links * m.mapLinks.keys.length
    + m.cachedInnerUsage

end MeteredPool

/-- The pool while it is trimmed, and `pvNoSpendsRemaining`. -/
structure MeteredTrim where
  pool : MeteredPool
  vNoSpendsRemaining : List COutPoint

namespace MeteredPool

/-- One round of the loop of `TrimToSize`. -/
def trimOnce (sizes : NodeSizes) (s : MeteredTrim) (it : Uint256) : MeteredTrim :=
  let stage := s.pool.calculateDescendants it []
  let txn := stage.map fun h => (s.pool.deref h).tx
  let pool := s.pool.removeStaged sizes stage
  ⟨pool, s.vNoSpendsRemaining ++ LimitContext.noSpendsRemaining pool.toCTxMemPool txn⟩

/-- The loop of `TrimToSize`. -/
def trimRounds (lim : LimitContext) : ℕ → MeteredTrim → Except CppError Unit × MeteredTrim
  | 0, s => (.ok (), s)
  | rounds + 1, s =>
    if s.pool.dynamicMemoryUsage lim.sizes > lim.limit then
      match lim.first s.pool.toCTxMemPool with
      | none => (.error (.nullPointer "mapTx.get<1>().begin()"), s)
      | some it => trimRounds lim rounds (trimOnce lim.sizes s it)
    else (.ok (), s)

/-- `CTxMemPool::TrimToSize`. -/
def trimToSize (lim : LimitContext) (m : MeteredPool) : Except CppError Unit × MeteredTrim :=
  trimRounds lim (m.mapTx.keys.length + 1) ⟨m, []⟩

end MeteredPool

/-! ## What the pool takes, entry by entry -/

section InnerUsage

variable (sizes : NodeSizes) (pool : CTxMemPool)

theorem innerUsage_eq : sizes.innerUsage pool
    = total (fun _ entry => sizes.tx entry.tx) pool.mapTx
      + total (fun _ links => sizes.linksUsage links) pool.mapLinks := by
  rw [← sum_entries, ← sum_entries]
  rfl

theorem innerUsage_split (it : Uint256) : sizes.innerUsage pool
    = sizes.innerUsage { pool with mapLinks := pool.mapLinks.erase it }
      + sizes.linksUsage (pool.links it) := by
  have hlinks : ((pool.mapLinks.lookup it).map sizes.linksUsage).getD 0
      = sizes.linksUsage (pool.links it) := by
    unfold links
    cases pool.mapLinks.lookup it <;> rfl
  rw [innerUsage_eq, innerUsage_eq, ← hlinks, add_assoc, add_comm (total _ _) (Option.getD _ _),
    total_erase (fun _ links => sizes.linksUsage links)]

theorem innerUsage_insertLinks (it : Uint256) (links : TxLinks) :
    sizes.innerUsage { pool with mapLinks := pool.mapLinks.insert it links }
      = sizes.innerUsage { pool with mapLinks := pool.mapLinks.erase it } + sizes.linksUsage links := by
  simp [innerUsage_eq, total_insert, add_comm (sizes.linksUsage links), add_assoc]

variable {sizes pool}

/-- The usage depends on the links and the transactions of the entries. -/
theorem CTxMemPool.SameGraph.innerUsage_eq {pool' : CTxMemPool} (h : SameGraph pool pool') :
    sizes.innerUsage pool' = sizes.innerUsage pool := by
  rw [Binarium.innerUsage_eq, Binarium.innerUsage_eq, h.mapLinks]
  refine congrArg (· + _) (total_congr fun k => ?_)
  have htx := congrArg (Option.map sizes.tx) (h.txs k)
  rwa [Option.map_map, Option.map_map] at htx

theorem updateUsage_eq (s : SetEntries) (it : Uint256) (add : Bool) (rest : ℕ) :
    sizes.updateUsage s it add (rest + sizes.set * s.length)
      = rest + sizes.set * (updateSet s it add).length := by
  unfold NodeSizes.updateUsage updateSet
  cases add with
  | true =>
    simp only [if_true]
    split_ifs with hin
    · rw [insertSet, if_pos hin]
    · rw [length_insertSet hashOrder hin, Nat.mul_succ, add_assoc]
  | false =>
    simp only [Bool.false_eq_true, if_false]
    split_ifs with hin
    · obtain ⟨n, hn⟩ := Nat.exists_eq_succ_of_ne_zero (length_pos_of_mem hin).ne'
      rw [length_erase_of_mem hin, hn, Nat.mul_succ, ← add_assoc, Nat.add_sub_cancel]
      rfl
    · rw [erase_of_not_mem hin]

end InnerUsage

/-! ## The counter stays right -/

namespace MeteredPool

variable {sizes : NodeSizes} {pool : CTxMemPool}

theorem updateChild_meter (entry child : Uint256) (add : Bool) :
    updateChild sizes (sizes.meter pool) entry child add
      = sizes.meter (pool.updateChild entry child add) := by
  refine congrArg (MeteredPool.mk _) ?_
  show sizes.updateUsage (pool.links entry).children child add (sizes.innerUsage pool)
    = sizes.innerUsage { pool with mapLinks := _ }
  rw [innerUsage_insertLinks, innerUsage_split sizes pool entry, NodeSizes.linksUsage, mul_add,
    ← add_assoc, updateUsage_eq, NodeSizes.linksUsage, mul_add, ← add_assoc]

theorem updateParent_meter (entry parent : Uint256) (add : Bool) :
    updateParent sizes (sizes.meter pool) entry parent add
      = sizes.meter (pool.updateParent entry parent add) := by
  refine congrArg (MeteredPool.mk _) ?_
  show sizes.updateUsage (pool.links entry).parents parent add (sizes.innerUsage pool)
    = sizes.innerUsage { pool with mapLinks := _ }
  rw [innerUsage_insertLinks, innerUsage_split sizes pool entry, NodeSizes.linksUsage, mul_add,
    add_comm (sizes.set * _), ← add_assoc, updateUsage_eq, NodeSizes.linksUsage, mul_add,
    add_comm (sizes.set * _), ← add_assoc]

/-- A change of entries that leaves their transactions alone is not counted. -/
theorem modifyTx_meter (it : Uint256) {f : CTxMemPoolEntry → CTxMemPoolEntry}
    (hf : ∀ e, (f e).tx = e.tx) :
    modifyTx (sizes.meter pool) it f = sizes.meter (pool.modifyTx it f) := by
  have hsame : SameGraph pool (pool.modifyTx it f) := by
    refine ⟨rfl, rfl, rfl, fun h => ?_⟩
    show ((modify pool.mapTx it f).lookup h).map _ = _
    rw [lookup_modify]
    split_ifs with heq
    · rw [heq, Option.map_map]
      exact congrArg (fun g => Option.map g _) (funext hf)
    · rfl
  exact congrArg (MeteredPool.mk _) hsame.innerUsage_eq.symm

theorem tx_updateState (e : CTxMemPoolEntry) (modifySize : Int64) (modifyFee : CAmount)
    (modifyCount : Int64) : (e.updateState modifySize modifyFee modifyCount).tx = e.tx :=
  CTxMemPoolEntry.tx_of_core (CTxMemPoolEntry.core_updateState e modifySize modifyFee modifyCount)

theorem updateAncestorsOf_meter (add : Bool) (it : Uint256) (setAncestors : SetEntries) :
    updateAncestorsOf sizes (sizes.meter pool) add it setAncestors
      = sizes.meter (pool.updateAncestorsOf add it setAncestors) := by
  have hlink : (pool.getMemPoolParents it).foldl (fun m piter => updateChild sizes m piter it add)
      (sizes.meter pool) = sizes.meter ((pool.getMemPoolParents it).foldl
        (fun pool piter => pool.updateChild piter it add) pool) :=
    foldl_hom sizes.meter fun pool piter => updateChild_meter piter it add
  refine (congrArg (foldl _ · _) hlink).trans ?_
  exact foldl_hom sizes.meter fun pool ancestorIt =>
    modifyTx_meter ancestorIt fun e => tx_updateState e _ _ _

theorem updateForRemoveFromMempool_meter (entriesToRemove : SetEntries) :
    updateForRemoveFromMempool sizes (sizes.meter pool) entriesToRemove
      = sizes.meter (pool.updateForRemoveFromMempool entriesToRemove) := by
  have hsever : ∀ (pool : CTxMemPool) (it : Uint256),
      updateChildrenForRemoval sizes (sizes.meter pool) it
        = sizes.meter (pool.updateChildrenForRemoval it) :=
    fun pool it => foldl_hom sizes.meter fun pool updateIt => updateParent_meter updateIt it false
  rw [updateForRemoveFromMempool, CTxMemPool.updateForRemoveFromMempool,
    foldl_hom sizes.meter fun pool it => updateAncestorsOf_meter false it _,
    foldl_hom sizes.meter hsever]
  rfl

theorem removeUnchecked_meter {it : Uint256} (hexists : pool.existsTx it) :
    removeUnchecked sizes (sizes.meter pool) it = sizes.meter (pool.removeUnchecked it) := by
  obtain ⟨entry, hentry⟩ := existsTx_iff.mp hexists
  have htx : total (fun _ entry => sizes.tx entry.tx) pool.mapTx
      = sizes.tx (pool.deref it).tx
        + total (fun _ entry => sizes.tx entry.tx) (pool.mapTx.erase it) := by
    rw [← total_erase _ pool.mapTx it, hentry, deref_of_lookup hentry]
    rfl
  refine congrArg (MeteredPool.mk _) ?_
  show sizes.innerUsage pool - sizes.tx (pool.deref it).tx - sizes.linksUsage (pool.links it)
    = sizes.innerUsage (pool.removeUnchecked it)
  rw [innerUsage_split sizes pool it, innerUsage_eq, htx, innerUsage_eq, add_assoc, add_assoc,
    Nat.add_sub_cancel_left, ← add_assoc, Nat.add_sub_cancel]
  rfl

/-- **Staged entries are taken off the counter**, if they are entries and each is staged once. -/
theorem removeStaged_meter {stage : SetEntries} (hexists : ∀ it ∈ stage, pool.existsTx it)
    (hnodup : stage.Nodup) :
    removeStaged sizes (sizes.meter pool) stage = sizes.meter (pool.removeStaged stage) := by
  have hloop : ∀ {pool : CTxMemPool}, (∀ it ∈ stage, pool.existsTx it) →
      stage.foldl (removeUnchecked sizes) (sizes.meter pool)
        = sizes.meter (stage.foldl CTxMemPool.removeUnchecked pool) := by
    induction stage with
    | nil => exact fun _ => rfl
    | cons it rest ih =>
      intro pool hstage
      obtain ⟨hit, hrest⟩ := forall_mem_cons.mp hstage
      obtain ⟨hfresh, hnodup⟩ := nodup_cons.mp hnodup
      rw [foldl_cons, foldl_cons, removeUnchecked_meter hit]
      refine ih (forall_mem_cons.mp hexists).2 hnodup fun other hother => ?_
      exact (pool.existsTx_removeUnchecked it other).mpr
        ⟨fun heq => hfresh (heq ▸ hother), hrest other hother⟩
  rw [removeStaged, updateForRemoveFromMempool_meter, CTxMemPool.removeStaged]
  exact hloop fun it hit => (pool.existsTx_updateForRemoveFromMempool stage it).trans (hexists it hit)

/-- **A new entry is counted with its links.** -/
theorem addUnchecked_meter {entry : CTxMemPoolEntry} (hfresh : pool.existsTx entry.tx.hash = false)
    (setAncestors : SetEntries) : addUnchecked sizes (sizes.meter pool) entry setAncestors
      = sizes.meter (pool.addUnchecked entry.tx.hash entry setAncestors) := by
  have hinsert : (⟨pool.insertEntry entry, sizes.innerUsage pool + sizes.tx entry.tx⟩ : MeteredPool)
      = sizes.meter (pool.insertEntry entry) := by
    have hnone : pool.mapTx.lookup entry.tx.hash = none := by
      rwa [existsTx, Option.isSome_eq_false_iff, Option.isNone_iff_eq_none] at hfresh
    have hlinks : total (fun _ links => sizes.linksUsage links) (pool.insertEntry entry).mapLinks
        = total (fun _ links => sizes.linksUsage links) pool.mapLinks := by
      show total _ (insertNew pool.mapLinks entry.tx.hash ⟨[], []⟩) = _
      unfold insertNew
      split
      next => rfl
      next hnew => exact (total_eq_add (AList.lookup_insert _) hnew
          fun k hk => AList.lookup_insert_ne hk).trans (zero_add _)
    refine congrArg (MeteredPool.mk _) ?_
    rw [innerUsage_eq, innerUsage_eq, hlinks]
    show _ = total _ (insertNew pool.mapTx _ _) + _
    rw [total_insertNew _ hnone, tx_withFeeDelta, add_comm, add_assoc]
  have hparents : ∀ parents : SetEntries,
      parents.foldl (fun m phash => if m.existsTx phash then
          updateParent sizes m entry.tx.hash phash true else m) (sizes.meter (pool.insertEntry entry))
        = sizes.meter (parents.foldl (fun pool phash => if pool.existsTx phash then
            pool.updateParent entry.tx.hash phash true else pool) (pool.insertEntry entry)) := by
    refine fun parents => foldl_hom sizes.meter fun pool phash => ?_
    show (if pool.existsTx phash then _ else _) = _
    split_ifs
    · exact updateParent_meter _ _ true
    · rfl
  have hlinked : updateAncestorsOf sizes
      ((entry.tx.vin.foldl (fun s txin => insertSet hashOrder txin.prevout.hash s) []).foldl
        (fun m phash => if m.existsTx phash then updateParent sizes m entry.tx.hash phash true else m)
        ⟨pool.insertEntry entry, sizes.innerUsage pool + sizes.tx entry.tx⟩) true entry.tx.hash
        setAncestors
      = sizes.meter (((pool.insertEntry entry).linkParents entry.tx).updateAncestorsOf true
          entry.tx.hash setAncestors) := by
    rw [hinsert, hparents]
    exact updateAncestorsOf_meter true entry.tx.hash setAncestors
  exact congrArg (fun m : MeteredPool =>
    { m with totalTxSize := m.totalTxSize + UInt64.ofNat entry.getTxSize }) hlinked

theorem prioritiseTransaction_meter (hpool : pool.Consistent) (hash : Uint256) (nFeeDelta : CAmount) :
    prioritiseTransaction (sizes.meter pool) hash nFeeDelta
      = sizes.meter (pool.prioritiseTransaction hash nFeeDelta) :=
  congrArg (MeteredPool.mk _) (sameGraph_prioritiseTransaction hpool).innerUsage_eq.symm

/-! ## `UpdateTransactionsFromBlock` -/

/-- The state of a loop over the pool with something else, counted. -/
def meterSnd {α : Type} (sizes : NodeSizes) (s : α × CTxMemPool) : α × MeteredPool :=
  (s.1, sizes.meter s.2)

/-- The state of a loop over the pool with something else, counted. -/
def meterFst {α : Type} (sizes : NodeSizes) (s : CTxMemPool × α) : MeteredPool × α :=
  (sizes.meter s.1, s.2)

section

variable (setAlreadyIncluded : List Uint256)

theorem linkChild_meter (it : Uint256) (s : SetEntries × CTxMemPool) (childHash : Uint256) :
    linkChild sizes setAlreadyIncluded it (meterSnd sizes s) childHash
      = meterSnd sizes (CTxMemPool.linkChild setAlreadyIncluded it s childHash) := by
  unfold linkChild CTxMemPool.linkChild meterSnd
  split_ifs
  · rfl
  · rfl
  · rw [updateChild_meter, updateParent_meter]

theorem linkChildren_meter (it : Uint256) :
    linkChildren sizes (sizes.meter pool) setAlreadyIncluded it
      = sizes.meter (pool.linkChildren setAlreadyIncluded it) := by
  have hloop : (pool.childrenCheck it).foldl (linkChild sizes setAlreadyIncluded it)
      (meterSnd sizes ([], pool)) = meterSnd sizes ((pool.childrenCheck it).foldl
        (CTxMemPool.linkChild setAlreadyIncluded it) ([], pool)) := by
    refine foldl_hom (meterSnd sizes) fun s childHash => ?_
    exact linkChild_meter setAlreadyIncluded it s childHash
  exact congrArg Prod.snd hloop

theorem updateOrMark_meter (cached : DescendantCache)
    (it : Uint256) : updateOrMark (sizes.meter pool) setAlreadyIncluded cached it
      = meterFst sizes (pool.updateOrMark setAlreadyIncluded cached it) := by
  unfold updateOrMark CTxMemPool.updateOrMark
  show (match pool.updateForDescendants it 100 cached setAlreadyIncluded with
    | some (pool, cached) => _
    | none => _) = _
  cases hupdate : pool.updateForDescendants it 100 cached setAlreadyIncluded with
  | none => exact congrArg (Prod.mk · cached) (modifyTx_meter it fun _ => rfl)
  | some updated =>
    obtain ⟨s, -, hs⟩ := Option.bind_eq_some_iff.mp hupdate
    cases hs
    exact congrArg (Prod.mk · _) (modifyTx_meter it fun e => tx_updateState e _ _ _)

end

/-- **Links that are added when transactions come back are counted.** -/
theorem updateTransactionsFromBlock_meter (vHashesToUpdate : List Uint256) :
    updateTransactionsFromBlock sizes (sizes.meter pool) vHashesToUpdate
      = sizes.meter (pool.updateTransactionsFromBlock vHashesToUpdate) := by
  have hround : ∀ s hash, updateFromBlock sizes vHashesToUpdate (meterFst sizes s) hash
      = meterFst sizes (CTxMemPool.updateFromBlock vHashesToUpdate s hash) := by
    intro s hash
    unfold updateFromBlock CTxMemPool.updateFromBlock
    show (if s.1.existsTx hash then _ else _) = _
    split_ifs
    · show updateOrMark (linkChildren sizes (sizes.meter s.1) vHashesToUpdate hash) _ s.2 hash = _
      rw [linkChildren_meter, updateOrMark_meter]
    · rfl
  have hloop : vHashesToUpdate.reverse.foldl (updateFromBlock sizes vHashesToUpdate)
      (meterFst sizes (pool, ∅)) = meterFst sizes (vHashesToUpdate.reverse.foldl
        (CTxMemPool.updateFromBlock vHashesToUpdate) (pool, ∅)) :=
    foldl_hom (meterFst sizes) hround
  exact congrArg Prod.fst hloop

end MeteredPool

end Binarium
