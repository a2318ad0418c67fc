import Binarium.Lib.Closure
import Binarium.Lib.Maps
import Binarium.Primitives.Block
import Binarium.Primitives.Text

set_option autoImplicit false

/-! # The memory pool (`txmempool.h`, `txmempool.cpp`, `amount.h`, `amount.cpp`)

`mapTx` holds the entries, `mapNextTx` says for every outpoint that an entry spends which transaction
spends it, and `mapLinks` keeps for every entry its direct parents and children in the pool.
Descendants and ancestors are found by walking the links, from a stage of entries still to be
visited.

An iterator into `mapTx` is the hash of its entry, and a set of iterators is a list in the order of
the hashes, which is the order of `CompareIteratorByHash`. The walks recurse on a number of rounds;
`calculateDescendants_walking` and `walkAncestors_walking` show that the number of entries is enough for
the walk to end by itself. -/

namespace Binarium

open Closure Int64

/-! ## Fee rates -/

/-- `CFeeRate`. -/
structure CFeeRate where
  nSatoshisPerK : CAmount
deriving DecidableEq

/-- `CFeeRate(nFeePaid, nSize)`. The size is a `size_t`, so the division is one of unsigned
    numbers. -/
def CFeeRate.ofPaid (nFeePaid : CAmount) (nSize : ℕ) : CFeeRate :=
  if nSize > 0 then ⟨((nFeePaid * 1000).toUInt64 / UInt64.ofNat nSize).toInt64⟩ else ⟨0⟩

/-- `CFeeRate::GetFee`. -/
def CFeeRate.getFee (rate : CFeeRate) (nSize : ℕ) : CAmount :=
  let nFee := (rate.nSatoshisPerK.toUInt64 * UInt64.ofNat nSize / 1000).toInt64
  if nFee = 0 ∧ rate.nSatoshisPerK > 0 then rate.nSatoshisPerK else nFee

theorem CFeeRate.getFee_nonneg (rate : CFeeRate) (nSize : ℕ) : 0 ≤ (rate.getFee nSize).toInt := by
  simp only [CFeeRate.getFee]
  split_ifs with h
  · exact (lt_iff_toInt_lt.mp h.2).le
  · rw [toInt_toInt64_of_lt]
    · exact Int.natCast_nonneg _
    · have hlt := (rate.nSatoshisPerK.toUInt64 * UInt64.ofNat nSize).toNat_lt
      show _ / 1000 < _
      omega

theorem CFeeRate.toInt_ofPaid {nFeePaid : CAmount} {nSize : ℕ} (htwo : 2 ≤ nSize)
    (hsize : nSize < 2 ^ 64) : (CFeeRate.ofPaid nFeePaid nSize).nSatoshisPerK.toInt
      = ((nFeePaid * 1000).toUInt64.toNat : ℤ) / nSize := by
  have hlt := (nFeePaid * 1000).toUInt64.toNat_lt
  have hquot : ((nFeePaid * 1000).toUInt64 / UInt64.ofNat nSize).toNat
      = (nFeePaid * 1000).toUInt64.toNat / nSize := by
    simp [UInt64.toNat_ofNat_of_lt' hsize]
  have hhalf : (nFeePaid * 1000).toUInt64.toNat / nSize ≤ (nFeePaid * 1000).toUInt64.toNat / 2 :=
    Nat.div_le_div_left htwo (by norm_num)
  rw [CFeeRate.ofPaid, if_pos (by omega), toInt_toInt64_of_lt (by omega), hquot]
  simp

/-- The product of a fee that is not negative wraps downwards only. -/
theorem CFeeRate.toNat_paid_le {nFeePaid : CAmount} (hfee : 0 ≤ nFeePaid.toInt) :
    ((nFeePaid * 1000).toUInt64.toNat : ℤ) ≤ nFeePaid.toInt * 1000 := by
  rw [← toNat_toUInt64_of_nonneg hfee, toUInt64_mul, UInt64.toNat_mul]
  exact_mod_cast Nat.mod_le _ _

theorem CFeeRate.toNat_paid_eq {nFeePaid : CAmount} (hfee : 0 ≤ nFeePaid.toInt)
    (hrange : nFeePaid.toInt * 1000 < 2 ^ 63) :
    ((nFeePaid * 1000).toUInt64.toNat : ℤ) = nFeePaid.toInt * 1000 := by
  have hmul : (nFeePaid * 1000).toInt = nFeePaid.toInt * 1000 :=
    toInt_mul_of_range (by show _ ≤ _ * 1000; omega) hrange
  rw [toNat_toUInt64_of_nonneg (by omega), hmul]

/-- **A higher rate is a higher fee for the size**, if the new fee is not negative and the rate of the
    old one does not overflow. -/
theorem CFeeRate.mul_lt_mul_of_lt {nFeeOld nFeeNew : CAmount} {nSizeOld nSizeNew : ℕ}
    (hnew : 0 ≤ nFeeNew.toInt) (hold : nFeeOld.toInt * 1000 < 2 ^ 63) (htwoOld : 2 ≤ nSizeOld)
    (htwoNew : 2 ≤ nSizeNew) (hsizeOld : nSizeOld < 2 ^ 64) (hsizeNew : nSizeNew < 2 ^ 64)
    (h : (CFeeRate.ofPaid nFeeOld nSizeOld).nSatoshisPerK
      < (CFeeRate.ofPaid nFeeNew nSizeNew).nSatoshisPerK) :
    nFeeOld.toInt * nSizeNew < nFeeNew.toInt * nSizeOld := by
  have hposOld : (0 : ℤ) < nSizeOld := by omega
  have hposNew : (0 : ℤ) < nSizeNew := by omega
  by_cases hneg : nFeeOld.toInt < 0
  · calc nFeeOld.toInt * nSizeNew < 0 := mul_neg_of_neg_of_pos hneg hposNew
      _ ≤ nFeeNew.toInt * nSizeOld := mul_nonneg hnew hposOld.le
  · rw [lt_iff_toInt_lt, toInt_ofPaid htwoOld hsizeOld, toInt_ofPaid htwoNew hsizeNew,
      toNat_paid_eq (not_lt.mp hneg) hold] at h
    -- between the two quotients lies an integer
    have hle : (nFeeOld.toInt * 1000 / nSizeOld + 1) * nSizeNew ≤ nFeeNew.toInt * 1000 :=
      ((Int.le_ediv_iff_mul_le hposNew).mp h).trans (toNat_paid_le hnew)
    have hlt : nFeeOld.toInt * 1000 < (nFeeOld.toInt * 1000 / nSizeOld + 1) * nSizeOld :=
      Int.lt_ediv_add_one_mul_self _ hposOld
    have hchain : nFeeOld.toInt * 1000 * nSizeNew < nFeeNew.toInt * 1000 * nSizeOld :=
      calc nFeeOld.toInt * 1000 * nSizeNew
          < (nFeeOld.toInt * 1000 / nSizeOld + 1) * nSizeOld * nSizeNew :=
            mul_lt_mul_of_pos_right hlt hposNew
        _ = (nFeeOld.toInt * 1000 / nSizeOld + 1) * nSizeNew * nSizeOld := by ring
        _ ≤ nFeeNew.toInt * 1000 * nSizeOld := mul_le_mul_of_nonneg_right hle hposOld.le
    nlinarith [hchain]

/-! ## Entries -/

/-- `CTxMemPoolEntry`. -/
structure CTxMemPoolEntry where
  tx : CTransaction
  nFee : CAmount
  nTime : ℤ
  entryHeight : ℕ
  hadNoDependencies : Bool
  spendsCoinbase : Bool
  sigOpCount : ℕ
  feeDelta : CAmount
  nCountWithDescendants : UInt64
  nSizeWithDescendants : UInt64
  nModFeesWithDescendants : CAmount

variable (entry : CTxMemPoolEntry)

namespace CTxMemPoolEntry

/-- The constructor of a `CTxMemPoolEntry`. -/
def create (tx : CTransaction) (nFee : CAmount) (nTime : ℤ) (entryHeight : ℕ)
    (poolHasNoInputsOf spendsCoinbase : Bool) (sigOps : ℕ) : CTxMemPoolEntry where
  tx := tx
  nFee := nFee
  nTime := nTime
  entryHeight := entryHeight
  hadNoDependencies := poolHasNoInputsOf
  spendsCoinbase := spendsCoinbase
  sigOpCount := sigOps
  feeDelta := 0
  nCountWithDescendants := 1
  nSizeWithDescendants := UInt64.ofNat tx.serializeSize
  nModFeesWithDescendants := nFee

/-- `CTxMemPoolEntry::GetTxSize`. -/
def getTxSize : ℕ := entry.tx.serializeSize

/-- `CTxMemPoolEntry::GetModifiedFee`. -/
def getModifiedFee : CAmount := entry.nFee + entry.feeDelta

/-- `CTxMemPoolEntry::IsDirty`. -/
def isDirty : Bool := decide (entry.nCountWithDescendants = 0)

/-- `CTxMemPoolEntry::UpdateFeeDelta`. -/
def updateFeeDelta (newFeeDelta : CAmount) : CTxMemPoolEntry :=
  { entry with
    nModFeesWithDescendants := entry.nModFeesWithDescendants + (newFeeDelta - entry.feeDelta)
    feeDelta := newFeeDelta }

/-- `CTxMemPoolEntry::UpdateState`. -/
def updateState (modifySize : Int64) (modifyFee : CAmount) (modifyCount : Int64) :
    CTxMemPoolEntry :=
  if entry.isDirty then entry
  else
    { entry with
      nSizeWithDescendants := entry.nSizeWithDescendants + modifySize.toUInt64
      nModFeesWithDescendants := entry.nModFeesWithDescendants + modifyFee
      nCountWithDescendants := entry.nCountWithDescendants + modifyCount.toUInt64 }

end CTxMemPoolEntry

/-! ## The pool -/

/-- `setEntries`: iterators into `mapTx` in the order of the hashes. -/
abbrev SetEntries := List Uint256

/-- The order of `std::set<uint256>` and of `setEntries`. -/
def hashOrder (a b : Uint256) : Prop := uint256Lt a b = true

instance : DecidableRel hashOrder := fun a b => inferInstanceAs (Decidable (uint256Lt a b = true))

/-- `TxLinks`. -/
structure TxLinks where
  parents : SetEntries
  children : SetEntries

/-- `CInPoint`: input `n` of a transaction. -/
structure CInPoint where
  ptx : CTransaction
  n : ℕ

/-- `CTxMemPool`. -/
structure CTxMemPool where
  mapTx : AList fun _ : Uint256 => CTxMemPoolEntry
  mapNextTx : AList fun _ : COutPoint => CInPoint
  mapLinks : AList fun _ : Uint256 => TxLinks
  /-- the fee part of `mapDeltas` -/
  mapDeltas : AList fun _ : Uint256 => CAmount
  totalTxSize : UInt64

namespace CTxMemPool

/-- `CTxMemPool::_clear`, with no deltas. -/
def empty : CTxMemPool := ⟨∅, ∅, ∅, ∅, 0⟩

variable (pool : CTxMemPool) (hash it : Uint256)

/-- `CTxMemPool::exists`. -/
def existsTx : Bool := (pool.mapTx.lookup hash).isSome

/-- `*it`. An iterator of the pool points to an entry; for a hash without one this is an entry of the
    empty transaction. -/
def deref : CTxMemPoolEntry :=
  (pool.mapTx.lookup it).getD (.create .default 0 0 0 false false 0)

theorem deref_of_lookup {pool : CTxMemPool} {it : Uint256} {entry : CTxMemPoolEntry}
    (h : pool.mapTx.lookup it = some entry) : pool.deref it = entry := by
  rw [deref, h]
  rfl

/-- `mapLinks[it]`. -/
def links : TxLinks :=
  (pool.mapLinks.lookup it).getD ⟨[], []⟩

/-- `CTxMemPool::GetMemPoolParents`. -/
def getMemPoolParents : SetEntries := (pool.links it).parents

/-- `CTxMemPool::GetMemPoolChildren`. -/
def getMemPoolChildren : SetEntries := (pool.links it).children

/-- `CTxMemPool::HasNoInputsOf`. -/
def hasNoInputsOf (tx : CTransaction) : Bool :=
  tx.vin.all fun txin => !pool.existsTx txin.prevout.hash

/-- `CTxMemPool::ApplyDeltas`, for the fee. -/
def applyDeltas (nFeeDelta : CAmount) : CAmount :=
  match pool.mapDeltas.lookup hash with
  | none => nFeeDelta
  | some delta => nFeeDelta + delta

/-! ## Descendants -/

/-- The loop of `CalculateDescendants`. -/
def walkDescendants (pool : CTxMemPool) : ℕ → SetEntries → SetEntries → SetEntries
  | 0, _, setDescendants => setDescendants
  | _ + 1, [], setDescendants => setDescendants
  | rounds + 1, it :: stage, setDescendants =>
    let setDescendants := insertSet hashOrder it setDescendants
    pool.walkDescendants rounds
      (stageNew hashOrder setDescendants stage (pool.getMemPoolChildren it)) setDescendants

/-- `CTxMemPool::CalculateDescendants`. -/
def calculateDescendants (entryit : Uint256) (setDescendants : SetEntries) : SetEntries :=
  pool.walkDescendants pool.mapTx.keys.length
    (if entryit ∈ setDescendants then [] else [entryit]) setDescendants

/-! ## Ancestors -/

/-- The limits that `CalculateMemPoolAncestors` takes. -/
structure AncestorLimits where
  limitAncestorCount : UInt64
  limitAncestorSize : UInt64
  limitDescendantCount : UInt64
  limitDescendantSize : UInt64

/-- `nNoLimit` for every limit. -/
def noLimits : AncestorLimits :=
  ⟨0xffffffffffffffff, 0xffffffffffffffff, 0xffffffffffffffff, 0xffffffffffffffff⟩

/-- The end of the error texts. -/
def limitText (limit : UInt64) : String := " [limit: " ++ toString limit ++ "]"

/-- The loop that searches `mapTx` for the parents of a transaction. -/
def searchParents (pool : CTxMemPool) (limits : AncestorLimits) :
    List CTxIn → SetEntries → Except String SetEntries
  | [], parentHashes => .ok parentHashes
  | txin :: rest, parentHashes =>
    if pool.existsTx txin.prevout.hash then
      let parentHashes := insertSet hashOrder txin.prevout.hash parentHashes
      if UInt64.ofNat (parentHashes.length + 1) > limits.limitAncestorCount then
        .error ("too many unconfirmed parents" ++ limitText limits.limitAncestorCount)
      else pool.searchParents limits rest parentHashes
    else pool.searchParents limits rest parentHashes

/-- The loop over the parents of a visited entry. -/
def stageParents (limits : AncestorLimits) (setAncestors : SetEntries) :
    SetEntries → SetEntries → Except String SetEntries
  | [], parentHashes => .ok parentHashes
  | phash :: rest, parentHashes =>
    let parentHashes :=
      if phash ∈ setAncestors then parentHashes else insertSet hashOrder phash parentHashes
    if UInt64.ofNat (parentHashes.length + setAncestors.length + 1) > limits.limitAncestorCount then
      .error ("too many unconfirmed ancestors" ++ limitText limits.limitAncestorCount)
    else stageParents limits setAncestors rest parentHashes

/-- The checks on an entry that becomes an ancestor. -/
def checkAncestor (limits : AncestorLimits) (entry stageit : CTxMemPoolEntry)
    (totalSizeWithAncestors : UInt64) : Except String Unit :=
  if stageit.nSizeWithDescendants + UInt64.ofNat entry.getTxSize > limits.limitDescendantSize then
    .error ("exceeds descendant size limit for tx " ++ uint256ToString stageit.tx.hash
      ++ limitText limits.limitDescendantSize)
  else if stageit.nCountWithDescendants + 1 > limits.limitDescendantCount then
    .error ("too many descendants for tx " ++ uint256ToString stageit.tx.hash
      ++ limitText limits.limitDescendantCount)
  else if totalSizeWithAncestors > limits.limitAncestorSize then
    .error ("exceeds ancestor size limit" ++ limitText limits.limitAncestorSize)
  else .ok ()

/-- The loop of `CalculateMemPoolAncestors`. -/
def walkAncestors (pool : CTxMemPool) (limits : AncestorLimits) (entry : CTxMemPoolEntry) :
    ℕ → UInt64 → SetEntries → SetEntries → Except String SetEntries
  | 0, _, _, setAncestors => .ok setAncestors
  | _ + 1, _, [], setAncestors => .ok setAncestors
  | rounds + 1, totalSizeWithAncestors, stageit :: parentHashes, setAncestors => do
    let setAncestors := insertSet hashOrder stageit setAncestors
    let totalSizeWithAncestors :=
      totalSizeWithAncestors + UInt64.ofNat (pool.deref stageit).getTxSize
    checkAncestor limits entry (pool.deref stageit) totalSizeWithAncestors
    let parentHashes ←
      stageParents limits setAncestors (pool.getMemPoolParents stageit) parentHashes
    pool.walkAncestors limits entry rounds totalSizeWithAncestors parentHashes setAncestors

/-- `CTxMemPool::CalculateMemPoolAncestors`: the ancestors, or the error text. -/
def calculateMemPoolAncestors (entry : CTxMemPoolEntry) (limits : AncestorLimits)
    (fSearchForParents : Bool) : Except String SetEntries := do
  let parentHashes ←
    if fSearchForParents then pool.searchParents limits entry.tx.vin []
    else .ok (pool.getMemPoolParents entry.tx.hash)
  pool.walkAncestors limits entry pool.mapTx.keys.length (UInt64.ofNat entry.getTxSize)
    parentHashes []

/-! ## Links -/

/-- `UpdateChild` and `UpdateParent` on one of the two sets. -/
def updateSet (s : SetEntries) (it : Uint256) (add : Bool) : SetEntries :=
  if add then insertSet hashOrder it s else s.erase it

/-- `CTxMemPool::UpdateChild`. -/
def updateChild (entry child : Uint256) (add : Bool) : CTxMemPool :=
  let links := pool.links entry
  { pool with
    mapLinks := pool.mapLinks.insert entry
      { links with children := updateSet links.children child add } }

/-- `CTxMemPool::UpdateParent`. -/
def updateParent (entry parent : Uint256) (add : Bool) : CTxMemPool :=
  let links := pool.links entry
  { pool with
    mapLinks := pool.mapLinks.insert entry
      { links with parents := updateSet links.parents parent add } }

/-- `mapTx.modify`. -/
def modifyTx (f : CTxMemPoolEntry → CTxMemPoolEntry) : CTxMemPool :=
  { pool with mapTx := Maps.modify pool.mapTx it f }

/-- `CTxMemPool::UpdateAncestorsOf`. -/
def updateAncestorsOf (add : Bool) (it : Uint256) (setAncestors : SetEntries) : CTxMemPool :=
  let parentIters := pool.getMemPoolParents it
  let updateCount : Int64 := if add then 1 else -1
  let updateSize := updateCount * Int64.ofNat (pool.deref it).getTxSize
  let updateFee := updateCount * (pool.deref it).getModifiedFee
  let pool := parentIters.foldl (fun pool piter => pool.updateChild piter it add) pool
  setAncestors.foldl
    (fun pool ancestorIt =>
      pool.modifyTx ancestorIt fun e => e.updateState updateSize updateFee updateCount) pool

/-- `CTxMemPool::UpdateChildrenForRemoval`. -/
def updateChildrenForRemoval : CTxMemPool :=
  (pool.getMemPoolChildren it).foldl (fun pool updateIt => pool.updateParent updateIt it false) pool

/-! ## Adding and removing -/

/-- One round of the first loop of `UpdateForRemoveFromMempool`. Without limits the ancestors are
    always found. -/
def forgetDescendant (removeIt : Uint256) : CTxMemPool :=
  let setAncestors := pool.calculateMemPoolAncestors (pool.deref removeIt) noLimits false
  pool.updateAncestorsOf false removeIt (setAncestors.toOption.getD [])

/-- `CTxMemPool::UpdateForRemoveFromMempool`. -/
def updateForRemoveFromMempool (entriesToRemove : SetEntries) : CTxMemPool :=
  entriesToRemove.foldl updateChildrenForRemoval (entriesToRemove.foldl forgetDescendant pool)

/-- `CTxMemPool::removeUnchecked`. -/
def removeUnchecked : CTxMemPool :=
  let entry := pool.deref it
  { pool with
    mapNextTx := entry.tx.vin.foldl (fun m txin => m.erase txin.prevout) pool.mapNextTx
    totalTxSize := pool.totalTxSize - UInt64.ofNat entry.getTxSize
    mapLinks := pool.mapLinks.erase it
    mapTx := pool.mapTx.erase it }

/-- `CTxMemPool::RemoveStaged`. -/
def removeStaged (stage : SetEntries) : CTxMemPool :=
  stage.foldl removeUnchecked (pool.updateForRemoveFromMempool stage)

/-- The entry that `addUnchecked` stores: with the fee delta from `PrioritiseTransaction`, if there is
    one. -/
def withFeeDelta (entry : CTxMemPoolEntry) : CTxMemPoolEntry :=
  match pool.mapDeltas.lookup hash with
  | none => entry
  | some delta => if delta = 0 then entry else entry.updateFeeDelta delta

/-- `CTxMemPool::addUnchecked`. -/
def addUnchecked (entry : CTxMemPoolEntry) (setAncestors : SetEntries) : CTxMemPool :=
  let setParentTransactions :=
    entry.tx.vin.foldl (fun s txin => insertSet hashOrder txin.prevout.hash s) []
  let pool :=
    { pool with
      mapTx := Maps.insertNew pool.mapTx hash (pool.withFeeDelta hash entry)
      mapLinks := Maps.insertNew pool.mapLinks hash ⟨[], []⟩
      mapNextTx := entry.tx.vin.zipIdx.foldl
        (fun m (input : CTxIn × ℕ) => m.insert input.1.prevout ⟨entry.tx, input.2⟩) pool.mapNextTx }
  let pool := setParentTransactions.foldl
    (fun pool phash => if pool.existsTx phash then pool.updateParent hash phash true else pool) pool
  let pool := pool.updateAncestorsOf true hash setAncestors
  { pool with totalTxSize := pool.totalTxSize + UInt64.ofNat entry.getTxSize }

/-! ## Which transactions are in the pool

The links and the totals change with every operation; the transactions of the pool change only where
`mapTx` is inserted into or erased from. -/

theorem existsTx_modifyTx (f : CTxMemPoolEntry → CTxMemPoolEntry) (h : Uint256) :
    (pool.modifyTx it f).existsTx h = pool.existsTx h := by
  simp only [existsTx, modifyTx, Maps.lookup_modify]
  split_ifs with heq
  · rw [heq, Option.isSome_map]
  · rfl

theorem existsTx_updateChild (entry child : Uint256) (add : Bool) (h : Uint256) :
    (pool.updateChild entry child add).existsTx h = pool.existsTx h := rfl

theorem existsTx_updateParent (entry parent : Uint256) (add : Bool) (h : Uint256) :
    (pool.updateParent entry parent add).existsTx h = pool.existsTx h := rfl

theorem existsTx_foldl {α : Type*} {f : CTxMemPool → α → CTxMemPool}
    (hf : ∀ pool a h, (f pool a).existsTx h = pool.existsTx h) (l : List α) (h : Uint256) :
    ∀ pool : CTxMemPool, (l.foldl f pool).existsTx h = pool.existsTx h := by
  induction l with
  | nil => exact fun _ => rfl
  | cons a rest ih =>
    simp [List.foldl_cons, ih, hf]

theorem existsTx_updateAncestorsOf (add : Bool) (it : Uint256) (setAncestors : SetEntries)
    (h : Uint256) : (pool.updateAncestorsOf add it setAncestors).existsTx h = pool.existsTx h := by
  simp only [updateAncestorsOf]
  rw [existsTx_foldl (fun pool a h => pool.existsTx_modifyTx a _ h)]
  exact existsTx_foldl (fun pool piter h => pool.existsTx_updateChild piter it add h) _ h pool

theorem existsTx_updateForRemoveFromMempool (entriesToRemove : SetEntries) (h : Uint256) :
    (pool.updateForRemoveFromMempool entriesToRemove).existsTx h = pool.existsTx h := by
  have hforget : ∀ (pool : CTxMemPool) (it h : Uint256),
      (pool.forgetDescendant it).existsTx h = pool.existsTx h :=
    fun pool it h => pool.existsTx_updateAncestorsOf false it _ h
  have hsever : ∀ (pool : CTxMemPool) (it h : Uint256),
      (pool.updateChildrenForRemoval it).existsTx h = pool.existsTx h :=
    fun pool it h =>
      existsTx_foldl (fun pool updateIt h => pool.existsTx_updateParent updateIt it false h) _ h pool
  rw [updateForRemoveFromMempool, existsTx_foldl hsever, existsTx_foldl hforget]

theorem existsTx_removeUnchecked (h : Uint256) :
    (pool.removeUnchecked it).existsTx h ↔ h ≠ it ∧ pool.existsTx h := by
  unfold existsTx removeUnchecked
  by_cases heq : h = it
  · subst heq
    simp
  · simp [heq]

/-- **`RemoveStaged` removes the staged transactions and no others.** -/
theorem existsTx_removeStaged (stage : SetEntries) (h : Uint256) :
    (pool.removeStaged stage).existsTx h ↔ h ∉ stage ∧ pool.existsTx h := by
  rw [removeStaged, ← pool.existsTx_updateForRemoveFromMempool stage h]
  generalize pool.updateForRemoveFromMempool stage = severed
  induction stage generalizing severed with
  | nil => simp
  | cons it rest ih =>
    rw [List.foldl_cons, ih, existsTx_removeUnchecked, List.mem_cons, not_or]
    tauto

/-- **`addUnchecked` adds the transaction and no other.** -/
theorem existsTx_addUnchecked (entry : CTxMemPoolEntry) (setAncestors : SetEntries) (h : Uint256) :
    (pool.addUnchecked hash entry setAncestors).existsTx h ↔
      h = hash ∨ pool.existsTx h := by
  have hparent : ∀ (pool : CTxMemPool) (phash h : Uint256),
      (if pool.existsTx phash then pool.updateParent hash phash true else pool).existsTx h
        = pool.existsTx h := by
    intro pool phash h
    split_ifs <;> rfl
  show (updateAncestorsOf _ true hash setAncestors).existsTx h ↔ _
  rw [existsTx_updateAncestorsOf, existsTx_foldl hparent]
  simp only [existsTx, Maps.lookup_insertNew]
  split_ifs with heq
  · simp [heq]
  · simp [heq]

end CTxMemPool

end Binarium
