import Binarium.Mempool.Usage
import Mathlib.Algebra.BigOperators.Pi

set_option autoImplicit false

/-! # Runs of the memory pool (`txmempool.cpp`, `validation.cpp`)

Between two calls of its functions the pool is `Sound`: the links say who spends whom, `mapNextTx` holds
the inputs of the entries, the counters of sizes are right, and the totals of an entry are those of its
descendants unless the entry is dirty. This is shown for every state that is `Reachable`: from the empty
pool by accepted transactions, blocks, removals, expiry, trimming, new priorities and disconnected
blocks, in any order.

While the transactions of a disconnected block come back, one after the other, the links from them to
children that are in the pool already are missing. `Sound` has the list of these transactions for a
parameter, which is empty except there. What a removal does is the same in both cases.

What is asked of the callers is what they check. A transaction is added if it is not in the pool and
spends nothing that is spent in the pool or by itself; it has no children there, which
`AcceptToMemoryPool` and `addUnchecked` assume. A transaction of a block has its parents before it in
the block or in the chain, and what is in the chain is not in the pool. -/

namespace Binarium

open Closure Checks Descent Relation List CTxMemPoolEntry

/-! ## Removing by transaction -/

namespace CTxMemPool

/-- `txToRemove` of `CTxMemPool::remove`: the transaction, or what spends its outputs if it is not in the
    pool. What `mapNextTx` names is in the pool (`exists_of_mem_txToRemove`), which the code asserts. -/
def txToRemove (pool : CTxMemPool) (origTx : CTransaction) (fRecursive : Bool) : SetEntries :=
  if pool.existsTx origTx.hash then [origTx.hash]
  else if fRecursive then
    (List.range origTx.vout.length).foldl
      (fun s i =>
        match pool.mapNextTx.lookup ⟨origTx.hash, BitVec.ofNat 32 i⟩ with
        | none => s
        | some next => insertSet hashOrder next.ptx.hash s) []
  else []

/-- `setAllRemoves` of `CTxMemPool::remove`. -/
def setAllRemoves (pool : CTxMemPool) (origTx : CTransaction) (fRecursive : Bool) : SetEntries :=
  if fRecursive then
    (pool.txToRemove origTx true).foldl (fun stage it => pool.calculateDescendants it stage) []
  else pool.txToRemove origTx false

end CTxMemPool

namespace MeteredPool

variable (sizes : NodeSizes)

/-- `CTxMemPool::remove`, with the transactions that it adds to `removed`. -/
def remove (m : MeteredPool) (origTx : CTransaction) (fRecursive : Bool) :
    MeteredPool × List CTransaction :=
  let stage := m.setAllRemoves origTx fRecursive
  (removeStaged sizes m stage, stage.map fun it => (m.deref it).tx)

/-- One input of the loop of `removeConflicts`. The hash for `ClearPrioritisation` is read from the
    transaction that has just been removed, and here it is the one that was there. -/
def removeConflict (tx : CTransaction) (s : MeteredPool × List CTransaction) (txin : CTxIn) :
    MeteredPool × List CTransaction :=
  match s.1.mapNextTx.lookup txin.prevout with
  | none => s
  | some next =>
    if next.ptx.hash ≠ tx.hash then
      let (m, removed) := remove sizes s.1 next.ptx true
      (m.clearPrioritisation next.ptx.hash, s.2 ++ removed)
    else s

/-- `CTxMemPool::removeConflicts`. -/
def removeConflicts (m : MeteredPool) (tx : CTransaction) : MeteredPool × List CTransaction :=
  tx.vin.foldl (removeConflict sizes tx) (m, [])

/-- One transaction of the loop of `removeForBlock`. -/
def removeTxForBlock (s : MeteredPool × List CTransaction) (tx : CTransaction) :
    MeteredPool × List CTransaction :=
  let (m, _) := remove sizes s.1 tx false
  let (m, conflicts) := removeConflicts sizes m tx
  (m.clearPrioritisation tx.hash, s.2 ++ conflicts)

/-- `CTxMemPool::removeForBlock`, with the transactions that it adds to `conflicts`. -/
def removeForBlock (m : MeteredPool) (vtx : List CTransaction) : MeteredPool × List CTransaction :=
  vtx.foldl (removeTxForBlock sizes) (m, [])

end MeteredPool

/-! ## Sound pools -/

variable {its : SetEntries} {tx : CTransaction}

variable (origTx : CTransaction)

namespace CTxMemPool

/-- The pool while the transactions of a block come back, or between two calls if there are none. -/
structure Sound (pool : CTxMemPool) (block : List Uint256) : Prop where
  consistent : pool.Consistent
  exact : pool.Exact
  fromBlock : pool.FromBlock block
  linked : pool.LinkedBut block block

variable {pool pool' : CTxMemPool} {block : List Uint256}

theorem linkedBut_nil : pool.LinkedBut [] [] ↔ ∀ p c, pool.ChildLink p c ↔ pool.Spends p c := by
  refine forall_congr' fun p => forall_congr' fun c => ?_
  simp

theorem fromBlock_nil : pool.FromBlock [] where
  nodup := nodup_nil
  closed := by simp
  ordered := List.Pairwise.nil

/-- **A removal leaves the pool sound**, if what descends from removed entries by links is removed
    too, or nothing that stays leads to them. -/
theorem Sound.removed (h : pool.Sound block) {gone : Finset Uint256} (hr : Removed pool pool' gone)
    (hexists : ∀ d ∈ gone, pool.existsTx d) (hgone : Entire pool.ChildLink (· ∈ gone)) :
    pool'.Sound block where
  consistent := hr.consistent h.consistent hexists
  exact := hr.exact hexists hgone h.exact
  fromBlock :=
    { nodup := h.fromBlock.nodup
      closed := fun hpc hc => h.fromBlock.closed (hr.spends_iff.mp hpc).1 hc
      ordered := h.fromBlock.ordered.imp fun hab hba => hab (hr.spends_iff.mp hba).1 }
  linked := fun p c => by
    rw [hr.childLink, hr.spends_iff, h.linked p c]
    tauto

theorem Consistent.mem_stage (hpool : pool.Consistent) (hits : ∀ it ∈ its, pool.existsTx it) :
    (its.foldl (fun stage it => pool.calculateDescendants it stage) []).Nodup
      ∧ ∀ d, d ∈ its.foldl (fun stage it => pool.calculateDescendants it stage) []
        ↔ ∃ it ∈ its, ReflTransGen pool.ChildLink it d := by
  have hwalk : Walking pool.getMemPoolChildren (its.reverse ++ []) []
      (its.foldl (fun stage it => pool.calculateDescendants it stage) []) :=
    foldl_calculateDescendants_walking hpool.childrenExist (by simpa using hits) (Walking.nil _)
  refine ⟨hwalk.nodupVisited, fun d => ?_⟩
  rw [hwalk.mem_iff]
  refine exists_congr fun it => and_congr_left fun _ => ?_
  simp

theorem Consistent.exists_of_reaches (hpool : pool.Consistent) {it d : Uint256}
    (hit : pool.existsTx it) (hreach : ReflTransGen pool.ChildLink it d) : pool.existsTx d := by
  rcases ReflTransGen.cases_tail hreach with rfl | ⟨c, -, hlink⟩
  · exact hit
  · exact (hpool.exists_of_childLink hlink).2

theorem Consistent.exists_of_mem_stage (hpool : pool.Consistent)
    (hits : ∀ it ∈ its, pool.existsTx it) :
    ∀ d ∈ its.foldl (fun stage it => pool.calculateDescendants it stage) [], pool.existsTx d := by
  grind [hpool.mem_stage hits, hpool.exists_of_reaches]

theorem txToRemove_false :
    pool.txToRemove origTx false = if pool.existsTx origTx.hash then [origTx.hash] else [] := rfl

theorem exists_of_mem_txToRemove (hpool : pool.Consistent) {origTx : CTransaction} {fRecursive : Bool}
    {it : Uint256} (hit : it ∈ pool.txToRemove origTx fRecursive) : pool.existsTx it := by
  unfold txToRemove at hit
  split_ifs at hit with hin
  · rw [mem_singleton.mp hit, hin]
  · refine foldl_invariant (Q := fun s : SetEntries => ∀ it ∈ s, pool.existsTx it)
      (fun s i hs => ?_) (range origTx.vout.length) (by simp) it hit
    split
    next => exact hs
    next next hnext =>
      intro it hit
      rcases (mem_insertSet hashOrder).mp hit with rfl | hold
      · obtain ⟨entry, hentry, -⟩ := spentBy_of_checkNext (hpool.nextTx_sound hnext)
        exact existsTx_iff.mpr ⟨entry, hentry⟩
      · exact hs it hold
  · simp at hit

/-- A change of fees and deltas leaves the links and the transactions as they are. -/
theorem Sound.sameGraph (h : pool.Sound block) (hsame : SameGraph pool pool')
    (hconsistent : pool'.Consistent) (hexact : pool'.Exact) : pool'.Sound block where
  consistent := hconsistent
  exact := hexact
  fromBlock := h.fromBlock.congr fun p c => hsame.spends_iff
  linked := fun p c => by rw [hsame.childLink_eq, hsame.spends_iff, h.linked p c]

theorem Sound.prioritiseTransaction (h : pool.Sound block) (hash : Uint256) (nFeeDelta : CAmount) :
    (pool.prioritiseTransaction hash nFeeDelta).Sound block :=
  h.sameGraph (sameGraph_prioritiseTransaction h.consistent) h.consistent.prioritiseTransaction
    (Exact.prioritiseTransaction h.consistent h.exact)

/-- The delta of a transaction that is not in the pool is of no concern. -/
theorem Sound.eraseDelta (h : pool.Sound block) {hash : Uint256} (hgone : pool.existsTx hash = false) :
    Sound { pool with mapDeltas := pool.mapDeltas.erase hash } block := by
  have hsame : SameGraph pool { pool with mapDeltas := pool.mapDeltas.erase hash } :=
    ⟨rfl, rfl, rfl, fun _ => rfl⟩
  refine h.sameGraph hsame (hsame.consistent h.consistent fun {x entry'} hentry' => ?_)
    fun {x entry'} hentry' => ?_
  · have hne : x ≠ hash := by grind [existsTx_iff]
    rw [AList.lookup_erase_ne hne]
    exact h.consistent.deltas hentry'
  · exact h.exact hentry'

end CTxMemPool

/-! ## Steps that take entries out -/

namespace MeteredPool

/-- The counter of memory is right, and the pool is sound. -/
structure Sound (sizes : NodeSizes) (block : List Uint256) (m : MeteredPool) : Prop where
  counted : m.cachedInnerUsage = sizes.innerUsage m.toCTxMemPool
  pool : m.toCTxMemPool.Sound block

/-- The second pool is sound, and its entries come from the first one. -/
structure Shrunk (sizes : NodeSizes) (block : List Uint256) (m m' : MeteredPool) : Prop where
  sound : Sound sizes block m'
  kept : ∀ {h entry'}, m'.mapTx.lookup h = some entry' →
    ∃ entry, m.mapTx.lookup h = some entry ∧ entry.tx = entry'.tx

variable {sizes : NodeSizes} {block : List Uint256} {m m' m'' : MeteredPool}

theorem Sound.eq_meter (h : Sound sizes block m) : m = sizes.meter m.toCTxMemPool :=
  congrArg (MeteredPool.mk _) h.counted

theorem Shrunk.refl (h : Sound sizes block m) : Shrunk sizes block m m :=
  ⟨h, fun hentry => ⟨_, hentry, rfl⟩⟩

theorem Shrunk.trans (h : Shrunk sizes block m m') (h' : Shrunk sizes block m' m'') :
    Shrunk sizes block m m'' := by
  refine ⟨h'.sound, fun hentry'' => ?_⟩
  grind [h'.kept hentry'', h.kept]

open CTxMemPool

theorem Shrunk.exists_of_exists (h : Shrunk sizes block m m') {x : Uint256}
    (hx : m'.existsTx x) : m.existsTx x := by
  grind [existsTx_iff, h.kept]

theorem Shrunk.spends (h : Shrunk sizes block m m') {p c : Uint256} (hspends : m.Spends p c)
    (hp : m'.existsTx p) (hc : m'.existsTx c) : m'.Spends p c := by
  grind [Spends, existsTx_iff, h.kept]

variable {stage : SetEntries}

section
variable (h : Sound sizes block m)
include h

section
variable (hexists : ∀ it ∈ stage, m.existsTx it = true)
include hexists

theorem Sound.removeStaged_eq (hnodup : stage.Nodup) :
    m.removeStaged sizes stage = sizes.meter (m.toCTxMemPool.removeStaged stage) := by
  rw [h.eq_meter]
  exact removeStaged_meter hexists hnodup

theorem Sound.removed_removeStaged (hnodup : stage.Nodup) :
    CTxMemPool.Removed m.toCTxMemPool (m.removeStaged sizes stage).toCTxMemPool stage.toFinset := by
  rw [h.removeStaged_eq hexists hnodup]
  exact CTxMemPool.removed_removeStaged h.pool.consistent hexists hnodup

/-- **Staged entries leave a sound pool**, on the condition of `CTxMemPool.Sound.removed`. -/
theorem Sound.removeStaged (hnodup : stage.Nodup) (hgone : Entire m.ChildLink (· ∈ stage)) :
    Shrunk sizes block m (m.removeStaged sizes stage) := by
  have hremoved := h.removed_removeStaged hexists hnodup
  refine ⟨⟨?_, h.pool.removed hremoved (fun d hd => hexists d (mem_toFinset.mp hd)) ?_⟩,
    fun hentry' => ?_⟩
  · rw [h.removeStaged_eq hexists hnodup]
    rfl
  · simpa [Entire] using hgone
  · obtain ⟨entry, hentry, hcore, -⟩ := hremoved.entries hentry'
    exact ⟨entry, hentry, (tx_of_core hcore).symm⟩

end

/-- The entries that are removed with others are those that links lead to. -/
theorem Sound.removed_descendants
    (hits : ∀ it ∈ its, m.existsTx it) : CTxMemPool.Removed m.toCTxMemPool (m.removeStaged sizes
        (its.foldl (fun stage it => m.calculateDescendants it stage) [])).toCTxMemPool
      (its.foldl (fun stage it => m.calculateDescendants it stage) []).toFinset :=
  h.removed_removeStaged (h.pool.consistent.exists_of_mem_stage hits)
    (h.pool.consistent.mem_stage hits).1

/-- **Entries leave with their descendants.** -/
theorem Sound.removeDescendants (hits : ∀ it ∈ its, m.existsTx it) : Shrunk sizes block m
      (m.removeStaged sizes (its.foldl (fun stage it => m.calculateDescendants it stage) [])) := by
  obtain ⟨hnodup, hmem⟩ := h.pool.consistent.mem_stage hits
  refine h.removeStaged (h.pool.consistent.exists_of_mem_stage hits) hnodup ?_
  intro x d _ hd _ e hreach
  obtain ⟨it, hit, hbefore⟩ := (hmem d).mp hd
  exact (hmem e).mpr ⟨it, hit, hbefore.trans hreach⟩

theorem Sound.exists_of_mem_txToRemove (fRecursive : Bool) :
    ∀ it ∈ m.txToRemove origTx fRecursive, m.existsTx it :=
  fun _ hit => CTxMemPool.exists_of_mem_txToRemove h.pool.consistent hit

theorem Sound.remove : Shrunk sizes block m (m.remove sizes origTx true).1 :=
  h.removeDescendants (h.exists_of_mem_txToRemove origTx true)

theorem Sound.expire (time : ℤ) : Shrunk sizes block m (m.expire sizes time) := by
  refine h.removeDescendants ?_
  refine foldlRecOn (motive := fun s : SetEntries => ∀ it ∈ s, m.existsTx it)
    m.mapTx.entries _ (by simp) fun s hs e he => ?_
  have hkey := (Maps.mem_keys_iff_isSome m.mapTx e.1).mp (mem_map_of_mem he)
  grind [mem_insertSet, existsTx]

theorem Sound.clearPrioritisation {hash : Uint256}
    (hgone : m.existsTx hash = false) : Shrunk sizes block m (m.clearPrioritisation hash) :=
  ⟨⟨h.counted, h.pool.eraseDelta hgone⟩, fun hentry => ⟨_, hentry, rfl⟩⟩

theorem Sound.existsTx_remove : (m.remove sizes origTx true).1.existsTx origTx.hash = false := by
  have hits := h.exists_of_mem_txToRemove origTx true
  rw [Bool.eq_false_iff]
  intro hkept
  obtain ⟨hin, hstays⟩ := ((h.removed_descendants hits).exists_iff origTx.hash).mp hkept
  refine hstays (mem_toFinset.mpr ?_)
  refine ((h.pool.consistent.mem_stage hits).2 _).mpr ⟨origTx.hash, ?_, .refl⟩
  simp [txToRemove, hin]

theorem Sound.removeConflicts (tx : CTransaction) :
    Shrunk sizes block m (m.removeConflicts sizes tx).1 := by
  refine foldl_invariant (Q := fun s : MeteredPool × List CTransaction => Shrunk sizes block m s.1)
    (fun s txin hs => ?_) tx.vin (Shrunk.refl h)
  unfold removeConflict
  split
  next => exact hs
  next next hnext =>
    split_ifs
    · have hremoved := hs.trans (hs.sound.remove next.ptx)
      exact hremoved.trans (hremoved.sound.clearPrioritisation (hs.sound.existsTx_remove next.ptx))
    · exact hs

end

theorem Sound.trimRounds {lim : LimitContext} (rounds : ℕ) : ∀ {s : MeteredTrim},
    Sound lim.sizes block s.pool → Shrunk lim.sizes block s.pool (trimRounds lim rounds s).2.pool := by
  induction rounds with
  | zero => exact fun h => Shrunk.refl h
  | succ rounds ih =>
    intro s h
    rw [MeteredPool.trimRounds]
    split_ifs
    · cases hfirst : lim.first s.pool.toCTxMemPool with
      | none => exact Shrunk.refl h
      | some it =>
        have honce : Shrunk lim.sizes block s.pool (trimOnce lim.sizes s it).pool :=
          h.removeDescendants (forall_mem_singleton.mpr (lim.first_mem hfirst))
        exact honce.trans (ih honce.sound)
    · exact Shrunk.refl h

end MeteredPool

/-! ## Blocks -/

/-- What a block that is connected owes the pool: an entry with the hash of a transaction of the block is
    that transaction, and a parent of it that is in the pool is before it in the block. -/
structure CTxMemPool.Connectable (pool : CTxMemPool) (vtx : List CTransaction) : Prop where
  same : ∀ tx ∈ vtx, ∀ entry, pool.mapTx.lookup tx.hash = some entry → entry.tx = tx
  parents : ∀ before tx after, vtx = before ++ tx :: after → ∀ txin ∈ tx.vin,
    pool.existsTx txin.prevout.hash = true → ∃ earlier ∈ before, earlier.hash = txin.prevout.hash

namespace MeteredPool

open CTxMemPool

variable {sizes : NodeSizes} {m : MeteredPool}

/-- **A transaction of a block leaves, and its conflicts with what descends from them**, if its parents
    have left before. -/
theorem Sound.removeTxForBlock {s : MeteredPool × List CTransaction} (h : Sound sizes [] s.1)
    (hparents : ∀ x, ¬ s.1.Spends x tx.hash) :
    Shrunk sizes [] s.1 (removeTxForBlock sizes s tx).1
      ∧ (removeTxForBlock sizes s tx).1.existsTx tx.hash = false := by
  have hexists := h.exists_of_mem_txToRemove tx false
  have honly : ∀ it ∈ s.1.txToRemove tx false, it = tx.hash := by
    grind [txToRemove_false]
  have hnodup : (s.1.txToRemove tx false).Nodup := by
    rw [txToRemove_false]
    split_ifs <;> simp
  have hremoved : Shrunk sizes [] s.1 (s.1.remove sizes tx false).1 := by
    refine h.removeStaged hexists hnodup fun x d _ hd hlink => absurd ?_ (hparents x)
    rw [honly d hd] at hlink
    exact (linkedBut_nil.mp h.pool.linked x tx.hash).mp hlink
  have hgone : (s.1.remove sizes tx false).1.existsTx tx.hash = false := by
    rw [Bool.eq_false_iff]
    intro hkept
    obtain ⟨hin, hstays⟩ := ((h.removed_removeStaged hexists hnodup).exists_iff tx.hash).mp hkept
    exact hstays (by simp [txToRemove, hin])
  have hconflicts := hremoved.sound.removeConflicts tx
  have hclear : ((s.1.remove sizes tx false).1.removeConflicts sizes tx).1.existsTx tx.hash = false := by
    grind [hconflicts.exists_of_exists]
  exact ⟨(hremoved.trans hconflicts).trans (hconflicts.sound.clearPrioritisation hclear), hclear⟩

/-- **`removeForBlock` leaves a sound pool.** -/
theorem Sound.removeForBlock (h : Sound sizes [] m) {vtx : List CTransaction}
    (hblock : m.Connectable vtx) : Shrunk sizes [] m (m.removeForBlock sizes vtx).1 := by
  -- the transactions of the block so far have left the pool
  have hloop : ∀ (after before : List CTransaction) (s : MeteredPool × List CTransaction),
      vtx = before ++ after → Shrunk sizes [] m s.1 →
      (∀ tx ∈ before, s.1.existsTx tx.hash = false) →
      Shrunk sizes [] m (after.foldl (MeteredPool.removeTxForBlock sizes) s).1 := by
    intro after
    induction after with
    | nil => exact fun _ _ _ hs _ => hs
    | cons tx rest ih =>
      intro before s hsplit hs hgone
      have hparents : ∀ x, ¬ s.1.Spends x tx.hash := by
        rintro x ⟨hx, entry', hentry', txin, hin, rfl⟩
        obtain ⟨entry, hentry, htx⟩ := hs.kept hentry'
        rw [← htx, hblock.same tx (by simp [hsplit]) entry hentry] at hin
        grind [hblock.parents before tx rest hsplit txin hin (hs.exists_of_exists hx)]
      obtain ⟨hstep, hleft⟩ := hs.sound.removeTxForBlock hparents
      refine ih (before ++ [tx]) _ (by simp [hsplit]) (hs.trans hstep) fun other hother => ?_
      grind [hstep.exists_of_exists]
  exact hloop vtx [] (m, []) rfl (Shrunk.refl h) fun _ hnil => absurd hnil (by simp)

end MeteredPool

/-! ## Accepted transactions -/

namespace CTxMemPool

/-- What `AcceptToMemoryPool` gives to `addUnchecked`: a new entry for a transaction that may be added,
    with the ancestors that `CalculateMemPoolAncestors` has found under some limits. -/
structure Accepted (pool : CTxMemPool) (entry : CTxMemPoolEntry) (setAncestors : SetEntries) : Prop where
  created : ∃ nFee nTime entryHeight poolHasNoInputsOf spendsCoinbase sigOps,
    entry = .create entry.tx nFee nTime entryHeight poolHasNoInputsOf spendsCoinbase sigOps
  addable : pool.Addable entry.tx
  ancestors : ∃ limits, pool.calculateMemPoolAncestors entry limits true = .ok setAncestors

/-- No entry of the pool spends an output of the transaction. -/
def Childless (pool : CTxMemPool) (tx : CTransaction) : Prop :=
  ∀ h known, pool.mapTx.lookup h = some known → ∀ txin ∈ known.tx.vin, txin.prevout.hash ≠ tx.hash

variable {pool : CTxMemPool} {block : List Uint256} {entry : CTxMemPoolEntry} {setAncestors : SetEntries}

/-- An accepted transaction is added with its parents, and the totals stay exact. -/
theorem Sound.addUnchecked (h : pool.Sound block) (haccepted : pool.Accepted entry setAncestors) :
    Added pool (pool.addUnchecked entry.tx.hash entry setAncestors) entry setAncestors
      ∧ (pool.addUnchecked entry.tx.hash entry setAncestors).Consistent
      ∧ (pool.addUnchecked entry.tx.hash entry setAncestors).Exact := by
  obtain ⟨⟨nFee, nTime, entryHeight, poolHasNoInputsOf, spendsCoinbase, sigOps, hcreate⟩, hadd, limits,
    hancestors⟩ := haccepted
  have hnew : entry.New := hcreate ▸ new_create _ _ _ _ _ _ _
  obtain ⟨hnodup, hmem⟩ := calculateMemPoolAncestors_search h.consistent.parentsExist hancestors
  rw [h.consistent.parentLink_eq] at hmem
  have hself : entry.tx.hash ∉ setAncestors := by
    intro hin
    obtain ⟨p, ⟨hp, -⟩, hreach⟩ := (hmem _).mp hin
    rcases ReflTransGen.cases_head hreach with heq | ⟨c, hlink, -⟩
    · exact absurd (heq ▸ hp) (by simp [hadd.fresh])
    · exact absurd (h.consistent.exists_of_childLink hlink).1 (by simp [hadd.fresh])
  have hadded := added_addUnchecked h.consistent hadd.fresh hadd.notSelf hnodup hself
  exact ⟨hadded, hadded.consistent h.consistent hnew hadd,
    hadded.exact h.consistent hnew hadd.fresh hmem h.exact⟩

/-- **A transaction without children in the pool is added to a sound pool.** -/
theorem Sound.addChildless (h : pool.Sound []) (haccepted : pool.Accepted entry setAncestors)
    (hchildless : pool.Childless entry.tx) :
    (pool.addUnchecked entry.tx.hash entry setAncestors).Sound [] := by
  obtain ⟨hadded, hconsistent, hexact⟩ := h.addUnchecked haccepted
  have hnotSelf := haccepted.addable.notSelf
  refine ⟨hconsistent, hexact, fromBlock_nil, linkedBut_nil.mpr fun p c => ?_⟩
  rw [hadded.childLink, hadded.spends_iff, linkedBut_nil.mp h.linked]
  grind [Childless, ParentOf]

/-- **A transaction that comes back from a block is added**, with links missing to children that are not
    of the block. Its parents are of the block, and nothing before it in the block spends it. -/
theorem Sound.addFromBlock (h : pool.Sound block) (haccepted : pool.Accepted entry setAncestors)
    (hnew : entry.tx.hash ∉ block) (hparents : ∀ p, pool.ParentOf entry.tx p → p ∈ block)
    (hordered : ∀ e ∈ block, ∀ known, pool.mapTx.lookup e = some known →
      ∀ txin ∈ known.tx.vin, txin.prevout.hash ≠ entry.tx.hash) :
    (pool.addUnchecked entry.tx.hash entry setAncestors).Sound (block ++ [entry.tx.hash]) := by
  obtain ⟨hadded, hconsistent, hexact⟩ := h.addUnchecked haccepted
  have hnotSelf := haccepted.addable.notSelf
  have hold : ∀ {x}, pool.existsTx x → x ≠ entry.tx.hash := by
    grind [haccepted.addable.fresh]
  -- the new transaction spends from its parents, and it is spent by old ones outside the block only
  have hspends : ∀ {p c}, (pool.addUnchecked entry.tx.hash entry setAncestors).Spends p c ↔
      pool.Spends p c ∨ (c = entry.tx.hash ∧ pool.ParentOf entry.tx p)
        ∨ (p = entry.tx.hash ∧ c ∉ block ∧ ∃ known, pool.mapTx.lookup c = some known
          ∧ ∃ txin ∈ known.tx.vin, txin.prevout.hash = p) := by
    intro p c
    rw [hadded.spends_iff]
    grind [ParentOf]
  have hchild : ∀ {p c}, pool.Spends p c → c ≠ entry.tx.hash := fun hpc => hold hpc.exists_child
  have hclosed := @FromBlock.closed _ _ h.fromBlock
  refine ⟨hconsistent, hexact, ⟨?_, ?_, ?_⟩, fun p c => ?_⟩
  · grind [h.fromBlock.nodup]
  · intro p c hpc hc
    grind
  · refine pairwise_append.mpr ⟨h.fromBlock.ordered.imp_of_mem ?_, by simp, ?_⟩
    · intro a b ha hb hab hba
      grind
    · intro a ha b hb hba
      grind [Spends]
  · rw [hadded.childLink, hspends, h.linked p c]
    grind [Spends, existsTx_iff]

end CTxMemPool

/-! ## Reachable pools -/

namespace MeteredPool

open CTxMemPool

variable (sizes : NodeSizes)

/-- The loop of `DisconnectTip` over the transactions of a block, with `vHashUpdate`. A transaction that
    is not accepted is removed with what descends from it. -/
inductive Resurrecting (m : MeteredPool) : MeteredPool → List Uint256 → Prop
  | start : Resurrecting m m []
  | rejected {m' : MeteredPool} {vHashUpdate : List Uint256} (h : Resurrecting m m' vHashUpdate)
      (tx : CTransaction) : Resurrecting m (m'.remove sizes tx true).1 vHashUpdate
  | accepted {m' : MeteredPool} {vHashUpdate : List Uint256} (h : Resurrecting m m' vHashUpdate)
      {entry : CTxMemPoolEntry} {setAncestors : SetEntries} (haccepted : m'.Accepted entry setAncestors)
      (hnew : entry.tx.hash ∉ vHashUpdate) (hparents : ∀ p, m'.ParentOf entry.tx p → p ∈ vHashUpdate)
      (hordered : ∀ e ∈ vHashUpdate, ∀ known, m'.mapTx.lookup e = some known →
        ∀ txin ∈ known.tx.vin, txin.prevout.hash ≠ entry.tx.hash) :
      Resurrecting m (m'.addUnchecked sizes entry setAncestors) (vHashUpdate ++ [entry.tx.hash])

/-- The pools that the functions of the pool lead to, from the empty one. -/
inductive Reachable : MeteredPool → Prop
  | empty : Reachable ⟨empty, 0⟩
  | addUnchecked {m : MeteredPool} (h : Reachable m) {entry : CTxMemPoolEntry}
      {setAncestors : SetEntries} (haccepted : m.Accepted entry setAncestors)
      (hchildless : m.Childless entry.tx) : Reachable (m.addUnchecked sizes entry setAncestors)
  | removeForBlock {m : MeteredPool} (h : Reachable m) {vtx : List CTransaction}
      (hblock : m.Connectable vtx) : Reachable (m.removeForBlock sizes vtx).1
  | remove {m : MeteredPool} (h : Reachable m) (tx : CTransaction) :
      Reachable (m.remove sizes tx true).1
  | expire {m : MeteredPool} (h : Reachable m) (time : ℤ) : Reachable (m.expire sizes time)
  | trimToSize {m : MeteredPool} (h : Reachable m) {lim : LimitContext} (hsizes : lim.sizes = sizes)
      (hok : (trimToSize lim m).1 = .ok ()) : Reachable (trimToSize lim m).2.pool
  | prioritiseTransaction {m : MeteredPool} (h : Reachable m) (hash : Uint256) (nFeeDelta : CAmount) :
      Reachable (m.prioritiseTransaction hash nFeeDelta)
  | disconnectTip {m m' : MeteredPool} (h : Reachable m) {vHashUpdate : List Uint256}
      (hback : Resurrecting sizes m m' vHashUpdate) :
      Reachable (m'.updateTransactionsFromBlock sizes vHashUpdate)

variable {sizes} {m m' : MeteredPool} {block : List Uint256}

theorem not_childLink_empty (p c : Uint256) : ¬ empty.ChildLink p c := by
  simp [ChildLink, getMemPoolChildren, links, empty]

theorem not_parentLink_empty (p c : Uint256) : ¬ empty.ParentLink p c := by
  simp [ParentLink, getMemPoolParents, links, empty]

theorem consistent_empty : empty.Consistent where
  keyed := by simp [empty]
  hasLinks := fun _ => rfl
  nodup := fun _ => ⟨nodup_nil, nodup_nil⟩
  both := fun p c => iff_of_false (not_parentLink_empty p c) (not_childLink_empty p c)
  acyclic := fun x hcycle => by
    obtain ⟨c, hlink, -⟩ := TransGen.head'_iff.mp hcycle
    exact not_childLink_empty x c hlink
  nextTx_sound := by simp [empty]
  nextTx_complete := by simp [empty]
  deltas := by simp [empty]
  totalSize := rfl

theorem sound_empty : Sound sizes [] ⟨empty, 0⟩ := by
  refine ⟨rfl, consistent_empty, fun h => absurd h (by simp [empty]),
    fromBlock_nil, linkedBut_nil.mpr fun p c => ?_⟩
  refine iff_of_false (not_childLink_empty p c) fun hspends => absurd hspends.1 ?_
  simp [empty, existsTx]

theorem Sound.addUnchecked_eq (h : Sound sizes block m) {entry : CTxMemPoolEntry}
    {setAncestors : SetEntries} (haccepted : m.Accepted entry setAncestors) :
    m.addUnchecked sizes entry setAncestors
      = sizes.meter (m.toCTxMemPool.addUnchecked entry.tx.hash entry setAncestors) := by
  rw [h.eq_meter]
  exact addUnchecked_meter haccepted.addable.fresh setAncestors

theorem Resurrecting.sound (h : Sound sizes [] m) {vHashUpdate : List Uint256}
    (hback : Resurrecting sizes m m' vHashUpdate) : Sound sizes vHashUpdate m' := by
  induction hback with
  | start => exact h
  | rejected _ tx ih => exact (ih.remove tx).sound
  | accepted _ haccepted hnew hparents hordered ih =>
    rw [ih.addUnchecked_eq haccepted]
    exact ⟨rfl, ih.pool.addFromBlock haccepted hnew hparents hordered⟩

/-- **Every reachable pool is sound.** -/
theorem Reachable.sound (h : Reachable sizes m) : Sound sizes [] m := by
  induction h with
  | empty => exact sound_empty
  | addUnchecked _ haccepted hchildless ih =>
    rw [ih.addUnchecked_eq haccepted]
    exact ⟨rfl, ih.pool.addChildless haccepted hchildless⟩
  | removeForBlock _ hblock ih => exact (ih.removeForBlock hblock).sound
  | remove _ tx ih => exact (ih.remove tx).sound
  | expire _ time ih => exact (ih.expire time).sound
  | trimToSize _ hsizes _ ih =>
    subst hsizes
    exact (Sound.trimRounds _ ih).sound
  | prioritiseTransaction _ hash nFeeDelta ih =>
    rw [ih.eq_meter, prioritiseTransaction_meter ih.pool.consistent]
    exact ⟨rfl, ih.pool.prioritiseTransaction hash nFeeDelta⟩
  | disconnectTip _ hback ih =>
    have hsound := hback.sound ih
    obtain ⟨hconsistent, hexact, hlinked⟩ := updateTransactionsFromBlock_spec
      hsound.pool.consistent hsound.pool.exact hsound.pool.fromBlock hsound.pool.linked
    rw [hsound.eq_meter, updateTransactionsFromBlock_meter]
    exact ⟨rfl, hconsistent, hexact, fromBlock_nil, linkedBut_nil.mpr hlinked⟩

end MeteredPool

/-! ## The graph invariant -/

/-- What descends from an entry, and itself. -/
noncomputable def CTxMemPool.descendantClosure (pool : CTxMemPool) (h : Uint256) : Finset Uint256 :=
  open Classical in pool.mapTx.keys.toFinset.filter fun d => ReflTransGen pool.Spends h d

/-- The links are the relation of spending an output, `mapNextTx` holds the inputs of the entries, the
    totals of the pool are sums over the entries, and those of an entry that is not dirty are sums over
    what descends from it. The sums are taken in the types of the fields. -/
structure GraphInvariant (sizes : NodeSizes) (m : MeteredPool) : Prop where
  parents : ∀ p c, p ∈ m.getMemPoolParents c ↔ m.Spends p c
  children : ∀ p c, c ∈ m.getMemPoolChildren p ↔ m.Spends p c
  nextTx_sound : ∀ outpoint next, m.mapNextTx.lookup outpoint = some next →
    (∃ entry, m.mapTx.lookup next.ptx.hash = some entry ∧ entry.tx = next.ptx)
      ∧ next.ptx.vin[next.n]?.map CTxIn.prevout = some outpoint
  nextTx_complete : ∀ h entry, m.mapTx.lookup h = some entry → ∀ txin ∈ entry.tx.vin,
    ∃ next, m.mapNextTx.lookup txin.prevout = some next ∧ next.ptx = entry.tx
  totalTxSize : m.totalTxSize = UInt64.ofNat (m.mapTx.entries.map fun e => e.2.getTxSize).sum
  cachedInnerUsage : m.cachedInnerUsage = sizes.innerUsage m.toCTxMemPool
  nCountWithDescendants : ∀ h entry, m.mapTx.lookup h = some entry → entry.isDirty = false →
    entry.nCountWithDescendants = UInt64.ofNat (m.descendantClosure h).card
  nSizeWithDescendants : ∀ h entry, m.mapTx.lookup h = some entry → entry.isDirty = false →
    entry.nSizeWithDescendants
      = UInt64.ofNat (∑ d ∈ m.descendantClosure h, (m.deref d).getTxSize)
  nModFeesWithDescendants : ∀ h entry, m.mapTx.lookup h = some entry → entry.isDirty = false →
    entry.nModFeesWithDescendants
      = Int64.ofInt (∑ d ∈ m.descendantClosure h, (m.deref d).getModifiedFee.toInt)

section Sums

variable {α : Type} (s : Finset α)

theorem sum_bitVec_ofNat (f : α → ℕ) :
    ∑ d ∈ s, BitVec.ofNat 64 (f d) = BitVec.ofNat 64 (∑ d ∈ s, f d) := by
  induction s using Finset.cons_induction with
  | empty => rfl
  | cons a rest hfresh ih => rw [Finset.sum_cons, Finset.sum_cons, ih, BitVec.ofNat_add]

theorem sum_toBitVec (f : α → Int64) :
    ∑ d ∈ s, (f d).toBitVec = BitVec.ofInt 64 (∑ d ∈ s, (f d).toInt) := by
  induction s using Finset.cons_induction with
  | empty => rfl
  | cons a rest hfresh ih =>
    rw [Finset.sum_cons, Finset.sum_cons, ih, BitVec.ofInt_add]
    exact congrArg (· + _) (BitVec.ofInt_toInt).symm

end Sums

theorem CTxMemPool.totals_eq_sum {pool : CTxMemPool} {entry : CTxMemPoolEntry} {s : Finset Uint256}
    (h : entry.totals = ∑ d ∈ s, pool.weight d) :
    entry.nCountWithDescendants = UInt64.ofNat s.card
      ∧ entry.nSizeWithDescendants = UInt64.ofNat (∑ d ∈ s, (pool.deref d).getTxSize)
      ∧ entry.nModFeesWithDescendants
        = Int64.ofInt (∑ d ∈ s, (pool.deref d).getModifiedFee.toInt) := by
  have hcount := congrArg Prod.fst h
  have hsize := congrArg (fun t : Tally => t.2.1) h
  have hfees := congrArg (fun t : Tally => t.2.2) h
  simp only [Prod.fst_sum, Prod.snd_sum] at hcount hsize hfees
  refine ⟨UInt64.toBitVec_inj.mp (hcount.trans ?_), UInt64.toBitVec_inj.mp (hsize.trans ?_),
    Int64.toBitVec_inj.mp (hfees.trans ?_)⟩
  · rw [UInt64.toBitVec_ofNat', Finset.card_eq_sum_ones, ← sum_bitVec_ofNat]
    rfl
  · rw [UInt64.toBitVec_ofNat', ← sum_bitVec_ofNat]
    rfl
  · exact sum_toBitVec s fun d => (pool.deref d).getModifiedFee

/-- **The graph invariant holds in every reachable pool.** -/
theorem graphInvariant_of_reachable {sizes : NodeSizes} {m : MeteredPool}
    (h : MeteredPool.Reachable sizes m) : GraphInvariant sizes m := by
  obtain ⟨hcounted, hconsistent, hexact, -, hlinked⟩ := h.sound
  have hspends := CTxMemPool.linkedBut_nil.mp hlinked
  have hclosure : ∀ x, m.descendantClosure x = m.descendants x := by
    intro x
    have hrel : m.ChildLink = m.Spends := funext fun p => funext fun c => propext (hspends p c)
    rw [CTxMemPool.descendantClosure, CTxMemPool.descendants, hrel]
  have hsums := fun x (entry : CTxMemPoolEntry) hentry hclean => CTxMemPool.totals_eq_sum
    (show entry.totals = ∑ d ∈ m.descendantClosure x, m.weight d by
      rw [hclosure]
      exact hexact hentry hclean)
  constructor
  case parents => exact fun p c => (hconsistent.both p c).trans (hspends p c)
  case children => exact hspends
  case nextTx_sound =>
    intro outpoint next hnext
    obtain ⟨hentry, hinput⟩ := (Bool.and_eq_true _ _).mp (hconsistent.nextTx_sound hnext)
    obtain ⟨entry, hlookup, htx⟩ := (Option.any_eq_true _ _).mp hentry
    exact ⟨⟨entry, hlookup, of_decide_eq_true htx⟩, of_decide_eq_true hinput⟩
  case nextTx_complete => exact fun x entry hentry => hconsistent.nextTx_complete hentry
  case totalTxSize =>
    rw [Maps.sum_entries fun _ (entry : CTxMemPoolEntry) => entry.getTxSize]
    exact hconsistent.totalSize
  case cachedInnerUsage => exact hcounted
  case nCountWithDescendants => exact fun x entry hentry hclean => (hsums x entry hentry hclean).1
  case nSizeWithDescendants => exact fun x entry hentry hclean => (hsums x entry hentry hclean).2.1
  case nModFeesWithDescendants =>
    exact fun x entry hentry hclean => (hsums x entry hentry hclean).2.2

/-- **A reachable pool could be mined.** No outpoint is spent by two of its transactions, and none of
    them spends, over any number of steps, from itself. -/
theorem minable_of_reachable {sizes : NodeSizes} {m : MeteredPool}
    (h : MeteredPool.Reachable sizes m) :
    (∀ x y entry other, m.mapTx.lookup x = some entry → m.mapTx.lookup y = some other →
      ∀ txin ∈ entry.tx.vin, ∀ txin' ∈ other.tx.vin, txin.prevout = txin'.prevout → x = y)
      ∧ ∀ x, ¬ TransGen m.Spends x x := by
  obtain ⟨-, hconsistent, -, -, hlinked⟩ := h.sound
  constructor
  · intro x y entry other hentry hother txin hin txin' hin' heq
    obtain ⟨next, hnext, htx⟩ := hconsistent.nextTx_complete hentry txin hin
    obtain ⟨next', hnext', htx'⟩ := hconsistent.nextTx_complete hother txin' hin'
    -- `mapNextTx` has one entry for the outpoint
    obtain rfl : next = next' := Option.some.inj (hnext.symm.trans (heq ▸ hnext'))
    rw [← hconsistent.keyed hentry, ← hconsistent.keyed hother, ← htx, ← htx']
  · intro x hcircle
    exact hconsistent.acyclic x (TransGen.mono (fun p c =>
      (CTxMemPool.linkedBut_nil.mp hlinked p c).mpr) x x hcircle)

/-! ## A run -/

/-- A new entry for a sample transaction. -/
def sampleEntry (tx : CTransaction) (nFee : CAmount) : CTxMemPoolEntry :=
  .create tx nFee 1600000000 3 true false 0

/-- The pool with the parent, and a delta for a transaction that is not there yet. -/
def parentRun : MeteredPool :=
  MeteredPool.prioritiseTransaction
    (MeteredPool.addUnchecked sampleSizes ⟨CTxMemPool.empty, 0⟩ (sampleEntry parentTx 20000) []) 20 5000

/-- The pool with the parent and its child. -/
def childRun : MeteredPool := parentRun.addUnchecked sampleSizes (sampleEntry replacedTx 1000) [10]

/-- The pool after a block with the parent. -/
def blockRun : MeteredPool := (childRun.removeForBlock sampleSizes [parentTx]).1

/-- The parent is back. -/
def resurrectedRun : MeteredPool :=
  (blockRun.addUnchecked sampleSizes (sampleEntry parentTx 20000) []).updateTransactionsFromBlock
    sampleSizes [10]

theorem accepted_sample {pool : CTxMemPool} (nFee : CAmount) {setAncestors : SetEntries}
    (hfresh : pool.existsTx tx.hash = false)
    (hunspent : tx.vin.all (fun txin => (pool.mapNextTx.lookup txin.prevout).isNone && decide
      (txin.prevout.hash ≠ tx.hash)))
    (hancestors : (pool.calculateMemPoolAncestors (sampleEntry tx nFee) CTxMemPool.noLimits
      true).toOption = some setAncestors) : pool.Accepted (sampleEntry tx nFee) setAncestors where
  created := ⟨_, _, _, _, _, _, rfl⟩
  addable :=
    { fresh := hfresh
      unspent := fun txin hin => by
        have hnone := ((Bool.and_eq_true _ _).mp (all_eq_true.mp hunspent txin hin)).1
        exact Option.isNone_iff_eq_none.mp hnone
      notSelf := fun txin hin =>
        of_decide_eq_true ((Bool.and_eq_true _ _).mp (all_eq_true.mp hunspent txin hin)).2 }
  ancestors := ⟨_, toOption_eq_some_iff.mp hancestors⟩

theorem childless_sample {pool : CTxMemPool}
    (h : Maps.forAll pool.mapTx (fun _ known => known.tx.vin.all fun txin => decide
      (txin.prevout.hash ≠ tx.hash))) : pool.Childless tx := by
  intro x known hknown txin hin
  exact of_decide_eq_true (all_eq_true.mp ((Maps.forAll_iff _ _).mp h x known hknown) txin hin)

theorem reachable_childRun : MeteredPool.Reachable sampleSizes childRun := by
  have hparent : MeteredPool.Reachable sampleSizes parentRun :=
    (MeteredPool.Reachable.empty.addUnchecked
      (accepted_sample 20000 (by decide +kernel) (by decide +kernel) (by decide +kernel))
      (childless_sample (by decide +kernel))).prioritiseTransaction 20 5000
  exact hparent.addUnchecked
    (accepted_sample 1000 (by decide +kernel) (by decide +kernel) (by decide +kernel))
    (childless_sample (by decide +kernel))

theorem minable_childRun :
    childRun.getMemPoolChildren 10 = [20] ∧ ¬ TransGen childRun.Spends 10 10 :=
  ⟨by decide +kernel, (minable_of_reachable reachable_childRun).2 10⟩

/-- **The parent leaves with a block and comes back**, and the child that stayed in the pool is counted
    among its descendants again. -/
theorem graphInvariant_resurrectedRun :
    (MeteredPool.Reachable sampleSizes resurrectedRun
      ∧ blockRun.getMemPoolParents 20 = [] ∧ resurrectedRun.getMemPoolParents 20 = [10]
      ∧ (resurrectedRun.deref 10).nCountWithDescendants = 2
      ∧ (resurrectedRun.deref 10).nModFeesWithDescendants = 26000)
    ∧ GraphInvariant sampleSizes resurrectedRun := by
  have hblock : childRun.Connectable [parentTx] := by
    refine ⟨fun tx htx entry hentry => ?_, fun before tx after hsplit txin hin hexists => ?_⟩
    · rw [mem_singleton.mp htx] at hentry ⊢
      have hknown : (childRun.mapTx.lookup 10).map CTxMemPoolEntry.tx = some parentTx := by
        decide +kernel
      rw [show childRun.mapTx.lookup 10 = some entry from hentry] at hknown
      exact Option.some.inj hknown
    · have htx : tx ∈ [parentTx] := by simp [hsplit]
      rw [mem_singleton.mp htx] at hin
      have hchain : parentTx.vin.all (fun txin => !childRun.existsTx txin.prevout.hash) := by
        decide +kernel
      exact absurd hexists (by simpa using all_eq_true.mp hchain txin hin)
  have hback : MeteredPool.Resurrecting sampleSizes blockRun
      (blockRun.addUnchecked sampleSizes (sampleEntry parentTx 20000) []) [10] := by
    refine MeteredPool.Resurrecting.accepted .start
      (accepted_sample 20000 (by decide +kernel) (by decide +kernel) (by decide +kernel)) (by simp)
      (fun p hp => ?_) (by simp)
    obtain ⟨hexists, txin, hin, rfl⟩ := hp
    have hchain : parentTx.vin.all (fun txin => !blockRun.existsTx txin.prevout.hash) := by
      decide +kernel
    exact absurd hexists (by simpa using all_eq_true.mp hchain txin hin)
  have hreach : MeteredPool.Reachable sampleSizes resurrectedRun :=
    (reachable_childRun.removeForBlock hblock).disconnectTip hback
  exact ⟨⟨hreach, by decide +kernel, by decide +kernel, by decide +kernel, by decide +kernel⟩,
    graphInvariant_of_reachable hreach⟩

end Binarium
