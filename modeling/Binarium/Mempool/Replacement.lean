import Binarium.Mempool.Accept
import Binarium.Validation.RoundTrip

set_option autoImplicit false

/-! # Replacement of transactions in the memory pool

A transaction that spends an output which the pool spends already is accepted only if it replaces the
transactions that spend it. Then these direct conflicts leave the pool with all their descendants
(`CTxMemPool.evicted`), and the new transaction has to make up for it (`SafeReplacement`): it pays
their fees and the fee for its own relay, its rate is above the rate of each direct conflict, it does
not depend on what leaves, and it depends on no transaction of the pool that no direct conflict
depends on.

The last point is about transactions, not about outputs: the code compares the hashes of the
transactions that are spent. Amounts are signed 64-bit numbers that `PrioritiseTransaction` can move
anywhere in their range, hence the conditions on sums and rates. -/

namespace Binarium

open Closure Checks CTxMemPool CCoinsViewCache List CFeeRate

/-! ## The statement -/

/-- An entry that spends an output which the transaction spends. -/
def CTxMemPool.DirectConflict (pool : CTxMemPool) (tx : CTransaction) (c : Uint256) : Prop :=
  ∃ txin ∈ tx.vin, pool.SpentBy txin.prevout c

open Classical in
/-- The direct conflicts of a transaction and all their descendants. -/
noncomputable def CTxMemPool.evicted (pool : CTxMemPool) (tx : CTransaction) : Finset Uint256 :=
  pool.mapTx.keys.toFinset.filter fun h =>
    ∃ c, pool.DirectConflict tx c ∧ Relation.ReflTransGen pool.Spends c h

theorem CTxMemPool.mem_evicted {pool : CTxMemPool} {tx : CTransaction} {h : Uint256} :
    h ∈ pool.evicted tx ↔ pool.existsTx h
      ∧ ∃ c, pool.DirectConflict tx c ∧ Relation.ReflTransGen pool.Spends c h := by
  classical
  rw [evicted, Finset.mem_filter, mem_keys_iff]

/-- The modified fee of an entry. -/
def CTxMemPool.fee (pool : CTxMemPool) (h : Uint256) : CAmount := (pool.deref h).getModifiedFee

/-- The value of the coin that an input spends. -/
def inputValue (ctx : AcceptContext) (pool : CTxMemPool) (txin : CTxIn) : CAmount :=
  ((poolCoin ctx pool txin.prevout).getD coinEmpty).out.nValue

/-- The modified fee of a transaction that is not in the pool: what its inputs are worth beyond its
    outputs, with the delta from `PrioritiseTransaction`. -/
def newFee (ctx : AcceptContext) (pool : CTxMemPool) (tx : CTransaction) : CAmount :=
  pool.applyDeltas tx.hash
    (tx.vin.foldl (fun nResult txin => nResult + inputValue ctx pool txin) 0
      - tx.getValueOut.getD 0)

/-- What a transaction that replaces others owes. -/
structure SafeReplacement (ctx : AcceptContext) (pool : CTxMemPool) (tx : CTransaction) : Prop where
  paysForEvicted : ∑ h ∈ pool.evicted tx, (pool.fee h).toInt < 2 ^ 63 →
    ∑ h ∈ pool.evicted tx, (pool.fee h).toInt + (ctx.minRelayTxFee.getFee tx.serializeSize).toInt
      ≤ (newFee ctx pool tx).toInt
  raisesFeeRate : ∀ c, pool.DirectConflict tx c →
    (CFeeRate.ofPaid (pool.fee c) (pool.deref c).getTxSize).nSatoshisPerK
      < (CFeeRate.ofPaid (newFee ctx pool tx) tx.serializeSize).nSatoshisPerK
  raisesRate : 0 ≤ (newFee ctx pool tx).toInt → ∀ c, pool.DirectConflict tx c →
    (pool.fee c).toInt * 1000 < 2 ^ 63 → (pool.deref c).getTxSize < 2 ^ 64 →
      (pool.fee c).toInt * tx.serializeSize < (newFee ctx pool tx).toInt * (pool.deref c).getTxSize
  spendsNoEvicted : ∀ txin ∈ tx.vin, txin.prevout.hash ∉ pool.evicted tx
  addsNoUnconfirmed : ∀ txin ∈ tx.vin, pool.existsTx txin.prevout.hash = true →
    ∃ c, pool.DirectConflict tx c ∧ pool.Spends txin.prevout.hash c

/-! ## The fee of the new transaction -/

section Coins

variable {ctx : AcceptContext} {pool : CTxMemPool}

/-- A view that has read nothing but the coins of the pool and the chain. -/
def ReadFrom (ctx : AcceptContext) (pool : CTxMemPool) (view : CCoinsViewCache) : Prop :=
  ∀ outpoint entry, view.cacheCoins.lookup outpoint = some entry →
    poolCoin ctx pool outpoint = some entry.coin

variable {view : CCoinsViewCache}

theorem haveCoinInPool_spec (hview : ReadFrom ctx pool view) (outpoint : COutPoint) :
    ReadFrom ctx pool (haveCoinInPool ctx pool view outpoint).2
      ∧ (∀ o, (view.cacheCoins.lookup o).isSome →
          ((haveCoinInPool ctx pool view outpoint).2.cacheCoins.lookup o).isSome)
      ∧ ((haveCoinInPool ctx pool view outpoint).1 →
          ((haveCoinInPool ctx pool view outpoint).2.cacheCoins.lookup outpoint).isSome) := by
  unfold haveCoinInPool fetchFrom
  cases hcached : view.cacheCoins.lookup outpoint with
  | some entry => exact ⟨hview, fun _ h => h, fun _ => by simp [hcached]⟩
  | none =>
    cases hcoin : poolCoin ctx pool outpoint with
    | none => exact ⟨hview, fun _ h => h, by simp⟩
    | some coin => grind [ReadFrom]

theorem readFrom_checkOutputsUnknown {tx : CTransaction} {outs : List CTxOut} :
    ∀ {view view' : CCoinsViewCache} {out : ℕ}, ReadFrom ctx pool view →
    checkOutputsUnknown ctx pool tx view out outs = .ok view' → ReadFrom ctx pool view' := by
  induction outs with
  | nil =>
    intro view view' out hview h
    cases h
    exact hview
  | cons txout rest ih =>
    intro view view' out hview h
    obtain ⟨-, hrest⟩ := require_bind h
    exact ih (haveCoinInPool_spec hview _).1 hrest

theorem fetchInputs_spec {vin : List CTxIn} : ∀ {view view' : CCoinsViewCache},
    ReadFrom ctx pool view → fetchInputs ctx pool view vin = .ok view' →
    ReadFrom ctx pool view'
      ∧ (∀ o, (view.cacheCoins.lookup o).isSome → (view'.cacheCoins.lookup o).isSome)
      ∧ ∀ txin ∈ vin, (view'.cacheCoins.lookup txin.prevout).isSome := by
  induction vin with
  | nil =>
    intro view view' hview h
    cases h
    exact ⟨hview, fun _ h => h, by simp⟩
  | cons txin rest ih =>
    intro view view' hview h
    obtain ⟨hhave, hrest⟩ := require_bind h
    obtain ⟨hread, hkept, hgot⟩ := haveCoinInPool_spec hview txin.prevout
    obtain ⟨hread', hkept', hall⟩ := ih hread hrest
    refine ⟨hread', fun o ho => hkept' o (hkept o ho), ?_⟩
    exact forall_mem_cons.mpr ⟨hkept' _ (hgot hhave), hall⟩

theorem sumValueIn_of_readFrom (hview : ReadFrom ctx pool view) {vin : List CTxIn} :
    ∀ {nResult : CAmount}, (∀ txin ∈ vin, (view.cacheCoins.lookup txin.prevout).isSome) →
    (view.sumValueIn nResult vin).1
      = vin.foldl (fun nResult txin => nResult + inputValue ctx pool txin) nResult := by
  induction vin with
  | nil => exact fun _ => rfl
  | cons txin rest ih =>
    intro nResult hall
    rw [forall_mem_cons] at hall
    obtain ⟨entry, hentry⟩ := Option.isSome_iff_exists.mp hall.1
    have haccess : view.accessCoin txin.prevout = (entry.coin, view) := by
      simp [accessCoin, fetchCoin, fetchFrom, hentry]
    have hvalue : inputValue ctx pool txin = entry.coin.out.nValue := by
      simp [inputValue, hview _ _ hentry]
    rw [foldl_cons, sumValueIn, haccess, hvalue]
    exact ih hall.2

theorem inputView_spec {tx : CTransaction} (h : inputView ctx pool tx = .ok view) :
    ReadFrom ctx pool view
      ∧ ∀ txin ∈ tx.vin, (view.cacheCoins.lookup txin.prevout).isSome := by
  obtain ⟨first, hfirst, hrest⟩ := bind_eq_ok_iff.mp h
  obtain ⟨second, hsecond, hlast⟩ := bind_eq_ok_iff.mp hrest
  have hempty : ReadFrom ctx pool (.over dummyView) := by
    intro outpoint entry hlookup
    simp [CCoinsViewCache.over] at hlookup
  have hread := readFrom_checkOutputsUnknown hempty (mapError_eq_ok_iff.mp hfirst)
  obtain ⟨hread', -, hall⟩ := fetchInputs_spec hread hsecond
  cases hlast
  exact ⟨hread', hall⟩

/-- **The fee that the worker computes is the fee of the transaction.** -/
theorem candidate_spec {tx : CTransaction} {c : Candidate} (hcoinbase : tx.isCoinBase = false)
    (hview : inputView ctx pool tx = .ok view) (h : candidate ctx pool tx view = .ok c) :
    c.entry.tx = tx ∧ c.nModifiedFees = newFee ctx pool tx := by
  obtain ⟨hread, hall⟩ := inputView_spec hview
  obtain ⟨-, h⟩ := require_bind h
  obtain ⟨-, h⟩ := require_bind h
  obtain ⟨p2sh, -, h⟩ := bind_eq_ok_iff.mp h
  obtain ⟨nValueOut, hout, h⟩ := bind_eq_ok_iff.mp h
  have hvalue : tx.getValueOut = some nValueOut := by grind [valueOutOrThrow]
  cases h
  refine ⟨rfl, ?_⟩
  rw [newFee, hvalue, getValueIn, hcoinbase]
  simp only [Bool.false_eq_true, if_false, Option.getD_some]
  rw [sumValueIn_of_readFrom hread hall]

end Coins

/-! ## The conflicts -/

variable {setConflicts : SetEntries}

section Conflicts

variable {ctx : AcceptContext} {pool : CTxMemPool}

theorem DirectConflict.exists_entry {tx : CTransaction} {c : Uint256}
    (h : pool.DirectConflict tx c) : pool.existsTx c := by
  obtain ⟨txin, -, entry, hentry, -⟩ := h
  exact existsTx_iff.mpr ⟨entry, hentry⟩

theorem mem_findConflicts (hpool : pool.Linked) {hash : Uint256} {vin : List CTxIn} :
    ∀ {setConflicts found : SetEntries},
    findConflicts ctx pool hash vin setConflicts = .ok found →
    ∀ c, c ∈ found ↔ c ∈ setConflicts ∨ ∃ txin ∈ vin, pool.SpentBy txin.prevout c := by
  induction vin with
  | nil =>
    intro setConflicts found h c
    cases h
    simp
  | cons txin rest ih =>
    intro setConflicts found h c
    have hspent := hpool.spentBy txin.prevout c
    rw [findConflicts] at h
    split at h
    · next hnone =>
        simp [ih h, hspent, hnone]
    · next spender hnext =>
        split_ifs at h
        · grind
        · obtain ⟨_, -, hrest⟩ := bind_eq_ok_iff.mp h
          rw [ih hrest, mem_insertSet, exists_mem_cons_iff, hspent]
          grind

theorem mem_directConflicts (hpool : pool.Linked) {tx : CTransaction}
    (h : findConflicts ctx pool tx.hash tx.vin [] = .ok setConflicts) (c : Uint256) :
    c ∈ setConflicts ↔ pool.DirectConflict tx c := by
  simp [mem_findConflicts hpool h c, CTxMemPool.DirectConflict]

/-- The loop over the direct conflicts: it takes each of them, keeps what they spend from, and the
    new rate is above each of their rates. -/
theorem checkDirectConflicts_spec {newFeeRate : CFeeRate} {conflicts : SetEntries} :
    ∀ {acc found : Conflicting}, (∀ c ∈ conflicts, pool.existsTx c) →
    checkDirectConflicts pool newFeeRate conflicts acc = .ok found →
    (∀ h, h ∈ found.setIterConflicting ↔ h ∈ acc.setIterConflicting ∨ h ∈ conflicts)
      ∧ (∀ p ∈ found.setConflictsParents, p ∈ acc.setConflictsParents ∨
          ∃ c ∈ conflicts, ∃ txin ∈ (pool.deref c).tx.vin, txin.prevout.hash = p)
      ∧ ∀ c ∈ conflicts, (ofPaid (pool.fee c) (pool.deref c).getTxSize).nSatoshisPerK
          < newFeeRate.nSatoshisPerK := by
  induction conflicts with
  | nil =>
    intro acc found _ h
    cases h
    exact ⟨by simp, fun p hp => .inl hp, by simp⟩
  | cons c rest ih =>
    intro acc found hexists h
    rw [forall_mem_cons] at hexists
    obtain ⟨mi, hmi⟩ := existsTx_iff.mp hexists.1
    have hderef := deref_of_lookup hmi
    simp only [checkDirectConflicts, hmi] at h
    obtain ⟨-, h⟩ := require_bind h
    obtain ⟨hrate, h⟩ := require_bind h
    obtain ⟨hiter, hparents, hrates⟩ := ih hexists.2 h
    refine ⟨fun x => ?_, fun p hp => ?_, forall_mem_cons.mpr ⟨?_, hrates⟩⟩
    · rw [hiter, mem_insertSet, mem_cons, or_assoc]
      exact or_left_comm
    · rcases hparents p hp with hp | ⟨c', hc', hspends⟩
      · rcases (mem_foldl_insertSet hashOrder fun txin : CTxIn => txin.prevout.hash).mp hp
          with hp | hp
        · exact .inl hp
        · exact .inr ⟨c, by simp, by rw [hderef]; exact hp⟩
      · exact .inr ⟨c', mem_cons_of_mem _ hc', hspends⟩
    · rw [CTxMemPool.fee, hderef]
      exact Int64.not_le.mp (by simpa using hrate)

theorem evicted_eq (hpool : pool.Linked) {tx : CTransaction} {conflicts : SetEntries}
    (hconflicts : ∀ c, c ∈ conflicts ↔ pool.DirectConflict tx c) {all : SetEntries}
    (hall : conflicts.foldl (fun found it => pool.calculateDescendants it found) [] = all) :
    all.Nodup ∧ pool.evicted tx = all.toFinset := by
  have hroots : ∀ root ∈ conflicts ++ [], pool.existsTx root := by
    intro root hroot
    rw [append_nil] at hroot
    exact DirectConflict.exists_entry ((hconflicts root).mp hroot)
  have hwalk := foldl_calculateDescendants_walking hpool.childrenExist hroots (Walking.nil _)
  rw [hall, append_nil] at hwalk
  refine ⟨hwalk.nodupVisited, ?_⟩
  ext h
  rw [mem_toFinset, hwalk.mem_iff, reached_children_iff hpool, mem_evicted]
  · simp only [mem_reverse, hconflicts]
    refine ⟨fun ⟨_, hreach⟩ => hreach, fun ⟨c, hconflict, hreach⟩ => ⟨?_, c, hconflict, hreach⟩⟩
    rcases hreach.cases_tail with rfl | ⟨_, -, hlast⟩
    · exact DirectConflict.exists_entry hconflict
    · exact hlast.exists_child
  · intro root hroot
    exact hroots root (by simpa using hroot)

end Conflicts

/-! ## What acceptance has checked -/

section Accepted

variable {ctx : AcceptContext} {pool : CTxMemPool} {tx : CTransaction} {flags : AcceptFlags}

theorem acceptChecks_ok {checked : Checked} (h : acceptChecks ctx pool tx flags = .ok checked) :
    checkLooseTransaction ctx pool tx = .ok () ∧
      ∃ setConflicts c, findConflicts ctx pool tx.hash tx.vin [] = .ok setConflicts
        ∧ inputView ctx pool tx = .ok checked.view
        ∧ candidate ctx pool tx checked.view = .ok c
        ∧ checkAncestors ctx pool setConflicts c.entry = .ok checked.setAncestors
        ∧ checkReplacement ctx pool setConflicts c = .ok checked.allConflicting := by
  obtain ⟨_, hloose, h⟩ := bind_eq_ok_iff.mp h
  obtain ⟨setConflicts, hconflicts, h⟩ := bind_eq_ok_iff.mp h
  obtain ⟨view, hview, h⟩ := bind_eq_ok_iff.mp h
  obtain ⟨c, hcandidate, h⟩ := bind_eq_ok_iff.mp h
  obtain ⟨_, -, h⟩ := bind_eq_ok_iff.mp h
  obtain ⟨setAncestors, hancestors, h⟩ := bind_eq_ok_iff.mp h
  obtain ⟨allConflicting, hreplacement, h⟩ := bind_eq_ok_iff.mp h
  cases h
  rw [mapError_eq_ok_iff] at hloose hconflicts hcandidate hancestors hreplacement
  exact ⟨hloose, setConflicts, c, hconflicts, hview, hcandidate, hancestors, hreplacement⟩

theorem acceptToMemoryPoolWorker_ok (h : (acceptToMemoryPoolWorker ctx pool tx flags).1 = .ok ()) :
    ∃ checked, acceptChecks ctx pool tx flags = .ok checked ∧
      (flags.fDryRun = false → (acceptToMemoryPoolWorker ctx pool tx flags).2 =
        (if flags.fOverrideMempoolLimit then id else ctx.limitMempoolSize)
          ((pool.removeStaged checked.allConflicting).addUnchecked tx.hash checked.entry
            checked.setAncestors)) := by
  unfold acceptToMemoryPoolWorker at h ⊢
  cases hchecked : acceptChecks ctx pool tx flags with
  | error e => simp [hchecked] at h
  | ok checked =>
    cases hinputs : checkInputsTwice ctx tx checked.view <;> grind

theorem checkLooseTransaction_ok (h : checkLooseTransaction ctx pool tx = .ok ()) :
    tx.isCoinBase = false ∧ tx.serializeSize ≤ MAX_LEGACY_BLOCK_SIZE := by
  obtain ⟨_, htx, h⟩ := bind_eq_ok_iff.mp h
  obtain ⟨_, -, h⟩ := bind_eq_ok_iff.mp h
  obtain ⟨hcoinbase, -⟩ := require_bind h
  obtain ⟨-, htx⟩ := require_bind htx
  obtain ⟨-, htx⟩ := require_bind htx
  obtain ⟨hsize, -⟩ := require_bind htx
  exact ⟨by simpa using hcoinbase, of_decide_eq_true hsize⟩

/-- No conflict is an ancestor, so nothing that descends from a conflict is a parent. -/
theorem parent_not_evicted (hpool : pool.Linked) {setAncestors : SetEntries}
    {entry : CTxMemPoolEntry} (hconflicts : ∀ c, c ∈ setConflicts ↔ pool.DirectConflict entry.tx c)
    (h : checkAncestors ctx pool setConflicts entry = .ok setAncestors) :
    ∀ txin ∈ entry.tx.vin, txin.prevout.hash ∉ pool.evicted entry.tx := by
  intro txin hin hevicted
  obtain ⟨hexists, c, hc, hreach⟩ := mem_evicted.mp hevicted
  obtain ⟨ancestors, hancestors, h⟩ := bind_eq_ok_iff.mp h
  obtain ⟨_, hnone, -⟩ := bind_eq_ok_iff.mp h
  have hmem := mem_calculateMemPoolAncestors hpool (mapError_eq_ok_iff.mp hancestors) hexists
    ⟨txin, hin, rfl⟩ hreach
  have hcheck := require_eq_ok_iff.mp (forM_eq_ok_iff.mp hnone c hmem)
  exact of_decide_eq_true hcheck ((hconflicts c).mpr hc)

theorem checkReplacement_ok (hpool : pool.Linked) {all : SetEntries} {c : Candidate}
    (hconflicts : ∀ x, x ∈ setConflicts ↔ pool.DirectConflict c.entry.tx x)
    (hne : setConflicts.isEmpty = false) (h : checkReplacement ctx pool setConflicts c = .ok all) :
    (all.Nodup ∧ pool.evicted c.entry.tx = all.toFinset)
      ∧ (conflictingFees pool all).toInt + (ctx.minRelayTxFee.getFee c.nSize).toInt
          ≤ c.nModifiedFees.toInt
      ∧ (∀ x, pool.DirectConflict c.entry.tx x →
          (ofPaid (pool.fee x) (pool.deref x).getTxSize).nSatoshisPerK
            < (ofPaid c.nModifiedFees c.nSize).nSatoshisPerK)
      ∧ ∀ txin ∈ c.entry.tx.vin, pool.existsTx txin.prevout.hash →
          ∃ x, pool.DirectConflict c.entry.tx x ∧ pool.Spends txin.prevout.hash x := by
  have hexists : ∀ x ∈ setConflicts, pool.existsTx x :=
    fun x hx => DirectConflict.exists_entry ((hconflicts x).mp hx)
  rw [checkReplacement, hne] at h
  obtain ⟨conflicting, hdirect, h⟩ := bind_eq_ok_iff.mp h
  obtain ⟨-, h⟩ := require_bind h
  obtain ⟨_, hinputs, h⟩ := bind_eq_ok_iff.mp h
  obtain ⟨hmore, h⟩ := require_bind h
  obtain ⟨hrelay, h⟩ := require_bind h
  have hall := Except.ok.inj h
  obtain ⟨hiter, hparents, hrates⟩ := checkDirectConflicts_spec hexists hdirect
  have hevicted := evicted_eq hpool (fun x => by rw [hiter, ← hconflicts]; simp) hall
  rw [hall] at hmore hrelay
  refine ⟨hevicted, ?_, fun x hx => hrates x ((hconflicts x).mpr hx), fun txin hin hpooled => ?_⟩
  · exact Int64.toInt_add_le_of_le_sub (Int64.not_lt.mp (by simpa using hmore))
      (getFee_nonneg _ _) (Int64.not_lt.mp (by simpa using hrelay))
  · have hcheck := require_eq_ok_iff.mp (forM_eq_ok_iff.mp hinputs txin hin)
    have hparent : txin.prevout.hash ∈ conflicting.setConflictsParents := by
      simpa [hpooled] using hcheck
    rcases hparents _ hparent with habsurd | ⟨x, hx, txin', hin', hsame⟩
    · simp at habsurd
    · obtain ⟨entry, hentry⟩ := existsTx_iff.mp (hexists x hx)
      rw [deref_of_lookup hentry] at hin'
      exact ⟨x, (hconflicts x).mp hx, hpooled, entry, hentry, txin', hin', hsame⟩

end Accepted

/-- The fees that the code adds up are at least the fees of the evicted entries, unless these
    overflow. -/
theorem le_toInt_conflictingFees {pool : CTxMemPool} {all : SetEntries} (hnodup : all.Nodup)
    (hrange : ∑ h ∈ all.toFinset, (pool.fee h).toInt < 2 ^ 63) :
    ∑ h ∈ all.toFinset, (pool.fee h).toInt ≤ (conflictingFees pool all).toInt := by
  rw [sum_toFinset _ hnodup] at hrange ⊢
  exact Int64.sum_le_toInt_foldl_add pool.fee all hrange

/-- **A transaction that is accepted with conflicts replaces them safely.** What leaves the pool,
    before it is cut to its size, are exactly the direct conflicts and their descendants. -/
theorem acceptToMemoryPoolWorker_replaces {ctx : AcceptContext} {pool : CTxMemPool}
    {tx : CTransaction} {flags : AcceptFlags} (hpool : pool.checkLinks = true)
    (hreplaces : ∃ c, pool.DirectConflict tx c)
    (haccept : (acceptToMemoryPoolWorker ctx pool tx flags).1 = .ok ()) :
    SafeReplacement ctx pool tx ∧
      (flags.fDryRun = false → ∃ replaced : CTxMemPool, (∀ h, replaced.existsTx h = true ↔
          h = tx.hash ∨ (h ∉ pool.evicted tx ∧ pool.existsTx h = true))
        ∧ (acceptToMemoryPoolWorker ctx pool tx flags).2
            = (if flags.fOverrideMempoolLimit then id else ctx.limitMempoolSize) replaced) := by
  have hlinked := linked_of_checkLinks hpool
  obtain ⟨checked, hchecked, hresult⟩ := acceptToMemoryPoolWorker_ok haccept
  obtain ⟨hloose, setConflicts, c, hfound, hview, hcandidate, hancestors, hreplacement⟩ :=
    acceptChecks_ok hchecked
  obtain ⟨hcoinbase, hsize⟩ := checkLooseTransaction_ok hloose
  obtain ⟨rfl, hfee⟩ := candidate_spec hcoinbase hview hcandidate
  have hconflicts := mem_directConflicts hlinked hfound
  have hne : setConflicts.isEmpty = false := by
    obtain ⟨x, hx⟩ := hreplaces
    exact isEmpty_eq_false_iff_exists_mem.mpr ⟨x, (hconflicts x).mpr hx⟩
  obtain ⟨⟨hnodup, hevicted⟩, hpays, hrates, hparents⟩ :=
    checkReplacement_ok hlinked hconflicts hne hreplacement
  rw [hfee] at hpays hrates
  refine ⟨⟨?_, hrates, ?_, parent_not_evicted hlinked hconflicts hancestors, hparents⟩, ?_⟩
  · intro hrange
    rw [hevicted] at hrange ⊢
    exact (add_le_add_left (le_toInt_conflictingFees hnodup hrange) _).trans hpays
  · intro hnonneg x hx hold hbound
    have hlegacy : MAX_LEGACY_BLOCK_SIZE < 2 ^ 64 := by decide
    exact mul_lt_mul_of_lt hnonneg hold (CTransaction.two_le_serializeSize _)
      (CTransaction.two_le_serializeSize _) hbound (lt_of_le_of_lt hsize hlegacy) (hrates x hx)
  · intro hdry
    refine ⟨_, fun h => ?_, hresult hdry⟩
    rw [existsTx_addUnchecked, existsTx_removeStaged, hevicted, mem_toFinset]

/-! ## Samples -/

/-- A transaction with outputs of the given values that may be replaced. -/
def replaceable (hash : Uint256) (prevouts : List COutPoint) (values : List CAmount) :
    CTransaction where
  hash := hash
  nVersion := 1
  vin := prevouts.map fun prevout => ⟨prevout, [], 0⟩
  vout := values.map fun nValue => ⟨nValue, []⟩
  nLockTime := 0

/-- A node with one coin in the chain and the default relay fee, for which every transaction has the
    priority to be free. -/
def replaceContext : AcceptContext where
  node := openContext .regtest 2
  tip := thirdIndex
  fRequireStandard := false
  notStandardReason := fun _ => none
  checkFinalTx := fun _ => true
  hasTxLockRequest := fun _ => false
  isValidLockRequest := fun _ => true
  fEnableReplacement := true
  tipCoin := fun outpoint => if outpoint = ⟨1, 0⟩ then some ⟨⟨100000, []⟩, false, 1⟩ else none
  tipBestBlock := 2
  checkSequenceLocks := fun _ => true
  areInputsStandard := fun _ _ => true
  time := 1600000000
  nBytesPerSigOp := 20
  poolMinFee := ⟨0⟩
  relayPriority := true
  allowFree := fun _ => true
  minRelayTxFee := ⟨1000⟩
  freeLimitReached := false
  limits := ⟨25, 101000, 25, 101000⟩
  limitMempoolSize := id

/-- A transaction from a peer. -/
def fromPeer : AcceptFlags := ⟨true, false, false, false⟩

/-- The pool after some transactions, from a pool that has only fee deltas. -/
def poolOf (deltas : List (Uint256 × CAmount)) (txs : List CTransaction) : CTxMemPool :=
  txs.foldl (fun pool tx => (acceptToMemoryPoolWorker replaceContext pool tx fromPeer).2)
    { CTxMemPool.empty with mapDeltas := deltas.foldl (fun m d => m.insert d.1 d.2) ∅ }

/-- A transaction with two outputs. -/
def parentTx : CTransaction := replaceable 10 [⟨1, 0⟩] [40000, 40000]

/-- The transaction that is replaced; it spends the first output of the parent and pays 1000. -/
def replacedTx : CTransaction := replaceable 20 [⟨10, 0⟩] [39000]

/-- It spends the same output and pays 10000. -/
def higherTx : CTransaction := replaceable 30 [⟨10, 0⟩] [30000]

/-- It spends both outputs of the parent and pays 10000. -/
def siblingTx : CTransaction := replaceable 31 [⟨10, 0⟩, ⟨10, 1⟩] [70000]

/-- The pool with the parent and the transaction that is to be replaced. -/
def parentPool : CTxMemPool := poolOf [] [parentTx, replacedTx]

/-- **A replacement with a higher fee is accepted, and safe.** -/
theorem higherTx_replaces :
    (parentPool.checkLinks = true ∧ parentPool.DirectConflict higherTx 20
      ∧ (acceptToMemoryPoolWorker replaceContext parentPool higherTx fromPeer).1 = .ok ())
    ∧ SafeReplacement replaceContext parentPool higherTx := by
  have hlinks : parentPool.checkLinks := by decide +kernel
  have hfound : findConflicts replaceContext parentPool higherTx.hash higherTx.vin [] = .ok [20] :=
    toOption_eq_some_iff.mp (by decide +kernel)
  have hconflict : parentPool.DirectConflict higherTx 20 :=
    (mem_directConflicts (linked_of_checkLinks hlinks) hfound 20).mp (by simp)
  have haccept : (acceptToMemoryPoolWorker replaceContext parentPool higherTx fromPeer).1 = .ok () :=
    toOption_eq_some_iff.mp (by decide +kernel)
  exact ⟨⟨hlinks, hconflict, haccept⟩,
    (acceptToMemoryPoolWorker_replaces hlinks ⟨20, hconflict⟩ haccept).1⟩

/-- The child of the transaction that is replaced, and its child. -/
def childTx : CTransaction := replaceable 21 [⟨20, 0⟩] [38000]

@[inherit_doc childTx]
def grandchildTx : CTransaction := replaceable 22 [⟨21, 0⟩] [37000]

/-- It spends the first output of the parent and pays 500. -/
def loweredTx : CTransaction := replaceable 32 [⟨10, 0⟩] [39500]

/-- A pool with deltas of `2 ^ 62` for the two descendants and one of `-1500` for the replacement. -/
def prioritisedPool : CTxMemPool :=
  poolOf [(21, 4611686018427387904), (22, 4611686018427387904), (32, -1500)]
    [parentTx, replacedTx, childTx, grandchildTx]

/-- **Outputs and amounts that the checks do not tell apart.** A replacement may spend an unconfirmed
    output that no conflict spends, as long as a conflict spends another output of the same
    transaction. And with fee deltas the sum of the evicted fees overflows to a negative number, and
    the rate of a negative fee is a quotient of unsigned numbers, above the rate of the conflict. -/
theorem replacement_spends_sibling_or_pays_less :
    (parentPool.checkLinks = true
      ∧ (acceptToMemoryPoolWorker replaceContext parentPool siblingTx fromPeer).1 = .ok ()
      ∧ ⟨10, 1⟩ ∈ siblingTx.vin.map CTxIn.prevout ∧ parentPool.existsTx 10 = true
      ∧ ∀ c, parentPool.DirectConflict siblingTx c →
          ⟨10, 1⟩ ∉ (parentPool.deref c).tx.vin.map CTxIn.prevout)
    ∧ (prioritisedPool.checkLinks = true
      ∧ (acceptToMemoryPoolWorker replaceContext prioritisedPool loweredTx fromPeer).1 = .ok ()
      ∧ (newFee replaceContext prioritisedPool loweredTx).toInt
          < ∑ h ∈ prioritisedPool.evicted loweredTx, (prioritisedPool.fee h).toInt
      ∧ prioritisedPool.DirectConflict loweredTx 20
      ∧ (newFee replaceContext prioritisedPool loweredTx).toInt * (prioritisedPool.deref 20).getTxSize
          < (prioritisedPool.fee 20).toInt * loweredTx.serializeSize) := by
  have hlinks : parentPool.checkLinks := by decide +kernel
  have hlinks' : prioritisedPool.checkLinks := by decide +kernel
  have hfound : findConflicts replaceContext parentPool siblingTx.hash siblingTx.vin [] = .ok [20] :=
    toOption_eq_some_iff.mp (by decide +kernel)
  have hfound' : findConflicts replaceContext prioritisedPool loweredTx.hash loweredTx.vin []
      = .ok [20] :=
    toOption_eq_some_iff.mp (by decide +kernel)
  have hconflict := mem_directConflicts (linked_of_checkLinks hlinks) hfound
  have hconflict' := mem_directConflicts (linked_of_checkLinks hlinks') hfound'
  have hall : [20].foldl (fun found it => prioritisedPool.calculateDescendants it found) []
      = [20, 21, 22] := by decide +kernel
  refine ⟨⟨hlinks, toOption_eq_some_iff.mp (by decide +kernel), by decide, by decide +kernel, ?_⟩,
    hlinks', toOption_eq_some_iff.mp (by decide +kernel), ?_, (hconflict' 20).mp (by simp),
    by decide +kernel⟩
  · intro c hc
    rw [mem_singleton.mp ((hconflict c).mpr hc)]
    decide +kernel
  · rw [(evicted_eq (linked_of_checkLinks hlinks') hconflict' hall).2]
    decide +kernel

end Binarium
