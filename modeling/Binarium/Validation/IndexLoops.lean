import Binarium.Validation.Indexes

set_option autoImplicit false

/-! # What the loops collect for the indexes

The batches of `ConnectBlock` and `DisconnectBlock` depend only on the transactions and the coins they
spend, and these coins are the undo data. So both loops are brought to batches over transactions with
their coins (`connectBatches`, `disconnectBatches`).

The transactions of a block are new to the coins it is connected to. Then no outpoint is spent twice
along the block, and no transaction is in it twice. -/

namespace Binarium

open Checks Journal CCoinsViewCache List

/-! ## The batches of a block -/

/-- Inputs with the coins of the undo data. -/
def indexInputs (vin : List CTxIn) (coins : List Coin) : List IndexInput :=
  (vin.zip coins).zipIdx.map fun input =>
    ⟨input.2, input.1.1, input.1.2, input.1.2.nHeight.toNat⟩

/-- The batch of `ConnectBlock` for transactions with their undo data, from transaction `i`. -/
def connectBatches (opts : IndexOptions) (nHeight : ℕ) : ℕ → List (CTransaction × List Coin) → IndexBatch
  | _, [] => {}
  | i, (tx, coins) :: rest =>
    (connectBatch opts nHeight i tx (indexInputs tx.spends coins)).append
      (connectBatches opts nHeight (i + 1) rest)

/-- The batch of `DisconnectBlock`. -/
def disconnectBatches (opts : IndexOptions) (nHeight : ℕ) :
    ℕ → List (CTransaction × List Coin) → IndexBatch
  | _, [] => {}
  | i, (tx, coins) :: rest =>
    (disconnectBatches opts nHeight (i + 1) rest).append
      (disconnectBatch opts nHeight i tx (indexInputs tx.spends coins))

/-! ## The loops collect these batches -/

variable {coins : List Coin} {view view' : CCoinsViewCache} {tx : CTransaction}
  {opts : IndexOptions} {pindex : CBlockIndex} {nHeight : ℕ} {m m' : COutPoint → Option Coin}
  {txs : List (CTransaction × List Coin)} {o : COutPoint}

theorem map_zipIdx_readInputs {vin : List CTxIn} (h : InputCoins view vin coins) (start : ℕ) :
    (vin.zipIdx start).map
        (fun input => (⟨input.2, input.1, (view.accessCoin input.1.prevout).1, 0⟩ : IndexInput))
      = ((vin.zip coins).zipIdx start).map fun input => ⟨input.2, input.1.1, input.1.2, 0⟩ := by
  induction h generalizing start with
  | nil => rfl
  | @cons txin coin rest coins hcoin _ ih =>
    simp only [zipIdx_cons, zip_cons_cons, map_cons, ih, accessCoin_of_visible hcoin]

theorem readInputs_eq (h : InputCoins view tx.spends coins) :
    readInputs view tx
      = (indexInputs tx.spends coins).map fun input => { input with undoHeight := 0 } := by
  rw [readInputs, indexInputs, map_map]
  exact map_zipIdx_readInputs h 0

/-- The height of the undo data is not read by `ConnectBlock`. -/
theorem connectBatch_undoHeight (opts : IndexOptions) (nHeight txindex : ℕ) (tx : CTransaction)
    (inputs : List IndexInput) :
    connectBatch opts nHeight txindex tx (inputs.map fun input => { input with undoHeight := 0 })
      = connectBatch opts nHeight txindex tx inputs := by
  simp only [connectBatch, flatMap_map, map_map]
  rfl

theorem connectIndexTxs_eq {ctx : NodeContext} {cf : ConnectFlags}
    (txs : List (CTransaction × List Coin)) :
    ∀ {i : ℕ} {s s' : ConnectState} {m' : COutPoint → Option Coin},
      (∀ entry ∈ txs, TransactionOk entry.1) → (∀ entry ∈ txs, entry.1.isCoinBase = false) →
      s.view.Sound →
      (∀ entry ∈ txs, ∀ binding ∈ entry.1.created pindex.nHeight, s.view.Known binding.1) →
      connectTxs ctx cf pindex i (txs.map Prod.fst) s = .ok s' →
      TxsConnected pindex.nHeight txs s.view.visible m' →
      connectIndexTxs opts ctx cf pindex i (txs.map Prod.fst) s
        = .ok (connectBatches opts pindex.nHeight i txs) := by
  induction txs with
  | nil => exact fun _ _ _ _ _ _ => rfl
  | cons entry rest ih =>
    obtain ⟨tx, coins⟩ := entry
    intro i s s' m' hok hcoinbase hsound hknown h htxs
    rw [forall_mem_cons] at hok hcoinbase hknown
    obtain ⟨s₁, hfirst, hrest⟩ := bind_eq_ok_iff.mp h
    obtain ⟨hsound₁, hknown₁, coins', hconnected, -⟩ := connectTx_connected hok.1 hsound hknown.1
      (by simp [hcoinbase.1]) hfirst
    cases htxs with
    | cons head tail =>
      rw [head.result, ← hconnected.result] at tail
      have hmore := ih hok.2 hcoinbase.2 hsound₁
        (fun entry hentry binding hmem => hknown₁ _ (hknown.2 entry hentry binding hmem))
        hrest tail
      refine bind_eq_ok_iff.mpr ⟨s₁, hfirst, bind_eq_ok_iff.mpr ⟨_, hmore, ?_⟩⟩
      rw [readInputs_eq (head.inputs : InputCoins s.view tx.spends coins), connectBatch_undoHeight]
      rfl

/-- The coin that `ApplyTxInUndo` restores is read back. -/
theorem accessCoin_of_applyTxInUndo {undo : Coin} {out : COutPoint} {fClean : Bool}
    (hundo : undo.Undoable) (h : applyTxInUndo undo view out = .ok (fClean, view')) :
    (view'.accessCoin out).1 = undo := by
  simp only [applyTxInUndo, completeUndo, if_neg hundo.1] at h
  obtain ⟨_, ⟨⟩, h⟩ := bind_eq_ok_iff.mp h
  obtain ⟨view₁, hadd, ⟨⟩⟩ := bind_eq_ok_iff.mp h
  obtain ⟨hspent, ⟨hscript, -⟩ | ⟨-, -, rfl⟩⟩ := addCoin_cases (mapError_eq_ok_iff.mp hadd)
  · simp [hundo.2] at hscript
  · refine accessCoin_of_visible ?_
    rw [(Replaced.insert _ out _).visible, Function.update_self]
    exact Coin.unspent_of_not_isSpent hspent

theorem restoreIndexInputs_eq (inputs : List (CTxIn × Coin)) :
    ∀ {j : ℕ} {s s' : Bool × CCoinsViewCache}, (∀ input ∈ inputs, input.2.Undoable) →
      restoreInputs inputs s = .ok s' →
      restoreIndexInputs j inputs s = .ok (s', (inputs.zipIdx j).map fun input =>
        ⟨input.2, input.1.1, input.1.2, input.1.2.nHeight.toNat⟩) := by
  induction inputs with
  | nil =>
    rintro j s s' - ⟨⟩
    rfl
  | cons input rest ih =>
    intro j s s' hundo h
    rw [forall_mem_cons] at hundo
    obtain ⟨s₁, hrest, h⟩ := bind_eq_ok_iff.mp h
    obtain ⟨⟨fClean, view'⟩, hinput, ⟨⟩⟩ := bind_eq_ok_iff.mp h
    refine bind_eq_ok_iff.mpr ⟨_, ih hundo.2 hrest, bind_eq_ok_iff.mpr ⟨_, hinput, ?_⟩⟩
    rw [accessCoin_of_applyTxInUndo hundo.1 hinput]
    rfl

theorem disconnectIndexTx_eq {i : ℕ} {s s' : Bool × CCoinsViewCache}
    (hundo : ∀ coin ∈ coins, coin.Undoable)
    (h : disconnectTx nHeight tx (undoFor tx coins) s = .ok s') :
    disconnectIndexTx opts nHeight i tx (undoFor tx coins) s
      = .ok (s', disconnectBatch opts nHeight i tx (indexInputs tx.spends coins)) := by
  unfold undoFor at h ⊢
  unfold indexInputs CTransaction.spends
  cases hcoinbase : tx.isCoinBase with
  | true =>
    rw [hcoinbase] at h
    cases h
    rfl
  | false =>
    rw [hcoinbase] at h
    obtain ⟨hlength, h⟩ := require_bind h
    refine bind_eq_ok_iff.mpr ⟨(), require_eq_ok_iff.mpr hlength, ?_⟩
    refine bind_eq_ok_iff.mpr ⟨_, restoreIndexInputs_eq _ ?_ h, rfl⟩
    exact fun input hmem => hundo _ (of_mem_zip hmem).2

theorem disconnectIndexTxs_eq (txs : List (CTransaction × List Coin)) :
    ∀ {i : ℕ} {s s' : Bool × CCoinsViewCache},
      (∀ entry ∈ txs, ∀ coin ∈ entry.2, coin.Undoable) →
      disconnectTxs nHeight (txs.map fun entry => (entry.1, undoFor entry.1 entry.2)) s = .ok s' →
      disconnectIndexTxs opts nHeight i (txs.map fun entry => (entry.1, undoFor entry.1 entry.2)) s
        = .ok (s', disconnectBatches opts nHeight i txs) := by
  induction txs with
  | nil =>
    rintro i s s' - ⟨⟩
    rfl
  | cons entry rest ih =>
    intro i s s' hundo h
    rw [forall_mem_cons] at hundo
    obtain ⟨s₁, hrest, hfirst⟩ := bind_eq_ok_iff.mp h
    exact bind_eq_ok_iff.mpr ⟨_, ih hundo.2 hrest,
      bind_eq_ok_iff.mpr ⟨_, disconnectIndexTx_eq hundo.1 hfirst, rfl⟩⟩

theorem TxConnected.map_fst_zip (h : TxConnected nHeight tx coins m m') :
    (tx.spends.zip coins).map Prod.fst = tx.spends :=
  List.map_fst_zip (le_of_eq h.inputs.length_eq)

theorem TxConnected.visible_of_mem_zip (h : TxConnected nHeight tx coins m m')
    {input : CTxIn × Coin} (hinput : input ∈ tx.spends.zip coins) :
    m input.1.prevout = some input.2 :=
  (forall₂_iff_zip.mp h.inputs).2 hinput

/-- The undo data of a connected block can be restored. -/
theorem TxsConnected.undoable (hpos : 0 < nHeight) (hheight : nHeight < 2 ^ 31)
    (h : TxsConnected nHeight txs m m') (hok : ∀ entry ∈ txs, TransactionOk entry.1)
    {P : COutPoint → Prop} (hspends : ∀ entry ∈ txs, ∀ o ∈ entry.1.spentOutpoints, P o)
    (hundo : UndoableAt P m) : ∀ entry ∈ txs, ∀ coin ∈ entry.2, coin.Undoable := by
  induction h with
  | nil m => simp
  | @cons tx coins rest m₁ m₂ m₃ head tail ih =>
    rw [forall_mem_cons] at hok hspends ⊢
    refine ⟨fun coin hcoin => ?_, ih hok.2 hspends.2 (head.undoableAt hpos hheight hok.1 hundo)⟩
    rw [← map_snd_zip (le_of_eq head.inputs.length_eq.symm)] at hcoin
    obtain ⟨input, hinput, rfl⟩ := mem_map.mp hcoin
    exact (hundo _ _ (head.visible_of_mem_zip hinput)
      (hspends.1 _ (mem_map_of_mem (of_mem_zip hinput).1))).2

/-! ## New transactions -/

/-- No coin stands under the hash of one of the transactions. -/
def Free (txs : List (CTransaction × List Coin)) (m : COutPoint → Option Coin) : Prop :=
  ∀ entry ∈ txs, ∀ n, m ⟨entry.1.hash, n⟩ = none

theorem CTransaction.hash_of_mem_created (h : o ∈ (tx.created nHeight).map Prod.fst) :
    o.hash = tx.hash := by
  obtain ⟨binding, hmem, rfl⟩ := mem_map.mp h
  obtain ⟨j, -, -, hkey⟩ := key_of_mem_createdFrom tx.vout hmem
  rw [hkey]
  rfl

theorem TxConnected.result_of_ne (h : TxConnected nHeight tx coins m m') (ho : o.hash ≠ tx.hash) :
    m' o = removeAll tx.spentOutpoints m o := by
  rw [h.result]
  exact putAll_of_notMem (fun hmem => ho (CTransaction.hash_of_mem_created hmem)) _

theorem TxConnected.visible_of_spent (h : TxConnected nHeight tx coins m m')
    (ho : o ∈ tx.spentOutpoints) : ∃ coin, m o = some coin := by
  obtain ⟨txin, htxin, rfl⟩ := mem_map.mp ho
  rw [← h.map_fst_zip] at htxin
  obtain ⟨input, hinput, rfl⟩ := mem_map.mp htxin
  exact ⟨input.2, h.visible_of_mem_zip hinput⟩

/-- An outpoint without a coin that no transaction creates is not spent. -/
theorem TxsConnected.not_spent (h : TxsConnected nHeight txs m m') (hnone : m o = none)
    (ho : ∀ entry ∈ txs, entry.1.hash ≠ o.hash) : ∀ entry ∈ txs, o ∉ entry.1.spentOutpoints := by
  induction h with
  | nil m => simp
  | cons head tail ih =>
    rw [forall_mem_cons] at ho ⊢
    refine ⟨fun hspent => ?_, ih ?_ ho.2⟩
    · obtain ⟨coin, hcoin⟩ := head.visible_of_spent hspent
      simp [hnone] at hcoin
    · simp [head.result_of_ne (Ne.symm ho.1), removeAll_of_none hnone _]

theorem Free.next {rest : List (CTransaction × List Coin)} (hfree : Free ((tx, coins) :: rest) m)
    (h : TxConnected nHeight tx coins m m') (hnew : ∀ entry ∈ rest, entry.1.hash ≠ tx.hash) :
    Free rest m' := by
  intro entry hentry n
  rw [h.result_of_ne (hnew entry hentry)]
  exact removeAll_of_none (hfree entry (mem_cons_of_mem _ hentry) n) _

/-- What a transaction spends is not spent again by a later one. -/
theorem TxsConnected.spent_once {rest : List (CTransaction × List Coin)}
    {m₁ m₂ m₃ : COutPoint → Option Coin} (tail : TxsConnected nHeight rest m₂ m₃)
    (head : TxConnected nHeight tx coins m₁ m₂) (hfree : Free ((tx, coins) :: rest) m₁)
    (ho : o ∈ tx.spentOutpoints) : ∀ entry ∈ rest, o ∉ entry.1.spentOutpoints := by
  obtain ⟨coin, hcoin⟩ := head.visible_of_spent ho
  have hnew : ∀ entry ∈ (tx, coins) :: rest, entry.1.hash ≠ o.hash := by
    intro entry hentry heq
    simpa [heq, hcoin] using hfree entry hentry o.n
  rw [forall_mem_cons] at hnew
  refine tail.not_spent ?_ hnew.2
  rw [head.result_of_ne (Ne.symm hnew.1)]
  exact if_pos ho

/-- If different transactions have different hashes, then no transaction is there twice: it would spend
    its inputs again. -/
theorem TxsConnected.hashes_nodup (h : TxsConnected nHeight txs m m') (hfree : Free txs m)
    (hspends : ∀ entry ∈ txs, entry.1.spends ≠ [])
    (hcollision : ∀ entry ∈ txs, ∀ entry' ∈ txs, entry.1.hash = entry'.1.hash → entry.1 = entry'.1) :
    (txs.map fun entry => entry.1.hash).Nodup := by
  induction h with
  | nil m => exact nodup_nil
  | @cons tx coins rest m₁ m₂ m₃ head tail ih =>
    rw [forall_mem_cons] at hspends
    have hnew : ∀ entry ∈ rest, entry.1.hash ≠ tx.hash := by
      intro entry hentry heq
      have hsame : entry.1 = tx := hcollision entry (mem_cons_of_mem _ hentry) (tx, coins)
        mem_cons_self heq
      obtain ⟨txin, htxin⟩ := exists_mem_of_ne_nil _ hspends.1
      have hspent : txin.prevout ∈ tx.spentOutpoints := mem_map_of_mem htxin
      exact tail.spent_once head hfree hspent entry hentry (hsame ▸ hspent)
    have hrest := ih (hfree.next head hnew) hspends.2 fun entry hentry entry' hentry' =>
      hcollision entry (mem_cons_of_mem _ hentry) entry' (mem_cons_of_mem _ hentry')
    simpa [hrest] using hnew

/-! ## The block -/

theorem FreshlyConnected.connectIndexTxs {ctx : NodeContext} {block : CBlock}
    {view₁ : CCoinsViewCache} {fJustCheck : Bool} {r : ConnectResult} {prev : IndexNode}
    {s : ConnectState} {coinbase : CTransaction} {rest : List CTransaction}
    (h : FreshlyConnected ctx block pindex view fJustCheck r prev view₁ s coinbase rest)
    {undos : List (List Coin)}
    (htxs : BlockTxs block pindex.nHeight view.visible m' coinbase coins rest undos) :
    Binarium.connectIndexTxs opts ctx (connectFlags ctx block pindex) pindex 0 block.vtx
        ⟨view₁, ⟨[]⟩, 0, 0, []⟩
      = .ok (connectBatches opts pindex.nHeight 0 ((coinbase, coins) :: rest.zip undos)) := by
  obtain ⟨s₁, coins', hfirst, hrest, hsound₁, hknown₁, hconnected, -⟩ := h.first
  have hfst : (rest.zip undos).map Prod.fst = rest := map_fst_zip (le_of_eq htxs.length_eq.symm)
  have hmem : ∀ entry ∈ rest.zip undos, entry.1 ∈ rest := fun entry hentry =>
    (of_mem_zip hentry).1
  cases htxs.connected with
  | cons head tail =>
    rw [head.result, ← hconnected.result] at tail
    have hmore := @connectIndexTxs_eq opts _ _ _ (rest.zip undos) _ _ _ _
      (fun entry hentry => h.ok.rest_ok _ (hmem entry hentry))
      (fun entry hentry => h.ok.not_isCoinBase _ (hmem entry hentry)) hsound₁
      (fun entry hentry => hknown₁ entry.1 (hmem entry hentry)) (hfst.symm ▸ hrest) tail
    rw [hfst] at hmore
    rw [h.vtx]
    refine bind_eq_ok_iff.mpr ⟨s₁, hfirst, bind_eq_ok_iff.mpr ⟨_, hmore, ?_⟩⟩
    simp only [connectBatches, readInputs, CTransaction.spends_of_isCoinBase h.ok.isCoinBase]
    rfl

theorem disconnectBlock_loop {block : CBlock} {blockUndo : CBlockUndo}
    (h : disconnectBlock block pindex (some blockUndo) view = .ok (.DISCONNECT_OK, view')) :
    ∃ s, disconnectTxs pindex.nHeight (block.vtx.zip (none :: blockUndo.vtxundo.map some))
      (true, view.getBestBlock.2) = .ok s := by
  unfold disconnectBlock at h
  split at h
  · next fClean view'' hrun =>
      obtain ⟨hash, -, hrun⟩ := bind_eq_ok_iff.mp hrun
      obtain ⟨-, hrun⟩ := require_bind hrun
      cases hprev : pindex.pprev with
      | none =>
        simp [hprev] at hrun
      | some prev =>
        rw [hprev] at hrun
        obtain ⟨-, hrun⟩ := require_bind hrun
        obtain ⟨s, hs, -⟩ := bind_eq_ok_iff.mp hrun
        exact ⟨s, hs⟩
  · simp at h
  · simp at h

theorem disconnectIndexTxs_block {block : CBlock} {coinbase : CTransaction}
    {rest : List CTransaction} (hvtx : block.vtx = coinbase :: rest) (hok : BlockOk coinbase rest)
    {undos : List (List Coin)}
    (hundo : ∀ entry ∈ (coinbase, coins) :: rest.zip undos, ∀ coin ∈ entry.2, coin.Undoable)
    (h : disconnectBlock block pindex (some ⟨undos.map CTxUndo.mk⟩) view = .ok (.DISCONNECT_OK,
      view')) :
    ∃ s, disconnectIndexTxs opts pindex.nHeight 0
        (block.vtx.zip (none :: (undos.map CTxUndo.mk).map some)) (true, view.getBestBlock.2)
      = .ok (s, disconnectBatches opts pindex.nHeight 0 ((coinbase, coins) :: rest.zip undos)) := by
  obtain ⟨s, hs⟩ := disconnectBlock_loop h
  have hpairs : block.vtx.zip (none :: (undos.map CTxUndo.mk).map some)
      = ((coinbase, coins) :: rest.zip undos).map fun entry => (entry.1, undoFor entry.1 entry.2) := by
    rw [hvtx, map_cons, map_undoFor hok.not_isCoinBase, undoFor, if_pos hok.isCoinBase]
    rfl
  rw [hpairs] at hs ⊢
  exact ⟨s, disconnectIndexTxs_eq _ hundo hs⟩

end Binarium
