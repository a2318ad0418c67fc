import Binarium.Validation.UpdateCoins

set_option autoImplicit false

/-! # Disconnecting undoes connecting

`DisconnectBlock` with the undo data of `ConnectBlock` restores the coins. Each function of
`DisconnectBlock` is shown to be the inverse of its counterpart on the visible coins; the loop over
the transactions runs backwards, so the inverse of a list of transactions is by induction from the
first one.

`DisconnectBlock` has to run on a view that shows what the block left, not on the very same object:
in between, the caches may have been flushed or replaced. -/

namespace Binarium

open Checks Journal CCoinsViewCache Function CTransaction
open List hiding removeAll_cons

/-- A coin that `ApplyTxInUndo` can restore: it has a height and a spendable script, as every coin
    has that was added by a block above the genesis block. -/
def Coin.Undoable (coin : Coin) : Prop :=
  coin.nHeight ≠ 0 ∧ coin.out.scriptPubKey.isUnspendable = false

instance (coin : Coin) : Decidable coin.Undoable := inferInstanceAs (Decidable (_ ∧ _))

/-! ## Removing the outputs -/

variable {nHeight : ℕ} {tx : CTransaction} {view : CCoinsViewCache} {P : COutPoint → Prop}
  {coins : List Coin} {m m' : COutPoint → Option Coin}

theorem removeOutputs_sound (hheight : nHeight < 2 ^ 31) (outs : List CTxOut) :
    ∀ {i : ℕ} {view : CCoinsViewCache}, view.Sound →
      ((tx.createdFrom nHeight i outs).map Prod.fst).Nodup →
      (∀ binding ∈ tx.createdFrom nHeight i outs, view.visible binding.1 = some binding.2) →
      ∃ view', removeOutputs tx nHeight i outs (true, view) = (true, view') ∧ view'.Sound
        ∧ view'.visible = removeAll ((tx.createdFrom nHeight i outs).map Prod.fst) view.visible := by
  induction outs with
  | nil => exact fun hsound _ _ => ⟨_, rfl, hsound, (removeAll_nil _).symm⟩
  | cons txout rest ih =>
    intro i view hsound hnodup hcoins
    rw [createdFrom] at hnodup hcoins ⊢
    rw [removeOutputs]
    cases hscript : txout.scriptPubKey.isUnspendable with
    | true =>
      simp only [hscript] at hnodup hcoins ⊢
      exact ih hsound hnodup hcoins
    | false =>
      simp only [hscript, Bool.false_eq_true, if_false, map_cons, nodup_cons,
        forall_mem_cons] at hnodup hcoins ⊢
      obtain ⟨hsound₁, hvisible₁, hmoved⟩ := view.spendCoin_sound hsound (tx.outpoint i)
      have hcoin := hmoved _ hcoins.1
      have hmatch : decide (txout = (tx.coinOf nHeight txout).out
          ∧ nHeight = (tx.coinOf nHeight txout).nHeight.toNat
          ∧ tx.isCoinBase = (tx.coinOf nHeight txout).fCoinBase) :=
        decide_eq_true ⟨rfl, (Nat.mod_eq_of_lt hheight).symm, rfl⟩
      obtain ⟨view', hok, hsound', hvisible'⟩ := ih hsound₁ hnodup.2 (by
        intro binding hmem
        rw [hvisible₁, update_of_ne]
        · exact hcoins.2 binding hmem
        · exact fun heq => hnodup.1 (heq ▸ mem_map_of_mem hmem))
      refine ⟨view', ?_, hsound', ?_⟩
      · simp [hcoin, hmatch, hok]
      · rw [hvisible', hvisible₁, removeAll_cons]

/-! ## Restoring the inputs -/

theorem applyTxInUndo_sound (hsound : view.Sound) (out : COutPoint)
    (hnone : view.visible out = none) {undo : Coin} (hspent : undo.isSpent = false)
    (hundo : undo.Undoable) :
    ∃ view', applyTxInUndo undo view out = .ok (true, view') ∧ view'.Sound
      ∧ view'.visible = Function.update view.visible out (some undo) := by
  have hreads := view.readsTo_haveCoin out
  have hhave : (view.haveCoin out).1 = false := by
    rw [view.haveCoin_eq, hnone]
    rfl
  have hnone' : (view.haveCoin out).2.visible out = none := (hreads.visible out).trans hnone
  obtain ⟨view', hadd⟩ :=
    addCoin_of_visible_none hspent hnone' undo.fCoinBase
  obtain ⟨hsound', hvisible'⟩ :=
    addCoin_sound (hreads.sound hsound) hadd (.inr hnone')
  refine ⟨view', ?_, hsound', ?_⟩
  · simp only [applyTxInUndo, completeUndo, if_neg hundo.1]
    show ((view.haveCoin out).2.addCoin out undo undo.fCoinBase).mapError DisconnectStop.raised >>= _ = _
    rw [hadd, hhave]
    rfl
  · rw [hvisible', if_neg (by simp [hundo.2])]
    funext o
    unfold update
    split
    · rfl
    · exact hreads.visible o

/-- Restoring the inputs puts back what spending them removed. -/
theorem restoreInputs_sound (inputs : List (CTxIn × Coin)) :
    ∀ {view : CCoinsViewCache} {m : COutPoint → Option Coin}, view.Sound →
      ((inputs.map Prod.fst).map CTxIn.prevout).Nodup →
      (∀ input ∈ inputs, m input.1.prevout = some input.2 ∧ input.2.isSpent = false
        ∧ input.2.Undoable) →
      view.visible = removeAll ((inputs.map Prod.fst).map CTxIn.prevout) m →
      ∃ view', restoreInputs inputs (true, view) = .ok (true, view') ∧ view'.Sound
        ∧ view'.visible = m := by
  induction inputs with
  | nil =>
    intro view m hsound _ _ hvisible
    exact ⟨view, rfl, hsound, hvisible.trans (removeAll_nil m)⟩
  | cons input rest ih =>
    intro view m hsound hnodup hinputs hvisible
    rw [map_cons, map_cons, nodup_cons] at hnodup
    rw [map_cons, map_cons, removeAll_cons] at hvisible
    rw [forall_mem_cons] at hinputs
    obtain ⟨⟨hcoin, hspent, hundo⟩, hrest⟩ := hinputs
    -- the inputs after this one are restored first, with this one still missing
    obtain ⟨view₁, hok₁, hsound₁, hvisible₁⟩ := ih hsound hnodup.2 (by
      intro other hother
      refine ⟨?_, (hrest other hother).2⟩
      rw [update_of_ne]
      · exact (hrest other hother).1
      · rintro heq
        exact hnodup.1 (heq ▸ mem_map_of_mem (mem_map_of_mem hother))) hvisible
    obtain ⟨view', hok', hsound', hvisible'⟩ := applyTxInUndo_sound hsound₁ input.1.prevout
      (by rw [hvisible₁, update_self]) hspent hundo
    refine ⟨view', ?_, hsound', ?_⟩
    · simp only [restoreInputs, hok₁, bind, Except.bind, hok', Bool.and_self]
    · rw [hvisible', hvisible₁, update_idem, ← hcoin, update_eq_self]

/-! ## The loop over the transactions -/

/-- The coins of a map can be restored, at the outpoints of interest. -/
def UndoableAt (P : COutPoint → Prop) (m : COutPoint → Option Coin) : Prop :=
  ∀ o coin, m o = some coin → P o → coin.isSpent = false ∧ coin.Undoable

/-- What `DisconnectBlock` is given for a transaction: nothing for a coinbase, else its coins. -/
def undoFor (tx : CTransaction) (coins : List Coin) : Option CTxUndo :=
  if tx.isCoinBase then none else some ⟨coins⟩

/-- **Disconnecting a transaction** restores the coins it was connected to. -/
theorem disconnectTx_sound (hheight : nHeight < 2 ^ 31) (h : TxConnected nHeight tx coins m m')
    (hspends : ∀ o ∈ tx.spentOutpoints, P o) (hundo : UndoableAt P m) (hsound : view.Sound)
    (hvisible : view.visible = m') :
    ∃ view', disconnectTx nHeight tx (undoFor tx coins) (true, view) = .ok (true, view')
      ∧ view'.Sound ∧ view'.visible = m := by
  have hcreated : ∀ binding ∈ tx.created nHeight, view.visible binding.1 = some binding.2 := by
    intro binding hmem
    rw [hvisible, h.result]
    exact putAll_of_mem h.created_nodup hmem _
  obtain ⟨view₁, hremove, hsound₁, hvisible₁⟩ :=
    removeOutputs_sound hheight tx.vout hsound h.created_nodup hcreated
  have hvisible₁' : view₁.visible = removeAll tx.spentOutpoints m := by
    rw [hvisible₁, hvisible, h.result]
    exact removeAll_putAll h.created_free
  unfold disconnectTx undoFor
  rw [hremove]
  have hinputs := h.inputs
  have hnodup := h.inputs_nodup
  unfold spentOutpoints spends at hnodup hvisible₁' hspends
  unfold spends at hinputs
  cases hcoinbase : tx.isCoinBase with
  | true =>
    rw [hcoinbase] at hvisible₁'
    exact ⟨view₁, rfl, hsound₁, hvisible₁'.trans (removeAll_nil m)⟩
  | false =>
    simp only [hcoinbase, Bool.false_eq_true, if_false] at hinputs hnodup hvisible₁' hspends ⊢
    have hlength := hinputs.length_eq
    have hfst : (tx.vin.zip coins).map Prod.fst = tx.vin := map_fst_zip (le_of_eq hlength)
    rw [bind_of_require (decide_eq_true hlength.symm)]
    refine restoreInputs_sound (tx.vin.zip coins) hsound₁ (by rwa [hfst]) ?_ (by rwa [hfst])
    intro input hmem
    have hcoin : m input.1.prevout = some input.2 := forall₂_iff_zip.mp hinputs |>.2 hmem
    exact ⟨hcoin, hundo _ _ hcoin (hspends _ (mem_map_of_mem (of_mem_zip hmem).1))⟩

/-- The coins stay restorable along a transaction. -/
theorem TxConnected.undoableAt (hpos : 0 < nHeight) (hheight : nHeight < 2 ^ 31)
    (h : TxConnected nHeight tx coins m m') (hok : TransactionOk tx) (hundo : UndoableAt P m) :
    UndoableAt P m' := by
  rw [h.result]
  refine forall_putAll ?_ (forall_removeAll hundo _)
  intro binding hmem _
  obtain ⟨txout, hmem, hscript, hcoin⟩ := coin_of_mem_createdFrom tx.vout hmem
  obtain ⟨v, hv⟩ := hok.valueOut
  have hrange := (moneyRange_iff _).mp ((getValueOut_spec hv).2.2 txout hmem)
  rw [hcoin]
  refine ⟨?_, ?_, hscript⟩
  · -- an output in the money range is not the null output
    refine decide_eq_false ?_
    rintro hnull
    have hvalue : txout.nValue = -1 := hnull
    rw [hvalue] at hrange
    exact absurd hrange.1 (by decide)
  · rintro hzero
    have := congrArg BitVec.toNat hzero
    rw [coinOf, BitVec.toNat_ofNat, Nat.mod_eq_of_lt hheight] at this
    exact absurd this (Nat.pos_iff_ne_zero.mp hpos)

/-- **Disconnecting transactions** in reverse order restores the coins they were connected to. -/
theorem disconnectTxs_sound (hpos : 0 < nHeight) (hheight : nHeight < 2 ^ 31)
    {txs : List (CTransaction × List Coin)} (h : TxsConnected nHeight txs m m')
    (hok : ∀ entry ∈ txs, TransactionOk entry.1)
    (hspends : ∀ entry ∈ txs, ∀ o ∈ entry.1.spentOutpoints, P o) (hundo : UndoableAt P m)
    (hsound : view.Sound) (hvisible : view.visible = m') :
    (∃ view', disconnectTxs nHeight (txs.map fun entry => (entry.1, undoFor entry.1 entry.2))
        (true, view) = .ok (true, view') ∧ view'.Sound ∧ view'.visible = m)
      ∧ UndoableAt P m' := by
  induction h with
  | nil m => exact ⟨⟨view, rfl, hsound, hvisible⟩, hundo⟩
  | cons head tail ih =>
    rw [forall_mem_cons] at hok hspends
    obtain ⟨⟨view₁, hok₁, hsound₁, hvisible₁⟩, hundo'⟩ :=
      ih hok.2 hspends.2 (head.undoableAt hpos hheight hok.1 hundo) hvisible
    obtain ⟨view', hok', hsound', hvisible'⟩ :=
      disconnectTx_sound hheight head hspends.1 hundo hsound₁ hvisible₁
    refine ⟨⟨view', ?_, hsound', hvisible'⟩, hundo'⟩
    simp only [map_cons, disconnectTxs, hok₁, bind, Except.bind, hok']

/-! ## The block -/

theorem CBlockIndex.nHeight_pos {pindex : CBlockIndex} {prev : IndexNode}
    (h : pindex.pprev = some prev) : 0 < pindex.nHeight :=
  length_pos_of_mem (mem_of_mem_head? h)

theorem map_undoFor {rest : List CTransaction} (hrest : ∀ tx ∈ rest, tx.isCoinBase = false)
    (undos : List (List Coin)) :
    (rest.zip undos).map (fun entry => (entry.1, undoFor entry.1 entry.2))
      = rest.zip ((undos.map CTxUndo.mk).map some) := by
  rw [map_map, zip_map_right]
  refine map_congr_left ?_
  intro entry hmem
  have hcoinbase := hrest entry.1 (of_mem_zip hmem).1
  rw [undoFor, hcoinbase]
  rfl

/-- **Disconnecting a connected block.** It may be disconnected from any sound view that shows what
    the block left. -/
theorem BlockTxs.disconnectBlock {block : CBlock} {pindex : CBlockIndex} {prev : IndexNode}
    {coinbase : CTransaction} {rest : List CTransaction} {undos : List (List Coin)}
    (h : BlockTxs block pindex.nHeight m view.visible coinbase coins rest undos)
    (hprev : pindex.pprev = some prev)
    (hundo : UndoableAt (fun o => ∃ tx ∈ block.vtx, o ∈ tx.spentOutpoints) m) (hsound : view.Sound)
    (hbest : pindex.phashBlock = some view.getBestBlock.1) :
    ∃ view', Binarium.disconnectBlock block pindex (some ⟨undos.map CTxUndo.mk⟩) view
        = .ok (.DISCONNECT_OK, view')
      ∧ view'.visible = m ∧ view'.hashBlock = prev.hash := by
  have hreads := view.readsTo_getBestBlock
  obtain ⟨⟨view', hdisconnect, -, hvisible'⟩, -⟩ := disconnectTxs_sound
    (CBlockIndex.nHeight_pos hprev) pindex.height_lt h.connected h.transactionOk
    (fun entry hentry o ho => ⟨entry.1, h.mem_vtx entry hentry, ho⟩) hundo
    (hreads.sound hsound) (funext hreads.visible)
  rw [map_cons, map_undoFor h.ok.not_isCoinBase, undoFor, if_pos h.ok.isCoinBase] at hdisconnect
  have hhash : pindex.getBlockHash = .ok view.getBestBlock.1 := by
    rw [CBlockIndex.getBlockHash, hbest]
  have hrun : disconnectOrStop block pindex (some ⟨undos.map CTxUndo.mk⟩) view
      = .ok (true, view'.setBestBlock prev.hash) := by
    refine bind_eq_ok_iff.mpr ⟨_, mapError_eq_ok_iff.mpr hhash, ?_⟩
    refine bind_eq_ok_iff.mpr ⟨(), require_eq_ok_iff.mpr (decide_eq_true rfl), ?_⟩
    rw [hprev, h.vtx]
    refine bind_eq_ok_iff.mpr ⟨(), require_eq_ok_iff.mpr (by simp [h.length_eq]), ?_⟩
    exact bind_eq_ok_iff.mpr ⟨(true, view'), hdisconnect, rfl⟩
  refine ⟨view'.setBestBlock prev.hash, ?_, ?_, rfl⟩
  · rw [Binarium.disconnectBlock, hrun]
    rfl
  · rw [← hvisible']
    exact funext (view'.readsTo_setBestBlock prev.hash).visible

/-- A block that was connected where the outpoints it creates were free is disconnected cleanly. -/
theorem FreshlyConnected.disconnect {ctx : NodeContext} {block : CBlock} {pindex : CBlockIndex}
    {r : ConnectResult} {blockundo : CBlockUndo} {prev : IndexNode} {view₁ : CCoinsViewCache}
    {s : ConnectState} {coinbase : CTransaction} {rest : List CTransaction}
    (h : FreshlyConnected ctx block pindex view false r prev view₁ s coinbase rest)
    (hcoins : ∀ tx ∈ block.vtx, ∀ txin ∈ tx.vin, ∀ coin,
      view.visible txin.prevout = some coin → coin.Undoable)
    (hhash : pindex.phashBlock ≠ some 0) (hundo : r.blockundo = some blockundo) :
    (∃ view', disconnectBlock block pindex (some blockundo) r.view = .ok (.DISCONNECT_OK, view')
        ∧ (∀ o, view'.visible o = view.visible o) ∧ view'.hashBlock = prev.hash)
      ∧ r.view.Sound
      ∧ UndoableAt (fun o => ∃ tx ∈ block.vtx, o ∈ tx.spentOutpoints) view.visible
      ∧ ∃ coins undos, blockundo = ⟨undos.map CTxUndo.mk⟩
        ∧ BlockTxs block pindex.nHeight view.visible s.view.visible coinbase coins rest undos := by
  obtain ⟨hsound', coins, undos, htxs, hundos⟩ := h.blockTxs
  obtain ⟨hreads, hmoved⟩ := moveBestBlock_ok h.moved
  obtain ⟨hash, hphash, hview⟩ := hmoved rfl
  have hbest : pindex.phashBlock = some r.view.getBestBlock.1 := by
    rw [hview, getBestBlock_setBestBlock _ (fun h => hhash (h ▸ hphash)), hphash]
  obtain rfl : blockundo = ⟨undos.map CTxUndo.mk⟩ :=
    (Option.some.inj (hundo.symm.trans h.undo)).trans hundos
  have hspent : UndoableAt (fun o => ∃ tx ∈ block.vtx, o ∈ tx.spentOutpoints) view.visible := by
    rintro o coin hcoin ⟨tx, htx, ho⟩
    obtain ⟨txin, htxin, rfl⟩ := mem_map.mp ho
    exact ⟨view.toView.isSpent_of_visible hcoin,
      hcoins tx htx txin (tx.mem_vin_of_mem_spends htxin) coin hcoin⟩
  obtain ⟨view', hdisconnect, hvisible, hprev⟩ := (funext hreads.visible ▸ htxs).disconnectBlock
    h.pprev hspent (hreads.sound hsound') hbest
  exact ⟨⟨view', hdisconnect, congrFun hvisible, hprev⟩, hreads.sound hsound', hspent, coins, undos,
    rfl, htxs⟩

/-- **Disconnecting undoes connecting.** Take a block that `ConnectBlock` accepts on a sound view and
    for which it produces undo data, whose hash is not null, that spends only coins with a height and
    a spendable script, and whose spendable outputs are not in the view, which BIP30 guarantees when
    it is enforced. Then `DisconnectBlock` with that undo data is clean; it leaves every outpoint
    with the coin it had before, and the best block is the previous one again. -/
theorem disconnectBlock_connectBlock (ctx : NodeContext) (block : CBlock) (pindex : CBlockIndex)
    (view : CCoinsViewCache) (r : ConnectResult) (blockundo : CBlockUndo)
    (hblock : block.CheckedBefore) (hsound : view.Sound)
    (hcoins : ∀ tx ∈ block.vtx, ∀ txin ∈ tx.vin, ∀ coin,
      view.visible txin.prevout = some coin → coin.Undoable)
    (hhash : pindex.phashBlock ≠ some 0)
    (hfree : fEnforceBIP30 ctx pindex = true
      ∨ ∀ tx ∈ block.vtx, ∀ binding ∈ tx.created pindex.nHeight, view.visible binding.1 = none)
    (h : connectBlock ctx block pindex view false = .ok r) (hundo : r.blockundo = some blockundo) :
    r.view.Sound ∧ ∃ view', disconnectBlock block pindex (some blockundo) r.view
        = .ok (.DISCONNECT_OK, view')
      ∧ (∀ o, view'.visible o = view.visible o)
      ∧ pindex.pprev.map IndexNode.hash = some view'.hashBlock
      ∧ view'.hashBlock = view.getBestBlock.1 := by
  obtain ⟨⟨block', hcheck⟩, ⟨-, -, hnone, -⟩ | ⟨prev, view₁, s, hconnected⟩⟩ := connectBlock_ok h
  · simp [hnone] at hundo
  · obtain ⟨coinbase, rest, hvtx, hok⟩ := checkBlock_ok hblock hcheck
    have hfree' : ∀ tx ∈ block.vtx, ∀ binding ∈ tx.created pindex.nHeight,
        view.visible binding.1 = none := hfree.elim (fun henforce tx htx binding hmem =>
      hconnected.bip30 henforce tx htx _ (mem_outpoints_of_created hmem)) id
    obtain ⟨⟨view', hdisconnect, hvisible, hprev⟩, hsound', -⟩ :=
      FreshlyConnected.disconnect ⟨hconnected, hvtx, hok, hsound, hfree'⟩ hcoins hhash hundo
    exact ⟨hsound', view', hdisconnect, hvisible, by rw [hconnected.pprev, hprev]; rfl,
      hprev.trans hconnected.best⟩

/-- A syncing node for which all checks outside of the model pass, with the best block at a height. -/
def openContext (net : Network) (bestHeight : ℕ) : NodeContext where
  net := net
  hashGenesisBlock := 0
  getHash := fun _ => 1
  checkProofOfWork := fun _ _ => true
  adjustedTime := 1600000000
  blockMerkleRoot := fun _ => (0, false)
  spork3InstantSendBlockFiltering := false
  lockedOutPointTxHash := fun _ => none
  sigOpCount := fun _ => 0
  p2shSigOpCount := fun _ _ => 0
  sequenceLocks := fun _ _ _ _ => true
  isSuperMajority := fun _ _ => false
  csvActive := fun _ => false
  dip0001Active := fun _ => false
  fScriptChecks := fun _ => false
  scriptCheckThreads := false
  scriptCheck := fun _ _ _ _ _ => true
  scriptErrorString := fun _ _ _ _ _ => ""
  mapBlockIndexHeight := fun _ => some bestHeight
  payments := syncingContext
  isBlockPayeeValid := fun _ _ _ => true

/-- A block with the given transactions. -/
def blockOf (vtx : List CTransaction) : CBlock := ⟨⟨2, 0, 0, 1500000000, 1, 0⟩, vtx, false⟩

/-- A transaction that spends one output. -/
def spending (hash : Uint256) (prevout : COutPoint) (vout : List CTxOut) : CTransaction :=
  { hash := hash, nVersion := 1, vin := [⟨prevout, [], 0xffffffff⟩], vout := vout, nLockTime := 0 }

/-- The block index entry of block 3, above the block 1 of the main network that activates BIP34. -/
def thirdIndex : CBlockIndex :=
  { phashBlock := some 3, nTime := 1500000000,
    ancestors := [⟨2, 1⟩, ⟨(consensusParams .main).BIP34Hash, 1⟩, ⟨4, 1⟩],
    height_lt := by decide }

/-- A cache over a database with the given coins, after block 2. -/
def viewOfCoins (coins : List (COutPoint × UnspentCoin)) : CCoinsViewCache :=
  .over (.db ⟨coins.foldl (fun db binding => db.insert binding.1 binding.2) ∅, 2⟩)

theorem visible_viewOfCoins (coins : List (COutPoint × UnspentCoin)) :
    (viewOfCoins coins).visible
      = putAll (coins.map fun binding => (binding.1, binding.2.1)) fun _ => none := by
  have hinsert : ∀ db : AList (fun _ : COutPoint => UnspentCoin),
      (fun o => ((coins.foldl (fun db binding => db.insert binding.1 binding.2) db).lookup o).map
          Subtype.val)
        = putAll (coins.map fun binding => (binding.1, binding.2.1))
          fun o => (db.lookup o).map Subtype.val := by
    induction coins with
    | nil => exact fun _ => rfl
    | cons binding rest ih =>
      intro db
      rw [foldl_cons, ih, map_cons, putAll]
      congr 1
      funext o
      by_cases ho : o = binding.1
      · subst ho
        simp
      · rw [AList.lookup_insert_ne ho, update_of_ne ho]
  exact hinsert ∅

theorem visible_viewOfCoins_eq_none {coins : List (COutPoint × UnspentCoin)}
    {vtx : List CTransaction} (h : ∀ tx ∈ vtx, ∀ binding ∈ coins, binding.1.hash ≠ tx.hash) :
    ∀ tx ∈ vtx, ∀ n, (viewOfCoins coins).visible ⟨tx.hash, n⟩ = none := by
  intro tx htx n
  rw [visible_viewOfCoins]
  refine putAll_of_notMem ?_ _
  rw [map_map, mem_map]
  rintro ⟨binding, hbinding, heq⟩
  exact h tx htx binding hbinding (congrArg COutPoint.hash heq)

/-- A block that spends a coin and then the output that this created. -/
def chainedBlock : CBlock :=
  blockOf [coinbasePaying 10, spending 21 ⟨20, 0⟩ [⟨4, [0x51]⟩, ⟨0, [0x6a]⟩],
    spending 22 ⟨21, 0⟩ [⟨3, [0x51]⟩]]

/-- The view it is connected to. -/
def chainedView : CCoinsViewCache := viewOfCoins [(⟨20, 0⟩, ⟨⟨⟨5, [0x51]⟩, false, 1⟩, rfl⟩)]

theorem disconnectBlock_connectBlock_chained :
    ∃ r view', connectBlock (openContext .regtest 2) chainedBlock thirdIndex chainedView false = .ok r
      ∧ disconnectBlock chainedBlock thirdIndex r.blockundo r.view = .ok (.DISCONNECT_OK, view')
      ∧ view'.hashBlock = 2 ∧ ∀ o, view'.visible o = chainedView.visible o := by
  have hundo : ((connectBlock (openContext .regtest 2) chainedBlock thirdIndex chainedView
      false).toOption.bind ConnectResult.blockundo).isSome := by decide +kernel
  obtain ⟨blockundo, hsome⟩ := Option.isSome_iff_exists.mp hundo
  obtain ⟨r, hr, hblockundo⟩ := Option.bind_eq_some_iff.mp hsome
  have hok := Checks.toOption_eq_some_iff.mp hr
  have hcoins : ∀ tx ∈ chainedBlock.vtx, ∀ txin ∈ tx.vin,
      ∀ coin ∈ chainedView.visible txin.prevout, coin.Undoable := by decide +kernel
  obtain ⟨-, view', hdisconnect, hvisible, -, hbest⟩ := disconnectBlock_connectBlock
    (openContext .regtest 2) chainedBlock thirdIndex chainedView r blockundo
    (fun h => absurd h (by decide)) (sound_over _) hcoins (by decide)
    (.inl (by decide +kernel)) hok hblockundo
  rw [← hblockundo] at hdisconnect
  exact ⟨r, view', hok, hdisconnect, hbest, hvisible⟩

/-- Connect a block and disconnect it again. -/
def connectAndDisconnect (ctx : NodeContext) (block : CBlock) (pindex : CBlockIndex)
    (view : CCoinsViewCache) : Option (DisconnectResult × CCoinsViewCache) := do
  let r ← (connectBlock ctx block pindex view false).toOption
  (disconnectBlock block pindex r.blockundo r.view).toOption

/-- On the main network BIP30 is not enforced above block 1. A block with the coinbase of block 2
    again overwrites the unspent coin of block 2. It is disconnected cleanly, but then the coin is
    gone. -/
theorem disconnectBlock_loses_overwritten_coin :
    (viewOfCoins [(⟨1, 0⟩, ⟨⟨⟨10, [0x51]⟩, true, 2⟩, rfl⟩)]).visible ⟨1, 0⟩
        = some ⟨⟨10, [0x51]⟩, true, 2⟩
      ∧ (connectAndDisconnect (openContext .main 2) (blockOf [coinbasePaying 10]) thirdIndex
          (viewOfCoins [(⟨1, 0⟩, ⟨⟨⟨10, [0x51]⟩, true, 2⟩, rfl⟩)])).map
            (fun result => (result.1, result.2.visible ⟨1, 0⟩))
        = some (.DISCONNECT_OK, none) := by
  decide +kernel

end Binarium
