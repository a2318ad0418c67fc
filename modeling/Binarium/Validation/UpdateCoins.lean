import Binarium.Validation.ConnectSpec

set_option autoImplicit false

/-! # What a transaction does to the coins

Seen as a change of the map of visible coins, connecting a transaction removes the outpoints it
spends and puts the coins it creates. `TxConnected` states this together with what makes the change
reversible: the coins of the inputs are recorded, and the outpoints of the new coins were free. -/

namespace Binarium

open Checks Journal CCoinsViewCache
open List hiding removeAll_cons

/-! ## The coins a transaction creates -/

/-- The coin of an output. -/
def CTransaction.coinOf (tx : CTransaction) (nHeight : ℕ) (txout : CTxOut) : Coin :=
  ⟨txout, tx.isCoinBase, BitVec.ofNat 31 nHeight⟩

/-- The coins of the spendable outputs, from output `i`. -/
def CTransaction.createdFrom (tx : CTransaction) (nHeight : ℕ) :
    ℕ → List CTxOut → List (COutPoint × Coin)
  | _, [] => []
  | i, txout :: rest =>
    if txout.scriptPubKey.isUnspendable then tx.createdFrom nHeight (i + 1) rest
    else (tx.outpoint i, tx.coinOf nHeight txout) :: tx.createdFrom nHeight (i + 1) rest

/-- The coins of the spendable outputs. -/
def CTransaction.created (tx : CTransaction) (nHeight : ℕ) : List (COutPoint × Coin) :=
  tx.createdFrom nHeight 0 tx.vout

variable {binding : COutPoint × Coin} {nHeight : ℕ} {tx : CTransaction} {ctx : NodeContext}
  {pindex : CBlockIndex}

variable (outs : List CTxOut)

open CTransaction

theorem key_of_mem_createdFrom :
    ∀ {i : ℕ}, binding ∈ tx.createdFrom nHeight i outs →
      ∃ j, i ≤ j ∧ j < i + outs.length ∧ binding.1 = tx.outpoint j := by
  induction outs with
  | nil => simp [createdFrom]
  | cons txout rest ih =>
    intro i h
    grind [createdFrom]

theorem coin_of_mem_createdFrom :
    ∀ {i : ℕ}, binding ∈ tx.createdFrom nHeight i outs →
      ∃ txout ∈ outs, txout.scriptPubKey.isUnspendable = false
        ∧ binding.2 = tx.coinOf nHeight txout := by
  induction outs with
  | nil => simp [createdFrom]
  | cons txout rest ih =>
    intro i h
    grind [createdFrom]

theorem CTransaction.outpoint_inj {i j : ℕ} (hi : i < 2 ^ 32) (hj : j < 2 ^ 32)
    (h : tx.outpoint i = tx.outpoint j) : i = j := by
  have hn : BitVec.ofNat 32 i = BitVec.ofNat 32 j := congrArg COutPoint.n h
  have := congrArg BitVec.toNat hn
  rwa [BitVec.toNat_ofNat, BitVec.toNat_ofNat, Nat.mod_eq_of_lt hi, Nat.mod_eq_of_lt hj] at this

theorem nodup_createdFrom :
    ∀ {i : ℕ}, i + outs.length < 2 ^ 32 → ((tx.createdFrom nHeight i outs).map Prod.fst).Nodup := by
  induction outs with
  | nil => simp [createdFrom]
  | cons txout rest ih =>
    intro i h
    rw [length_cons] at h
    have hrest := ih (i := i + 1) (by omega)
    rw [createdFrom]
    split
    · exact hrest
    · rw [map_cons, nodup_cons]
      refine ⟨fun hmem => ?_, hrest⟩
      obtain ⟨binding, hbinding, hkey⟩ := mem_map.mp hmem
      obtain ⟨j, hle, hlt, hj⟩ := key_of_mem_createdFrom rest hbinding
      have := outpoint_inj (by omega) (by omega) (hj.symm.trans hkey)
      omega

theorem TransactionOk.created_nodup (h : TransactionOk tx) (nHeight : ℕ) :
    ((tx.created nHeight).map Prod.fst).Nodup :=
  nodup_createdFrom tx.vout (by have := h.vout_length; omega)

/-! ## Spending the inputs -/

theorem spendInputs_sound {vin : List CTxIn} {coins : List Coin} :
    ∀ {view : CCoinsViewCache}, view.Sound → InputCoins view vin coins →
      (vin.map CTxIn.prevout).Nodup →
      ∃ view', spendInputs view vin = .ok (coins, view') ∧ view'.Sound
        ∧ view'.visible = removeAll (vin.map CTxIn.prevout) view.visible
        ∧ ∀ o, view.Known o → view'.Known o := by
  induction vin generalizing coins with
  | nil =>
    intro view hsound hcoins _
    cases hcoins
    exact ⟨view, rfl, hsound, (removeAll_nil _).symm, fun _ h => h⟩
  | cons txin rest ih =>
    intro view hsound hcoins hnodup
    rw [map_cons, nodup_cons] at hnodup
    cases hcoins with
    | @cons _ coin _ coins hcoin hrest =>
      obtain ⟨hsound₁, hvisible₁, hmoved⟩ := view.spendCoin_sound hsound txin.prevout
      have hknown₁ := fun o ho => known_spendCoin (o := o) hsound ho txin.prevout
      generalize hspend : view.spendCoin txin.prevout = spent at hsound₁ hvisible₁ hmoved hknown₁
      obtain ⟨moved, view₁⟩ := spent
      obtain rfl : moved = some coin := hmoved coin hcoin
      -- the other inputs are other outpoints
      obtain ⟨view', hok, hsound', hvisible', hknown'⟩ := ih hsound₁
        (InputCoins.of_visible_ne hrest hnodup.1 fun o ho => by rw [hvisible₁, Function.update_of_ne ho])
        hnodup.2
      refine ⟨view', ?_, hsound', ?_, fun o ho => hknown' o (hknown₁ o ho)⟩
      · simp only [spendInputs, hspend, hok]
        rfl
      · rw [hvisible', hvisible₁, map_cons, removeAll_cons]

/-! ## Adding the outputs -/

theorem addCoinsFrom_sound :
    ∀ {i : ℕ} {view view' : CCoinsViewCache}, view.Sound →
      ((tx.createdFrom nHeight i outs).map Prod.fst).Nodup →
      (∀ binding ∈ tx.createdFrom nHeight i outs, view.Known binding.1) →
      addCoinsFrom tx nHeight view i outs = .ok view' →
      view'.Sound ∧ view'.visible = putAll (tx.createdFrom nHeight i outs) view.visible
        ∧ (∀ o, view.Known o → view'.Known o)
        ∧ (tx.isCoinBase = false →
          ∀ binding ∈ tx.createdFrom nHeight i outs, view.visible binding.1 = none) := by
  induction outs with
  | nil =>
    intro i view view' hsound _ _ h
    cases h
    exact ⟨hsound, rfl, fun _ h => h, by simp [createdFrom]⟩
  | cons txout rest ih =>
    intro i view view' hsound hnodup hknown h
    obtain ⟨view₁, hadd, hmore⟩ := bind_eq_ok_iff.mp h
    rw [createdFrom] at hnodup hknown ⊢
    cases hscript : txout.scriptPubKey.isUnspendable with
    | true =>
      -- an unspendable output is not added
      simp only [hscript] at hnodup hknown ⊢
      obtain ⟨-, ⟨-, rfl⟩ | ⟨hscript', -⟩⟩ := addCoin_cases hadd
      · exact ih hsound hnodup hknown hmore
      · simp [hscript] at hscript'
    | false =>
      simp only [hscript, Bool.false_eq_true, if_false, map_cons, nodup_cons,
        forall_mem_cons] at hnodup hknown ⊢
      have hfree : tx.isCoinBase = false → view.visible (tx.outpoint i) = none := fun hcoinbase =>
        visible_none_of_addCoin (hcoinbase ▸ hadd) hscript hknown.1
      obtain ⟨hsound₁, hvisible₁⟩ := addCoin_sound hsound hadd (by grind)
      simp only [hscript, Bool.false_eq_true, if_false] at hvisible₁
      obtain ⟨hsound', hvisible', hknown', hfree'⟩ := ih hsound₁ hnodup.2
        (fun binding hmem => known_addCoin hadd (hknown.2 binding hmem)) hmore
      refine ⟨hsound', ?_, fun o ho => hknown' o (known_addCoin hadd ho), fun hcoinbase =>
        ⟨hfree hcoinbase, fun binding hmem => ?_⟩⟩
      · rw [hvisible', hvisible₁]
        rfl
      · have hnone := hfree' hcoinbase binding hmem
        rwa [hvisible₁, Function.update_of_ne] at hnone
        exact fun heq => hnodup.1 (heq ▸ mem_map_of_mem hmem)

/-! ## A transaction as a change of the visible coins -/

/-- The outpoints a transaction spends. -/
def CTransaction.spentOutpoints (tx : CTransaction) : List COutPoint := tx.spends.map CTxIn.prevout

theorem CTransaction.mem_vin_of_mem_spends {txin : CTxIn} (h : txin ∈ tx.spends) :
    txin ∈ tx.vin := by
  grind [spends]

/-- A transaction with undo data `coins` leads from the coins `m` to the coins `m'`. -/
structure TxConnected (nHeight : ℕ) (tx : CTransaction) (coins : List Coin)
    (m m' : COutPoint → Option Coin) : Prop where
  inputs : List.Forall₂ (fun txin coin => m txin.prevout = some coin) tx.spends coins
  inputs_nodup : tx.spentOutpoints.Nodup
  created_nodup : ((tx.created nHeight).map Prod.fst).Nodup
  created_free : ∀ binding ∈ tx.created nHeight, removeAll tx.spentOutpoints m binding.1 = none
  result : m' = putAll (tx.created nHeight) (removeAll tx.spentOutpoints m)

/-- The checks before `UpdateCoins` find the coins of what it spends. -/
theorem ChecksOk.spends {s s' : ConnectState} (h : ChecksOk tx s s') :
    ∃ coins, InputCoins s.view tx.spends coins := by
  cases hcoinbase : tx.isCoinBase with
  | true => exact ⟨[], spends_of_isCoinBase hcoinbase ▸ .nil⟩
  | false =>
    obtain ⟨coins, _, _, hfee, -⟩ := h.spending hcoinbase
    exact ⟨coins, spends_of_not_isCoinBase hcoinbase ▸ hfee.inputs⟩

theorem TransactionOk.spends_nodup (h : TransactionOk tx) : tx.spentOutpoints.Nodup := by
  unfold spentOutpoints spends
  split
  · simp
  · exact h.inputs_nodup

/-- **Connecting a transaction.** On a sound view where the outpoints to be created are known, and
    free if the transaction may overwrite, the body of the loop in `ConnectBlock` changes the visible
    coins by the transaction and records the coins it spends. -/
theorem connectTx_connected {cf : ConnectFlags} {i : ℕ} {s s' : ConnectState}
    (htx : TransactionOk tx) (hsound : s.view.Sound)
    (hknown : ∀ binding ∈ tx.created pindex.nHeight, s.view.Known binding.1)
    (hfree : tx.isCoinBase → ∀ binding ∈ tx.created pindex.nHeight, s.view.visible binding.1
      = none) (h : connectTx ctx cf pindex i tx s = .ok s') :
    s'.view.Sound ∧ (∀ o, s.view.Known o → s'.view.Known o)
      ∧ ∃ coins, TxConnected pindex.nHeight tx coins s.view.visible s'.view.visible
        ∧ s'.blockundo = if i = 0 then s.blockundo else ⟨s.blockundo.vtxundo ++ [⟨coins⟩]⟩ := by
  obtain ⟨checked, undo, hchecks, hupdate, -, hundo⟩ := connectTx_ok h
  obtain ⟨coins, hcoins⟩ := hchecks.spends
  have hsame : checked.view.visible = s.view.visible := funext hchecks.reads.visible
  obtain ⟨view₁, hspend, hsound₁, hvisible₁, hknown₁⟩ :=
    spendInputs_sound (hchecks.reads.sound hsound) (hcoins.readsTo hchecks.reads) htx.spends_nodup
  obtain ⟨spent, hspent, hupdate⟩ := bind_eq_ok_iff.mp hupdate
  cases hspend.symm.trans hspent
  obtain ⟨view₂, hadd, hupdate⟩ := bind_eq_ok_iff.mp hupdate
  cases hupdate
  have hknown' : ∀ o, s.view.Known o → view₁.Known o :=
    fun o ho => hknown₁ o (hchecks.reads.known ho)
  obtain ⟨hsound₂, hvisible₂, hknown₂, hfree₂⟩ := addCoinsFrom_sound tx.vout hsound₁
    (htx.created_nodup pindex.nHeight) (fun binding hmem => hknown' _ (hknown binding hmem)) hadd
  rw [hsame] at hvisible₁
  refine ⟨hsound₂, fun o ho => hknown₂ o (hknown' o ho), coins,
    ⟨hcoins, htx.spends_nodup, htx.created_nodup _, fun binding hmem => ?_, ?_⟩, hundo⟩
  · cases hcoinbase : tx.isCoinBase with
    | true =>
      rw [spentOutpoints, spends_of_isCoinBase hcoinbase]
      exact (congrFun (removeAll_nil _) _).trans (hfree hcoinbase binding hmem)
    | false => exact congrFun hvisible₁ _ ▸ hfree₂ hcoinbase binding hmem
  · rw [hvisible₂, hvisible₁]
    rfl

/-! ## A list of transactions -/

/-- Transactions with their undo data lead from one map of coins to another. -/
inductive TxsConnected (nHeight : ℕ) :
    List (CTransaction × List Coin) → (COutPoint → Option Coin) → (COutPoint → Option Coin) → Prop
  | nil (m : COutPoint → Option Coin) : TxsConnected nHeight [] m m
  | cons {tx : CTransaction} {coins : List Coin} {rest : List (CTransaction × List Coin)}
      {m₁ m₂ m₃ : COutPoint → Option Coin} (head : TxConnected nHeight tx coins m₁ m₂)
      (tail : TxsConnected nHeight rest m₂ m₃) : TxsConnected nHeight ((tx, coins) :: rest) m₁ m₃

/-- **Connecting the transactions after the coinbase.** -/
theorem connectTxs_connected {cf : ConnectFlags} (txs : List CTransaction) :
    ∀ {i : ℕ} {s s' : ConnectState}, i ≠ 0 → (∀ tx ∈ txs, TransactionOk tx) →
      (∀ tx ∈ txs, tx.isCoinBase = false) → s.view.Sound →
      (∀ tx ∈ txs, ∀ binding ∈ tx.created pindex.nHeight, s.view.Known binding.1) →
      connectTxs ctx cf pindex i txs s = .ok s' →
      s'.view.Sound ∧ ∃ undos : List (List Coin), undos.length = txs.length
        ∧ TxsConnected pindex.nHeight (txs.zip undos) s.view.visible s'.view.visible
        ∧ s'.blockundo = ⟨s.blockundo.vtxundo ++ undos.map CTxUndo.mk⟩ := by
  induction txs with
  | nil =>
    intro i s s' _ _ _ hsound _ h
    cases h
    exact ⟨hsound, [], rfl, .nil _, by simp⟩
  | cons tx rest ih =>
    intro i s s' hi hok hcoinbase hsound hknown h
    rw [forall_mem_cons] at hok hcoinbase hknown
    obtain ⟨s₁, hfirst, hrest⟩ := bind_eq_ok_iff.mp h
    obtain ⟨hsound₁, hknown₁, coins, hconnected, hundo⟩ := connectTx_connected hok.1 hsound hknown.1
      (by simp [hcoinbase.1]) hfirst
    obtain ⟨hsound', undos, hlength, hconnected', hundo'⟩ := ih (Nat.succ_ne_zero i) hok.2
      hcoinbase.2 hsound₁
      (fun tx' htx' binding hmem => hknown₁ _ (hknown.2 tx' htx' binding hmem)) hrest
    refine ⟨hsound', coins :: undos, by simp [hlength], .cons hconnected hconnected', ?_⟩
    simp [hundo', hundo, if_neg hi]

/-! ## The block -/

theorem mem_outpoints_of_created (h : binding ∈ tx.created nHeight) : binding.1 ∈ tx.outpoints := by
  obtain ⟨j, -, hlt, hkey⟩ := key_of_mem_createdFrom tx.vout h
  rw [zero_add] at hlt
  exact mem_map.mpr ⟨j, mem_range.mpr hlt, hkey.symm⟩

/-- The transactions of a block with the coins they spend, which lead from the coins `m` to the coins
    `m'`. -/
structure BlockTxs (block : CBlock) (nHeight : ℕ) (m m' : COutPoint → Option Coin)
    (coinbase : CTransaction) (coins : List Coin) (rest : List CTransaction)
    (undos : List (List Coin)) : Prop where
  vtx : block.vtx = coinbase :: rest
  ok : BlockOk coinbase rest
  length_eq : undos.length = rest.length
  connected : TxsConnected nHeight ((coinbase, coins) :: rest.zip undos) m m'

section

variable {block : CBlock} {m m' : COutPoint → Option Coin} {coinbase : CTransaction}
  {coins : List Coin} {rest : List CTransaction} {undos : List (List Coin)}
  (h : BlockTxs block nHeight m m' coinbase coins rest undos)

include h

theorem BlockTxs.forall_mem_iff (P : CTransaction → Prop) :
    (∀ entry ∈ (coinbase, coins) :: rest.zip undos, P entry.1) ↔ ∀ tx ∈ block.vtx, P tx := by
  have hfst : ((coinbase, coins) :: rest.zip undos).map Prod.fst = block.vtx := by
    rw [map_cons, map_fst_zip (le_of_eq h.length_eq.symm), h.vtx]
  rw [← hfst, forall_mem_map]

theorem BlockTxs.mem_vtx : ∀ entry ∈ (coinbase, coins) :: rest.zip undos, entry.1 ∈ block.vtx :=
  (h.forall_mem_iff fun tx => tx ∈ block.vtx).mpr fun _ htx => htx

theorem BlockTxs.transactionOk :
    ∀ entry ∈ (coinbase, coins) :: rest.zip undos, TransactionOk entry.1 := by
  rw [forall_mem_cons]
  exact ⟨h.ok.coinbase_ok, fun entry hentry => h.ok.rest_ok _ (of_mem_zip hentry).1⟩

end

/-- A block that was connected to a sound view where the outpoints it creates are free. -/
structure FreshlyConnected (ctx : NodeContext) (block : CBlock) (pindex : CBlockIndex)
    (view : CCoinsViewCache) (fJustCheck : Bool) (r : ConnectResult) (prev : IndexNode)
    (view₁ : CCoinsViewCache) (s : ConnectState) (coinbase : CTransaction)
    (rest : List CTransaction) : Prop
    extends Connected ctx block pindex view fJustCheck r prev view₁ s where
  vtx : block.vtx = coinbase :: rest
  ok : BlockOk coinbase rest
  sound : view.Sound
  free : ∀ tx ∈ block.vtx, ∀ binding ∈ tx.created pindex.nHeight, view.visible binding.1 = none

section

variable {block : CBlock} {view view₁ : CCoinsViewCache} {fJustCheck : Bool} {r : ConnectResult}
  {prev : IndexNode} {s : ConnectState} {coinbase : CTransaction} {rest : List CTransaction}
  (h : FreshlyConnected ctx block pindex view fJustCheck r prev view₁ s coinbase rest)

include h

/-- The loop after the coinbase, on a sound view that knows the outpoints to come. -/
theorem FreshlyConnected.first : ∃ s₁ coins,
    connectTx ctx (connectFlags ctx block pindex) pindex 0 coinbase ⟨view₁, ⟨[]⟩, 0, 0, []⟩ = .ok s₁
      ∧ connectTxs ctx (connectFlags ctx block pindex) pindex 1 rest s₁ = .ok s ∧ s₁.view.Sound
      ∧ (∀ tx ∈ rest, ∀ binding ∈ tx.created pindex.nHeight, s₁.view.Known binding.1)
      ∧ TxConnected pindex.nHeight coinbase coins view.visible s₁.view.visible
      ∧ s₁.blockundo = ⟨[]⟩ := by
  have hloop := h.loop
  have hfree := h.free
  rw [h.vtx] at hloop hfree
  rw [forall_mem_cons] at hfree
  have hknown : ∀ o, view.visible o = none → view₁.Known o :=
    fun o ho => h.reads.known (known_of_visible_none ho)
  obtain ⟨s₁, hfirst, hrest⟩ := bind_eq_ok_iff.mp hloop
  obtain ⟨hsound₁, hknown₁, coins, hconnected, hundo⟩ := connectTx_connected h.ok.coinbase_ok
    (h.reads.sound h.sound) (fun binding hmem => hknown _ (hfree.1 binding hmem))
    (fun _ binding hmem => (h.reads.visible _).trans (hfree.1 binding hmem)) hfirst
  rw [funext h.reads.visible] at hconnected
  exact ⟨s₁, coins, hfirst, hrest, hsound₁,
    fun tx htx binding hmem => hknown₁ _ (hknown _ (hfree.2 tx htx binding hmem)), hconnected, hundo⟩

/-- **Connecting the transactions of a block**, where the outpoints they create are free. -/
theorem FreshlyConnected.blockTxs : s.view.Sound ∧ ∃ coins undos,
    BlockTxs block pindex.nHeight view.visible s.view.visible coinbase coins rest undos
      ∧ s.blockundo = ⟨undos.map CTxUndo.mk⟩ := by
  obtain ⟨s₁, coins, -, hrest, hsound₁, hknown₁, hconnected, hundo⟩ := h.first
  obtain ⟨hsound', undos, hlength, hconnected', hundo'⟩ := connectTxs_connected rest
    (Nat.succ_ne_zero 0) h.ok.rest_ok h.ok.not_isCoinBase hsound₁ hknown₁ hrest
  refine ⟨hsound', coins, undos, ⟨h.vtx, h.ok, hlength, .cons hconnected hconnected'⟩, ?_⟩
  rw [hundo', hundo]
  rfl

end

end Binarium
