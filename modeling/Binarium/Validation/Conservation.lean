import Binarium.Coins.Value
import Binarium.Validation.RoundTrip

set_option autoImplicit false

/-! # No value is created but the subsidy

A transaction takes at least as much value from the coins as it adds, and its fee is the difference.
The account of the loop in `ConnectBlock` says so for all transactions so far: the weight of the view
and the exact fees together never rise above a bound that is fixed after the coinbase
(`Accounted`). The fees that `ConnectBlock` adds up in a `CAmount` are at most the exact fees; they
are exact unless the sum passes the largest `CAmount`, which takes more coins than can exist, but not
more than the money range admits. -/

namespace Binarium

open Checks Journal CTransaction CCoinsViewCache Int64
open List hiding removeAll_cons removeAll_nil

/-! ## Spending and adding -/

variable {coins : List Coin} {tx : CTransaction} {view view₁ : CCoinsViewCache} {cf : ConnectFlags}
  {ctx : NodeContext} {pindex : CBlockIndex} {s s' : ConnectState} {bound : ℤ} {fJustCheck : Bool}
  {r : ConnectResult}

/-- Spending visible inputs takes away their values. -/
theorem spendInputs_funded {vin : List CTxIn} :
    ∀ {view : CCoinsViewCache} {spent : List Coin × CCoinsViewCache}, view.Funded →
      InputCoins view vin coins → (vin.map CTxIn.prevout).Nodup →
      spendInputs view vin = .ok spent →
      spent.2.Funded ∧ spent.2.weight = view.weight - sumCoins coins := by
  induction vin generalizing coins with
  | nil =>
    rintro view _ hfunded ⟨⟩ _ ⟨⟩
    exact ⟨hfunded, by simp [sumCoins, sumValues]⟩
  | cons txin rest ih =>
    intro view spent hfunded hcoins hnodup h
    rw [map_cons, nodup_cons] at hnodup
    cases hcoins with
    | @cons _ coin _ coins hcoin hrest =>
      obtain ⟨hmoved, hfunded₁, hweight₁⟩ := spendCoin_funded hfunded hcoin
      have hview := (view.spendCoin_spec txin.prevout).2
      rw [spendInputs] at h
      generalize view.spendCoin txin.prevout = moved at hmoved hfunded₁ hweight₁ hview h
      obtain ⟨moved, view₁⟩ := moved
      cases hmoved
      obtain ⟨more, hmore, ⟨⟩⟩ := bind_eq_ok_iff.mp h
      obtain ⟨hfunded', hweight'⟩ := ih hfunded₁
        (InputCoins.of_visible_ne hrest hnodup.1 fun _ => hview.visible_ne) hnodup.2 hmore
      refine ⟨hfunded', ?_⟩
      rw [sumCoins_cons, hweight', hweight₁]
      ring

theorem addCoinsFrom_funded {nHeight : ℕ} (outs : List CTxOut) :
    ∀ {i : ℕ} {view view' : CCoinsViewCache}, view.Funded →
      (∀ txout ∈ outs, moneyRange txout.nValue) →
      addCoinsFrom tx nHeight view i outs = .ok view' →
      view'.Funded ∧ view'.weight ≤ view.weight + sumValues outs := by
  induction outs with
  | nil =>
    rintro i view _ hfunded _ ⟨⟩
    exact ⟨hfunded, by simp [sumValues]⟩
  | cons txout rest ih =>
    intro i view view' hfunded hrange h
    rw [forall_mem_cons] at hrange
    obtain ⟨view₁, hadd, hmore⟩ := bind_eq_ok_iff.mp h
    have hvalue := (moneyRange_iff txout.nValue).mp hrange.1
    -- which coin is added is only known from `hadd`
    obtain ⟨hfunded₁, hweight₁⟩ :=
      addCoin_funded hfunded (by exact hvalue.1) hadd
    obtain ⟨hfunded', hweight'⟩ := ih hfunded₁ hrange.2 hmore
    refine ⟨hfunded', le_trans hweight' ?_⟩
    simp only [sumValues, map_cons, sum_cons] at hweight₁ ⊢
    omega

/-! ## A transaction -/

theorem TransactionOk.value_range (h : TransactionOk tx) :
    (∀ txout ∈ tx.vout, moneyRange txout.nValue) ∧ 0 ≤ sumValues tx.vout
      ∧ sumValues tx.vout ≤ MAX_MONEY.toInt := by
  obtain ⟨v, hv⟩ := h.valueOut
  obtain ⟨hsum, hrange, houts⟩ := getValueOut_spec hv
  rw [moneyRange_iff, hsum] at hrange
  exact ⟨houts, hrange⟩

theorem updateCoins_funded {view' : CCoinsViewCache} {nHeight : ℕ} {undo : CTxUndo}
    (htx : TransactionOk tx) (hfunded : view.Funded) (hcoins : InputCoins view tx.spends coins)
    (h : updateCoins tx view nHeight = .ok (undo, view')) :
    view'.Funded ∧ view'.weight ≤ view.weight - sumCoins coins + sumValues tx.vout := by
  obtain ⟨spent, hspent, h⟩ := bind_eq_ok_iff.mp h
  obtain ⟨view₁, hadd, ⟨⟩⟩ := bind_eq_ok_iff.mp h
  obtain ⟨hfunded₁, hweight₁⟩ := spendInputs_funded hfunded hcoins htx.spends_nodup hspent
  obtain ⟨hfunded', hweight'⟩ := addCoinsFrom_funded tx.vout hfunded₁ htx.value_range.1 hadd
  exact ⟨hfunded', hweight₁ ▸ hweight'⟩

theorem connectTx_funded {i : ℕ} (htx : TransactionOk tx) (hfunded : s.view.Funded)
    (hcoins : InputCoins s.view tx.spends coins) (h : connectTx ctx cf pindex i tx s = .ok s') :
    s'.view.Funded
      ∧ s'.view.weight ≤ s.view.weight - sumCoins coins + sumValues tx.vout := by
  obtain ⟨checked, undo, hchecks, hupdate, -, -⟩ := connectTx_ok h
  obtain ⟨hfunded₁, hweight₁⟩ := hchecks.reads.funded hfunded
  rw [← hweight₁]
  exact updateCoins_funded htx hfunded₁ (hcoins.readsTo hchecks.reads) hupdate

/-! ## The account of the loop -/

/-- The account after some transactions: the weight of the view and the exact `fees` are at most
    `bound`, and so are the fees that were added up, which are exact if `bound` is a `CAmount`. -/
structure Accounted (bound : ℤ) (s : ConnectState) (fees : ℤ) : Prop where
  funded : s.view.Funded
  nonneg : 0 ≤ fees
  weight : s.view.weight + fees ≤ bound
  nFees_le : s.nFees.toInt ≤ fees
  nFees_eq : bound < 2 ^ 63 → s.nFees.toInt = fees

/-- **One transaction** moves its exact fee to the fees. -/
theorem Accounted.connectTx {fees : ℤ} (h : Accounted bound s fees) {i : ℕ} (htx : TransactionOk tx)
    (hcoinbase : tx.isCoinBase = false) (hstep : connectTx ctx cf pindex i tx s = .ok s') :
    ∃ coins nValueIn nValueOut, FeeOk s.view tx coins nValueIn nValueOut
      ∧ s'.nFees = s.nFees + (nValueIn - nValueOut)
      ∧ Accounted bound s' (fees + (sumCoins coins - sumValues tx.vout)) := by
  obtain ⟨checked, undo, hchecks, -, hnFees, -⟩ := connectTx_ok hstep
  obtain ⟨coins, nValueIn, nValueOut, hfee, hadded⟩ := hchecks.spending hcoinbase
  have hspends := spends_of_not_isCoinBase hcoinbase
  obtain ⟨hfunded', hweight'⟩ := connectTx_funded htx h.funded (hspends ▸ hfee.inputs) hstep
  have hrange := (moneyRange_iff _).mp hfee.fee_range
  have hexact := hfee.fee_exact
  have hweight := h.weight
  have hnonneg := h.nonneg
  refine ⟨coins, nValueIn, nValueOut, hfee, hnFees.trans hadded, hfunded', by omega, by omega, ?_, ?_⟩
  · have hlow := s.nFees.le_toInt
    have hle := toInt_add_le (a := s.nFees) (b := nValueIn - nValueOut) (by omega)
    have hfees := h.nFees_le
    rw [hnFees, hadded]
    omega
  · intro hbound
    have hfees := h.nFees_eq hbound
    have hpos := hfunded'.weight_nonneg
    rw [hnFees, hadded, toInt_add_of_range (by omega) (by omega), hfees, hexact]

/-- **The loop** keeps the account. -/
theorem Accounted.connectTxs (txs : List CTransaction) :
    ∀ {i : ℕ} {s s' : ConnectState} {fees : ℤ}, Accounted bound s fees →
      (∀ tx ∈ txs, TransactionOk tx) → (∀ tx ∈ txs, tx.isCoinBase = false) →
      connectTxs ctx cf pindex i txs s = .ok s' → ∃ fees', Accounted bound s' fees' := by
  induction txs with
  | nil =>
    rintro i s _ fees h _ _ ⟨⟩
    exact ⟨fees, h⟩
  | cons tx rest ih =>
    intro i s s' fees h hok hcoinbase hrun
    rw [forall_mem_cons] at hok hcoinbase
    obtain ⟨s₁, hfirst, hrest⟩ := bind_eq_ok_iff.mp hrun
    obtain ⟨_, _, _, -, -, h₁⟩ := h.connectTx hok.1 hcoinbase.1 hfirst
    exact ih h₁ hok.2 hcoinbase.2 hrest

theorem connectTxs_append (before : List CTransaction) {after : List CTransaction} :
    ∀ {i : ℕ} {s s' : ConnectState},
      connectTxs ctx cf pindex i (before ++ after) s = .ok s' →
      ∃ s₁, connectTxs ctx cf pindex i before s = .ok s₁
        ∧ connectTxs ctx cf pindex (i + before.length) after s₁ = .ok s' := by
  induction before with
  | nil => exact fun h => ⟨_, rfl, h⟩
  | cons tx rest ih =>
    intro i s s' h
    obtain ⟨s₁, hfirst, hrest⟩ := bind_eq_ok_iff.mp h
    obtain ⟨s₂, hbefore, hafter⟩ := ih hrest
    refine ⟨s₂, bind_eq_ok_iff.mpr ⟨s₁, hfirst, hbefore⟩, ?_⟩
    rwa [length_cons, add_comm rest.length, ← add_assoc]

/-- Every transaction of the loop is accounted for where the loop gets to it. -/
theorem Accounted.connectTxs_at {fees : ℤ} (h : Accounted bound s fees) {i : ℕ}
    {before : List CTransaction} {after : List CTransaction}
    (hok : ∀ tx' ∈ before ++ tx :: after, TransactionOk tx')
    (hcoinbase : ∀ tx' ∈ before ++ tx :: after, tx'.isCoinBase = false)
    (hrun : Binarium.connectTxs ctx cf pindex i (before ++ tx :: after) s = .ok s') :
    ∃ s₁ s₂ coins nValueIn nValueOut, Binarium.connectTxs ctx cf pindex i before s = .ok s₁
      ∧ Binarium.connectTx ctx cf pindex (i + before.length) tx s₁ = .ok s₂
      ∧ FeeOk s₁.view tx coins nValueIn nValueOut
      ∧ s₂.nFees = s₁.nFees + (nValueIn - nValueOut)
      ∧ (bound < 2 ^ 63 → s₂.nFees.toInt = s₁.nFees.toInt + (sumCoins coins - sumValues tx.vout)) := by
  rw [forall_mem_append, forall_mem_cons] at hok hcoinbase
  obtain ⟨s₁, hbefore, hafter⟩ := connectTxs_append before hrun
  obtain ⟨s₂, hstep, -⟩ := bind_eq_ok_iff.mp hafter
  obtain ⟨fees₁, h₁⟩ := h.connectTxs before hok.1 hcoinbase.1 hbefore
  obtain ⟨coins, nValueIn, nValueOut, hfee, hadded, h₂⟩ := h₁.connectTx hok.2.1 hcoinbase.2.1 hstep
  refine ⟨s₁, s₂, coins, nValueIn, nValueOut, hbefore, hstep, hfee, hadded, ?_⟩
  intro hbound
  rw [h₂.nFees_eq hbound, h₁.nFees_eq hbound]

/-! ## The block -/

/-- The subsidy that `ConnectBlock` allows the block at `pindex`; the first block has none. -/
def CBlockIndex.subsidy (pindex : CBlockIndex) (net : Network) : CAmount :=
  match pindex.pprev with
  | none => 0
  | some prev =>
    getBlockSubsidy net prev.nBits (pindex.nHeight - 1) (consensusParams net) false

theorem CBlockIndex.subsidy_nonneg (pindex : CBlockIndex) (net : Network) :
    0 ≤ (pindex.subsidy net).toInt := by
  unfold subsidy
  split
  · rfl
  · exact (getBlockSubsidy_parts net _ _ _).1

/-- The account after the coinbase. -/
theorem Accounted.start {block : CBlock} {prev : IndexNode}
    (h : Connected ctx block pindex view fJustCheck r prev view₁ s) (hfunded : view.Funded)
    {coinbase : CTransaction} (hok : TransactionOk coinbase) (hcoinbase : coinbase.isCoinBase)
    {s₁ : ConnectState} (hfirst : Binarium.connectTx ctx (connectFlags ctx block pindex) pindex 0
      coinbase ⟨view₁, ⟨[]⟩, 0, 0, []⟩ = .ok s₁) :
    Accounted (view.weight + sumValues coinbase.vout) s₁ 0 := by
  obtain ⟨hfunded₁, hweight₁⟩ := h.reads.funded hfunded
  obtain ⟨checked, undo, hchecks, -, hnFees, -⟩ := connectTx_ok hfirst
  have hzero : s₁.nFees.toInt = 0 := by
    rw [hnFees, hchecks.coinbase hcoinbase]
    rfl
  have hcoins : InputCoins view₁ coinbase.spends [] := by
    rw [spends_of_isCoinBase hcoinbase]
    exact .nil
  obtain ⟨hfunded', hweight'⟩ := connectTx_funded hok hfunded₁ hcoins hfirst
  refine ⟨hfunded', le_refl 0, ?_, le_of_eq hzero, fun _ => hzero⟩
  rw [hweight₁, show sumCoins [] = 0 from rfl] at hweight'
  omega

/-- The block reward, wrapped or not, is at most the exact fees and the subsidy. -/
theorem Accounted.blockReward_le {fees : ℤ} {block : CBlock} {prev : IndexNode}
    (haccount : Accounted bound s fees)
    (h : Connected ctx block pindex view fJustCheck r prev view₁ s) :
    r.blockReward.toInt ≤ fees + (pindex.subsidy ctx.net).toInt := by
  have hpay : r.blockReward = s.nFees + pindex.subsidy ctx.net := by
    rw [h.reward, CBlockIndex.subsidy, h.pprev]
  have hlow := s.nFees.le_toInt
  have hsubsidy := pindex.subsidy_nonneg ctx.net
  have hfees := haccount.nFees_le
  have hadd : (s.nFees + pindex.subsidy ctx.net).toInt
      ≤ s.nFees.toInt + (pindex.subsidy ctx.net).toInt := toInt_add_le (by omega)
  rw [hpay]
  omega

theorem BlockOk.valueOut_exact {coinbase : CTransaction} {rest : List CTransaction}
    (h : BlockOk coinbase rest) : ∀ tx ∈ coinbase :: rest, ∃ nValueOut,
      tx.getValueOut = some nValueOut ∧ nValueOut.toInt = sumValues tx.vout := by
  have hsum : ∀ tx, TransactionOk tx → ∃ nValueOut, tx.getValueOut = some nValueOut
      ∧ nValueOut.toInt = sumValues tx.vout :=
    fun tx ⟨_, ⟨v, hv⟩, _, _⟩ => ⟨v, hv, (getValueOut_spec hv).1⟩
  rw [forall_mem_cons]
  exact ⟨hsum _ h.coinbase_ok, fun tx htx => hsum tx (h.rest_ok tx htx)⟩

/-- **One block** keeps the view funded, and adds at most the subsidy and `extra`. -/
theorem connectBlock_funded {block : CBlock} {coinbase : CTransaction} {rest : List CTransaction}
    {extra : ℤ} (hblock : block.CheckedBefore) (hfunded : view.Funded)
    (h : connectBlock ctx block pindex view fJustCheck = .ok r) (hvtx : block.vtx = coinbase :: rest)
    (hreward : sumValues coinbase.vout ≤ r.blockReward.toInt + extra) :
    r.view.Funded ∧ r.view.weight ≤ view.weight + ((pindex.subsidy ctx.net).toInt + extra) := by
  obtain ⟨⟨block', hcheck⟩, hcases⟩ := connectBlock_ok h
  obtain ⟨coinbase', rest', hvtx', hok⟩ := checkBlock_ok hblock hcheck
  obtain ⟨rfl, rfl⟩ := List.cons.inj (hvtx.symm.trans hvtx')
  rcases hcases with ⟨-, hreads, -, hzero⟩ | ⟨prev, view₁, s, hconnected⟩
  · obtain ⟨hfunded', hweight'⟩ := hreads.funded hfunded
    have hcoinbase := hok.coinbase_ok.value_range.2
    have hsubsidy := pindex.subsidy_nonneg ctx.net
    rw [hzero, toInt_zero] at hreward
    exact ⟨hfunded', by omega⟩
  · have hloop := hconnected.loop
    rw [hvtx] at hloop
    obtain ⟨s₁, hfirst, hloop⟩ := bind_eq_ok_iff.mp hloop
    obtain ⟨fees, haccount⟩ := (Accounted.start hconnected hfunded hok.coinbase_ok
      hok.isCoinBase hfirst).connectTxs rest hok.rest_ok hok.not_isCoinBase hloop
    obtain ⟨hfunded', hweight'⟩ := (moveBestBlock_ok hconnected.moved).1.funded haccount.funded
    have hweight := haccount.weight
    have hbound := haccount.blockReward_le hconnected
    exact ⟨hfunded', by omega⟩

theorem coinValue_nonneg
    (hrange : ∀ o coin, view.visible o = some coin → moneyRange coin.out.nValue) (o : COutPoint) :
    0 ≤ coinValue (view.visible o) := by
  cases hcoin : view.visible o with
  | none => rfl
  | some coin => exact ((moneyRange_iff _).mp (hrange o coin hcoin)).1

/-- **Value conservation.** Let `ConnectBlock` accept a block on a sound view with all values in the
    money range, with a coinbase that is at most the block reward plus `extra`, which a superblock
    may allow. Then the value of all coins grows by at most the subsidy and `extra`. No sum of
    outputs overflows; for every transaction after the coinbase, where the loop gets to it, the sum
    of its inputs and its fee are exact, and so is adding it to the fees of the block if the value of
    all coins before the block leaves room for the coinbase in a `CAmount`. -/
theorem connectBlock_conserves_value (ctx : NodeContext) (block : CBlock) (pindex : CBlockIndex)
    (view : CCoinsViewCache) (fJustCheck : Bool) (r : ConnectResult) (coinbase : CTransaction)
    (rest : List CTransaction) (extra : ℤ) (hblock : block.CheckedBefore) (hsound : view.Sound)
    (hrange : ∀ o coin, view.visible o = some coin → moneyRange coin.out.nValue = true)
    (h : connectBlock ctx block pindex view fJustCheck = .ok r) (hvtx : block.vtx = coinbase :: rest)
    (hreward : sumValues coinbase.vout ≤ r.blockReward.toInt + extra) :
    totalValue r.view.visible
        ≤ totalValue view.visible + (pindex.subsidy ctx.net).toInt + extra
      ∧ (∀ tx ∈ block.vtx, ∃ nValueOut, tx.getValueOut = some nValueOut
        ∧ nValueOut.toInt = sumValues tx.vout)
      ∧ (ctx.getHash block.header ≠ ctx.hashGenesisBlock →
        ∃ view₁, checkBIP30 ctx block pindex view.getBestBlock.2 = .ok view₁
          ∧ ∀ before tx after, rest = before ++ tx :: after →
            ∃ s s' coins nValueIn nValueOut,
              connectTxs ctx (connectFlags ctx block pindex) pindex 0 (coinbase :: before)
                ⟨view₁, ⟨[]⟩, 0, 0, []⟩ = .ok s
              ∧ connectTx ctx (connectFlags ctx block pindex) pindex (before.length + 1) tx s = .ok s'
              ∧ FeeOk s.view tx coins nValueIn nValueOut
              ∧ s'.nFees = s.nFees + (nValueIn - nValueOut)
              ∧ (totalValue view.visible + MAX_MONEY.toInt < 2 ^ 63 →
                s'.nFees.toInt = s.nFees.toInt + (sumCoins coins - sumValues tx.vout))) := by
  obtain ⟨hfunded, hweight⟩ := hsound.funded (coinValue_nonneg hrange)
  have htotal : totalValue r.view.visible
      ≤ totalValue view.visible + (pindex.subsidy ctx.net).toInt + extra := by
    obtain ⟨hfunded', hweight'⟩ := connectBlock_funded hblock hfunded h hvtx hreward
    have hvisible := hfunded'.totalValue_le
    omega
  obtain ⟨⟨block', hcheck⟩, hcases⟩ := connectBlock_ok h
  obtain ⟨coinbase', rest', hvtx', hok⟩ := checkBlock_ok hblock hcheck
  obtain ⟨rfl, rfl⟩ := List.cons.inj (hvtx.symm.trans hvtx')
  have houts := hok.valueOut_exact
  rw [← hvtx] at houts
  refine ⟨htotal, houts, fun hnot => ?_⟩
  rcases hcases with ⟨hgenesis, -⟩ | ⟨prev, view₁, s, hconnected⟩
  · exact absurd hgenesis hnot
  · have hloop := hconnected.loop
    rw [hvtx] at hloop
    obtain ⟨s₁, hfirst, hloop⟩ := bind_eq_ok_iff.mp hloop
    have hstart := Accounted.start hconnected hfunded hok.coinbase_ok hok.isCoinBase hfirst
    refine ⟨view₁, hconnected.start, ?_⟩
    rintro before tx after rfl
    obtain ⟨s₂, s₃, coins, nValueIn, nValueOut, hbefore, hstep, hfee, hadded, hexact⟩ :=
      hstart.connectTxs_at hok.rest_ok hok.not_isCoinBase hloop
    have hcoinbase := hok.coinbase_ok.value_range.2
    refine ⟨s₂, s₃, coins, nValueIn, nValueOut, bind_eq_ok_iff.mpr ⟨s₁, hfirst, hbefore⟩, ?_, hfee,
      hadded, fun hroom => hexact (by omega)⟩
    rwa [zero_add, add_comm] at hstep

theorem forall_visible_viewOfCoins {P : Coin → Prop} {coins : List (COutPoint × UnspentCoin)}
    (hcoins : ∀ binding ∈ coins, P binding.2.1) (o : COutPoint) (coin : Coin)
    (h : (viewOfCoins coins).visible o = some coin) : P coin := by
  rw [visible_viewOfCoins] at h
  refine forall_putAll (P := fun _ coin => P coin) ?_ (by simp) o coin h
  intro binding hmem
  obtain ⟨binding', hmem', rfl⟩ := mem_map.mp hmem
  exact hcoins binding' hmem'

theorem connectBlock_conserves_value_chained :
    ∃ r, connectBlock (openContext .regtest 2) chainedBlock thirdIndex chainedView false = .ok r
      ∧ totalValue r.view.visible
        ≤ totalValue chainedView.visible + (thirdIndex.subsidy .regtest).toInt := by
  have hrun : ((connectBlock (openContext .regtest 2) chainedBlock thirdIndex chainedView
      false).toOption.any fun r =>
        decide (sumValues (coinbasePaying 10).vout ≤ r.blockReward.toInt + 0)) := by
    decide +kernel
  obtain ⟨r, hr, hreward⟩ := Option.any_eq_true _ _ |>.mp hrun
  have hok := toOption_eq_some_iff.mp hr
  have hconserved := connectBlock_conserves_value (openContext .regtest 2) chainedBlock thirdIndex
    chainedView false r (coinbasePaying 10) _ 0 (fun h => absurd h (by decide))
    (sound_over _)
    (forall_visible_viewOfCoins (P := fun coin => moneyRange coin.out.nValue) (by decide))
    hok rfl (of_decide_eq_true hreward)
  exact ⟨r, hok, le_of_le_of_eq hconserved.1 (add_zero _)⟩

/-! ## A chain of blocks -/

/-- Blocks that are connected one after the other to the view the one before has left, and what they
    may mint: their subsidies and what their coinbases take in excess of the block reward. -/
inductive ConnectedChain : CCoinsViewCache → ℤ → CCoinsViewCache → Prop
  | nil (view : CCoinsViewCache) : ConnectedChain view 0 view
  | cons {view view' : CCoinsViewCache} {ctx : NodeContext} {block : CBlock} {pindex : CBlockIndex}
      {fJustCheck : Bool} {r : ConnectResult} {coinbase : CTransaction} {rest : List CTransaction}
      {extra minted : ℤ} (hblock : block.CheckedBefore)
      (h : connectBlock ctx block pindex view fJustCheck = .ok r)
      (hvtx : block.vtx = coinbase :: rest)
      (hreward : sumValues coinbase.vout ≤ r.blockReward.toInt + extra)
      (hchain : ConnectedChain r.view minted view') :
      ConnectedChain view ((pindex.subsidy ctx.net).toInt + extra + minted) view'

/-- **The supply along a chain.** However many blocks are connected to a sound view with values in the
    money range, the value of all coins grows by no more than they may mint. -/
theorem connectedChain_supply_le {view view' : CCoinsViewCache} {minted : ℤ} (hsound : view.Sound)
    (hrange : ∀ o coin, view.visible o = some coin → moneyRange coin.out.nValue = true)
    (h : ConnectedChain view minted view') :
    totalValue view'.visible ≤ totalValue view.visible + minted := by
  obtain ⟨hfunded, hweight⟩ := hsound.funded (coinValue_nonneg hrange)
  rw [← hweight]
  clear hsound hrange hweight
  induction h with
  | nil view => simpa using hfunded.totalValue_le
  | cons hblock h hvtx hreward hchain ih =>
    obtain ⟨hfunded', hweight'⟩ := connectBlock_funded hblock hfunded h hvtx hreward
    have htotal := ih hfunded'
    omega

/-- The block index entry of the next block. -/
def fourthIndex : CBlockIndex :=
  { phashBlock := some 5, nTime := 1500000000, ancestors := ⟨3, 1⟩ :: thirdIndex.ancestors,
    height_lt := by decide }

/-- A block that spends what `chainedBlock` has left. -/
def followingBlock : CBlock :=
  blockOf [{ coinbasePaying 10 with hash := 30 }, spending 31 ⟨22, 0⟩ [⟨2, [0x51]⟩]]

/-- A chain of two blocks. -/
theorem connectedChain_supply_le_following : ∃ view', ConnectedChain chainedView
      ((thirdIndex.subsidy .regtest).toInt + 0 + ((fourthIndex.subsidy .regtest).toInt + 0 + 0)) view'
    ∧ totalValue view'.visible ≤ totalValue chainedView.visible
      + ((thirdIndex.subsidy .regtest).toInt + 0 + ((fourthIndex.subsidy .regtest).toInt + 0 + 0)) := by
  have hrun : ((connectBlock (openContext .regtest 2) chainedBlock thirdIndex chainedView
      false).toOption.any fun r => decide (sumValues (coinbasePaying 10).vout ≤ r.blockReward.toInt + 0)
        && (connectBlock (openContext .regtest 3) followingBlock fourthIndex r.view false).toOption.any
          fun r' => decide (sumValues (coinbasePaying 10).vout ≤ r'.blockReward.toInt + 0)) := by
    decide +kernel
  obtain ⟨r, hr, hboth⟩ := (Option.any_eq_true _ _).mp hrun
  obtain ⟨hreward, hnext⟩ := Bool.and_eq_true_iff.mp hboth
  obtain ⟨r', hr', hreward'⟩ := (Option.any_eq_true _ _).mp hnext
  have hchain : ConnectedChain chainedView _ r'.view :=
    .cons (fun h => absurd h (by decide)) (toOption_eq_some_iff.mp hr) rfl (of_decide_eq_true hreward)
      (.cons (fun h => absurd h (by decide)) (toOption_eq_some_iff.mp hr') rfl
        (of_decide_eq_true hreward') (.nil _))
  exact ⟨r'.view, hchain, connectedChain_supply_le (CCoinsViewCache.sound_over _)
    (forall_visible_viewOfCoins (by decide)) hchain⟩

/-! ## A hoard -/

/-- The output of block 1 that is worth all the money, once for every `k`. -/
def hoardOutpoint (k : ℕ) : COutPoint := ⟨BitVec.ofNat 256 k, 0⟩

def hoardCoin : UnspentCoin := ⟨⟨⟨MAX_MONEY, [0x51]⟩, false, 1⟩, by decide⟩

/-- A transaction that spends it all for the fee. -/
def burn (k : ℕ) : CTransaction :=
  spending (BitVec.ofNat 256 (1000000 + k)) (hoardOutpoint k) [⟨0, [0x6a]⟩]

theorem isNull_hoardOutpoint (k : ℕ) : (hoardOutpoint k).isNull = false := by
  simp [hoardOutpoint, COutPoint.isNull]

theorem isCoinBase_burn (k : ℕ) : (burn k).isCoinBase = false := isNull_hoardOutpoint k

/-- The flags for block 3, which do not depend on its transactions. -/
def burnFlags : ConnectFlags := connectFlags (openContext .main 2) (blockOf []) thirdIndex

section

variable {k : ℕ} (hcoin : view.visible (hoardOutpoint k) = some hoardCoin.1)

include hcoin

theorem haveInputs_burn : ∃ view', ReadsTo view view' ∧ view.haveInputs (burn k) = (true, view') := by
  refine ⟨_, view.readsTo_haveCoin (hoardOutpoint k), ?_⟩
  have hhave : (view.haveCoin (hoardOutpoint k)).1 := by simp [haveCoin_eq, hcoin]
  rw [haveInputs, isCoinBase_burn]
  show (if (view.haveCoin (hoardOutpoint k)).1 then _ else _) = _
  rw [if_pos hhave]
  rfl

theorem accessCoin_burn : ∃ view', ReadsTo view view'
    ∧ view.accessCoin (hoardOutpoint k) = (hoardCoin.1, view') :=
  ⟨_, view.readsTo_accessCoin _, Prod.ext (accessCoin_of_visible hcoin) rfl⟩

theorem checkInputs_burn (flags : ScriptFlags) : ∃ view', ReadsTo view view'
    ∧ checkInputs (openContext .main 2) (burn k) view false flags = .ok ([], view') := by
  have hbest := view.readsTo_getBestBlock
  obtain ⟨view₁, h₁, hhave⟩ := haveInputs_burn ((hbest.visible _).trans hcoin)
  obtain ⟨view₂, h₂, haccess⟩ := accessCoin_burn (((hbest.trans h₁).visible _).trans hcoin)
  refine ⟨view₂, (hbest.trans h₁).trans h₂, bind_eq_ok_iff.mpr ⟨(3, view.getBestBlock.2), rfl,
    bind_eq_ok_iff.mpr ⟨view₂, ?_, rfl⟩⟩⟩
  have hvalues : checkInputValues 3 view₁ 0 (burn k).vin = .ok (0 + MAX_MONEY, view₂) := by
    rw [show (burn k).vin = [⟨hoardOutpoint k, [], 0xffffffff⟩] from rfl, checkInputValues, haccess]
    have hrange : moneyRange MAX_MONEY && moneyRange (0 + MAX_MONEY) := by decide
    exact (bind_of_require rfl).trans ((bind_of_require rfl).trans (bind_of_require hrange))
  have hfee : (!decide (0 + MAX_MONEY < 0)) ∧ (!decide (0 + MAX_MONEY - 0 < 0))
      ∧ moneyRange (0 + (0 + MAX_MONEY - 0)) := by decide
  rw [checkTxInputs, hhave, bind_of_require rfl]
  refine bind_eq_ok_iff.mpr ⟨_, hvalues, bind_eq_ok_iff.mpr ⟨0, rfl, ?_⟩⟩
  exact (bind_of_require hfee.1).trans ((bind_of_require hfee.2.1).trans (bind_of_require hfee.2.2))

/-- The checks of a burning transaction pass, and its fee is all the money. -/
theorem connectChecks_burn {s : ConnectState} (hview : s.view = view) (hsigOps : s.nSigOps = 0) :
    ∃ view', connectChecks (openContext .main 2) burnFlags thirdIndex (burn k) s
      = .ok { s with view := view', nFees := s.nFees + MAX_MONEY } := by
  subst hview
  obtain ⟨view₁, h₁, hhave⟩ := haveInputs_burn hcoin
  obtain ⟨view₂, h₂, hheights⟩ := accessCoin_burn ((h₁.visible _).trans hcoin)
  obtain ⟨view₃, h₃, hp2sh⟩ := accessCoin_burn (((h₁.trans h₂).visible _).trans hcoin)
  obtain ⟨view₄, h₄, hvalue⟩ := accessCoin_burn ((((h₁.trans h₂).trans h₃).visible _).trans hcoin)
  obtain ⟨view₅, -, hchecks⟩ := checkInputs_burn
    (((((h₁.trans h₂).trans h₃).trans h₄).visible _).trans hcoin) burnFlags.flags
  refine ⟨view₅, ?_⟩
  have hvin : (burn k).vin = [⟨hoardOutpoint k, [], 0xffffffff⟩] := rfl
  have hsigs : addP2SHSigOps (openContext .main 2) burnFlags (burn k) view₂ 0 = .ok (0, view₃) := by
    rw [addP2SHSigOps, getP2SHSigOpCount, isCoinBase_burn, hvin, p2shSigOps, hp2sh]
    rfl
  have hvalueIn : view₃.getValueIn (burn k) = (0 + MAX_MONEY, view₄) := by
    rw [getValueIn, isCoinBase_burn, hvin]
    show (view₃.accessCoin (hoardOutpoint k)).2.sumValueIn _ [] = _
    rw [hvalue]
    rfl
  rw [connectChecks, isCoinBase_burn, hsigOps]
  show connectInputs (openContext .main 2) burnFlags thirdIndex (burn k) { s with nSigOps := 0 } = _
  rw [connectInputs, hhave, bind_of_require rfl, hvin, prevHeights, hheights]
  refine bind_eq_ok_iff.mpr ⟨(), rfl, bind_eq_ok_iff.mpr ⟨_, hsigs, bind_eq_ok_iff.mpr ⟨0, rfl, ?_⟩⟩⟩
  simp only [hvalueIn]
  refine bind_eq_ok_iff.mpr ⟨_, hchecks, ?_⟩
  simp only [append_nil, Int64.zero_add, Int64.sub_zero]

end

/-- **A coin is burned.** -/
theorem burn_connects {i k : ℕ} (hsound : s.view.Sound) (hsigOps : s.nSigOps = 0)
    (hcoin : s.view.visible (hoardOutpoint k) = some hoardCoin.1) :
    ∃ s', connectTx (openContext .main 2) burnFlags thirdIndex i (burn k) s = .ok s'
      ∧ s'.nSigOps = 0 ∧ s'.vChecks = s.vChecks ∧ s'.view.Sound
      ∧ s'.view.visible = Function.update s.view.visible (hoardOutpoint k) none
      ∧ s'.nFees = s.nFees + MAX_MONEY := by
  obtain ⟨view', hchecks⟩ := connectChecks_burn hcoin rfl hsigOps
  have hreads : ReadsTo s.view view' := (connectChecks_ok hchecks).reads
  have hspends : (burn k).spends = (burn k).vin := spends_of_not_isCoinBase (isCoinBase_burn k)
  have hcoins : InputCoins view' (burn k).vin [hoardCoin.1] :=
    .cons ((hreads.visible _).trans hcoin) .nil
  obtain ⟨view'', hspent, hsound', hvisible', -⟩ := spendInputs_sound (hreads.sound hsound) hcoins
    (by simp [burn, spending])
  -- the output cannot be spent, so it is not added
  have hupdate : updateCoins (burn k) view' thirdIndex.nHeight = .ok (⟨[hoardCoin.1]⟩, view'') := by
    rw [updateCoins, hspends]
    exact bind_eq_ok_iff.mpr ⟨_, hspent, rfl⟩
  refine ⟨_, bind_eq_ok_iff.mpr ⟨_, hchecks, bind_eq_ok_iff.mpr ⟨_, mapError_eq_ok_iff.mpr hupdate,
    rfl⟩⟩, hsigOps, rfl, hsound', ?_, rfl⟩
  rw [hvisible', funext hreads.visible]
  exact (removeAll_cons _ _ _).trans (removeAll_nil _)

/-- The hoard with `n` coins. -/
def hoard (n : ℕ) : List (COutPoint × UnspentCoin) :=
  (List.range n).map fun k => (hoardOutpoint k, hoardCoin)

theorem nodup_hoard {n : ℕ} (hn : n ≤ 2 ^ 256) : ((range n).map hoardOutpoint).Nodup := by
  refine List.Nodup.map_on (fun i hi j hj h => ?_) nodup_range
  have hhash : BitVec.ofNat 256 i = BitVec.ofNat 256 j := congrArg COutPoint.hash h
  have hmod := congrArg BitVec.toNat hhash
  rw [mem_range] at hi hj
  rwa [BitVec.toNat_ofNat, BitVec.toNat_ofNat, Nat.mod_eq_of_lt (by omega),
    Nat.mod_eq_of_lt (by omega)] at hmod

theorem visible_hoard {n : ℕ} (hn : n ≤ 2 ^ 256) {k : ℕ} (hk : k < n) :
    (viewOfCoins (hoard n)).visible (hoardOutpoint k) = some hoardCoin.1 := by
  rw [visible_viewOfCoins]
  refine putAll_of_mem ?_ ?_ _
  · rw [map_map, hoard, map_map]
    exact nodup_hoard hn
  · rw [hoard, map_map]
    exact mem_map.mpr ⟨k, mem_range.mpr hk, rfl⟩

theorem hoard_moneyRange (n : ℕ) (o : COutPoint) (coin : Coin)
    (h : (viewOfCoins (hoard n)).visible o = some coin) : moneyRange coin.out.nValue := by
  refine forall_visible_viewOfCoins (P := fun coin => moneyRange coin.out.nValue) ?_ o coin h
  intro binding hmem
  obtain ⟨k, -, rfl⟩ := mem_map.mp hmem
  show moneyRange hoardCoin.1.out.nValue
  decide

/-- Burning the coins of a hoard one after the other. -/
theorem burns_connect (ks : List ℕ) :
    ∀ {i : ℕ} {s : ConnectState} {fees : ℤ}, (ks.map hoardOutpoint).Nodup → s.view.Sound →
      s.nSigOps = 0 → s.vChecks = [] →
      (∀ k ∈ ks, s.view.visible (hoardOutpoint k) = some hoardCoin.1) →
      s.nFees = ofInt fees →
      ∃ s', connectTxs (openContext .main 2) burnFlags thirdIndex i (ks.map burn) s = .ok s'
        ∧ s'.vChecks = []
        ∧ s'.nFees = ofInt (fees + ks.length * 2100000000000000) := by
  induction ks with
  | nil =>
    intro i s fees _ _ _ hchecks _ hfees
    exact ⟨s, rfl, hchecks, by simpa using hfees⟩
  | cons k rest ih =>
    intro i s fees hnodup hsound hsigOps hchecks hcoins hfees
    rw [map_cons, nodup_cons] at hnodup
    rw [forall_mem_cons] at hcoins
    obtain ⟨s₁, hstep, hsigOps₁, hchecks₁, hsound₁, hvisible₁, hfees₁⟩ :=
      @burn_connects s i k hsound hsigOps hcoins.1
    have hcoins₁ : ∀ j ∈ rest, s₁.view.visible (hoardOutpoint j) = some hoardCoin.1 := by
      intro j hj
      rw [hvisible₁, Function.update_of_ne]
      · exact hcoins.2 j hj
      · exact fun heq => hnodup.1 (heq ▸ mem_map_of_mem hj)
    have hfees₁' : s₁.nFees = ofInt (fees + 2100000000000000) := by
      rw [hfees₁, hfees, ofInt_add]
      rfl
    obtain ⟨s', hrun, hchecks', hfees'⟩ := @ih (i + 1) s₁ _ hnodup.2 hsound₁ hsigOps₁
      (hchecks₁.trans hchecks) hcoins₁ hfees₁'
    refine ⟨s', bind_eq_ok_iff.mpr ⟨s₁, hstep, hrun⟩, hchecks', ?_⟩
    rw [hfees', length_cons]
    congr 1
    push_cast
    ring

/-- A coinbase that pays nothing. -/
def emptyCoinbase : CTransaction := { coinbasePaying 0 with vout := [⟨0, [0x6a]⟩] }

/-- The block that burns a hoard. -/
def burningBlock (n : ℕ) : CBlock := blockOf (emptyCoinbase :: (List.range n).map burn)

theorem tail_burningBlock (n : ℕ) : (burningBlock n).vtx.tail = (List.range n).map burn := rfl

theorem checkTransaction_burn (k : ℕ) : checkTransaction (burn k) = .ok () := by
  rw [checkTransaction, isCoinBase_burn]
  show (require (!(hoardOutpoint k).isNull) _ >>= fun _ => _) = _
  rw [isNull_hoardOutpoint]
  rfl

theorem serializeSize_burningBlock_le (n : ℕ) : (burningBlock n).serializeSize ≤ 200 + 61 * n := by
  have hsum : (((range n).map burn).map serializeSize).sum = 61 * n := by
    simp [map_map, show serializeSize ∘ burn = fun _ => 61 from rfl, mul_comm]
  have hcompact : getSizeOfCompactSize (burningBlock n).vtx.length ≤ 9 := by
    unfold getSizeOfCompactSize
    split_ifs <;> omega
  have hcoinbase : emptyCoinbase.serializeSize = 63 := rfl
  unfold CBlock.serializeSize
  rw [show (burningBlock n).vtx = emptyCoinbase :: (range n).map burn from rfl] at hcompact ⊢
  rw [map_cons, sum_cons, hsum, hcoinbase]
  omega

theorem checkBlockContent_burningBlock {n : ℕ} (hn : n ≤ 30000) :
    checkBlockContent (openContext .main 2) (burningBlock n) true true = .ok () := by
  have hsize := serializeSize_burningBlock_le n
  have hlength : (burningBlock n).vtx.length = n + 1 := by simp [burningBlock, blockOf]
  have hbounds : (!(burningBlock n).vtx.isEmpty
      && decide ((burningBlock n).vtx.length ≤ maxBlockSize true)
      && decide ((burningBlock n).serializeSize ≤ maxBlockSize true)) := by
    have hmax : maxBlockSize true = 2000000 := rfl
    simp only [hmax, Bool.and_eq_true, decide_eq_true_eq]
    exact ⟨⟨rfl, by omega⟩, by omega⟩
  have hfirst : (burningBlock n).vtx.head?.any isCoinBase := rfl
  have hothers : ((burningBlock n).vtx.tail.all fun tx => !tx.isCoinBase) := by
    rw [tail_burningBlock, all_map, all_eq_true]
    simp [isCoinBase_burn]
  have htxs : (burningBlock n).vtx.forM checkTransaction = .ok () := by
    rw [forM_eq_ok_iff]
    show ∀ tx ∈ emptyCoinbase :: (range n).map burn, checkTransaction tx = .ok ()
    rw [forall_mem_cons, forall_mem_map]
    exact ⟨by decide, fun k _ => checkTransaction_burn k⟩
  have hsigOps : decide (((burningBlock n).vtx.map (getLegacySigOpCount (openContext .main 2))).sum
      ≤ maxBlockSigOps true) := by
    have hcount : getLegacySigOpCount (openContext .main 2) = fun _ => 0 := by
      funext tx
      simp [getLegacySigOpCount, openContext]
    simp [hcount]
  rw [checkBlockContent, bind_of_require hbounds, bind_of_require hfirst, bind_of_require hothers,
    htxs]
  exact require_eq_ok_iff.mpr hsigOps

/-- The loop over the transactions of the block that burns a hoard. -/
theorem connectTxs_burningBlock {n : ℕ} (hn : n ≤ 2 ^ 256)
    (hreads : ReadsTo (viewOfCoins (hoard n)) view) :
    ∃ s, connectTxs (openContext .main 2)
        (connectFlags (openContext .main 2) (burningBlock n) thirdIndex) thirdIndex 0
        (burningBlock n).vtx ⟨view, ⟨[]⟩, 0, 0, []⟩ = .ok s
      ∧ s.vChecks = [] ∧ s.nFees = ofInt (n * 2100000000000000) := by
  have hcoins : ∀ k ∈ range n, view.visible (hoardOutpoint k) = some hoardCoin.1 :=
    fun k hk => (hreads.visible _).trans (visible_hoard hn (mem_range.mp hk))
  obtain ⟨s, hrun, hchecks, hfees⟩ := @burns_connect (range n) 1
    ⟨view, ⟨[]⟩, 0, 0, []⟩ 0 (nodup_hoard hn) (hreads.sound (sound_over _)) rfl rfl hcoins rfl
  refine ⟨s, bind_eq_ok_iff.mpr ⟨⟨view, ⟨[]⟩, 0, 0, []⟩, rfl, hrun⟩, hchecks, ?_⟩
  simp [hfees]

/-- **Burning a hoard** is accepted, as long as the wrapped fees cover the coinbase. -/
theorem connectBlock_burningBlock {n : ℕ} (hn : n ≤ 30000)
    (hpayments : checkCoinbasePayments (openContext .main 2) emptyCoinbase thirdIndex
      (ofInt (n * 2100000000000000) + thirdIndex.subsidy .main) = .ok ()) :
    ∃ r, connectBlock (openContext .main 2) (burningBlock n) thirdIndex (viewOfCoins (hoard n)) false
        = .ok r
      ∧ r.nFees = ofInt (n * 2100000000000000)
      ∧ r.blockReward = ofInt (n * 2100000000000000) + thirdIndex.subsidy .main := by
  have hreads := (viewOfCoins (hoard n)).readsTo_getBestBlock
  obtain ⟨s, hrun, hchecks, hfees⟩ := connectTxs_burningBlock (by omega) hreads
  have hcheck : checkBlock (openContext .main 2) (burningBlock n) true true
      = .ok { burningBlock n with fChecked := true } := by
    rw [checkBlock, checkBlockContent_burningBlock hn]
    rfl
  have hbip30 : ∀ view,
      checkBIP30 (openContext .main 2) (burningBlock n) thirdIndex view = .ok view := by
    intro view
    rw [checkBIP30, if_neg (by decide +kernel)]
  refine ⟨⟨s.view.setBestBlock 3, some s.blockundo, s.nFees, s.nFees + thirdIndex.subsidy .main⟩, ?_,
    hfees, by rw [hfees]⟩
  have hbest : decide ((thirdIndex.pprev.map IndexNode.hash).getD 0
      = (viewOfCoins (hoard n)).getBestBlock.1) := decide_eq_true rfl
  have hscripts : s.vChecks.all (CScriptCheck.passes (openContext .main 2)) := by
    rw [hchecks]
    rfl
  refine bind_eq_ok_iff.mpr ⟨_, hcheck, ?_⟩
  refine bind_eq_ok_iff.mpr ⟨(), require_eq_ok_iff.mpr hbest, ?_⟩
  refine bind_eq_ok_iff.mpr ⟨_, hbip30 _, ?_⟩
  refine bind_eq_ok_iff.mpr ⟨s, hrun, ?_⟩
  refine bind_eq_ok_iff.mpr ⟨(), ?_, ?_⟩
  · rw [hfees]
    exact hpayments
  · rw [bind_of_require hscripts]
    rfl

/-- A block with 8786 transactions, each of which pays `MAX_MONEY` as its fee, is accepted. The fees
    add up to more than `2 ^ 64`, and `nFees` comes out as a small positive amount. -/
theorem connectBlock_fees_wrap :
    (∀ o coin, (viewOfCoins (hoard 8786)).visible o = some coin →
        moneyRange coin.out.nValue = true)
      ∧ (∀ tx ∈ (burningBlock 8786).vtx.tail, sumValues tx.vout = 0
        ∧ ∃ coin, tx.vin.map (fun txin => (viewOfCoins (hoard 8786)).visible txin.prevout)
          = [some coin] ∧ coin.out.nValue = MAX_MONEY)
      ∧ (burningBlock 8786).vtx.tail.length * MAX_MONEY.toInt = 18450600000000000000
      ∧ ∃ r, connectBlock (openContext .main 2) (burningBlock 8786) thirdIndex
          (viewOfCoins (hoard 8786)) false = .ok r
        ∧ sumValues emptyCoinbase.vout ≤ r.blockReward.toInt
        ∧ r.nFees.toInt = 3855926290448384 := by
  refine ⟨hoard_moneyRange 8786, ?_, ?_, ?_⟩
  · rw [tail_burningBlock, forall_mem_map]
    intro k hk
    have hcoin := visible_hoard (n := 8786) (by norm_num) (mem_range.mp hk)
    have hout : sumValues [⟨0, [0x6a]⟩] = 0 := by decide
    exact ⟨hout, hoardCoin.1, congrArg (fun coin => [coin]) hcoin, rfl⟩
  · simp [tail_burningBlock, length_map, length_range, toInt_MAX_MONEY]
  · obtain ⟨r, hok, hfees, hreward⟩ :=
      connectBlock_burningBlock (n := 8786) (by norm_num) (by decide +kernel)
    exact ⟨r, hok, by rw [hreward]; decide +kernel, by rw [hfees]; decide +kernel⟩

end Binarium
