import Binarium.Coins.Sound
import Binarium.Lib.Journal
import Binarium.Validation.DisconnectBlock

set_option autoImplicit false

/-! # What the parts of `ConnectBlock` do

For every function that `ConnectBlock` calls, one lemma says what a successful call means. All
checks only read the view (`ReadsTo`); what they learn is that the inputs are visible, and how their
values add up. -/

namespace Binarium

open Checks ReadsTo

/-! ## Reading coins -/

theorem CCoinsViewCache.readsTo_accessCoin (view : CCoinsViewCache) (outpoint : COutPoint) :
    ReadsTo view (view.accessCoin outpoint).2 := ReadsTo.fetchCoin view outpoint

theorem CCoinsViewCache.readsTo_haveCoin (view : CCoinsViewCache) (outpoint : COutPoint) :
    ReadsTo view (view.haveCoin outpoint).2 := ReadsTo.fetchCoin view outpoint

variable {view view' : CCoinsViewCache} {coins : List Coin} {vin : List CTxIn} {tx : CTransaction}
  {ctx : NodeContext} {cf : ConnectFlags} {pindex : CBlockIndex} {s' : ConnectState}

theorem CCoinsViewCache.visible_of_accessCoin {outpoint : COutPoint}
    (h : (view.accessCoin outpoint).1.isSpent = false) :
    view.visible outpoint = some (view.accessCoin outpoint).1 := by
  rw [← view.accessCoin_unspent outpoint]
  exact Coin.unspent_of_not_isSpent h

theorem CCoinsViewCache.accessCoin_of_visible {outpoint : COutPoint} {coin : Coin}
    (h : view.visible outpoint = some coin) : (view.accessCoin outpoint).1 = coin := by
  rw [← view.accessCoin_unspent outpoint] at h
  exact Coin.eq_of_unspent h

/-- The coins that a view shows for inputs. -/
def InputCoins (view : CCoinsViewCache) (vin : List CTxIn) (coins : List Coin) : Prop :=
  List.Forall₂ (fun txin coin => view.visible txin.prevout = some coin) vin coins

theorem InputCoins.readsTo (hcoins : InputCoins view vin coins) (h : ReadsTo view view') :
    InputCoins view' vin coins :=
  hcoins.imp fun _ _ hcoin => (h.visible _).trans hcoin

theorem InputCoins.of_readsTo (h : ReadsTo view view') (hcoins : InputCoins view' vin coins) :
    InputCoins view vin coins :=
  hcoins.imp fun _ _ hcoin => (h.visible _).symm.trans hcoin

theorem InputCoins.of_visible_ne (hcoins : InputCoins view vin coins) {o : COutPoint}
    (ho : o ∉ vin.map CTxIn.prevout) (hne : ∀ o', o' ≠ o → view'.visible o' = view.visible o') :
    InputCoins view' vin coins := by
  induction hcoins with
  | nil => exact .nil
  | @cons txin coin rest coins hcoin _ ih =>
    rw [List.map_cons, List.mem_cons, not_or] at ho
    exact .cons ((hne _ (Ne.symm ho.1)).trans hcoin) (ih ho.2)

/-! ## The inputs -/

theorem CTransaction.spends_of_isCoinBase (h : tx.isCoinBase) : tx.spends = [] := if_pos h

theorem CTransaction.spends_of_not_isCoinBase (h : tx.isCoinBase = false) :
    tx.spends = tx.vin := if_neg (by simp [h])

open CCoinsViewCache

theorem readsTo_haveAll (vin : List CTxIn) (view : CCoinsViewCache) :
    ReadsTo view (view.haveAll vin).2 := by
  induction vin generalizing view with
  | nil => exact refl view
  | cons txin rest ih =>
    simp only [haveAll]
    split
    · exact (view.readsTo_haveCoin txin.prevout).trans (ih _)
    · exact view.readsTo_haveCoin txin.prevout

theorem readsTo_haveInputs (tx : CTransaction) (view : CCoinsViewCache) :
    ReadsTo view (view.haveInputs tx).2 := by
  unfold haveInputs
  split
  · exact refl view
  · exact readsTo_haveAll tx.vin view

theorem readsTo_prevHeights (vin : List CTxIn) (view : CCoinsViewCache) :
    ReadsTo view (view.prevHeights vin).2 := by
  induction vin generalizing view with
  | nil => exact refl view
  | cons txin rest ih => exact (view.readsTo_accessCoin txin.prevout).trans (ih _)

theorem readsTo_sumValueIn (vin : List CTxIn) (view : CCoinsViewCache) (nResult : CAmount) :
    ReadsTo view (view.sumValueIn nResult vin).2 := by
  induction vin generalizing view nResult with
  | nil => exact refl view
  | cons txin rest ih => exact (view.readsTo_accessCoin txin.prevout).trans (ih _ _)

theorem readsTo_getValueIn (tx : CTransaction) (view : CCoinsViewCache) :
    ReadsTo view (view.getValueIn tx).2 := by
  unfold getValueIn
  split
  · exact refl view
  · exact readsTo_sumValueIn tx.vin view 0

theorem readsTo_p2shSigOps (vin : List CTxIn) :
    ∀ {view : CCoinsViewCache} {count : ℕ × CCoinsViewCache},
      p2shSigOps ctx view vin = .ok count → ReadsTo view count.2 := by
  induction vin with
  | nil =>
    rintro view _ ⟨⟩
    exact refl view
  | cons txin rest ih =>
    intro view count h
    obtain ⟨-, h⟩ := require_bind h
    obtain ⟨more, hmore, ⟨⟩⟩ := bind_eq_ok_iff.mp h
    have hrest := ih hmore
    exact (view.readsTo_accessCoin txin.prevout).trans hrest

theorem readsTo_addP2SHSigOps {nSigOps : ℕ} {count : ℕ × CCoinsViewCache}
    (h : addP2SHSigOps ctx cf tx view nSigOps = .ok count) : ReadsTo view count.2 := by
  unfold addP2SHSigOps at h
  split at h
  · obtain ⟨more, hmore, h⟩ := bind_eq_ok_iff.mp h
    obtain ⟨-, ⟨⟩⟩ := require_bind h
    unfold getP2SHSigOpCount at hmore
    split at hmore
    · cases hmore
      exact refl view
    · have hall := readsTo_p2shSigOps tx.vin hmore
      exact hall
  · cases h
    exact refl view

/-! ## The values of the inputs -/

/-- The sum of coin values as the code computes it. -/
def addCoinValues (nValueIn : CAmount) (coins : List Coin) : CAmount :=
  coins.foldl (fun sum coin => sum + coin.out.nValue) nValueIn

/-- The exact sum of coin values. -/
def sumCoins (coins : List Coin) : ℤ := sumValues (coins.map Coin.out)

theorem sumCoins_cons (coin : Coin) (coins : List Coin) :
    sumCoins (coin :: coins) = coin.out.nValue.toInt + sumCoins coins := by
  simp [sumCoins]

theorem sumValueIn_eq :
    ∀ {view : CCoinsViewCache} {nResult : CAmount}, InputCoins view vin coins →
      (view.sumValueIn nResult vin).1 = addCoinValues nResult coins := by
  induction vin generalizing coins with
  | nil =>
    rintro view nResult ⟨⟩
    rfl
  | cons txin rest ih =>
    rintro view nResult (_ | ⟨hcoin, hrest⟩)
    simp only [sumValueIn]
    rw [accessCoin_of_visible hcoin,
      ih (InputCoins.readsTo hrest (view.readsTo_accessCoin txin.prevout))]
    rfl

theorem checkInputValues_ok {nSpendHeight : ℤ} (vin : List CTxIn) :
    ∀ {view : CCoinsViewCache} {nValueIn : CAmount} {result : CAmount × CCoinsViewCache},
      moneyRange nValueIn →
      checkInputValues nSpendHeight view nValueIn vin = .ok result →
      ReadsTo view result.2 ∧ ∃ coins, InputCoins view vin coins
        ∧ result.1 = addCoinValues nValueIn coins ∧ moneyRange result.1
        ∧ result.1.toInt = nValueIn.toInt + sumCoins coins
        ∧ ∀ coin ∈ coins, moneyRange coin.out.nValue := by
  induction vin with
  | nil =>
    rintro view nValueIn _ hrange ⟨⟩
    exact ⟨refl view, [], .nil, rfl, hrange, by simp [sumCoins, sumValues], by simp⟩
  | cons txin rest ih =>
    intro view nValueIn result hrange h
    obtain ⟨hspent, h⟩ := require_bind h
    obtain ⟨-, h⟩ := require_bind h
    obtain ⟨hranges, h⟩ := require_bind h
    rw [Bool.and_eq_true] at hranges
    have hreads := view.readsTo_accessCoin txin.prevout
    have hcoin := visible_of_accessCoin (by simpa using hspent)
    obtain ⟨hreads', coins, hcoins, hsum, hrange', hexact, hvalues⟩ := ih hranges.2 h
    refine ⟨hreads.trans hreads', _ :: coins, .cons hcoin (hcoins.of_readsTo hreads), hsum, hrange',
      ?_, List.forall_mem_cons.mpr ⟨hranges.1, hvalues⟩⟩
    rw [hexact, sumCoins_cons, toInt_add_of_moneyRange hrange hranges.1]
    ring

theorem valueOutOrThrow_eq_ok_iff {nValueOut : CAmount} :
    valueOutOrThrow tx = .ok nValueOut ↔ tx.getValueOut = some nValueOut := by
  unfold valueOutOrThrow
  cases tx.getValueOut <;> simp

/-- The coins of the inputs, the value of the outputs and the fee of a transaction, with nothing
    lost to an overflow. -/
structure FeeOk (view : CCoinsViewCache) (tx : CTransaction) (coins : List Coin)
    (nValueIn nValueOut : CAmount) : Prop where
  inputs : InputCoins view tx.vin coins
  coin_range : ∀ coin ∈ coins, moneyRange coin.out.nValue = true
  valueIn : nValueIn = addCoinValues 0 coins
  valueIn_exact : nValueIn.toInt = sumCoins coins
  valueIn_range : moneyRange nValueIn = true
  valueOut : tx.getValueOut = some nValueOut
  valueOut_exact : nValueOut.toInt = sumValues tx.vout
  fee_exact : (nValueIn - nValueOut).toInt = sumCoins coins - sumValues tx.vout
  fee_range : moneyRange (nValueIn - nValueOut) = true

/-- **`CheckTxInputs`**: the inputs are there, and their values, the output value and the fee are in
    the money range and exact. -/
theorem checkTxInputs_ok {nSpendHeight : ℤ} (h : checkTxInputs tx view nSpendHeight = .ok view') :
    ReadsTo view view' ∧ ∃ coins nValueIn nValueOut, FeeOk view tx coins nValueIn nValueOut := by
  obtain ⟨-, h⟩ := require_bind h
  obtain ⟨valueIn, hvalueIn, h⟩ := bind_eq_ok_iff.mp h
  obtain ⟨nValueOut, hvalueOut, h⟩ := bind_eq_ok_iff.mp h
  obtain ⟨hbelow, h⟩ := require_bind h
  obtain ⟨-, h⟩ := require_bind h
  obtain ⟨-, ⟨⟩⟩ := require_bind h
  have havailable := readsTo_haveInputs tx view
  obtain ⟨hreads, coins, hcoins, hsum, hrange, hexact, hvalues⟩ :=
    checkInputValues_ok tx.vin (by decide) hvalueIn
  have hout := valueOutOrThrow_eq_ok_iff.mp hvalueOut
  obtain ⟨houtSum, houtRange, -⟩ := getValueOut_spec hout
  rw [Int64.toInt_zero, zero_add] at hexact
  have hin := (moneyRange_iff valueIn.1).mp hrange
  have hout' := (moneyRange_iff nValueOut).mp houtRange
  rw [Bool.not_eq_true', decide_eq_false_iff_not, Int64.not_lt, Int64.le_iff_toInt_le] at hbelow
  have hfee : (valueIn.1 - nValueOut).toInt = valueIn.1.toInt - nValueOut.toInt :=
    Int64.toInt_sub_of_range (by omega) (by omega)
  exact ⟨havailable.trans hreads, coins, valueIn.1, nValueOut,
    hcoins.of_readsTo havailable, hvalues, hsum, hexact, hrange, hout, houtSum,
    by rw [hfee, hexact, houtSum], by rw [moneyRange_iff, hfee]; omega⟩

theorem readsTo_checkInputScripts {flags : ScriptFlags} (vin : List CTxIn) :
    ∀ {view : CCoinsViewCache} {i : ℕ} {checks : List CScriptCheck × CCoinsViewCache},
      checkInputScripts ctx tx flags view i vin = .ok checks → ReadsTo view checks.2 := by
  induction vin with
  | nil =>
    rintro view i _ ⟨⟩
    exact refl view
  | cons txin rest ih =>
    intro view i checks h
    obtain ⟨-, h⟩ := require_bind h
    obtain ⟨pending, -, h⟩ := bind_eq_ok_iff.mp h
    obtain ⟨more, hmore, ⟨⟩⟩ := bind_eq_ok_iff.mp h
    have hrest := ih hmore
    exact (view.readsTo_accessCoin txin.prevout).trans hrest

theorem readsTo_getSpendHeight {spend : ℤ × CCoinsViewCache}
    (h : getSpendHeight ctx view = .ok spend) : ReadsTo view spend.2 := by
  simp only [getSpendHeight] at h
  split at h
  · cases h
    exact view.readsTo_getBestBlock
  · simp at h

theorem checkInputs_ok {fScriptChecks : Bool} {flags : ScriptFlags}
    {checks : List CScriptCheck × CCoinsViewCache}
    (h : checkInputs ctx tx view fScriptChecks flags = .ok checks) :
    ReadsTo view checks.2 ∧ ∃ coins nValueIn nValueOut, FeeOk view tx coins nValueIn nValueOut := by
  obtain ⟨spend, hspend, h⟩ := bind_eq_ok_iff.mp h
  obtain ⟨view', hview', h⟩ := bind_eq_ok_iff.mp h
  have hbest := readsTo_getSpendHeight hspend
  obtain ⟨hreads, coins, nValueIn, nValueOut, hfee⟩ := checkTxInputs_ok hview'
  have hscripts : ReadsTo view' checks.2 := by
    unfold checkScripts at h
    split at h
    · exact readsTo_checkInputScripts tx.vin h
    · cases h
      exact refl view'
  exact ⟨hbest.trans (hreads.trans hscripts), coins, nValueIn, nValueOut,
    { hfee with inputs := hfee.inputs.of_readsTo hbest }⟩

/-! ## One transaction -/

/-- What the checks of a transaction establish: they only read, and for a transaction that is not a
    coinbase they find the coins of the inputs and add the exact fee. -/
structure ChecksOk (tx : CTransaction) (s s' : ConnectState) : Prop where
  reads : ReadsTo s.view s'.view
  blockundo : s'.blockundo = s.blockundo
  coinbase : tx.isCoinBase = true → s'.nFees = s.nFees
  spending : tx.isCoinBase = false → ∃ coins nValueIn nValueOut,
    FeeOk s.view tx coins nValueIn nValueOut ∧ s'.nFees = s.nFees + (nValueIn - nValueOut)

theorem connectInputs_ok {s : ConnectState} (hcoinbase : tx.isCoinBase = false)
    (h : connectInputs ctx cf pindex tx s = .ok s') : ChecksOk tx s s' := by
  obtain ⟨-, h⟩ := require_bind h
  obtain ⟨-, h⟩ := require_bind h
  obtain ⟨sigOps, hsigOps, h⟩ := bind_eq_ok_iff.mp h
  obtain ⟨nValueOut', hvalueOut, h⟩ := bind_eq_ok_iff.mp h
  obtain ⟨checks, hchecks, h⟩ := bind_eq_ok_iff.mp h
  cases h
  have hbefore : ReadsTo s.view sigOps.2 := (readsTo_haveInputs tx s.view).trans
    ((readsTo_prevHeights tx.vin _).trans (readsTo_addP2SHSigOps hsigOps))
  have hvalue := readsTo_getValueIn tx sigOps.2
  obtain ⟨hreads, coins, nValueIn, nValueOut, hfee⟩ := checkInputs_ok hchecks
  refine ⟨hbefore.trans (hvalue.trans hreads), rfl, by simp [hcoinbase], ?_⟩
  intro _
  refine ⟨coins, nValueIn, nValueOut,
    { hfee with inputs := hfee.inputs.of_readsTo (hbefore.trans hvalue) }, ?_⟩
  -- the sum that enters the fees is the one that CheckTxInputs checks afterwards
  have hsum : (sigOps.2.getValueIn tx).1 = nValueIn := by
    rw [hfee.valueIn, getValueIn, hcoinbase]
    exact sumValueIn_eq (hfee.inputs.of_readsTo hvalue)
  have hout : nValueOut' = nValueOut :=
    Option.some.inj ((valueOutOrThrow_eq_ok_iff.mp hvalueOut).symm.trans hfee.valueOut)
  rw [hsum, hout]

theorem connectChecks_ok {s : ConnectState} (h : connectChecks ctx cf pindex tx s = .ok s') :
    ChecksOk tx s s' := by
  obtain ⟨-, h⟩ := require_bind h
  split_ifs at h with hcoinbase
  · cases h
    exact ⟨refl s.view, rfl, fun _ => rfl, by simp [hcoinbase]⟩
  · have hchecks := connectInputs_ok (by simpa using hcoinbase) h
    exact ⟨hchecks.reads, hchecks.blockundo, hchecks.coinbase, hchecks.spending⟩

/-- A transaction that was connected: its checks, then `UpdateCoins`. -/
theorem connectTx_ok {i : ℕ} {s : ConnectState} (h : connectTx ctx cf pindex i tx s = .ok s') :
    ∃ checked undo, ChecksOk tx s checked
      ∧ updateCoins tx checked.view pindex.nHeight = .ok (undo, s'.view)
      ∧ s'.nFees = checked.nFees
      ∧ s'.blockundo = if i = 0 then s.blockundo else ⟨s.blockundo.vtxundo ++ [undo]⟩ := by
  obtain ⟨checked, hchecked, h⟩ := bind_eq_ok_iff.mp h
  obtain ⟨updated, hupdated, ⟨⟩⟩ := bind_eq_ok_iff.mp h
  have hchecks := connectChecks_ok hchecked
  exact ⟨checked, updated.1, hchecks, mapError_eq_ok_iff.mp hupdated, rfl, by rw [hchecks.blockundo]⟩

/-! ## The block -/

theorem checkOverwrites_ok (outpoints : List COutPoint) :
    ∀ {view view' : CCoinsViewCache}, checkOverwrites view outpoints = .ok view' →
      ReadsTo view view' ∧ ∀ o ∈ outpoints, view.visible o = none := by
  induction outpoints with
  | nil =>
    rintro view _ ⟨⟩
    exact ⟨refl view, by simp⟩
  | cons outpoint rest ih =>
    intro view view' h
    obtain ⟨hnone, h⟩ := require_bind h
    have hreads := view.readsTo_haveCoin outpoint
    obtain ⟨hreads', hrest⟩ := ih h
    refine ⟨hreads.trans hreads', List.forall_mem_cons.mpr ⟨?_, ?_⟩⟩
    · rw [view.haveCoin_eq] at hnone
      simpa using hnone
    · exact fun o ho => (hreads.visible o).symm.trans (hrest o ho)

theorem checkBIP30_ok {block : CBlock} (h : checkBIP30 ctx block pindex view = .ok view') :
    ReadsTo view view' ∧ (fEnforceBIP30 ctx pindex →
      ∀ tx ∈ block.vtx, ∀ o ∈ tx.outpoints, view.visible o = none) := by
  unfold checkBIP30 at h
  split_ifs at h with henforce
  · obtain ⟨hreads, hnone⟩ := checkOverwrites_ok _ h
    exact ⟨hreads, fun _ tx htx o ho => hnone o (List.mem_flatMap.mpr ⟨tx, htx, ho⟩)⟩
  · cases h
    exact ⟨refl view, fun h => absurd h henforce⟩

theorem moveBestBlock_ok {fJustCheck : Bool} (h : moveBestBlock view pindex fJustCheck = .ok view') :
    ReadsTo view view' ∧ (fJustCheck = false →
      ∃ hash, pindex.phashBlock = some hash ∧ view' = view.setBestBlock hash) := by
  unfold moveBestBlock at h
  split_ifs at h with hcheck
  · cases h
    exact ⟨refl view, by simp [hcheck]⟩
  · obtain ⟨hash, hhash, ⟨⟩⟩ := bind_eq_ok_iff.mp h
    refine ⟨view.readsTo_setBestBlock hash, fun _ => ⟨hash, ?_, rfl⟩⟩
    have hhash := mapError_eq_ok_iff.mp hhash
    unfold CBlockIndex.getBlockHash at hhash
    split at hhash
    · next hsome =>
        cases hhash
        exact hsome
    · simp at hhash

/-- What `ConnectBlock` went through for a block that is not the genesis block: the view before the
    loop, and the variables after it. -/
structure Connected (ctx : NodeContext) (block : CBlock) (pindex : CBlockIndex)
    (view : CCoinsViewCache) (fJustCheck : Bool) (r : ConnectResult) (prev : IndexNode)
    (view₁ : CCoinsViewCache) (s : ConnectState) : Prop where
  pprev : pindex.pprev = some prev
  best : prev.hash = view.getBestBlock.1
  not_genesis : ctx.getHash block.header ≠ ctx.hashGenesisBlock
  start : checkBIP30 ctx block pindex view.getBestBlock.2 = .ok view₁
  reads : ReadsTo view view₁
  bip30 : fEnforceBIP30 ctx pindex = true →
    ∀ tx ∈ block.vtx, ∀ o ∈ tx.outpoints, view.visible o = none
  loop : connectTxs ctx (connectFlags ctx block pindex) pindex 0 block.vtx ⟨view₁, ⟨[]⟩, 0, 0, []⟩
    = .ok s
  moved : moveBestBlock s.view pindex fJustCheck = .ok r.view
  undo : r.blockundo = if fJustCheck then none else some s.blockundo
  fees : r.nFees = s.nFees
  reward : r.blockReward = s.nFees + getBlockSubsidy ctx.net prev.nBits (pindex.nHeight - 1)
    (consensusParams ctx.net) false

/-- **`ConnectBlock`** either accepted the genesis block, which changes no coin, or went through the
    loop over the transactions. -/
theorem connectBlock_ok {block : CBlock} {fJustCheck : Bool} {r : ConnectResult}
    (h : connectBlock ctx block pindex view fJustCheck = .ok r) :
    (∃ block', checkBlock ctx block (!fJustCheck) (!fJustCheck) = .ok block')
      ∧ ((ctx.getHash block.header = ctx.hashGenesisBlock ∧ ReadsTo view r.view
          ∧ r.blockundo = none ∧ r.blockReward = 0)
        ∨ ∃ prev view₁ s, Connected ctx block pindex view fJustCheck r prev view₁ s) := by
  obtain ⟨block', hcheck, h⟩ := bind_eq_ok_iff.mp h
  refine ⟨⟨block', hcheck⟩, ?_⟩
  have hbest := view.readsTo_getBestBlock
  obtain ⟨hassert, h⟩ := require_bind h
  split at h
  · next hgenesis =>
      obtain ⟨view', hmoved, ⟨⟩⟩ := bind_eq_ok_iff.mp h
      exact .inl ⟨hgenesis, hbest.trans (moveBestBlock_ok hmoved).1, rfl, rfl⟩
  · next hgenesis =>
      refine .inr ?_
      split at h
      · simp at h
      · next prev hprev =>
          obtain ⟨view₁, hbip30, h⟩ := bind_eq_ok_iff.mp h
          obtain ⟨s, hloop, h⟩ := bind_eq_ok_iff.mp h
          split at h
          · simp at h
          · obtain ⟨_, -, h⟩ := bind_eq_ok_iff.mp h
            obtain ⟨-, h⟩ := require_bind h
            obtain ⟨view₂, hmoved, ⟨⟩⟩ := bind_eq_ok_iff.mp h
            obtain ⟨hreads, hnone⟩ := checkBIP30_ok hbip30
            refine ⟨prev, view₁, s, hprev, ?_, hgenesis, hbip30, hbest.trans hreads, ?_, hloop, hmoved,
              rfl, rfl, rfl⟩
            · rw [hprev] at hassert
              exact of_decide_eq_true hassert
            · exact fun henforce tx htx o ho =>
                (hbest.visible o).symm.trans (hnone henforce tx htx o ho)

end Binarium
