import Binarium.MasternodePayments
import Binarium.SuperblockPayments

set_option autoImplicit false

/-! # Block templates and block validation (`masternode-payments.cpp`, `governance-classes.cpp`)

A miner completes the coinbase with `FillBlockPayments`; every node then checks it with
`IsBlockValueValid` and `IsBlockPayeeValid`. At the height of a triggered superblock the miner
appends the payments of the best trigger (`CreateSuperblock`) and both checks come down to
`CSuperblock::IsValid` for the same trigger.

`CreateSuperblock` does not look at the payments limit and does not ask whether the amounts add up,
`CSuperblock::IsValid` does. So the two agree for a trigger that is within the limit and payable
(`superblockTemplate_isValid`), and a triggered superblock over the limit cannot be mined at all:
a coinbase without the payments is refused just as well. -/

namespace Binarium

open List

/-- The state outside the block, with what masternode payments need: the enforcement spork, the votes
    and the script of the masternode that is next in the queue. -/
structure PayeeContext extends PaymentsContext where
  spork8MasternodePaymentEnforcement : Bool
  mnpayments : CMasternodePayments
  nextInQueue : Option CScript

/-! ## The checks of a validator -/

variable (net : Network) (payments : List CGovernancePayment)

/-- `CSuperblock::IsValid` for a transaction; `none` is the exception of `GetValueOut`, which comes
    after the checks that do not need the value. -/
def CSuperblock.checkTransaction (sb : CSuperblock) (txNew : CTransaction) (nBlockHeight : ℕ)
    (blockReward : CAmount) : Option Bool :=
  match txNew.getValueOut with
  | some nBlockValue => some (sb.isValid net txNew nBlockValue nBlockHeight blockReward)
  | none =>
    if isValidBlockHeight (consensusParams net) nBlockHeight = true
        ∧ sb.vecPayments.length ≤ txNew.vout.length
        ∧ sb.getPaymentsTotalAmount ≤ getPaymentsLimit net nBlockHeight then none
    else some false

/-- A failed masternode payment is accepted if `otherwise` is. -/
def payeeValidOr (check : Option Bool) (otherwise : Bool) : Option Bool :=
  check.map fun valid => valid || otherwise

/-- `IsBlockPayeeValid`; `none` is the exception of `GetValueOut`. -/
def isBlockPayeeValid (ctx : PayeeContext) (txNew : CTransaction) (nBlockHeight : ℕ)
    (blockReward : CAmount) : Option Bool :=
  let params := consensusParams net
  if !ctx.isSynced then some true
  else if nBlockHeight < params.nSuperblockStartBlock then
    payeeValidOr (ctx.mnpayments.isTransactionValid params txNew nBlockHeight)
      (if inBudgetWindow params nBlockHeight then ctx.spork13OldSuperblockFlag
      else !ctx.spork8MasternodePaymentEnforcement)
  else if ctx.spork9SuperblocksEnabled
      && isSuperblockTriggered params ctx.toPaymentsContext nBlockHeight then
    match getBestSuperblock params ctx.toPaymentsContext nBlockHeight with
    | some sb => sb.checkTransaction net txNew nBlockHeight blockReward
    | none => some false
  else
    payeeValidOr (ctx.mnpayments.isTransactionValid params txNew nBlockHeight)
      (!ctx.spork8MasternodePaymentEnforcement)

/-! ## The template of a miner -/

/-- What `FillBlockPayments` works on: the coinbase, `txoutMasternodeRet` and
    `voutSuperblockRet`. -/
structure TemplatePayments where
  txNew : CMutableTransaction
  txoutMasternode : CTxOut
  voutSuperblock : List CTxOut
deriving DecidableEq

/-- `CSuperblockManager::CreateSuperblock`. -/
def createSuperblock (ctx : PaymentsContext) (nBlockHeight : ℕ) (template : TemplatePayments) :
    TemplatePayments :=
  match getBestSuperblock (consensusParams net) ctx nBlockHeight with
  | none => template
  | some sb =>
    let payments := sb.vecPayments.map CGovernancePayment.toTxOut
    { template with
      txNew := { template.txNew with vout := template.txNew.vout ++ payments }
      voutSuperblock := payments }

/-- `FillBlockPayments`. -/
def fillBlockPayments (ctx : PayeeContext) (nBlockHeight : ℕ) (blockReward : CAmount)
    (template : TemplatePayments) : TemplatePayments :=
  let params := consensusParams net
  if ctx.spork9SuperblocksEnabled
      && isSuperblockTriggered params ctx.toPaymentsContext nBlockHeight then
    createSuperblock net ctx.toPaymentsContext nBlockHeight template
  else
    let (txNew, txoutMasternode) := ctx.mnpayments.fillBlockPayee params ctx.nextInQueue
      template.txNew nBlockHeight blockReward
    { template with txNew, txoutMasternode }

/-- The coinbase that `CreateNewBlock` passes on: the reward to the miner, completed by
    `FillBlockPayments`. -/
def minedCoinbase (ctx : PayeeContext) (scriptPubKeyIn scriptSig : CScript) (nBlockHeight : ℕ)
    (blockReward : CAmount) (hash : Uint256) : CTransaction :=
  (fillBlockPayments net ctx nBlockHeight blockReward
    ⟨coinbaseTemplate scriptPubKeyIn scriptSig blockReward, CTxOut.null, []⟩).txNew.toTransaction
    hash

/-! ## What a payable superblock is -/

/-- The exact sum of the payments. -/
def sumPayments : ℤ :=
  (payments.map fun payment => payment.nAmount.toInt).sum

theorem sumPayments_eq :
    sumPayments payments = sumValues (payments.map CGovernancePayment.toTxOut) := by
  rw [sumValues, map_map]
  rfl

theorem sumPayments_nonneg {payments : List CGovernancePayment}
    (hrange : ∀ payment ∈ payments, moneyRange payment.nAmount) : 0 ≤ sumPayments payments := by
  rw [sumPayments_eq]
  refine sumValues_nonneg fun txout hmem => ?_
  obtain ⟨payment, hpayment, rfl⟩ := mem_map.mp hmem
  exact hrange payment hpayment

/-- The reward and the payments are in the money range, also together. -/
structure Payable (sb : CSuperblock) (blockReward : CAmount) : Prop where
  reward : moneyRange blockReward = true
  payments : ∀ payment ∈ sb.vecPayments, moneyRange payment.nAmount = true
  together : blockReward.toInt + sumPayments sb.vecPayments ≤ MAX_MONEY.toInt

theorem toInt_foldl_payments :
    ∀ {total : CAmount}, moneyRange total →
      (∀ payment ∈ payments, moneyRange payment.nAmount) →
      total.toInt + sumPayments payments ≤ 2100000000000000 →
      (payments.foldl (fun total payment => total + payment.nAmount) total).toInt
        = total.toInt + sumPayments payments := by
  induction payments with
  | nil =>
    simp [sumPayments]
  | cons payment rest ih =>
    intro total htotal hrange hsum
    have hamount := hrange payment mem_cons_self
    have hrest : ∀ p ∈ rest, moneyRange p.nAmount :=
      fun p hp => hrange p (mem_cons_of_mem _ hp)
    have hnonneg := sumPayments_nonneg hrest
    have hcons : sumPayments (payment :: rest) = payment.nAmount.toInt + sumPayments rest := rfl
    have hadd := toInt_add_of_moneyRange htotal hamount
    have hnext : moneyRange (total + payment.nAmount) := by
      rw [moneyRange_iff] at htotal hamount ⊢
      omega
    rw [foldl_cons, ih hnext hrest (by omega)]
    omega

/-- The outputs of a superblock template. -/
def superblockOutputs (sb : CSuperblock) (scriptPubKeyIn : CScript) (blockReward : CAmount) :
    List CTxOut :=
  ⟨blockReward, scriptPubKeyIn⟩ :: sb.vecPayments.map CGovernancePayment.toTxOut

variable {blockReward : CAmount} {nBlockHeight : ℕ}

theorem getValueOut_superblockOutputs_iff {sb : CSuperblock} {scriptPubKeyIn : CScript}
    {txNew : CTransaction} (hvout : txNew.vout = superblockOutputs sb scriptPubKeyIn blockReward) :
    (∃ v, txNew.getValueOut = some v) ↔ Payable sb blockReward := by
  have hsum : sumValues txNew.vout = blockReward.toInt + sumPayments sb.vecPayments := by
    rw [hvout, superblockOutputs, sumValues_cons, ← sumPayments_eq]
  constructor
  · rintro ⟨v, hv⟩
    obtain ⟨hvalue, hrange, houts⟩ := getValueOut_spec hv
    rw [hvout, superblockOutputs, forall_mem_cons, forall_mem_map] at houts
    refine ⟨houts.1, houts.2, ?_⟩
    rw [← hsum, ← hvalue, toInt_MAX_MONEY]
    exact ((moneyRange_iff v).mp hrange).2
  · intro hpayable
    refine exists_getValueOut (fun txout hmem => ?_) ?_
    · rw [hvout] at hmem
      rcases mem_cons.mp hmem with rfl | hmem
      · exact hpayable.reward
      · obtain ⟨payment, hpayment, rfl⟩ := mem_map.mp hmem
        exact hpayable.payments payment hpayment
    · rw [hsum, ← toInt_MAX_MONEY]
      exact hpayable.together

/-- **When the template of a superblock is valid.** -/
theorem superblockTemplate_isValid {net : Network} {sb : CSuperblock} {scriptPubKeyIn : CScript}
    {v : CAmount} {txNew : CTransaction}
    (hheight : isValidBlockHeight (consensusParams net) nBlockHeight)
    (hvout : txNew.vout = superblockOutputs sb scriptPubKeyIn blockReward)
    (hv : txNew.getValueOut = some v) : sb.isValid net txNew v nBlockHeight blockReward
      ↔ sb.getPaymentsTotalAmount ≤ getPaymentsLimit net nBlockHeight := by
  refine ⟨fun h => (isValid_iff.mp h).2.2.1, fun hlimit => isValid_iff.mpr ⟨hheight, ?_, hlimit,
    ?_, ?_⟩⟩
  · simp [hvout, superblockOutputs]
  · -- the coinbase pays the reward and the total, neither of which wraps
    obtain ⟨hreward, hpayments, htogether⟩ :=
      (getValueOut_superblockOutputs_iff hvout).mp ⟨v, hv⟩
    have hvalue := (getValueOut_spec hv).1
    simp only [hvout, superblockOutputs, sumValues_cons, ← sumPayments_eq] at hvalue
    rw [toInt_MAX_MONEY] at htogether
    have hbounds := (moneyRange_iff blockReward).mp hreward
    have hnonneg := sumPayments_nonneg hpayments
    have htotal : sb.getPaymentsTotalAmount.toInt = 0 + sumPayments sb.vecPayments :=
      toInt_foldl_payments sb.vecPayments (by decide) hpayments
        (by rw [Int64.toInt_zero]; omega)
    rw [Int64.le_iff_toInt_le, Int64.toInt_add_of_range (by omega) (by omega)]
    omega
  · rw [matchPayments_iff, hvout, superblockOutputs]
    exact ((destutter_sublist _ _).map _).trans (sublist_cons_self _ _)

/-! ## When a triggered superblock can be mined -/

theorem not_lt_start_of_triggered {params : ConsensusParams} {ctx : PaymentsContext}
    (h : isSuperblockTriggered params ctx nBlockHeight) :
    ¬ nBlockHeight < params.nSuperblockStartBlock :=
  not_lt.mpr (of_decide_eq_true (Bool.and_eq_true_iff.mp h).1).1

theorem isBlockValueValid_of_triggered {net : Network} {ctx : PaymentsContext}
    {coinbase : CTransaction} (hsynced : ctx.isSynced) (henabled : ctx.spork9SuperblocksEnabled)
    (htriggered : isSuperblockTriggered (consensusParams net) ctx nBlockHeight) :
    (∃ check, isBlockValueValid net ctx coinbase nBlockHeight blockReward = some check
        ∧ check.valid)
      ↔ ∃ v, coinbase.getValueOut = some v
        ∧ superblockManagerIsValid net ctx coinbase v nBlockHeight blockReward := by
  have hstart := not_lt_start_of_triggered htriggered
  unfold isBlockValueValid
  cases hv : coinbase.getValueOut with
  | none => simp
  | some v =>
    simp only [Option.map_some, Option.some.injEq, exists_eq_left', blockValueCheck, hsynced,
      henabled, htriggered, if_neg hstart]
    cases superblockManagerIsValid net ctx coinbase v nBlockHeight blockReward <;> simp

theorem isBlockPayeeValid_of_triggered {net : Network} {ctx : PayeeContext}
    {coinbase : CTransaction} {v : CAmount} (hsynced : ctx.isSynced)
    (henabled : ctx.spork9SuperblocksEnabled)
    (htriggered : isSuperblockTriggered (consensusParams net) ctx.toPaymentsContext nBlockHeight =
      true) (hv : coinbase.getValueOut = some v) :
    isBlockPayeeValid net ctx coinbase nBlockHeight blockReward
      = some (superblockManagerIsValid net ctx.toPaymentsContext coinbase v nBlockHeight
          blockReward) := by
  have hstart := not_lt_start_of_triggered htriggered
  simp only [isBlockPayeeValid, hsynced, henabled, htriggered, if_neg hstart,
    superblockManagerIsValid, CSuperblock.checkTransaction, hv]
  cases getBestSuperblock (consensusParams net) ctx.toPaymentsContext nBlockHeight <;> simp

theorem vout_minedCoinbase {net : Network} {ctx : PayeeContext} {sb : CSuperblock}
    (scriptPubKeyIn scriptSig : CScript) (blockReward : CAmount) (hash : Uint256)
    (henabled : ctx.spork9SuperblocksEnabled)
    (htriggered : isSuperblockTriggered (consensusParams net) ctx.toPaymentsContext nBlockHeight =
      true)
    (hbest : getBestSuperblock (consensusParams net) ctx.toPaymentsContext nBlockHeight = some sb) :
    (minedCoinbase net ctx scriptPubKeyIn scriptSig nBlockHeight blockReward hash).vout
      = superblockOutputs sb scriptPubKeyIn blockReward := by
  simp [minedCoinbase, fillBlockPayments, henabled, htriggered, createSuperblock, hbest,
    CMutableTransaction.toTransaction, coinbaseTemplate, superblockOutputs]

/-- **Which triggered superblocks can be mined.** On a synced node with superblocks enabled and a
    triggered superblock, the coinbase that `FillBlockPayments` builds is accepted by
    `IsBlockValueValid` and `IsBlockPayeeValid` in the same state exactly if there is a best
    superblock, its payments are within the limit of the height, and the amounts are payable. -/
theorem minedCoinbase_accepted_iff (net : Network) (ctx : PayeeContext)
    (scriptPubKeyIn scriptSig : CScript) (nBlockHeight : ℕ) (blockReward : CAmount)
    (hash : Uint256) (hsynced : ctx.isSynced = true)
    (henabled : ctx.spork9SuperblocksEnabled = true)
    (htriggered : isSuperblockTriggered (consensusParams net) ctx.toPaymentsContext nBlockHeight
      = true) :
    ((∃ check, isBlockValueValid net ctx.toPaymentsContext
          (minedCoinbase net ctx scriptPubKeyIn scriptSig nBlockHeight blockReward hash)
          nBlockHeight blockReward = some check ∧ check.valid = true)
        ∧ isBlockPayeeValid net ctx
          (minedCoinbase net ctx scriptPubKeyIn scriptSig nBlockHeight blockReward hash)
          nBlockHeight blockReward = some true)
      ↔ ∃ sb, getBestSuperblock (consensusParams net) ctx.toPaymentsContext nBlockHeight = some sb
        ∧ sb.getPaymentsTotalAmount ≤ getPaymentsLimit net nBlockHeight
        ∧ Payable sb blockReward := by
  have hheight := (Bool.and_eq_true_iff.mp htriggered).1
  rw [isBlockValueValid_of_triggered hsynced henabled htriggered]
  cases hbest : getBestSuperblock (consensusParams net) ctx.toPaymentsContext nBlockHeight with
  | none => simp [superblockManagerIsValid, hbest]
  | some sb =>
    have hvout := vout_minedCoinbase scriptPubKeyIn scriptSig blockReward hash henabled
      htriggered hbest
    simp only [superblockManagerIsValid, hbest, Option.some.injEq, exists_eq_left']
    constructor
    · rintro ⟨⟨v, hv, hvalid⟩, -⟩
      exact ⟨(superblockTemplate_isValid hheight hvout hv).mp hvalid,
        (getValueOut_superblockOutputs_iff hvout).mp ⟨v, hv⟩⟩
    · rintro ⟨hlimit, hpayable⟩
      obtain ⟨v, hv⟩ := (getValueOut_superblockOutputs_iff hvout).mpr hpayable
      have hvalid := (superblockTemplate_isValid hheight hvout hv).mpr hlimit
      refine ⟨⟨v, hv, hvalid⟩, ?_⟩
      rw [isBlockPayeeValid_of_triggered hsynced henabled htriggered hv]
      simp [superblockManagerIsValid, hbest, hvalid]

/-- A synced node with superblocks enabled that knows one funded trigger, for height 1500. -/
def triggerContext (nAmount : CAmount) : PayeeContext :=
  { isSynced := true
    spork9SuperblocksEnabled := true
    spork13OldSuperblockFlag := false
    activeTriggers := [some ⟨1500, [⟨[0x76], nAmount⟩], some ⟨true, 10⟩⟩]
    spork8MasternodePaymentEnforcement := true
    mnpayments := CMasternodePayments.init
    nextInQueue := none }

/-- A trigger of one coin can be mined. -/
theorem minedCoinbase_accepted_one_coin :
    isBlockPayeeValid .regtest (triggerContext 100000000)
        (minedCoinbase .regtest (triggerContext 100000000) [0x51] [] 1500 2500000000 1)
        1500 2500000000
      = some true := by
  refine ((minedCoinbase_accepted_iff .regtest (triggerContext 100000000) [0x51] [] 1500 2500000000
    1 rfl rfl (by decide)).mpr ⟨_, rfl, by decide +kernel, by decide, by decide, by decide⟩).2

/-- A trigger of a million coins is over the limit. The coinbase the node builds for it is not
    accepted by the same node. -/
theorem minedCoinbase_refused_over_limit :
    isSuperblockTriggered (consensusParams .regtest)
        (triggerContext 100000000000000).toPaymentsContext 1500 = true
      ∧ isBlockValueValid .regtest (triggerContext 100000000000000).toPaymentsContext
          (minedCoinbase .regtest (triggerContext 100000000000000) [0x51] [] 1500 2500000000 1)
          1500 2500000000
        = some ⟨false, "invalid superblock detected at height 1500"⟩
      ∧ isBlockPayeeValid .regtest (triggerContext 100000000000000)
          (minedCoinbase .regtest (triggerContext 100000000000000) [0x51] [] 1500 2500000000 1)
          1500 2500000000
        = some false := by
  refine ⟨by decide, by decide +kernel, by decide +kernel⟩

end Binarium
