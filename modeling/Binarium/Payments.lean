import Binarium.Primitives.Transaction

set_option autoImplicit false

/-! # How much a coinbase may pay (`masternode-payments.cpp`, `governance-classes.cpp`)

`IsBlockValueValid` bounds the outputs of a coinbase. A regular block may pay the block reward. A
superblock, which can only stand at certain heights, may pay the reward and up to
`GetPaymentsLimit` on top, if the governance data asks for it. Before superblocks there were budget
payments in a window of blocks each cycle; the node no longer has the data to check these.

What the function decides depends on how far the node has synced, on two sporks and on the known
triggers; these are the fields of `PaymentsContext`. The inversion lemma `isBlockValueValid_cases`
lists every way a coinbase is accepted. -/

namespace Binarium

open Int64 Decline

/-! ## Superblocks -/

/-- `CGovernancePayment`. -/
structure CGovernancePayment where
  script : CScript
  nAmount : CAmount
deriving DecidableEq

/-- What is read of a `CGovernanceObject`: the funding flag after `UpdateSentinelVariables` and
    `GetAbsoluteYesCount(VOTE_SIGNAL_FUNDING)`. -/
structure GovernanceObject where
  fCachedFunding : Bool
  nAbsoluteYesCount : ℤ
deriving DecidableEq

/-- `CSuperblock`, with the governance object it finds by its hash. -/
structure CSuperblock where
  nEpochStart : ℤ
  vecPayments : List CGovernancePayment
  pObj : Option GovernanceObject
deriving DecidableEq

/-- The state outside the block: `masternodeSync`, `sporkManager` and the active triggers. -/
structure PaymentsContext where
  isSynced : Bool
  spork9SuperblocksEnabled : Bool
  spork13OldSuperblockFlag : Bool
  activeTriggers : List (Option CSuperblock)
deriving DecidableEq

variable (params : ConsensusParams) (net : Network)

variable (ctx : PaymentsContext) (nBlockHeight : ℕ)

/-- `CSuperblock::IsValidBlockHeight`. -/
def isValidBlockHeight : Bool :=
  decide (nBlockHeight ≥ params.nSuperblockStartBlock
    ∧ nBlockHeight % params.nSuperblockCycle = 0)

/-- The `nBits` that `GetPaymentsLimit` uses. `GetCompact` does not fail (`getCompact_eq`), so the
    default is never taken. -/
def paymentsLimitBits : BitVec 32 :=
  if params.fPowAllowMinDifficultyBlocks then
    (getCompact (uintToArith256 params.powLimit) false).getD 0
  else 1

/-- `CSuperblock::GetPaymentsLimit`. -/
def getPaymentsLimit : CAmount :=
  let params := consensusParams net
  if isValidBlockHeight params nBlockHeight then
    getBlockSubsidy net (paymentsLimitBits params) (nBlockHeight - 1) params true
      * Int64.ofNat params.nSuperblockCycle
  else 0

/-- `CSuperblock::GetPaymentsTotalAmount`. -/
def CSuperblock.getPaymentsTotalAmount (sb : CSuperblock) : CAmount :=
  sb.vecPayments.foldl (fun total payment => total + payment.nAmount) 0

/-- The matching loops of `CSuperblock::IsValid`: every payment is searched from the output where
    the one before it was found. -/
def matchPayments : List CGovernancePayment → List CTxOut → Bool
  | [], _ => true
  | payment :: rest, outs =>
    match outs.dropWhile (fun txout =>
      !decide (payment.script = txout.scriptPubKey ∧ payment.nAmount = txout.nValue)) with
    | [] => false
    | found => matchPayments rest found

/-- `CSuperblock::IsValid` for a coinbase with value `nBlockValue`. -/
def CSuperblock.isValid (sb : CSuperblock) (txNew : CTransaction) (nBlockValue : CAmount)
    (nBlockHeight : ℕ) (blockReward : CAmount) : Bool :=
  if !isValidBlockHeight (consensusParams net) nBlockHeight then false
  else if txNew.vout.length < sb.vecPayments.length then false
  else if sb.getPaymentsTotalAmount > getPaymentsLimit net nBlockHeight then false
  else if nBlockValue > blockReward + sb.getPaymentsTotalAmount then false
  else matchPayments sb.vecPayments txNew.vout

/-- `CSuperblockManager::IsSuperblockTriggered`. -/
def isSuperblockTriggered : Bool :=
  isValidBlockHeight params nBlockHeight &&
    ctx.activeTriggers.any fun trigger =>
      match trigger with
      | none => false
      | some sb =>
        match sb.pObj with
        | none => false
        | some obj => decide ((nBlockHeight : ℤ) = sb.nEpochStart) && obj.fCachedFunding

/-- The loop of `CSuperblockManager::GetBestSuperblock`. -/
def bestSuperblockStep (best : ℤ × Option CSuperblock) (trigger : Option CSuperblock) :
    ℤ × Option CSuperblock :=
  match trigger with
  | none => best
  | some sb =>
    match sb.pObj with
    | none => best
    | some obj =>
      if (nBlockHeight : ℤ) = sb.nEpochStart ∧ obj.nAbsoluteYesCount > best.1 then
        (obj.nAbsoluteYesCount, some sb)
      else best

/-- `CSuperblockManager::GetBestSuperblock`. -/
def getBestSuperblock : Option CSuperblock :=
  if isValidBlockHeight params nBlockHeight then
    (ctx.activeTriggers.foldl (bestSuperblockStep nBlockHeight) (0, none)).2
  else none

/-- `CSuperblockManager::IsValid`. -/
def superblockManagerIsValid (txNew : CTransaction) (nBlockValue : CAmount) (nBlockHeight : ℕ)
    (blockReward : CAmount) : Bool :=
  match getBestSuperblock (consensusParams net) ctx nBlockHeight with
  | some sb => sb.isValid net txNew nBlockValue nBlockHeight blockReward
  | none => false

/-! ## `IsBlockValueValid` -/

/-- The result of a check with its `strErrorRet`. -/
structure ValueCheck where
  valid : Bool
  strErrorRet : String
deriving DecidableEq

/-- The comparison with a limit and its error text. -/
def checkLimit (actual limit : CAmount) (what : String) : ValueCheck :=
  if actual ≤ limit then ⟨true, ""⟩
  else ⟨false, "coinbase pays too much at height " ++ toString nBlockHeight ++ " (actual="
    ++ toString actual.toInt ++ " vs limit=" ++ toString limit.toInt ++ "), " ++ what⟩

/-- The old budget window: heights of a budget payment before superblocks started. -/
def inBudgetWindow : Bool :=
  decide (nBlockHeight < params.nSuperblockStartBlock
    ∧ nBlockHeight ≥ params.nBudgetPaymentsStartBlock
    ∧ nBlockHeight % params.nBudgetPaymentsCycleBlocks < params.nBudgetPaymentsWindowBlocks)

/-- The body of `IsBlockValueValid` for a coinbase with value `v`. -/
def blockValueCheck (coinbase : CTransaction) (v : CAmount) (nBlockHeight : ℕ)
    (blockReward : CAmount) : ValueCheck :=
  let params := consensusParams net
  if nBlockHeight < params.nSuperblockStartBlock then
    if inBudgetWindow params nBlockHeight then
      if ctx.isSynced && !ctx.spork13OldSuperblockFlag then
        checkLimit nBlockHeight v blockReward "exceeded block reward, budgets are disabled"
      else
        -- skipping budget block value checks, accepting block
        ⟨true, ""⟩
    else
      checkLimit nBlockHeight v blockReward
        "exceeded block reward, block is not in budget cycle window"
  else if !ctx.isSynced then
    if isValidBlockHeight params nBlockHeight then
      checkLimit nBlockHeight v (blockReward + getPaymentsLimit net nBlockHeight)
        "exceeded superblock max value"
    else
      checkLimit nBlockHeight v blockReward
        "exceeded block reward, only regular blocks are allowed at this height"
  else if ctx.spork9SuperblocksEnabled then
    if isSuperblockTriggered params ctx nBlockHeight then
      if superblockManagerIsValid net ctx coinbase v nBlockHeight blockReward then ⟨true, ""⟩
      else ⟨false, "invalid superblock detected at height " ++ toString nBlockHeight⟩
    else
      checkLimit nBlockHeight v blockReward
        "exceeded block reward, no triggered superblock detected"
  else
    checkLimit nBlockHeight v blockReward "exceeded block reward, superblocks are disabled"

/-- `IsBlockValueValid`; `none` is the exception of `GetValueOut`. -/
def isBlockValueValid (coinbase : CTransaction) (nBlockHeight : ℕ) (blockReward : CAmount) :
    Option ValueCheck :=
  coinbase.getValueOut.map fun v => blockValueCheck net ctx coinbase v nBlockHeight blockReward

/-! ## Every way to be accepted -/

theorem checkLimit_valid {nBlockHeight : ℕ} {actual limit : CAmount} {what : String}
    (h : (checkLimit nBlockHeight actual limit what).valid) : actual ≤ limit := by
  unfold checkLimit at h
  split at h
  · next hle => exact hle
  · simp at h

/-- **What `CSuperblock::IsValid` decides.** A valid superblock is at a superblock height and pays at
    most the reward and its payments, which are within the limit and found by the loop. -/
theorem isValid_iff {net : Network} {sb : CSuperblock} {txNew : CTransaction} {v : CAmount}
    {nBlockHeight : ℕ} {blockReward : CAmount} : sb.isValid net txNew v nBlockHeight blockReward
      ↔ isValidBlockHeight (consensusParams net) nBlockHeight
        ∧ sb.vecPayments.length ≤ txNew.vout.length
        ∧ sb.getPaymentsTotalAmount ≤ getPaymentsLimit net nBlockHeight
        ∧ v ≤ blockReward + sb.getPaymentsTotalAmount
        ∧ matchPayments sb.vecPayments txNew.vout := by
  unfold CSuperblock.isValid
  split_ifs with hheight hcount htotal hvalue
  · exact ⟨by simp, fun h => absurd h.1 (by simpa using hheight)⟩
  · exact ⟨by simp, fun h => absurd h.2.1 (by omega)⟩
  · exact ⟨by simp, fun h => absurd h.2.2.1 (Int64.not_le.mpr htotal)⟩
  · exact ⟨by simp, fun h => absurd h.2.2.2.1 (Int64.not_le.mpr hvalue)⟩
  · exact ⟨fun h => ⟨by simpa using hheight, not_lt.mp hcount, Int64.not_lt.mp htotal,
      Int64.not_lt.mp hvalue, h⟩, fun h => h.2.2.2.2⟩

/-- **Every way `IsBlockValueValid` accepts a coinbase.** -/
theorem isBlockValueValid_cases {net : Network} {ctx : PaymentsContext} {coinbase : CTransaction}
    {v : CAmount} {nBlockHeight : ℕ} {blockReward : CAmount}
    (h : (blockValueCheck net ctx coinbase v nBlockHeight blockReward).valid) :
    (inBudgetWindow (consensusParams net) nBlockHeight
        ∧ (ctx.isSynced = false ∨ ctx.spork13OldSuperblockFlag))
      ∨ v ≤ blockReward
      ∨ (isValidBlockHeight (consensusParams net) nBlockHeight
        ∧ v ≤ blockReward + getPaymentsLimit net nBlockHeight)
      ∨ (isValidBlockHeight (consensusParams net) nBlockHeight
        ∧ ∃ total : CAmount, total ≤ getPaymentsLimit net nBlockHeight
          ∧ v ≤ blockReward + total) := by
  unfold blockValueCheck at h
  simp only at h
  split at h
  · -- before superblocks
    split at h
    · next hwindow =>
        split at h
        · exact .inr (.inl (checkLimit_valid h))
        · next hskip =>
            refine .inl ⟨hwindow, ?_⟩
            cases hsync : ctx.isSynced with
            | false => exact .inl rfl
            | true =>
              simpa [hsync] using hskip
    · exact .inr (.inl (checkLimit_valid h))
  · split at h
    · -- not synced
      split at h
      · next hheight => exact .inr (.inr (.inl ⟨hheight, checkLimit_valid h⟩))
      · exact .inr (.inl (checkLimit_valid h))
    · split at h
      · split at h
        · -- a triggered superblock
          split at h
          · next hvalid =>
              unfold superblockManagerIsValid at hvalid
              split at hvalid
              · next sb hbest =>
                  obtain ⟨hheight, -, htotal, hvalue, -⟩ := isValid_iff.mp hvalid
                  exact .inr (.inr (.inr ⟨hheight, _, htotal, hvalue⟩))
              · simp at hvalid
          · simp at h
        · exact .inr (.inl (checkLimit_valid h))
      · exact .inr (.inl (checkLimit_valid h))

/-! ## The payments limit -/

theorem getBlockSubsidy_superblockPart_range (nPrevBits : BitVec 32) (nPrevHeight : ℕ)
    (params : ConsensusParams) :
    0 ≤ (getBlockSubsidy net nPrevBits nPrevHeight params true).toInt
      ∧ (getBlockSubsidy net nPrevBits nPrevHeight params true).toInt ≤ 5000000000 := by
  have hfull := toInt_fullSubsidy net nPrevBits nPrevHeight params
  have hle : (decline 14)^[nPrevHeight / params.nSubsidyHalvingInterval]
      (baseSatoshi net nPrevBits nPrevHeight) ≤ 50000000000 :=
    le_trans (iterate_decline_antitone _ (Nat.zero_le _)) (baseSatoshi_le _ _ _).1
  unfold getBlockSubsidy
  simp only [if_true]
  split
  · rw [toInt_div_of_nonneg (by omega) (by decide)]
    have h10 : (10 : CAmount).toInt = 10 := by decide
    rw [h10]
    omega
  · simp

theorem getPaymentsLimit_range :
    0 ≤ (getPaymentsLimit net nBlockHeight).toInt
      ∧ (getPaymentsLimit net nBlockHeight).toInt ≤ 5000000000 * 16616 := by
  obtain ⟨hlo, hhi⟩ := getBlockSubsidy_superblockPart_range net
    (paymentsLimitBits (consensusParams net)) (nBlockHeight - 1) (consensusParams net)
  have hcycle : 0 ≤ (ofNat (consensusParams net).nSuperblockCycle).toInt
      ∧ (ofNat (consensusParams net).nSuperblockCycle).toInt ≤ 16616 := by
    cases net <;> decide
  unfold getPaymentsLimit
  simp only
  split
  · generalize getBlockSubsidy net _ _ _ true = part at *
    generalize ofNat (consensusParams net).nSuperblockCycle = cycle at *
    have hprod : 0 ≤ part.toInt * cycle.toInt := mul_nonneg hlo hcycle.1
    have hprod' : part.toInt * cycle.toInt ≤ 5000000000 * 16616 :=
      mul_le_mul hhi hcycle.2 hcycle.1 (by norm_num)
    rw [toInt_mul_of_range (by omega) (by omega)]
    exact ⟨hprod, hprod'⟩
  · exact ⟨by decide, by decide⟩

theorem getPaymentsLimit_of_not_superblock
    (h : isValidBlockHeight (consensusParams net) nBlockHeight = false) :
    getPaymentsLimit net nBlockHeight = 0 := by
  simp [getPaymentsLimit, h]

/-! ## What was withheld -/

/-- The part of the subsidy that `GetBlockSubsidy` withholds, for a base in coins. -/
def withheldPart (params : ConsensusParams) (nPrevHeight : ℕ) (nSubsidyBase : CAmount) : CAmount :=
  let nSubsidy := (fun n : CAmount => n - n / 14)^[nPrevHeight / params.nSubsidyHalvingInterval]
    (nSubsidyBase * COIN)
  if nPrevHeight > params.nBudgetPaymentsStartBlock then nSubsidy / 10 else 0

/-- On the main network it is exact. -/
theorem toInt_withheldPart {nPrevHeight : ℕ} (hheight : 328008 < nPrevHeight) {base : CAmount}
    (hlo : 5 ≤ base.toInt) (hhi : base.toInt ≤ 25) :
    (withheldPart (consensusParams .main) nPrevHeight base).toInt
      = ((decline 14)^[nPrevHeight / 210240] (base.toInt.toNat * 100000000) / 10 : ℕ) := by
  have hcoin : COIN.toInt = 100000000 := by decide
  have hmul : (base * COIN).toInt = (base.toInt.toNat * 100000000 : ℕ) := by
    rw [toInt_mul_of_range (by rw [hcoin]; omega) (by rw [hcoin]; omega), hcoin]
    omega
  have hfull := toInt_iterate_decline (nPrevHeight / 210240) hmul
  have hbudget : nPrevHeight > (consensusParams .main).nBudgetPaymentsStartBlock := hheight
  rw [withheldPart, if_pos hbudget]
  change ((fun n : CAmount => n - n / 14)^[nPrevHeight / 210240] (base * COIN) / 10).toInt = _
  rw [toInt_div_of_nonneg (by omega) (by decide), hfull]
  rfl

theorem toInt_getPaymentsLimit_main {h : ℕ}
    (hvalid : isValidBlockHeight (consensusParams .main) h) : (getPaymentsLimit .main h).toInt
      = ((decline 14)^[(h - 1) / 210240] (5 * 100000000) / 10 : ℕ) * 16616 := by
  have hstart : 614820 ≤ h := (of_decide_eq_true hvalid).1
  have hfive : subsidyBase (subsidyDifficulty .main 1 (h - 1)) (h - 1) = 5 := by
    rw [subsidyBase_late _ _ (by omega)]
    decide +kernel
  have hpart := @toInt_withheldPart (h - 1) (by omega) 5 (by decide) (by decide)
  have hsmall : (decline 14)^[(h - 1) / 210240] (5 * 100000000) ≤ 500000000 :=
    iterate_decline_antitone _ (Nat.zero_le _)
  have hcycle : (ofNat (consensusParams .main).nSuperblockCycle).toInt = 16616 := by decide
  have hcode : getPaymentsLimit .main h = withheldPart (consensusParams .main) (h - 1) 5
      * ofNat (consensusParams .main).nSuperblockCycle := by
    rw [getPaymentsLimit, if_pos hvalid, ← hfive]
    rfl
  rw [show (5 : CAmount).toInt.toNat = 5 by decide] at hpart
  rw [hcode, toInt_mul_of_range (by rw [hpart, hcycle]; omega) (by rw [hpart, hcycle]; omega),
    hpart, hcycle]

/-- An earlier block withheld at least as much: it has not declined further, and a larger base stays
    larger. -/
theorem le_withheldPart {nPrevHeight nHeight : ℕ} (hheight : 328008 < nPrevHeight)
    (hle : nPrevHeight ≤ nHeight) {base : CAmount} (hlo : 5 ≤ base.toInt) (hhi : base.toInt ≤ 25) :
    (((decline 14)^[nHeight / 210240] (5 * 100000000) / 10 : ℕ) : ℤ)
      ≤ (withheldPart (consensusParams .main) nPrevHeight base).toInt := by
  have hearlier := @iterate_decline_antitone 14 (5 * 100000000) _ _
    (Nat.div_le_div_right hle : nPrevHeight / 210240 ≤ nHeight / 210240)
  have hlarger := @iterate_decline_mono 14 _ _
    (Nat.mul_le_mul_right 100000000 (by omega : 5 ≤ base.toInt.toNat)) (nPrevHeight / 210240)
  rw [toInt_withheldPart hheight hlo hhi]
  exact_mod_cast Nat.div_le_div_right (hearlier.trans hlarger)

/-- **Superblocks spend only what was withheld.** On the main network the limit of a superblock is not
    more than what was withheld from the blocks of the cycle before it, whatever their bases are
    between the clamps of their heights, and so for every sequence of difficulties. All amounts are
    exact. -/
theorem getPaymentsLimit_le_withheld (h : ℕ)
    (hvalid : isValidBlockHeight (consensusParams .main) h = true) (base : ℕ → CAmount)
    (hbase : ∀ n, 5 ≤ (base n).toInt ∧ (base n).toInt ≤ 25) :
    let cycle := Finset.Ico (h - (consensusParams .main).nSuperblockCycle) h
    (getPaymentsLimit .main h).toInt
        = ((Decline.decline 14)^[(h - 1) / 210240] (5 * 100000000) / 10 : ℕ) * 16616
      ∧ (∀ n ∈ cycle, (withheldPart (consensusParams .main) (n - 1) (base n)).toInt
        = ((Decline.decline 14)^[(n - 1) / 210240] ((base n).toInt.toNat * 100000000) / 10 : ℕ))
      ∧ (getPaymentsLimit .main h).toInt
        ≤ ∑ n ∈ cycle, (withheldPart (consensusParams .main) (n - 1) (base n)).toInt
      ∧ ∀ nBits : ℕ → BitVec 32, (getPaymentsLimit .main h).toInt
        ≤ ∑ n ∈ cycle, (getBlockSubsidy .main (nBits n) (n - 1) (consensusParams .main) true).toInt := by
  have hstart : 614820 ≤ h := (of_decide_eq_true hvalid).1
  have hlimit := toInt_getPaymentsLimit_main hvalid
  have hlength : (consensusParams .main).nSuperblockCycle = 16616 := rfl
  intro cycle
  have hcard : cycle.card = 16616 := by
    rw [Nat.card_Ico, hlength]
    omega
  have hheight : ∀ n ∈ cycle, 328008 < n - 1 ∧ n - 1 ≤ h - 1 := by
    intro n hn
    have hrange := Finset.mem_Ico.mp hn
    omega
  have hle : ∀ b : ℕ → CAmount, (∀ n ∈ cycle, 5 ≤ (b n).toInt ∧ (b n).toInt ≤ 25) →
      (getPaymentsLimit .main h).toInt
        ≤ ∑ n ∈ cycle, (withheldPart (consensusParams .main) (n - 1) (b n)).toInt := by
    intro b hb
    have hsum := Finset.card_nsmul_le_sum cycle _ _ fun n hn =>
      le_withheldPart (hheight n hn).1 (hheight n hn).2 (hb n hn).1 (hb n hn).2
    rwa [hcard, nsmul_eq_mul', Nat.cast_ofNat, ← hlimit] at hsum
  refine ⟨hlimit, fun n hn => toInt_withheldPart (hheight n hn).1 (hbase n).1 (hbase n).2,
    hle base fun n _ => hbase n, fun nBits => ?_⟩
  refine hle _ fun n hn => ?_
  rw [subsidyBase_late _ _ (by have := (hheight n hn).1; omega)]
  exact clampAmount_range (by decide) _

/-- The first superblock of the main network, after a cycle of blocks at the lower clamp. -/
theorem getPaymentsLimit_le_withheld_first :
    isValidBlockHeight (consensusParams .main) 631408 = true
      ∧ (getPaymentsLimit .main 631408).toInt
        ≤ ∑ n ∈ Finset.Ico (631408 - (consensusParams .main).nSuperblockCycle) 631408,
          (withheldPart (consensusParams .main) (n - 1) 5).toInt :=
  ⟨by decide, (getPaymentsLimit_le_withheld 631408 (by decide) (fun _ => 5) fun _ => by decide).2.2.1⟩

/-! ## The bound -/

/-- **The cap on a coinbase.** An accepted coinbase pays at most the reward and the payments limit of
    its height, which is zero off the superblock heights, except in the old budget window while the
    node is not synced or the old superblock spork is on. There only the money range bounds it. -/
theorem isBlockValueValid_bounds_coinbase (net : Network) (ctx : PaymentsContext)
    (coinbase : CTransaction) (nBlockHeight : ℕ) (blockReward : CAmount) (check : ValueCheck)
    (hreward : 0 ≤ blockReward.toInt)
    (hcheck : isBlockValueValid net ctx coinbase nBlockHeight blockReward = some check)
    (hvalid : check.valid = true) :
    (if inBudgetWindow (consensusParams net) nBlockHeight = true
        ∧ (ctx.isSynced = false ∨ ctx.spork13OldSuperblockFlag = true) then
      sumValues coinbase.vout ≤ MAX_MONEY.toInt
    else if isValidBlockHeight (consensusParams net) nBlockHeight = true then
      sumValues coinbase.vout ≤ blockReward.toInt + (getPaymentsLimit net nBlockHeight).toInt
    else sumValues coinbase.vout ≤ blockReward.toInt)
      ∧ (getPaymentsLimit net nBlockHeight).toInt ≤ 5000000000 * 16616 := by
  obtain ⟨v, hv, rfl⟩ := Option.map_eq_some_iff.mp hcheck
  obtain ⟨hsum, hrange, -⟩ := getValueOut_spec hv
  obtain ⟨hlimit, hlimit'⟩ := getPaymentsLimit_range net nBlockHeight
  refine ⟨?_, hlimit'⟩
  rw [← hsum]
  split
  · exact ((moneyRange_iff v).mp hrange).2
  · next hwindow =>
      rcases isBlockValueValid_cases hvalid with hskip | hle | ⟨hheight, hle⟩ | ⟨hheight, total, hle⟩
      · exact absurd hskip hwindow
      · have := le_iff_toInt_le.mp hle
        split <;> omega
      · simp [hheight, le_trans (le_iff_toInt_le.mp hle) (toInt_add_le (by omega))]
      · rw [if_pos hheight]
        have htotal := le_iff_toInt_le.mp hle.1
        have hlow := total.le_toInt
        -- the payments of a trigger may have wrapped to a negative total, the reward is not negative
        have hadd : (blockReward + total).toInt ≤ blockReward.toInt + total.toInt :=
          toInt_add_le (by omega)
        have hvalue := le_iff_toInt_le.mp hle.2
        omega

/-- A coinbase with one output. -/
def coinbasePaying (nValue : CAmount) : CTransaction :=
  { hash := 1, nVersion := 1,
    vin := [{ prevout := ⟨0, 0xffffffff⟩, scriptSig := [0x51, 0x51], nSequence := 0xffffffff }],
    vout := [{ nValue := nValue, scriptPubKey := [0x51] }], nLockTime := 0 }

/-- A node that is still syncing and knows no trigger. -/
def syncingContext : PaymentsContext := ⟨false, false, false, []⟩

theorem isBlockValueValid_bounds_coinbase_superblock :
    sumValues (coinbasePaying 3000000000).vout
      ≤ (2500000000 : CAmount).toInt + (getPaymentsLimit .regtest 1500).toInt := by
  have h := isBlockValueValid_bounds_coinbase .regtest syncingContext (coinbasePaying 3000000000)
    1500 2500000000 ⟨true, ""⟩ (by decide) (by decide +kernel) rfl
  exact h.1

/-- On the main network a syncing node accepts, at a budget height, a coinbase of 21 million coins
    for a block reward of 25, although no payments limit applies there. -/
theorem isBlockValueValid_skips_budget_window :
    isBlockValueValid .main syncingContext (coinbasePaying 2100000000000000) 332320 2500000000
        = some ⟨true, ""⟩
      ∧ getPaymentsLimit .main 332320 = 0
      ∧ sumValues (coinbasePaying 2100000000000000).vout = 2100000000000000 := by
  refine ⟨by decide, ?_, by decide⟩
  exact getPaymentsLimit_of_not_superblock .main 332320 (by decide)

end Binarium
