import Mathlib.Data.List.AList
import Binarium.Primitives.Transaction

set_option autoImplicit false

/-! # Masternode payments (`masternode-payments.cpp`)

Masternodes vote on who is paid at a height. The votes of a height are tallied by payee in a
`CMasternodeBlockPayees`; a miner pays the payee with the most votes (`FillBlockPayee`), and a
validator accepts any payee with at least `MNPAYMENTS_SIGNATURES_REQUIRED` votes, or anything if
there is none (`IsTransactionValid`).

The two sides read the same tallies in different ways. They fit together because the payee the miner
picks has as many votes as any other (`getBestPayee_spec`), and because the miner takes the payment
out of the reward, so that the coinbase still pays out the reward from which the validator computes
the payment again (`getValueOut_fillBlockPayee`).

The state is `CMasternodePayments`. Every entry of its map of tallies is filed under its own height,
which is a field of the structure: the validator computes the payment from the height in the entry,
the miner from the height it mines at. -/

namespace Binarium

open List CMutableTransaction

/-! ## The payment -/

variable (params : ConsensusParams)

/-- `GetMasternodePayment`. -/
def getMasternodePayment (nHeight : ℤ) (blockValue : CAmount) : CAmount :=
  let ret := blockValue / 5
  if nHeight > params.nMasternodePaymentsIncreaseBlock then ret + blockValue / 20 else ret

theorem getMasternodePayment_range (nHeight : ℤ) {blockValue : CAmount}
    (hrange : moneyRange blockValue) : 0 ≤ (getMasternodePayment params nHeight blockValue).toInt
      ∧ (getMasternodePayment params nHeight blockValue).toInt ≤ blockValue.toInt := by
  rw [moneyRange_iff] at hrange
  have hfifth : (blockValue / 5).toInt = blockValue.toInt / 5 :=
    Int64.toInt_div_of_nonneg hrange.1 (by decide)
  have htwentieth : (blockValue / 20).toInt = blockValue.toInt / 20 :=
    Int64.toInt_div_of_nonneg hrange.1 (by decide)
  simp only [getMasternodePayment]
  split
  · rw [Int64.toInt_add_of_range (by omega) (by omega)]
    omega
  · omega

/-! ## Votes and tallies -/

/-- `MNPAYMENTS_SIGNATURES_REQUIRED`. -/
def MNPAYMENTS_SIGNATURES_REQUIRED : ℤ := 6

/-- `CMasternodePaymentVote`, with the outpoint of its `vinMasternode`. -/
structure CMasternodePaymentVote where
  vinMasternode : COutPoint
  nBlockHeight : ℤ
  payee : CScript
  vchSig : List UInt8
deriving DecidableEq

variable (nextInQueue : Option CScript) (txNew : CMutableTransaction) (vote : CMasternodePaymentVote)

/-- `CMasternodePaymentVote::IsVerified`. -/
def CMasternodePaymentVote.isVerified : Bool :=
  !vote.vchSig.isEmpty

/-- `CMasternodePaymentVote::MarkAsNotVerified`. -/
def CMasternodePaymentVote.markAsNotVerified : CMasternodePaymentVote :=
  { vote with vchSig := [] }

/-- `CMasternodePayee`. -/
structure CMasternodePayee where
  scriptPubKey : CScript
  vecVoteHashes : List Uint256
deriving DecidableEq

/-- `CMasternodePayee::GetVoteCount`. -/
def CMasternodePayee.getVoteCount (payee : CMasternodePayee) : ℤ := payee.vecVoteHashes.length

/-- `CMasternodeBlockPayees`. -/
structure CMasternodeBlockPayees where
  nBlockHeight : ℤ
  vecPayees : List CMasternodePayee
deriving DecidableEq

/-- The loop of `CMasternodeBlockPayees::AddPayee` for a vote with this hash. -/
def addPayeeTo (vote : CMasternodePaymentVote) (hash : Uint256) :
    List CMasternodePayee → List CMasternodePayee
  | [] => [⟨vote.payee, [hash]⟩]
  | payee :: rest =>
    if payee.scriptPubKey = vote.payee then
      { payee with vecVoteHashes := payee.vecVoteHashes ++ [hash] } :: rest
    else payee :: addPayeeTo vote hash rest

/-- `CMasternodeBlockPayees::AddPayee`. -/
def CMasternodeBlockPayees.addPayee (block : CMasternodeBlockPayees)
    (vote : CMasternodePaymentVote) (hash : Uint256) : CMasternodeBlockPayees :=
  { block with vecPayees := addPayeeTo vote hash block.vecPayees }

/-- One round of the loop of `CMasternodeBlockPayees::GetBestPayee`: `nVotes` and `payeeRet`. -/
def bestPayeeStep (best : ℤ × CScript) (payee : CMasternodePayee) : ℤ × CScript :=
  if payee.getVoteCount > best.1 then (payee.getVoteCount, payee.scriptPubKey) else best

/-- `CMasternodeBlockPayees::GetBestPayee`. -/
def CMasternodeBlockPayees.getBestPayee (block : CMasternodeBlockPayees) : Option CScript :=
  if block.vecPayees.isEmpty then none
  else
    let best := block.vecPayees.foldl bestPayeeStep (-1, [])
    if best.1 > -1 then some best.2 else none

/-- The loop that sets `nMaxSignatures` in `CMasternodeBlockPayees::IsTransactionValid`. -/
def maxSignatures (payees : List CMasternodePayee) : ℤ :=
  payees.foldl (fun nMax payee => if payee.getVoteCount ≥ nMax then payee.getVoteCount else nMax) 0

/-- `CMasternodeBlockPayees::IsTransactionValid`; `none` is the exception of `GetValueOut`. -/
def CMasternodeBlockPayees.isTransactionValid (block : CMasternodeBlockPayees)
    (txNew : CTransaction) : Option Bool :=
  txNew.getValueOut.map fun nValueOut =>
    let nMasternodePayment := getMasternodePayment params block.nBlockHeight nValueOut
    -- without enough signatures on a payee whichever is the longest chain is approved
    if maxSignatures block.vecPayees < MNPAYMENTS_SIGNATURES_REQUIRED then true
    else block.vecPayees.any fun payee =>
      decide (payee.getVoteCount ≥ MNPAYMENTS_SIGNATURES_REQUIRED)
        && txNew.vout.any fun txout =>
          decide (payee.scriptPubKey = txout.scriptPubKey ∧ nMasternodePayment = txout.nValue)

/-! ### The best payee -/

theorem foldl_bestPayeeStep (payees : List CMasternodePayee) (best : ℤ × CScript) :
    best.1 ≤ (payees.foldl bestPayeeStep best).1
      ∧ (∀ payee ∈ payees, payee.getVoteCount ≤ (payees.foldl bestPayeeStep best).1)
      ∧ (payees.foldl bestPayeeStep best = best
        ∨ ∃ payee ∈ payees, payees.foldl bestPayeeStep best
          = (payee.getVoteCount, payee.scriptPubKey)) := by
  induction payees generalizing best with
  | nil => simp
  | cons payee rest ih =>
    obtain ⟨hstart, hall, hfound⟩ := ih (bestPayeeStep best payee)
    have hstep : best.1 ≤ (bestPayeeStep best payee).1
        ∧ payee.getVoteCount ≤ (bestPayeeStep best payee).1 := by
      unfold bestPayeeStep
      split <;> constructor <;> omega
    rw [foldl_cons]
    refine ⟨hstep.1.trans hstart, ?_, ?_⟩
    · intro other hother
      rcases mem_cons.mp hother with rfl | hother
      · exact hstep.2.trans hstart
      · exact hall other hother
    · rcases hfound with heq | ⟨other, hother, heq⟩
      · rw [heq]
        unfold bestPayeeStep
        split
        · simp
        · simp
      · exact .inr ⟨other, mem_cons_of_mem _ hother, heq⟩

variable {block : CMasternodeBlockPayees}

open CMasternodeBlockPayees

/-- **`GetBestPayee` finds a payee with the most votes.** -/
theorem getBestPayee_spec {script : CScript} (h : block.getBestPayee = some script) :
    ∃ best ∈ block.vecPayees, best.scriptPubKey = script
      ∧ ∀ payee ∈ block.vecPayees, payee.getVoteCount ≤ best.getVoteCount := by
  obtain ⟨-, hall, hfound⟩ := foldl_bestPayeeStep block.vecPayees (-1, [])
  simp only [getBestPayee] at h
  split_ifs at h with _ hvotes
  rcases hfound with heq | ⟨best, hbest, heq⟩
  · simp [heq] at hvotes
  · rw [heq] at h hall
    exact ⟨best, hbest, Option.some.inj h, hall⟩

theorem getBestPayee_eq_none (h : block.getBestPayee = none) : block.vecPayees = [] := by
  obtain ⟨-, hall, -⟩ := foldl_bestPayeeStep block.vecPayees (-1, [])
  cases hpayees : block.vecPayees with
  | nil => rfl
  | cons payee rest =>
    have hcount : 0 ≤ payee.getVoteCount := Int.natCast_nonneg _
    have hvotes := hall payee (hpayees ▸ mem_cons_self)
    simp only [getBestPayee] at h
    split_ifs at h with hempty
    · simp [hpayees] at hempty
    · omega

/-- `nMaxSignatures` does not pass a common bound of the vote counts. -/
theorem maxSignatures_le {payees : List CMasternodePayee} {bound : ℤ} (hbound : 0 ≤ bound)
    (hall : ∀ payee ∈ payees, payee.getVoteCount ≤ bound) : maxSignatures payees ≤ bound := by
  unfold maxSignatures
  generalize (0 : ℤ) = nMax at hbound ⊢
  induction payees generalizing nMax with
  | nil => exact hbound
  | cons payee rest ih => grind

/-- A payment to a payee with the most votes is accepted. -/
theorem isTransactionValid_of_pays_best {txNew : CTransaction} {nValueOut : CAmount}
    {best : CMasternodePayee} (hvalue : txNew.getValueOut = some nValueOut)
    (hbest : best ∈ block.vecPayees)
    (hall : ∀ payee ∈ block.vecPayees, payee.getVoteCount ≤ best.getVoteCount)
    (hpays : ⟨getMasternodePayment params block.nBlockHeight nValueOut, best.scriptPubKey⟩ ∈
      txNew.vout) : block.isTransactionValid params txNew = some true := by
  have hmax : maxSignatures block.vecPayees ≤ best.getVoteCount :=
    maxSignatures_le (Int.natCast_nonneg _) hall
  simp only [isTransactionValid, hvalue, Option.map_some, Option.some.injEq]
  split
  · rfl
  · simpa using ⟨best, hbest, by omega, _, hpays, rfl, rfl⟩

theorem isTransactionValid_of_no_payees {txNew : CTransaction} {nValueOut : CAmount}
    (hvalue : txNew.getValueOut = some nValueOut) (hnone : block.vecPayees = []) :
    block.isTransactionValid params txNew = some true := by
  simp [isTransactionValid, hvalue, hnone, maxSignatures, MNPAYMENTS_SIGNATURES_REQUIRED]

/-! ## The vote state -/

/-- `CMasternodePayments`, whose tallies are filed under their own height. -/
structure CMasternodePayments where
  mapMasternodePaymentVotes : AList (fun _ : Uint256 => CMasternodePaymentVote)
  mapMasternodeBlocks : AList (fun _ : ℤ => CMasternodeBlockPayees)
  mapMasternodesLastVote : AList (fun _ : COutPoint => ℤ)
  nCachedBlockHeight : ℤ
  keyed : ∀ nBlockHeight block, mapMasternodeBlocks.lookup nBlockHeight = some block →
    block.nBlockHeight = nBlockHeight

/-- A node without votes. -/
def CMasternodePayments.init : CMasternodePayments :=
  { mapMasternodePaymentVotes := ∅
    mapMasternodeBlocks := ∅
    mapMasternodesLastVote := ∅
    nCachedBlockHeight := 0
    keyed := by simp }

/-- `CMasternodePayments::Clear`. -/
def CMasternodePayments.clear (s : CMasternodePayments) : CMasternodePayments :=
  { s with
    mapMasternodePaymentVotes := ∅
    mapMasternodeBlocks := ∅
    keyed := by simp }

/-- The tally of the vote's height, with the vote in it. -/
def tallyWith (blocks : AList (fun _ : ℤ => CMasternodeBlockPayees))
    (vote : CMasternodePaymentVote) (hash : Uint256) : CMasternodeBlockPayees :=
  ((blocks.lookup vote.nBlockHeight).getD ⟨vote.nBlockHeight, []⟩).addPayee vote hash

/-- The state after a vote was counted: the second half of `AddPaymentVote`. -/
def CMasternodePayments.countVote (s : CMasternodePayments) (vote : CMasternodePaymentVote)
    (hash : Uint256) : CMasternodePayments :=
  { s with
    mapMasternodePaymentVotes := s.mapMasternodePaymentVotes.insert hash vote
    mapMasternodeBlocks :=
      s.mapMasternodeBlocks.insert vote.nBlockHeight (tallyWith s.mapMasternodeBlocks vote hash)
    keyed := by
      intro h block hblock
      by_cases hh : h = vote.nBlockHeight
      · subst hh
        rw [AList.lookup_insert, Option.some.injEq] at hblock
        subst hblock
        simp only [tallyWith, CMasternodeBlockPayees.addPayee]
        cases hold : s.mapMasternodeBlocks.lookup vote.nBlockHeight with
        | none => rfl
        | some old => exact s.keyed _ _ hold
      · rw [AList.lookup_insert_ne hh] at hblock
        exact s.keyed _ _ hblock }

/-- The state after a vote and the tally of its height were removed. -/
def CMasternodePayments.removeVote (s : CMasternodePayments) (hash : Uint256)
    (nBlockHeight : ℤ) : CMasternodePayments :=
  { s with
    mapMasternodePaymentVotes := s.mapMasternodePaymentVotes.erase hash
    mapMasternodeBlocks := s.mapMasternodeBlocks.erase nBlockHeight
    keyed := by
      intro h block hblock
      by_cases hh : h = nBlockHeight
      · subst hh
        simp at hblock
      · rw [AList.lookup_erase_ne hh] at hblock
        exact s.keyed _ _ hblock }

/-- `CMasternodePayments::CheckAndRemove`, where `nLimit` is `GetStorageLimit()`. -/
def CMasternodePayments.checkAndRemove (isBlockchainSynced : Bool) (nLimit : ℤ)
    (s : CMasternodePayments) : CMasternodePayments :=
  if isBlockchainSynced then
    s.mapMasternodePaymentVotes.entries.foldl (fun s entry =>
      if s.nCachedBlockHeight - entry.2.nBlockHeight > nLimit then
        s.removeVote entry.1 entry.2.nBlockHeight
      else s) s
  else s

/-- `CMasternodePayments::HasVerifiedPaymentVote`. -/
def CMasternodePayments.hasVerifiedPaymentVote (s : CMasternodePayments) (hash : Uint256) : Bool :=
  match s.mapMasternodePaymentVotes.lookup hash with
  | none => false
  | some vote => vote.isVerified

/-- `CMasternodePayments::CanVote`. -/
def CMasternodePayments.canVote (s : CMasternodePayments) (outMasternode : COutPoint)
    (nBlockHeight : ℤ) : Bool × CMasternodePayments :=
  if s.mapMasternodesLastVote.lookup outMasternode = some nBlockHeight then (false, s)
  else (true, { s with
    mapMasternodesLastVote := s.mapMasternodesLastVote.insert outMasternode nBlockHeight })

/-- What a node asks the rest of the program about a vote: `GetHash`, `GetBlockHash`, the protocol
    version of the peer, `IsMasternodeListSynced`, `GetStorageLimit`, `CMasternodePaymentVote::IsValid`,
    `GetMasternodeInfo` and `CheckSignature`. -/
structure VoteChecks where
  getHash : CMasternodePaymentVote → Uint256
  hasBlockHash : ℤ → Bool
  peerIsUpdated : Bool
  isMasternodeListSynced : Bool
  nStorageLimit : ℤ
  isValid : CMasternodePaymentVote → Bool
  hasMasternodeInfo : COutPoint → Bool
  checkSignature : CMasternodePaymentVote → Bool

/-- `CMasternodePayments::AddPaymentVote`. -/
def CMasternodePayments.addPaymentVote (checks : VoteChecks) (s : CMasternodePayments)
    (vote : CMasternodePaymentVote) : Bool × CMasternodePayments :=
  let hash := checks.getHash vote
  if !checks.hasBlockHash (vote.nBlockHeight - 101) then (false, s)
  else if s.hasVerifiedPaymentVote hash then (false, s)
  else (true, s.countVote vote hash)

/-- `CMasternodePayments::GetBlockPayee`. -/
def CMasternodePayments.getBlockPayee (s : CMasternodePayments) (nBlockHeight : ℤ) :
    Option CScript :=
  match s.mapMasternodeBlocks.lookup nBlockHeight with
  | some block => block.getBestPayee
  | none => none

/-- `CMasternodePayments::IsTransactionValid`. -/
def CMasternodePayments.isTransactionValid (params : ConsensusParams) (s : CMasternodePayments)
    (txNew : CTransaction) (nBlockHeight : ℤ) : Option Bool :=
  match s.mapMasternodeBlocks.lookup nBlockHeight with
  | some block => block.isTransactionValid params txNew
  | none => some true

/-! ## The coinbase of a miner -/

/-- `CTxOut()`. -/
def CTxOut.null : CTxOut := ⟨-1, []⟩

/-- The coinbase `CreateNewBlock` starts from: the whole reward to the miner. -/
def coinbaseTemplate (scriptPubKeyIn scriptSig : CScript) (blockReward : CAmount) :
    CMutableTransaction :=
  { nVersion := 1
    vin := [{ prevout := ⟨0, 0xffffffff⟩, scriptSig := scriptSig, nSequence := 0xffffffff }]
    vout := [⟨blockReward, scriptPubKeyIn⟩]
    nLockTime := 0 }

/-- The end of `FillBlockPayee`: the payment is taken from the first output, which the template
    always has. -/
def payMasternode (masternodePayment : CAmount) (payee : CScript) : CMutableTransaction × CTxOut :=
  let txoutMasternodeRet : CTxOut := ⟨masternodePayment, payee⟩
  ({ txNew with
      vout := txNew.vout.modifyHead (fun txout =>
        { txout with nValue := txout.nValue - masternodePayment }) ++ [txoutMasternodeRet] },
    txoutMasternodeRet)

/-- `CMasternodePayments::FillBlockPayee`, with `txoutMasternodeRet`. The masternode that
    `GetNextMasternodeInQueueForPayment` finds is given by the script that pays it. -/
def CMasternodePayments.fillBlockPayee (s : CMasternodePayments) (nextInQueue : Option CScript)
    (txNew : CMutableTransaction) (nBlockHeight : ℤ) (blockReward : CAmount) :
    CMutableTransaction × CTxOut :=
  match (s.getBlockPayee nBlockHeight).or nextInQueue with
  | none => (txNew, CTxOut.null)
  | some payee =>
    payMasternode txNew (getMasternodePayment params nBlockHeight blockReward) payee

theorem getValueOut_payMasternode (scriptPubKeyIn scriptSig payee : CScript)
    {blockReward payment : CAmount} (hash : Uint256) (hreward : moneyRange blockReward)
    (hpayment : 0 ≤ payment.toInt ∧ payment.toInt ≤ blockReward.toInt) :
    ((payMasternode (coinbaseTemplate scriptPubKeyIn scriptSig blockReward) payment payee).1
      |>.toTransaction hash).getValueOut = some blockReward := by
  have hbounds := (moneyRange_iff blockReward).mp hreward
  have hsub : (blockReward - payment).toInt = blockReward.toInt - payment.toInt :=
    Int64.toInt_sub_of_range (by omega) (by omega)
  have hminer : moneyRange (blockReward - payment) := (moneyRange_iff _).mpr (by omega)
  have hpay : moneyRange payment := (moneyRange_iff _).mpr (by omega)
  simp [payMasternode, coinbaseTemplate, toTransaction,
    CTransaction.getValueOut, sumOutputs, hminer, hpay, hreward]

/-- A reward outside the money range makes `GetValueOut` throw, however it is split. -/
theorem getValueOut_payMasternode_eq_none (scriptPubKeyIn scriptSig payee : CScript)
    {blockReward : CAmount} (payment : CAmount) (hash : Uint256)
    (hreward : moneyRange blockReward = false) :
    ((payMasternode (coinbaseTemplate scriptPubKeyIn scriptSig blockReward) payment payee).1
      |>.toTransaction hash).getValueOut = none := by
  simp [payMasternode, coinbaseTemplate, toTransaction,
    CTransaction.getValueOut, sumOutputs, hreward]

theorem getValueOut_coinbaseTemplate (scriptPubKeyIn scriptSig : CScript) (blockReward : CAmount)
    (hash : Uint256) :
    ((coinbaseTemplate scriptPubKeyIn scriptSig blockReward).toTransaction hash).getValueOut
      = if moneyRange blockReward then some blockReward else none := by
  simp [coinbaseTemplate, toTransaction, CTransaction.getValueOut, sumOutputs]

/-- **The coinbase of `FillBlockPayee` pays out the reward.** -/
theorem getValueOut_fillBlockPayee (s : CMasternodePayments) (nextInQueue : Option CScript)
    (scriptPubKeyIn scriptSig : CScript) (nBlockHeight : ℤ) (blockReward : CAmount)
    (hash : Uint256) :
    ((s.fillBlockPayee params nextInQueue (coinbaseTemplate scriptPubKeyIn scriptSig blockReward)
        nBlockHeight blockReward).1.toTransaction hash).getValueOut
      = if moneyRange blockReward then some blockReward else none := by
  unfold CMasternodePayments.fillBlockPayee
  split
  · exact getValueOut_coinbaseTemplate scriptPubKeyIn scriptSig blockReward hash
  · split_ifs with hreward
    · exact getValueOut_payMasternode _ _ _ hash hreward
        (getMasternodePayment_range params nBlockHeight hreward)
    · exact getValueOut_payMasternode_eq_none _ _ _ _ hash (by simpa using hreward)

theorem mem_vout_fillBlockPayee {s : CMasternodePayments} {nBlockHeight : ℤ}
    (blockReward : CAmount) {payee : CScript} (hpayee : s.getBlockPayee nBlockHeight = some payee) :
    ⟨getMasternodePayment params nBlockHeight blockReward, payee⟩
      ∈ (s.fillBlockPayee params nextInQueue txNew nBlockHeight blockReward).1.vout := by
  simp [CMasternodePayments.fillBlockPayee, hpayee, payMasternode]

/-- **Miner and validator agree on masternode payments.** In every vote state the coinbase that
    `FillBlockPayee` completes is accepted by `IsTransactionValid` in the same state, unless the
    state has an entry for the height and the reward is outside the money range: then
    `GetValueOut` throws. -/
theorem isTransactionValid_fillBlockPayee (params : ConsensusParams) (s : CMasternodePayments)
    (nextInQueue : Option CScript) (scriptPubKeyIn scriptSig : CScript) (nBlockHeight : ℤ)
    (blockReward : CAmount) (hash : Uint256) :
    s.isTransactionValid params
        ((s.fillBlockPayee params nextInQueue
          (coinbaseTemplate scriptPubKeyIn scriptSig blockReward) nBlockHeight
          blockReward).1.toTransaction hash) nBlockHeight
      = if moneyRange blockReward = true ∨ s.mapMasternodeBlocks.lookup nBlockHeight = none then
          some true else none := by
  have hvalue := getValueOut_fillBlockPayee params s nextInQueue scriptPubKeyIn scriptSig
    nBlockHeight blockReward hash
  unfold CMasternodePayments.isTransactionValid
  cases hblock : s.mapMasternodeBlocks.lookup nBlockHeight with
  | none => simp
  | some block =>
    simp only [reduceCtorEq, or_false]
    cases hreward : moneyRange blockReward with
    | false => simp [isTransactionValid, hvalue, hreward]
    | true =>
      rw [hreward, if_pos rfl] at hvalue
      simp only [if_true]
      cases hbest : block.getBestPayee with
      | none =>
        exact isTransactionValid_of_no_payees params hvalue (getBestPayee_eq_none hbest)
      | some payee =>
        obtain ⟨best, hmem, hscript, hall⟩ := getBestPayee_spec hbest
        have hpayee : s.getBlockPayee nBlockHeight = some best.scriptPubKey := by
          simp [CMasternodePayments.getBlockPayee, hblock, hbest, hscript]
        refine isTransactionValid_of_pays_best params hvalue hmem hall ?_
        rw [s.keyed _ _ hblock]
        exact mem_vout_fillBlockPayee params nextInQueue _ blockReward hpayee

/-- A node that has counted one vote, for height 200. -/
def oneVoteState : CMasternodePayments :=
  CMasternodePayments.init.countVote ⟨⟨7, 0⟩, 200, [0x76], [1]⟩ 9

/-- One unit above the money range is not accepted when there is a vote for the height. -/
theorem isTransactionValid_rejects_above_money_range :
    oneVoteState.isTransactionValid (consensusParams .main)
        ((oneVoteState.fillBlockPayee (consensusParams .main) none
          (coinbaseTemplate [0x51] [] 2100000000000001) 200 2100000000000001).1.toTransaction 1)
        200
      = none := by
  decide

end Binarium
