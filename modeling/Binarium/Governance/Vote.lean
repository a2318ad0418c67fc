import Binarium.CacheMap
import Binarium.Primitives.Text

set_option autoImplicit false

/-! # Governance votes (`governance-vote.h`, `governance-vote.cpp`)

A masternode votes on a governance object: a signal says what is voted about, an outcome what the
masternode wants. The signal and the outcome of a vote are integers from the wire that are read as
enumerations. -/

namespace Binarium

/-! ## Signals and outcomes -/

/-- `vote_outcome_enum_t`, with the integers that are none of its values. -/
inductive VoteOutcome where
  | none | yes | no | abstain
  | other (n : Int32)
deriving DecidableEq

/-- `vote_signal_enum_t`, with the signals above `VOTE_SIGNAL_ENDORSED` by number and the integers
    that are none of its values. -/
inductive VoteSignal where
  | none | funding | valid | delete | endorsed
  | other (n : Int32)
deriving DecidableEq

/-- `vote_outcome_enum_t(nVoteOutcome)`. -/
def VoteOutcome.ofInt32 (n : Int32) : VoteOutcome :=
  if n = 0 then .none else if n = 1 then .yes else if n = 2 then .no else if n = 3 then .abstain
  else .other n

/-- `vote_signal_enum_t(nVoteSignal)`. -/
def VoteSignal.ofInt32 (n : Int32) : VoteSignal :=
  if n = 0 then .none else if n = 1 then .funding else if n = 2 then .valid
  else if n = 3 then .delete else if n = 4 then .endorsed else .other n

/-- `CGovernanceVoting::ConvertSignalToString`. -/
def convertSignalToString : VoteSignal → String
  | .none => "NONE"
  | .funding => "FUNDING"
  | .valid => "VALID"
  | .delete => "DELETE"
  | .endorsed => "ENDORSED"
  | .other n =>
    if 5 ≤ n ∧ n ≤ 15 then "NOOP" ++ toString (n.toInt - 4)
    else if 16 ≤ n ∧ n ≤ 35 then "CUSTOM" ++ toString (n.toInt - 15)
    else "NONE"

/-- `MAX_SUPPORTED_VOTE_SIGNAL`. -/
def MAX_SUPPORTED_VOTE_SIGNAL : Int32 := 4

/-- `eSignal > MAX_SUPPORTED_VOTE_SIGNAL`. The enumeration has no negative values and is compared as
    an unsigned number, so an integer below 0 is above it too. -/
def VoteSignal.unsupported : VoteSignal → Bool
  | .other _ => true
  | _ => false

/-! ## What governance reads of the rest of the node -/

/-- The bytes of a public key. -/
abbrev CPubKey := List UInt8

/-- `CMasternode::CollateralStatus`. -/
inductive CollateralStatus where
  | ok | utxoNotFound | invalidAmount
deriving DecidableEq

/-- Signatures and hashes: `CMessageSigner::VerifyMessage`, `CPubKey::GetID` as text, and the hash of
    the fields that `GetHash` of a vote and of an object write into the stream. -/
structure GovernanceCrypto where
  verifyMessage : CPubKey → List UInt8 → String → Bool
  pubKeyID : CPubKey → String
  /-- `vinMasternode`, `nParentHash`, `nVoteSignal`, `nVoteOutcome`, `nTime` -/
  hashVote : CTxIn → Uint256 → Int32 → Int32 → ℤ → Uint256
  /-- `nHashParent`, `nRevision`, `nTime`, `strData`, `vinMasternode`, `vchSig` -/
  hashObject : Uint256 → Int32 → ℤ → String → CTxIn → List UInt8 → Uint256

/-- The state of the node outside of governance at one moment. -/
structure GovernanceContext where
  net : Network
  /-- `GetAdjustedTime()` -/
  adjustedTime : ℤ
  /-- `mnodeman.GetMasternodeInfo`: the masternode's key, if the masternode is in the list -/
  getMasternodeInfo : COutPoint → Option CPubKey
  /-- `mnodeman.CountEnabled()` -/
  countEnabled : ℕ
  checkCollateral : COutPoint → CollateralStatus
  /-- `GetTransaction`: the transaction and the hash of its block, which is 0 outside of a block -/
  getTransaction : Uint256 → Option (CTransaction × Uint256)
  /-- `instantsend.GetConfirmations` -/
  instantSendConfirmations : Uint256 → ℤ
  /-- `chainActive.Height()` -/
  chainHeight : ℤ
  /-- the height of a block of the active chain -/
  blockHeight : Uint256 → Option ℤ
  /-- `governance.AreRateChecksEnabled()` -/
  fRateChecksEnabled : Bool

/-! ## Votes -/

/-- `CGovernanceVote`. -/
structure CGovernanceVote where
  nVoteSignal : Int32
  vinMasternode : CTxIn
  nParentHash : Uint256
  nVoteOutcome : Int32
  nTime : ℤ
  vchSig : List UInt8
deriving DecidableEq

variable (vote : CGovernanceVote)

/-- `CGovernanceVote::GetMasternodeOutpoint`. -/
def CGovernanceVote.getMasternodeOutpoint : COutPoint :=
  vote.vinMasternode.prevout

/-- `CGovernanceVote::GetSignal`. -/
def CGovernanceVote.getSignal : VoteSignal :=
  VoteSignal.ofInt32 vote.nVoteSignal

/-- `CGovernanceVote::GetOutcome`. -/
def CGovernanceVote.getOutcome : VoteOutcome :=
  VoteOutcome.ofInt32 vote.nVoteOutcome

/-- The text that a masternode signs. -/
def CGovernanceVote.strMessage : String :=
  vote.vinMasternode.prevout.toStringShort ++ "|" ++ uint256ToString vote.nParentHash ++ "|"
    ++ toString vote.nVoteSignal.toInt ++ "|" ++ toString vote.nVoteOutcome.toInt ++ "|"
    ++ toString vote.nTime

variable (crypto : GovernanceCrypto) (ctx : GovernanceContext)

/-- `CGovernanceVote::GetHash`. The signature is not part of it. -/
def CGovernanceVote.getHash : Uint256 :=
  crypto.hashVote vote.vinMasternode vote.nParentHash vote.nVoteSignal vote.nVoteOutcome vote.nTime

/-- `CGovernanceVote::IsValid`. -/
def CGovernanceVote.isValid (fSignatureCheck : Bool) : Bool :=
  if vote.nTime > ctx.adjustedTime + 60 * 60 then false
  else if vote.nVoteSignal > MAX_SUPPORTED_VOTE_SIGNAL then false
  else if vote.nVoteOutcome > 3 then false
  else
    match ctx.getMasternodeInfo vote.vinMasternode.prevout with
    | none => false
    | some pubKeyMasternode =>
      if !fSignatureCheck then true
      else crypto.verifyMessage pubKeyMasternode vote.vchSig vote.strMessage

/-! ## The order of votes

Votes are compared where they are keys of an ordered map. -/

/-- `operator<` of `COutPoint`. -/
def COutPoint.lt (a b : COutPoint) : Bool :=
  uint256Lt a.hash b.hash || (decide (a.hash = b.hash) && decide (a.n < b.n))

/-- `operator<` of `CTxIn`. -/
def CTxIn.lt (a b : CTxIn) : Bool := a.prevout.lt b.prevout

/-- `operator<` of `CGovernanceVote`. -/
def CGovernanceVote.lt (vote1 vote2 : CGovernanceVote) : Bool :=
  let fResult := vote1.vinMasternode.lt vote2.vinMasternode
  if !fResult then false
  else
    let fResult := decide (vote1.vinMasternode = vote2.vinMasternode)
    let fResult := fResult && uint256Lt vote1.nParentHash vote2.nParentHash
    if !fResult then false
    else
      let fResult := fResult && decide (vote1.nParentHash = vote2.nParentHash)
      let fResult := fResult && decide (vote1.nVoteOutcome < vote2.nVoteOutcome)
      if !fResult then false
      else
        let fResult := fResult && decide (vote1.nVoteOutcome = vote2.nVoteOutcome)
        let fResult := fResult && decide (vote1.nVoteSignal = vote2.nVoteSignal)
        if !fResult then false
        else
          let fResult := fResult && decide (vote1.nVoteSignal = vote2.nVoteSignal)
          fResult && decide (vote1.nTime < vote2.nTime)

/-- `vote_time_pair_t`: a vote and the time it expires. -/
abbrev VoteTimePair := CGovernanceVote × ℤ

/-- `operator<` of `vote_time_pair_t`, which looks at the votes only. -/
def voteTimePairLt (p1 p2 : VoteTimePair) : Bool := p1.1.lt p2.1

end Binarium
