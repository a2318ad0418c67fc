import Binarium.Coins.Cache
import Binarium.Governance.Vote

set_option autoImplicit false

/-! # Governance objects (`governance-object.h`, `governance-object.cpp`)

A governance object is a proposal, a trigger or a watchdog. It keeps what each masternode voted last
for each signal (`mapCurrentMNVotes`), the votes themselves (`fileVotes`) and votes of masternodes that
are not known yet (`mapOrphanVotes`), and sets its flags by the votes it counts. -/

namespace Binarium

/-! ## Exceptions (`governance-exceptions.h`) -/

/-- `governance_exception_type_enum_t`. -/
inductive GovernanceExceptionType where
  | none | warning | permanentError | temporaryError | internalError
deriving DecidableEq

/-- `operator<<` of an exception type. -/
def GovernanceExceptionType.text : GovernanceExceptionType → String
  | .none => "GOVERNANCE_EXCEPTION_NONE"
  | .warning => "GOVERNANCE_EXCEPTION_WARNING"
  | .permanentError => "GOVERNANCE_EXCEPTION_PERMANENT_ERROR"
  | .temporaryError => "GOVERNANCE_EXCEPTION_TEMPORARY_ERROR"
  | .internalError => "GOVERNANCE_EXCEPTION_INTERNAL_ERROR"

/-- `CGovernanceException`. -/
structure CGovernanceException where
  strMessage : String
  eType : GovernanceExceptionType
  nNodePenalty : ℤ
deriving DecidableEq

/-- The constructor of `CGovernanceException`. -/
def governanceException (strMessageIn : String) (eTypeIn : GovernanceExceptionType)
    (nNodePenaltyIn : ℤ) : CGovernanceException :=
  { strMessage := eTypeIn.text ++ ":" ++ strMessageIn
    eType := eTypeIn
    nNodePenalty := nNodePenaltyIn }

/-! ## Objects -/

/-- `GOVERNANCE_OBJECT_PROPOSAL`. -/
def GOVERNANCE_OBJECT_PROPOSAL : Int32 := 1

/-- `GOVERNANCE_OBJECT_TRIGGER`. -/
def GOVERNANCE_OBJECT_TRIGGER : Int32 := 2

/-- `GOVERNANCE_OBJECT_WATCHDOG`. -/
def GOVERNANCE_OBJECT_WATCHDOG : Int32 := 3

/-- `GOVERNANCE_PROPOSAL_FEE_TX`. -/
def GOVERNANCE_PROPOSAL_FEE_TX : CAmount := 5 * COIN

/-- `GOVERNANCE_FEE_CONFIRMATIONS`. -/
def GOVERNANCE_FEE_CONFIRMATIONS : ℤ := 6

/-- `GOVERNANCE_MIN_RELAY_FEE_CONFIRMATIONS`. -/
def GOVERNANCE_MIN_RELAY_FEE_CONFIRMATIONS : ℤ := 1

/-- `GOVERNANCE_UPDATE_MIN`. -/
def GOVERNANCE_UPDATE_MIN : ℤ := 60 * 60

/-- `GOVERNANCE_ORPHAN_EXPIRATION_TIME`. -/
def GOVERNANCE_ORPHAN_EXPIRATION_TIME : ℤ := 10 * 60

/-- `GOVERNANCE_WATCHDOG_EXPIRATION_TIME`. -/
def GOVERNANCE_WATCHDOG_EXPIRATION_TIME : ℤ := 2 * 60 * 60

/-- `nGovernanceMinQuorum` of the consensus parameters. -/
def nGovernanceMinQuorum : Network → ℕ
  | .main => 10
  | .test => 1
  | .regtest => 1

/-- `vote_instance_t`. -/
structure VoteInstance where
  eOutcome : VoteOutcome := .none
  nTime : ℤ := 0
  nCreationTime : ℤ := 0
deriving DecidableEq

/-- `vote_rec_t`. -/
structure VoteRec where
  mapInstances : AList (fun _ : VoteSignal => VoteInstance) := ∅

/-- `CGovernanceObjectVoteFile`: the votes, the newest first. -/
structure CGovernanceObjectVoteFile where
  listVotes : List CGovernanceVote := []
deriving DecidableEq

/-- `CGovernanceObject`. The fields from `nObjectType` to `vchSig` are sent over the network. -/
structure CGovernanceObject where
  nObjectType : Int32
  nHashParent : Uint256
  nRevision : Int32
  nTime : ℤ
  nCollateralHash : Uint256
  strData : String
  vinMasternode : CTxIn
  vchSig : List UInt8
  nDeletionTime : ℤ := 0
  fCachedFunding : Bool := false
  fCachedValid : Bool := true
  fCachedDelete : Bool := false
  fCachedEndorsed : Bool := false
  fDirtyCache : Bool := true
  fExpired : Bool := false
  fUnparsable : Bool := false
  mapCurrentMNVotes : AList (fun _ : COutPoint => VoteRec) := ∅
  mapOrphanVotes : CacheMultiMap COutPoint VoteTimePair voteTimePairLt := .empty 0
  fileVotes : CGovernanceObjectVoteFile := {}

variable (crypto : GovernanceCrypto) (ctx : GovernanceContext)

variable (govobj : CGovernanceObject) (masternode : COutPoint)

/-- `CGovernanceObject::GetHash`. Neither the type nor the collateral is part of it. -/
def CGovernanceObject.getHash : Uint256 :=
  crypto.hashObject govobj.nHashParent govobj.nRevision govobj.nTime govobj.strData
    govobj.vinMasternode govobj.vchSig

/-- `CGovernanceObject::GetSignatureMessage`. -/
def CGovernanceObject.getSignatureMessage : String :=
  uint256ToString govobj.nHashParent ++ "|" ++ toString govobj.nRevision.toInt ++ "|"
    ++ toString govobj.nTime ++ "|" ++ govobj.strData ++ "|"
    ++ govobj.vinMasternode.prevout.toStringShort ++ "|" ++ uint256ToString govobj.nCollateralHash

/-- `CGovernanceObject::CheckSignature`. -/
def CGovernanceObject.checkSignature (pubKeyMasternode : CPubKey) : Bool :=
  crypto.verifyMessage pubKeyMasternode govobj.vchSig govobj.getSignatureMessage

/-! ## Validity -/

/-- `CScript() << OP_RETURN << ToByteVector(nExpectedHash)`. -/
def burnScript (nExpectedHash : Uint256) : CScript :=
  OP_RETURN :: 0x20 :: uint256Bytes nExpectedHash

/-- `CGovernanceObject::GetMinCollateralFee`. -/
def CGovernanceObject.getMinCollateralFee : CAmount :=
  if govobj.nObjectType = GOVERNANCE_OBJECT_PROPOSAL then GOVERNANCE_PROPOSAL_FEE_TX
  else if govobj.nObjectType = GOVERNANCE_OBJECT_TRIGGER then 0
  else if govobj.nObjectType = GOVERNANCE_OBJECT_WATCHDOG then 0
  else MAX_MONEY

/-- The loop over the outputs of the collateral: `none` at an output with another script, otherwise
    whether one of them burns the fee. -/
def findOpReturn (nMinFee : CAmount) (nExpectedHash : Uint256) : Bool → List CTxOut → Option Bool
  | foundOpReturn, [] => some foundOpReturn
  | foundOpReturn, o :: rest =>
    if !o.scriptPubKey.isPayToPublicKeyHash && !o.scriptPubKey.isUnspendable then none
    else
      let here := decide (o.scriptPubKey = burnScript nExpectedHash ∧ o.nValue ≥ nMinFee)
      findOpReturn nMinFee nExpectedHash (foundOpReturn || here) rest

/-- What `IsValidLocally` and `IsCollateralValid` return, with the variables they set. -/
structure LocalValidity where
  fValid : Bool
  strError : String := ""
  fMissingMasternode : Bool := false
  fMissingConfirmations : Bool := false
deriving DecidableEq

/-- `nConfirmationsIn` of `IsCollateralValid`. -/
def collateralConfirmations (nCollateralHash nBlockHash : Uint256) : ℤ :=
  let nConfirmationsIn := ctx.instantSendConfirmations nCollateralHash
  if nBlockHash ≠ 0 then
    match ctx.blockHeight nBlockHash with
    | some nHeight => nConfirmationsIn + (ctx.chainHeight - nHeight + 1)
    | none => nConfirmationsIn
  else nConfirmationsIn

/-- The last step of `IsCollateralValid`: has the collateral enough confirmations? -/
def confirmationsValid (nConfirmationsIn : ℤ) : LocalValidity :=
  if nConfirmationsIn < GOVERNANCE_FEE_CONFIRMATIONS then
    let strError := "Collateral requires at least " ++ toString GOVERNANCE_FEE_CONFIRMATIONS
      ++ " confirmations to be relayed throughout the network (it has only "
      ++ toString nConfirmationsIn ++ ")"
    if nConfirmationsIn ≥ GOVERNANCE_MIN_RELAY_FEE_CONFIRMATIONS then
      { fValid := false
        strError := strError ++ ", pre-accepted -- waiting for required confirmations"
        fMissingConfirmations := true }
    else
      { fValid := false, strError := strError ++ ", rejected -- try again later" }
  else { fValid := true, strError := "valid" }

/-- `CGovernanceObject::IsCollateralValid`. -/
def CGovernanceObject.isCollateralValid : LocalValidity :=
  let nExpectedHash := govobj.getHash crypto
  match ctx.getTransaction govobj.nCollateralHash with
  | none =>
    { fValid := false, strError := "Can't find collateral tx " ++ CTransaction.default.text }
  | some (txCollateral, nBlockHash) =>
    if txCollateral.vout.length < 1 then
      { fValid := false
        strError := "tx vout size less than 1 | " ++ toString txCollateral.vout.length }
    else
      match findOpReturn govobj.getMinCollateralFee nExpectedHash false txCollateral.vout with
      | none => { fValid := false, strError := "Invalid Script " ++ txCollateral.text }
      | some false =>
        { fValid := false
          strError := "Couldn't find opReturn " ++ uint256ToString nExpectedHash ++ " in "
            ++ txCollateral.text }
      | some true =>
        confirmationsValid (collateralConfirmations ctx govobj.nCollateralHash nBlockHash)

/-- The part of `IsValidLocally` for objects that a masternode signs. -/
def CGovernanceObject.isMasternodeValid : LocalValidity :=
  let strOutpoint := govobj.vinMasternode.prevout.toStringShort
  match ctx.getMasternodeInfo govobj.vinMasternode.prevout with
  | none =>
    match ctx.checkCollateral govobj.vinMasternode.prevout with
    | .ok =>
      { fValid := false
        strError := "Masternode not found: " ++ strOutpoint
        fMissingMasternode := true }
    | .utxoNotFound =>
      { fValid := false
        strError := "Failed to find Masternode UTXO, missing masternode=" ++ strOutpoint
          ++ "\n" }
    | .invalidAmount =>
      { fValid := false
        strError := "Masternode UTXO should have 1000 BINARIUM, missing masternode="
          ++ strOutpoint ++ "\n" }
  | some pubKeyMasternode =>
    if govobj.checkSignature crypto pubKeyMasternode then { fValid := true }
    else
      { fValid := false
        strError := "Invalid masternode signature for: " ++ strOutpoint ++ ", pubkey id = "
          ++ crypto.pubKeyID pubKeyMasternode }

/-- `CGovernanceObject::IsValidLocally`. -/
def CGovernanceObject.isValidLocally (fCheckCollateral : Bool) : LocalValidity :=
  if govobj.fUnparsable then { fValid := false, strError := "Object data unparseable" }
  else if ¬ (govobj.nObjectType = GOVERNANCE_OBJECT_PROPOSAL
      ∨ govobj.nObjectType = GOVERNANCE_OBJECT_TRIGGER
      ∨ govobj.nObjectType = GOVERNANCE_OBJECT_WATCHDOG) then
    { fValid := false, strError := "Invalid object type " ++ toString govobj.nObjectType.toInt }
  else if fCheckCollateral then
    if govobj.nObjectType = GOVERNANCE_OBJECT_TRIGGER
        ∨ govobj.nObjectType = GOVERNANCE_OBJECT_WATCHDOG then
      govobj.isMasternodeValid crypto ctx
    else govobj.isCollateralValid crypto ctx
  else { fValid := true }

/-! ## Counting -/

/-- What a masternode voted last for a signal. -/
def CGovernanceObject.instance? (eSignal : VoteSignal) : Option VoteInstance :=
  (govobj.mapCurrentMNVotes.lookup masternode).bind fun recVote =>
    recVote.mapInstances.lookup eSignal

/-- The test of the loop of `CountMatchingVotes`. -/
def VoteRec.hasOutcome (recVote : VoteRec) (eVoteSignalIn : VoteSignal)
    (eVoteOutcomeIn : VoteOutcome) : Bool :=
  match recVote.mapInstances.lookup eVoteSignalIn with
  | none => false
  | some voteInstance => decide (voteInstance.eOutcome = eVoteOutcomeIn)

/-- `CGovernanceObject::CountMatchingVotes`. -/
def CGovernanceObject.countMatchingVotes (eVoteSignalIn : VoteSignal)
    (eVoteOutcomeIn : VoteOutcome) : ℕ :=
  govobj.mapCurrentMNVotes.entries.countP fun entry =>
    entry.2.hasOutcome eVoteSignalIn eVoteOutcomeIn

/-- `CGovernanceObject::GetAbsoluteYesCount`. -/
def CGovernanceObject.getAbsoluteYesCount (eSignal : VoteSignal) : ℤ :=
  (govobj.countMatchingVotes eSignal .yes : ℤ) - govobj.countMatchingVotes eSignal .no

/-- `CGovernanceObject::GetAbsoluteNoCount`. -/
def CGovernanceObject.getAbsoluteNoCount (eSignal : VoteSignal) : ℤ :=
  (govobj.countMatchingVotes eSignal .no : ℤ) - govobj.countMatchingVotes eSignal .yes

/-- `CGovernanceObject::UpdateSentinelVariables`. -/
def CGovernanceObject.updateSentinelVariables : CGovernanceObject :=
  let nMnCount := ctx.countEnabled
  if nMnCount = 0 then govobj
  else
    let nAbsVoteReq : ℤ := max (nGovernanceMinQuorum ctx.net) (nMnCount / 10)
    let nAbsDeleteReq : ℤ := max (nGovernanceMinQuorum ctx.net) (2 * nMnCount / 3)
    let fDelete := decide (govobj.getAbsoluteYesCount .delete ≥ nAbsDeleteReq)
    { govobj with
      fCachedFunding := decide (govobj.getAbsoluteYesCount .funding ≥ nAbsVoteReq)
      fCachedValid := !decide (govobj.getAbsoluteNoCount .valid ≥ nAbsVoteReq)
      fCachedEndorsed := decide (govobj.getAbsoluteYesCount .endorsed ≥ nAbsVoteReq)
      fDirtyCache := false
      fCachedDelete := govobj.fCachedDelete || fDelete
      nDeletionTime :=
        if fDelete && !govobj.fCachedDelete && govobj.nDeletionTime == 0 then ctx.adjustedTime
        else govobj.nDeletionTime }

/-! ## Voting -/

/-- `CGovernanceObjectVoteFile::HasVote`. -/
def CGovernanceObjectVoteFile.hasVote (fileVotes : CGovernanceObjectVoteFile) (nHash : Uint256) :
    Bool :=
  fileVotes.listVotes.any fun vote => decide (vote.getHash crypto = nHash)

/-- `CGovernanceObjectVoteFile::AddVote`. -/
def CGovernanceObjectVoteFile.addVote (fileVotes : CGovernanceObjectVoteFile)
    (vote : CGovernanceVote) : CGovernanceObjectVoteFile :=
  { listVotes := vote :: fileVotes.listVotes }

/-- What `CGovernanceObject::ProcessVote` returns, the object after the call, and whether it hands the
    vote to `governance.AddInvalidVote`. -/
structure ProcessVoteResult where
  result : Except CGovernanceException Unit
  govobj : CGovernanceObject
  addInvalidVote : Bool := false

/-- A record for the masternode, as it is or a new one. -/
def CGovernanceObject.recVote : VoteRec :=
  (govobj.mapCurrentMNVotes.lookup masternode).getD {}

/-- The object with another record for a masternode. -/
def CGovernanceObject.setRecVote (recVote : VoteRec) : CGovernanceObject :=
  { govobj with mapCurrentMNVotes := govobj.mapCurrentMNVotes.insert masternode recVote }

/-- The record with another instance for a signal. -/
def VoteRec.setInstance (recVote : VoteRec) (eSignal : VoteSignal) (voteInstance : VoteInstance) :
    VoteRec :=
  { mapInstances := recVote.mapInstances.insert eSignal voteInstance }

/-- `CGovernanceObject::ProcessVote`. The record of the masternode and its instance for the signal are
    made before the vote is looked at, so they stay when it is rejected. -/
def CGovernanceObject.processVote (vote : CGovernanceVote) : ProcessVoteResult :=
  let masternode := vote.getMasternodeOutpoint
  let reject (govobj : CGovernanceObject) (strMessage : String) (eType : GovernanceExceptionType)
      (nNodePenalty : ℤ) : ProcessVoteResult :=
    { result := .error (governanceException ("CGovernanceObject::ProcessVote -- " ++ strMessage)
        eType nNodePenalty)
      govobj }
  if ctx.getMasternodeInfo masternode = none then
    let expiration := ctx.adjustedTime + GOVERNANCE_ORPHAN_EXPIRATION_TIME
    reject { govobj with
      mapOrphanVotes := (govobj.mapOrphanVotes.insert masternode (vote, expiration)).2 }
      "Masternode index not found" .warning 0
  else
    let recVote := govobj.recVote masternode
    let eSignal := vote.getSignal
    if eSignal = .none then
      reject (govobj.setRecVote masternode recVote) "Vote signal: none" .warning 0
    else if eSignal.unsupported then
      reject (govobj.setRecVote masternode recVote)
        ("Unsupported vote signal: " ++ convertSignalToString eSignal) .permanentError 20
    else
      let voteInstance := (recVote.mapInstances.lookup eSignal).getD {}
      let withInstance := govobj.setRecVote masternode (recVote.setInstance eSignal voteInstance)
      let nTimeDelta := ctx.adjustedTime - voteInstance.nTime
      let strVote := ", MN outpoint = " ++ masternode.toStringShort
        ++ ", governance object hash = " ++ uint256ToString (govobj.getHash crypto)
      if vote.nTime < voteInstance.nCreationTime then
        reject withInstance "Obsolete vote" .none 0
      else if ctx.fRateChecksEnabled && decide (nTimeDelta < GOVERNANCE_UPDATE_MIN) then
        reject withInstance ("Masternode voting too often" ++ strVote ++ ", time delta = "
          ++ toString nTimeDelta) .temporaryError 0
      else if !vote.isValid crypto ctx true then
        { reject withInstance ("Invalid vote" ++ strVote ++ ", vote hash = "
            ++ uint256ToString (vote.getHash crypto)) .permanentError 20 with
          addInvalidVote := true }
      else
        -- `mnodeman.AddGovernanceVote` finds the masternode, since it is in the list
        let nHash := vote.getHash crypto
        { result := .ok ()
          govobj :=
            { govobj.setRecVote masternode (recVote.setInstance eSignal
                { eOutcome := vote.getOutcome
                  nTime := voteInstance.nTime
                  nCreationTime := vote.nTime }) with
              fileVotes :=
                if !govobj.fileVotes.hasVote crypto nHash then govobj.fileVotes.addVote vote
                else govobj.fileVotes
              fDirtyCache := true } }

/-- `ProcessVote` returns true. -/
def CGovernanceObject.accepts (vote : CGovernanceVote) : Bool :=
  (govobj.processVote crypto ctx vote).result.isOk

end Binarium
