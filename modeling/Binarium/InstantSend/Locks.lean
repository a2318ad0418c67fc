import Binarium.Coins.Cache
import Binarium.Lib.Maps

set_option autoImplicit false

/-! # InstantSend (`instantx.cpp`, `instantx.h`)

A payment can ask to be locked before it is in a block. A node that gets the lock request creates a
lock candidate with one lock for every outpoint the transaction spends; masternodes send votes for
these outpoints, and once all of them have `SIGNATURES_REQUIRED` votes the outpoints are recorded as
locked by the transaction. Votes can come before the request; they are then kept as orphans, with an
empty candidate that starts the countdown.

This module has the state, the candidates and how a lock is completed, as functions of the state and
of a `LockContext`, which is all that they ask the rest of the node. An iteration over a map follows
the order of the association list. -/

namespace Binarium

open Maps

/-! ## What a node asks the rest of the program -/

/-- `CTxLockVote`. -/
structure CTxLockVote where
  txHash : Uint256
  outpoint : COutPoint
  outpointMasternode : COutPoint
  vchMasternodeSignature : List UInt8
  nConfirmedHeight : ℤ
  nTimeCreated : ℤ
deriving DecidableEq

/-- The state of the node outside InstantSend at the time of an event. -/
structure LockContext where
  net : Network
  /-- the hash of the transaction hash, the outpoint and the masternode of a vote -/
  voteHash : Uint256 → COutPoint → COutPoint → Uint256
  fLiteMode : Bool
  fEnableInstantSend : Bool
  fLargeWorkForkFound : Bool
  fLargeWorkInvalidChainFound : Bool
  fMasternodeMode : Bool
  /-- not in blocks only mode, or the peer is exempt -/
  fRelayTxes : Bool
  /-- `pfrom->nVersion >= MIN_INSTANTSEND_PROTO_VERSION` -/
  peerIsUpdated : Bool
  spork2InstantSendEnabled : Bool
  spork3InstantSendBlockFiltering : Bool
  spork5InstantSendMaxValue : Int64
  isMasternodeListSynced : Bool
  /-- `GetTime()` -/
  time : ℤ
  /-- `chainActive.Height()` -/
  chainHeight : ℤ
  checkFinalTx : CTransaction → Bool
  getUTXOCoin : COutPoint → Option Coin
  /-- the hash of the transaction that spends the outpoint in `mempool.mapNextTx` -/
  mapNextTx : COutPoint → Option Uint256
  /-- `GetTransaction` finds the transaction in a block -/
  includedInBlock : Uint256 → Bool
  acceptToMemoryPool : CTransaction → Bool
  fMissingInputs : CTransaction → Bool
  /-- `mnodeman.Has` -/
  hasMasternode : COutPoint → Bool
  /-- `mnodeman.GetMasternodeRank` -/
  getMasternodeRank : COutPoint → ℤ → Option ℤ
  /-- `CTxLockVote::CheckSignature` -/
  checkSignature : CTxLockVote → Bool
  /-- `activeMasternode.outpoint` -/
  activeMasternode : COutPoint
  /-- `CTxLockVote::Sign` -/
  signVote : CTxLockVote → Option (List UInt8)

/-- `COutPointLock::SIGNATURES_REQUIRED`. -/
def SIGNATURES_REQUIRED : ℕ := 6

/-- `COutPointLock::SIGNATURES_TOTAL`. -/
def SIGNATURES_TOTAL : ℤ := 10

/-- `INSTANTSEND_CONFIRMATIONS_REQUIRED`. -/
def INSTANTSEND_CONFIRMATIONS_REQUIRED : ℤ := 6

/-- `INSTANTSEND_LOCK_TIMEOUT_SECONDS`. -/
def INSTANTSEND_LOCK_TIMEOUT_SECONDS : ℤ := 15

/-- `INSTANTSEND_FAILED_TIMEOUT_SECONDS`. -/
def INSTANTSEND_FAILED_TIMEOUT_SECONDS : ℤ := 60

/-! ## Lock requests and votes -/

/-- `CTxLockRequest()`, whose hash was never computed. -/
def emptyLockRequest : CTransaction := ⟨0, 1, [], [], 0⟩

/-- The `operator bool` of a `CTxLockRequest`. -/
def CTransaction.isRequest (tx : CTransaction) : Bool := decide (tx.hash ≠ emptyLockRequest.hash)

/-- The loop over the inputs in `CTxLockRequest::IsValid`; `none` if an input is unknown or too
    new. -/
def lockValueIn (ctx : LockContext) : CAmount → List CTxIn → Option CAmount
  | nValueIn, [] => some nValueIn
  | nValueIn, txin :: rest =>
    match ctx.getUTXOCoin txin.prevout with
    | none => none
    | some coin =>
      if ctx.chainHeight - coin.nHeight.toNat + 1 < INSTANTSEND_CONFIRMATIONS_REQUIRED - 1 then
        none
      else lockValueIn ctx (nValueIn + coin.out.nValue) rest

/-- `CTxLockRequest::GetMinFee`, with `MIN_FEE` of 0.0001 coins. -/
def CTransaction.getMinFee (tx : CTransaction) : CAmount :=
  let nMinFee : CAmount := 10000
  let nFee := Int64.ofNat tx.vin.length * nMinFee
  if nMinFee < nFee then nFee else nMinFee

variable (ctx : LockContext)

/-- `CTxLockRequest::IsValid`; the exception of `GetValueOut` ends the processing of the request as
    `false` does. -/
def CTransaction.isValidRequest (tx : CTransaction) : Bool :=
  if tx.vout.length < 1 then false
  else if !ctx.checkFinalTx tx then false
  else
    match lockValueIn ctx 0 tx.vin with
    | none => false
    | some nValueIn =>
      if nValueIn > ctx.spork5InstantSendMaxValue * COIN then false
      else
        match tx.getValueOut with
        | none => false
        | some nValueOut => !decide (nValueIn - nValueOut < tx.getMinFee)

/-- `CTxLockVote::GetHash`. -/
def CTxLockVote.getHash (vote : CTxLockVote) : Uint256 :=
  ctx.voteHash vote.txHash vote.outpoint vote.outpointMasternode

/-- `CTxLockVote::IsValid`. -/
def CTxLockVote.isValid (vote : CTxLockVote) : Bool :=
  if !ctx.hasMasternode vote.outpointMasternode then false
  else
    match ctx.getUTXOCoin vote.outpoint with
    | none => false
    | some coin =>
      match ctx.getMasternodeRank vote.outpointMasternode (coin.nHeight.toNat + 4) with
      | none => false
      | some nRank => if nRank > SIGNATURES_TOTAL then false else ctx.checkSignature vote

/-- `IsExpired` of a vote or a candidate, with its `nConfirmedHeight`. -/
def isExpiredAt (net : Network) (nConfirmedHeight nHeight : ℤ) : Bool :=
  decide (nConfirmedHeight ≠ -1
    ∧ nHeight - nConfirmedHeight > (consensusParams net).nInstantSendKeepLock)

/-- `CTxLockVote::IsTimedOut`. -/
def CTxLockVote.isTimedOut (vote : CTxLockVote) (time : ℤ) : Bool :=
  decide (time - vote.nTimeCreated > INSTANTSEND_LOCK_TIMEOUT_SECONDS)

/-! ## Lock candidates -/

/-- `COutPointLock`. -/
structure COutPointLock where
  outpoint : COutPoint
  mapMasternodeVotes : AList (fun _ : COutPoint => CTxLockVote)
  fAttacked : Bool
deriving DecidableEq

/-- `COutPointLock::AddVote`. -/
def COutPointLock.addVote (lock : COutPointLock) (vote : CTxLockVote) : Bool × COutPointLock :=
  match lock.mapMasternodeVotes.lookup vote.outpointMasternode with
  | some _ => (false, lock)
  | none => (true, { lock with
      mapMasternodeVotes := lock.mapMasternodeVotes.insert vote.outpointMasternode vote })

/-- `COutPointLock::HasMasternodeVoted`. -/
def COutPointLock.hasMasternodeVoted (lock : COutPointLock) (masternode : COutPoint) : Bool :=
  (lock.mapMasternodeVotes.lookup masternode).isSome

/-- `COutPointLock::CountVotes`. -/
def COutPointLock.countVotes (lock : COutPointLock) : ℕ :=
  if lock.fAttacked then 0 else lock.mapMasternodeVotes.entries.length

/-- `COutPointLock::IsReady`. -/
def COutPointLock.isReady (lock : COutPointLock) : Bool :=
  !lock.fAttacked && decide (lock.countVotes ≥ SIGNATURES_REQUIRED)

/-- `COutPointLock::MarkAsAttacked`. -/
def COutPointLock.markAsAttacked (lock : COutPointLock) : COutPointLock :=
  { lock with fAttacked := true }

/-- `CTxLockCandidate`. -/
structure CTxLockCandidate where
  nConfirmedHeight : ℤ
  nTimeCreated : ℤ
  txLockRequest : CTransaction
  mapOutPointLocks : AList (fun _ : COutPoint => COutPointLock)
deriving DecidableEq

/-- The constructor of `CTxLockCandidate`. -/
def newCandidate (time : ℤ) (txLockRequest : CTransaction) : CTxLockCandidate :=
  ⟨-1, time, txLockRequest, ∅⟩

/-- `CTxLockCandidate::AddOutPointLock` for all inputs, from the last one on. -/
def CTxLockCandidate.addOutPointLocks (candidate : CTxLockCandidate) (vin : List CTxIn) :
    CTxLockCandidate :=
  { candidate with
    mapOutPointLocks := vin.foldr
      (fun txin locks => insertNew locks txin.prevout ⟨txin.prevout, ∅, false⟩)
      candidate.mapOutPointLocks }

/-- `CTxLockCandidate::MarkOutpointAsAttacked`. -/
def CTxLockCandidate.markOutpointAsAttacked (outpoint : COutPoint) (candidate : CTxLockCandidate) :
    CTxLockCandidate :=
  { candidate with
    mapOutPointLocks := modify candidate.mapOutPointLocks outpoint COutPointLock.markAsAttacked }

/-- `CTxLockCandidate::AddVote`. -/
def CTxLockCandidate.addVote (candidate : CTxLockCandidate) (vote : CTxLockVote) :
    Bool × CTxLockCandidate :=
  match candidate.mapOutPointLocks.lookup vote.outpoint with
  | none => (false, candidate)
  | some lock => ((lock.addVote vote).1, { candidate with
      mapOutPointLocks := candidate.mapOutPointLocks.insert vote.outpoint (lock.addVote vote).2 })

/-- `CTxLockCandidate::IsAllOutPointsReady`. -/
def CTxLockCandidate.isAllOutPointsReady (candidate : CTxLockCandidate) : Bool :=
  !candidate.mapOutPointLocks.entries.isEmpty
    && forAll candidate.mapOutPointLocks fun _ lock => lock.isReady

/-- `CTxLockCandidate::HasMasternodeVoted`. -/
def CTxLockCandidate.hasMasternodeVoted (candidate : CTxLockCandidate)
    (outpoint masternode : COutPoint) : Bool :=
  match candidate.mapOutPointLocks.lookup outpoint with
  | none => false
  | some lock => lock.hasMasternodeVoted masternode

/-- `CTxLockCandidate::IsTimedOut`. -/
def CTxLockCandidate.isTimedOut (candidate : CTxLockCandidate) (time : ℤ) : Bool :=
  decide (time - candidate.nTimeCreated > INSTANTSEND_LOCK_TIMEOUT_SECONDS)

/-! ## The state -/

/-- `CInstantSend`. -/
structure CInstantSend where
  nCachedBlockHeight : ℤ
  mapLockRequestAccepted : AList (fun _ : Uint256 => CTransaction)
  mapLockRequestRejected : AList (fun _ : Uint256 => CTransaction)
  mapTxLockVotes : AList (fun _ : Uint256 => CTxLockVote)
  mapTxLockVotesOrphan : AList (fun _ : Uint256 => CTxLockVote)
  mapTxLockCandidates : AList (fun _ : Uint256 => CTxLockCandidate)
  mapVotedOutpoints : AList (fun _ : COutPoint => List Uint256)
  mapLockedOutpoints : AList (fun _ : COutPoint => Uint256)
  mapMasternodeOrphanVotes : AList (fun _ : COutPoint => ℤ)
deriving DecidableEq

/-- A node that has just started. -/
def CInstantSend.init : CInstantSend := ⟨0, ∅, ∅, ∅, ∅, ∅, ∅, ∅, ∅⟩

/-- `CInstantSend::IsLockedInstantSendTransaction`. -/
def CInstantSend.isLockedInstantSendTransaction (s : CInstantSend) (txHash : Uint256) : Bool :=
  if !ctx.fEnableInstantSend || ctx.fLargeWorkForkFound || ctx.fLargeWorkInvalidChainFound
      || !ctx.spork3InstantSendBlockFiltering then false
  else
    match s.mapTxLockCandidates.lookup txHash with
    | none => false
    | some candidate =>
      !candidate.mapOutPointLocks.entries.isEmpty
        && forAll candidate.mapOutPointLocks fun outpoint _ =>
          decide (s.mapLockedOutpoints.lookup outpoint = some txHash)

/-- `CInstantSend::AlreadyHave`. -/
def CInstantSend.alreadyHave (s : CInstantSend) (hash : Uint256) : Bool :=
  (s.mapLockRequestAccepted.lookup hash).isSome || (s.mapLockRequestRejected.lookup hash).isSome
    || (s.mapTxLockVotes.lookup hash).isSome

/-- `CInstantSend::AcceptLockRequest`. -/
def CInstantSend.acceptLockRequest (s : CInstantSend) (tx : CTransaction) : CInstantSend :=
  { s with mapLockRequestAccepted := insertNew s.mapLockRequestAccepted tx.hash tx }

/-- `CInstantSend::RejectLockRequest`. -/
def CInstantSend.rejectLockRequest (s : CInstantSend) (tx : CTransaction) : CInstantSend :=
  { s with mapLockRequestRejected := insertNew s.mapLockRequestRejected tx.hash tx }

/-! ## Removing what has expired -/

/-- The loop body of `CheckAndRemove` for an expired candidate. -/
def CInstantSend.removeCandidate (s : CInstantSend) (key : Uint256)
    (candidate : CTxLockCandidate) : CInstantSend :=
  let outpoints := candidate.mapOutPointLocks.keys
  let txHash := candidate.txLockRequest.hash
  { s with
    mapLockedOutpoints := outpoints.foldl (fun m outpoint => m.erase outpoint) s.mapLockedOutpoints
    mapVotedOutpoints := outpoints.foldl (fun m outpoint => m.erase outpoint) s.mapVotedOutpoints
    mapLockRequestAccepted := s.mapLockRequestAccepted.erase txHash
    mapLockRequestRejected := s.mapLockRequestRejected.erase txHash
    mapTxLockCandidates := s.mapTxLockCandidates.erase key }

/-- The first loop of `CheckAndRemove`. -/
def CInstantSend.removeExpiredCandidates (s : CInstantSend) : CInstantSend :=
  s.mapTxLockCandidates.entries.foldl (fun s entry =>
    if isExpiredAt ctx.net entry.2.nConfirmedHeight s.nCachedBlockHeight then
      s.removeCandidate entry.1 entry.2
    else s) s

/-- The other loops of `CheckAndRemove`: expired votes, orphan votes that have timed out, votes for
    failed locks, and the times of orphan votes. -/
def CInstantSend.removeVotes (s : CInstantSend) : CInstantSend :=
  let votes := keep s.mapTxLockVotes fun _ vote =>
    !isExpiredAt ctx.net vote.nConfirmedHeight s.nCachedBlockHeight
  let votes := keep votes fun hash _ =>
    match s.mapTxLockVotesOrphan.lookup hash with
    | none => true
    | some orphan => !orphan.isTimedOut ctx.time
  { s with
    mapTxLockVotes := keep votes fun _ vote =>
      !(decide (ctx.time - vote.nTimeCreated > INSTANTSEND_FAILED_TIMEOUT_SECONDS)
        && !s.isLockedInstantSendTransaction ctx vote.txHash)
    mapTxLockVotesOrphan := keep s.mapTxLockVotesOrphan fun _ vote => !vote.isTimedOut ctx.time
    mapMasternodeOrphanVotes :=
      keep s.mapMasternodeOrphanVotes fun _ expires => !decide (expires < ctx.time) }

/-- `CInstantSend::CheckAndRemove`. -/
def CInstantSend.checkAndRemove (s : CInstantSend) : CInstantSend :=
  if ctx.isMasternodeListSynced then (s.removeExpiredCandidates ctx).removeVotes ctx else s

/-! ## Completing a lock -/

/-- What the first loop of `ResolveConflicts` can find. -/
inductive LockConflict where
  | lockedBy (hashConflicting : Uint256)
  | mempool
deriving DecidableEq

/-- The conflict of one input: another completed lock, or another spender in the mempool. -/
def CInstantSend.conflictAt (s : CInstantSend) (txHash : Uint256) (outpoint : COutPoint) :
    Option LockConflict :=
  match (s.mapLockedOutpoints.lookup outpoint).filter fun hash => decide (txHash ≠ hash) with
  | some hashConflicting => some (.lockedBy hashConflicting)
  | none =>
    match ctx.mapNextTx outpoint with
    | none => none
    | some hash => if txHash = hash then none else some .mempool

/-- Drop two candidates whose locks conflict. -/
def CInstantSend.dropBoth (s : CInstantSend) (txHash hashConflicting : Uint256) : CInstantSend :=
  match s.mapTxLockCandidates.lookup txHash, s.mapTxLockCandidates.lookup hashConflicting with
  | some candidate, some conflicting =>
    let expire : CTxLockCandidate → CTxLockCandidate := fun c => { c with nConfirmedHeight := 0 }
    let s := { s with
      mapTxLockCandidates :=
        modify (modify s.mapTxLockCandidates txHash expire) hashConflicting expire }
    let s := s.checkAndRemove ctx
    { s with
      mapLockRequestRejected :=
        insertNew (insertNew s.mapLockRequestRejected txHash candidate.txLockRequest)
          hashConflicting conflicting.txLockRequest }
  | _, _ => s

/-- `CInstantSend::ResolveConflicts`. -/
def CInstantSend.resolveConflicts (s : CInstantSend) (candidate : CTxLockCandidate) :
    Bool × CInstantSend :=
  let txHash := candidate.txLockRequest.hash
  let vin := candidate.txLockRequest.vin
  if !candidate.isAllOutPointsReady then (false, s)
  else
    match vin.findSome? fun txin => s.conflictAt ctx txHash txin.prevout with
    | some (.lockedBy hashConflicting) => (false, s.dropBoth ctx txHash hashConflicting)
    | some .mempool => (false, s)
    | none =>
      if ctx.includedInBlock txHash then (true, s)
      else (vin.all fun txin => (ctx.getUTXOCoin txin.prevout).isSome, s)

/-- `CInstantSend::LockTransactionInputs`. -/
def CInstantSend.lockTransactionInputs (s : CInstantSend) (candidate : CTxLockCandidate) :
    CInstantSend :=
  if !ctx.spork2InstantSendEnabled then s
  else if !candidate.isAllOutPointsReady then s
  else { s with
    mapLockedOutpoints := candidate.mapOutPointLocks.keys.foldl
      (fun m outpoint => insertNew m outpoint candidate.txLockRequest.hash) s.mapLockedOutpoints }

/-- `CInstantSend::TryToFinalizeLockCandidate`. -/
def CInstantSend.tryToFinalizeLockCandidate (s : CInstantSend) (candidate : CTxLockCandidate) :
    CInstantSend :=
  if !ctx.spork2InstantSendEnabled then s
  else if candidate.isAllOutPointsReady
      && !s.isLockedInstantSendTransaction ctx candidate.txLockRequest.hash then
    let (resolved, s) := s.resolveConflicts ctx candidate
    if resolved then s.lockTransactionInputs ctx candidate else s
  else s

end Binarium
