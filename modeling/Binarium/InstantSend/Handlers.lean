import Binarium.InstantSend.Locks

set_option autoImplicit false

/-! # The handlers of InstantSend (`instantx.cpp`, `net_processing.cpp`)

What a node does with a lock request, with a vote, with its own vote as a masternode, with a block
and when it cleans up. `InstantSendEvent` lists everything that changes the state, `step` is what one
event does and `run` what a sequence of events leaves. -/

namespace Binarium

open Maps

/-- `CTxLockVote()`. -/
def emptyVote (time : ℤ) : CTxLockVote := ⟨0, ⟨0, 0xffffffff⟩, ⟨0, 0xffffffff⟩, [], -1, time⟩

variable (ctx : LockContext) (s : CInstantSend)

namespace CInstantSend

/-! ## Lock requests -/

/-- `CInstantSend::CreateTxLockCandidate`. -/
def createTxLockCandidate (txLockRequest : CTransaction) : Bool × CInstantSend :=
  let txHash := txLockRequest.hash
  if !txLockRequest.isValidRequest ctx then (false, s)
  else
    match s.mapTxLockCandidates.lookup txHash with
    | none =>
      (true, { s with
        mapTxLockCandidates := s.mapTxLockCandidates.insert txHash
          ((newCandidate ctx.time txLockRequest).addOutPointLocks txLockRequest.vin) })
    | some candidate =>
      if candidate.txLockRequest.isRequest then (true, s)
      else
        -- an empty candidate was created earlier, update it with actual data
        let candidate := { candidate with txLockRequest }
        if candidate.isTimedOut ctx.time then
          (false, { s with
            mapTxLockCandidates := s.mapTxLockCandidates.insert txHash candidate })
        else
          (true, { s with
            mapTxLockCandidates := s.mapTxLockCandidates.insert txHash
              (candidate.addOutPointLocks txLockRequest.vin) })

/-- `CInstantSend::CreateEmptyTxLockCandidate`. -/
def createEmptyTxLockCandidate (txHash : Uint256) : CInstantSend :=
  { s with
    mapTxLockCandidates :=
      insertNew s.mapTxLockCandidates txHash (newCandidate ctx.time emptyLockRequest) }

/-- `TryToFinalizeLockCandidate` for the candidate of a transaction hash. -/
def tryToFinalize (txHash : Uint256) : CInstantSend :=
  match s.mapTxLockCandidates.lookup txHash with
  | none => s
  | some candidate => s.tryToFinalizeLockCandidate ctx candidate

/-- `CInstantSend::ProcessTxLockRequest`. -/
def processTxLockRequest (txLockRequest : CTransaction) : Bool × CInstantSend :=
  let (created, s) := s.createTxLockCandidate ctx txLockRequest
  if created then (true, s.tryToFinalize ctx txLockRequest.hash) else (false, s)

/-! ## The vote of a masternode -/

/-- Whether the masternode has voted for the outpoint in any candidate that has votes for it. A hash
    without a candidate, which the source does not expect, counts as no vote. -/
def alreadyVoted (outpoint : COutPoint) : Bool :=
  match s.mapVotedOutpoints.lookup outpoint with
  | none => false
  | some hashes => hashes.any fun hash =>
    match s.mapTxLockCandidates.lookup hash with
    | none => false
    | some candidate => candidate.hasMasternodeVoted outpoint ctx.activeMasternode

/-- Record that there is a vote for the transaction on the outpoint. -/
def recordVoted (outpoint : COutPoint) (txHash : Uint256) : CInstantSend :=
  { s with
    mapVotedOutpoints := s.mapVotedOutpoints.insert outpoint
      (((s.mapVotedOutpoints.lookup outpoint).getD []).insert txHash) }

/-- Store the node's own vote in the candidate filed under `key`. -/
def storeOwnVote (key : Uint256) (vote : CTxLockVote) : CInstantSend :=
  let s := { s with mapTxLockVotes := insertNew s.mapTxLockVotes (vote.getHash ctx) vote }
  match s.mapTxLockCandidates.lookup key with
  | none => s
  | some candidate =>
    let (added, candidate) := candidate.addVote vote
    let s := { s with mapTxLockCandidates := s.mapTxLockCandidates.insert key candidate }
    if added then s.recordVoted vote.outpoint vote.txHash else s

/-- One round of the loop of `CInstantSend::Vote`; `false` stands for its `return`. -/
def voteForOutpoint (key txHash : Uint256) (outpoint : COutPoint) :
    Bool × CInstantSend :=
  match ctx.getUTXOCoin outpoint with
  | none => (false, s)
  | some coin =>
    match ctx.getMasternodeRank ctx.activeMasternode (coin.nHeight.toNat + 4) with
    | none => (true, s)
    | some nRank =>
      if nRank > SIGNATURES_TOTAL then (true, s)
      else if s.alreadyVoted ctx outpoint then (true, s)
      else
        let vote : CTxLockVote := ⟨txHash, outpoint, ctx.activeMasternode, [], -1, ctx.time⟩
        match ctx.signVote vote with
        | none => (false, s)
        | some vchMasternodeSignature =>
          let vote := { vote with vchMasternodeSignature }
          if !ctx.checkSignature vote then (false, s)
          else (true, s.storeOwnVote ctx key vote)

/-- The loop of `CInstantSend::Vote` over the outpoints of a candidate. -/
def voteForOutpoints (ctx : LockContext) (key txHash : Uint256) :
    List COutPoint → CInstantSend → CInstantSend
  | [], s => s
  | outpoint :: rest, s =>
    let (continues, s) := s.voteForOutpoint ctx key txHash outpoint
    if continues then s.voteForOutpoints ctx key txHash rest else s

/-- `CInstantSend::Vote` for a candidate. -/
def voteForCandidate (key : Uint256) (candidate : CTxLockCandidate) : CInstantSend :=
  let txHash := candidate.txLockRequest.hash
  if !ctx.fMasternodeMode then s
  else if !ctx.spork2InstantSendEnabled then s
  -- never vote on a request that was not (yet) accepted by the mempool
  else if (s.mapLockRequestAccepted.lookup txHash).isNone then s
  else s.voteForOutpoints ctx key txHash candidate.mapOutPointLocks.keys

/-- `CInstantSend::Vote` for a transaction hash. -/
def vote (txHash : Uint256) : CInstantSend :=
  match s.mapTxLockCandidates.lookup txHash with
  | none => s
  | some candidate => (s.voteForCandidate ctx txHash candidate).tryToFinalize ctx txHash

/-! ## Votes from the network -/

/-- `CInstantSend::IsEnoughOrphanVotesForTxAndOutPoint`. -/
def isEnoughOrphanVotesForTxAndOutPoint (txHash : Uint256) (outpoint : COutPoint) :
    Bool :=
  decide ((s.mapTxLockVotesOrphan.entries.filter fun entry =>
    decide (entry.2.txHash = txHash ∧ entry.2.outpoint = outpoint)).length ≥ SIGNATURES_REQUIRED)

/-- `CInstantSend::IsEnoughOrphanVotesForTx`. -/
def isEnoughOrphanVotesForTx (txLockRequest : CTransaction) : Bool :=
  txLockRequest.vin.all fun txin =>
    s.isEnoughOrphanVotesForTxAndOutPoint txLockRequest.hash txin.prevout

/-- `CInstantSend::GetAverageMasternodeOrphanVoteTime`. -/
def getAverageMasternodeOrphanVoteTime : ℤ :=
  let times := s.mapMasternodeOrphanVotes.entries.map fun entry => entry.2
  if times.isEmpty then 0 else times.sum / times.length

/-- The rate limit for orphan votes at the end of that branch of `ProcessTxLockVote`. -/
def limitOrphanVotes (vote : CTxLockVote) : Bool × CInstantSend :=
  let refresh : CInstantSend := { s with
    mapMasternodeOrphanVotes :=
      s.mapMasternodeOrphanVotes.insert vote.outpointMasternode (ctx.time + 60 * 10) }
  match s.mapMasternodeOrphanVotes.lookup vote.outpointMasternode with
  | none => (true, refresh)
  | some nPrevOrphanVote =>
    if nPrevOrphanVote > ctx.time
        ∧ nPrevOrphanVote > s.getAverageMasternodeOrphanVoteTime then (false, s)
    else (true, refresh)

/-- The branch of `ProcessTxLockVote` for a vote whose request has not come. -/
def processOrphanVote (vote : CTxLockVote) : Bool × CInstantSend :=
  let txHash := vote.txHash
  if (s.mapTxLockVotesOrphan.lookup (vote.getHash ctx)).isSome then s.limitOrphanVotes ctx vote
  else
    -- start timeout countdown after the very first vote
    let s := s.createEmptyTxLockCandidate ctx txHash
    let s := { s with
      mapTxLockVotesOrphan := s.mapTxLockVotesOrphan.insert (vote.getHash ctx) vote }
    match (s.mapLockRequestAccepted.lookup txHash).or (s.mapLockRequestRejected.lookup txHash) with
    | none => s.limitOrphanVotes ctx vote
    | some txLockRequest =>
      if s.isEnoughOrphanVotesForTx txLockRequest then
        (true, (s.processTxLockRequest ctx txLockRequest).2)
      else s.limitOrphanVotes ctx vote

/-- One round of the loop of `ProcessTxLockVote` over the transactions with votes for the same
    outpoint: if the masternode has voted for another one, both are attacked. -/
def markConflictingVote (vote : CTxLockVote) (s : CInstantSend) (hash : Uint256) :
    CInstantSend :=
  if hash = vote.txHash then s
  else
    match s.mapTxLockCandidates.lookup hash with
    | none => s
    | some other =>
      if other.hasMasternodeVoted vote.outpoint vote.outpointMasternode then
        let attack := CTxLockCandidate.markOutpointAsAttacked vote.outpoint
        { s with
          mapTxLockCandidates := modify (modify s.mapTxLockCandidates vote.txHash attack) hash
            attack }
      else s

/-- The loop over `mapVotedOutpoints`, with the transaction added to it. -/
def checkVotedOutpoint (vote : CTxLockVote) : CInstantSend :=
  let hashes := (s.mapVotedOutpoints.lookup vote.outpoint).getD []
  (hashes.foldl (markConflictingVote vote) s).recordVoted vote.outpoint vote.txHash

/-- The branch of `ProcessTxLockVote` for a vote whose request has come. -/
def processRequestedVote (vote : CTxLockVote) : Bool × CInstantSend :=
  let s := s.checkVotedOutpoint vote
  match s.mapTxLockCandidates.lookup vote.txHash with
  | none => (false, s)
  | some candidate =>
    let (added, candidate) := candidate.addVote vote
    let s := { s with mapTxLockCandidates := s.mapTxLockCandidates.insert vote.txHash candidate }
    if added then (true, s.tryToFinalize ctx vote.txHash) else (false, s)

/-- `CInstantSend::ProcessTxLockVote`. -/
def processTxLockVote (vote : CTxLockVote) : Bool × CInstantSend :=
  if !vote.isValid ctx then (false, s)
  else
    match s.mapTxLockCandidates.lookup vote.txHash with
    | none => s.processOrphanVote ctx vote
    | some candidate =>
      if !candidate.txLockRequest.isRequest then s.processOrphanVote ctx vote
      else if candidate.isTimedOut ctx.time then (false, s)
      else s.processRequestedVote ctx vote

/-- `CInstantSend::ProcessMessage` for a `TXLOCKVOTE`. The fields that are in local memory only are
    set when the vote is read. -/
def processVoteMessage (vote : CTxLockVote) : CInstantSend :=
  let vote := { vote with nConfirmedHeight := -1, nTimeCreated := ctx.time }
  if ctx.fLiteMode then s
  else if !ctx.spork2InstantSendEnabled then s
  else if !ctx.peerIsUpdated then s
  else if !ctx.isMasternodeListSynced then s
  else if (s.mapTxLockVotes.lookup (vote.getHash ctx)).isSome then s
  else
    let s := { s with mapTxLockVotes := s.mapTxLockVotes.insert (vote.getHash ctx) vote }
    (s.processTxLockVote ctx vote).2

/-- `CInstantSend::ProcessOrphanTxLockVotes`, which nothing calls. -/
def processOrphanTxLockVotes : CInstantSend :=
  s.mapTxLockVotesOrphan.entries.foldl (fun s entry =>
    let (processed, s) := s.processTxLockVote ctx entry.2
    if processed then { s with mapTxLockVotesOrphan := s.mapTxLockVotesOrphan.erase entry.1 }
    else s) s

/-! ## Requests from the network, blocks -/

/-- `ProcessMessage` in `net_processing.cpp` for a `TXLOCKREQUEST`. -/
def processRequestMessage (tx : CTransaction) : CInstantSend :=
  if !ctx.fRelayTxes then s
  else
    let (processed, s) := s.processTxLockRequest ctx tx
    if !processed then s
    else if s.alreadyHave tx.hash then s
    else if ctx.acceptToMemoryPool tx then (s.acceptLockRequest tx).vote ctx tx.hash
    else if ctx.fMissingInputs tx then s
    else s.rejectLockRequest tx

/-- `CInstantSend::SyncTransaction` for a transaction that is not a coinbase; `nHeightNew` is -1 if
    it is in no block. -/
def syncTransaction (tx : CTransaction) (nHeightNew : ℤ) : CInstantSend :=
  if tx.isCoinBase then s
  else
    let confirm : CTxLockVote → CTxLockVote := fun vote =>
      { vote with nConfirmedHeight := nHeightNew }
    let counted : List CTxLockVote := match s.mapTxLockCandidates.lookup tx.hash with
      | none => []
      | some candidate => candidate.mapOutPointLocks.entries.flatMap fun lock =>
        lock.2.mapMasternodeVotes.entries.map fun vote => vote.2
    let votes := counted.foldl (fun m vote => modify m (vote.getHash ctx) confirm) s.mapTxLockVotes
    -- the votes of orphans are found or made with `operator[]`
    let orphans := s.mapTxLockVotesOrphan.entries.filter fun entry =>
      decide (entry.2.txHash = tx.hash)
    { s with
      mapTxLockCandidates := modify s.mapTxLockCandidates tx.hash fun candidate =>
        { candidate with nConfirmedHeight := nHeightNew }
      mapTxLockVotes := orphans.foldl (fun m entry =>
        m.insert entry.1 (confirm ((m.lookup entry.1).getD (emptyVote ctx.time)))) votes }

/-- `CInstantSend::UpdatedBlockTip`. -/
def updatedBlockTip (nHeight : ℤ) : CInstantSend :=
  { s with nCachedBlockHeight := nHeight }

end CInstantSend

/-! ## Runs -/

/-- Everything that changes the state. -/
inductive InstantSendEvent where
  /-- a `TXLOCKREQUEST` from the network -/
  | requestMessage (ctx : LockContext) (tx : CTransaction)
  /-- a request of the node's own wallet or of an RPC call -/
  | localRequest (ctx : LockContext) (tx : CTransaction)
  /-- a `TXLOCKVOTE` from the network -/
  | voteMessage (ctx : LockContext) (vote : CTxLockVote)
  | ownVote (ctx : LockContext) (txHash : Uint256)
  | orphanVotes (ctx : LockContext)
  | finalize (ctx : LockContext) (txHash : Uint256)
  | syncTransaction (ctx : LockContext) (tx : CTransaction) (nHeightNew : ℤ)
  | updatedBlockTip (nHeight : ℤ)
  | checkAndRemove (ctx : LockContext)

/-- What one event does. -/
def CInstantSend.step : InstantSendEvent → CInstantSend
  | .requestMessage ctx tx => s.processRequestMessage ctx tx
  | .localRequest ctx tx => (s.processTxLockRequest ctx tx).2
  | .voteMessage ctx vote => s.processVoteMessage ctx vote
  | .ownVote ctx txHash => s.vote ctx txHash
  | .orphanVotes ctx => s.processOrphanTxLockVotes ctx
  | .finalize ctx txHash => s.tryToFinalize ctx txHash
  | .syncTransaction ctx tx nHeightNew => s.syncTransaction ctx tx nHeightNew
  | .updatedBlockTip nHeight => s.updatedBlockTip nHeight
  | .checkAndRemove ctx => s.checkAndRemove ctx

/-- What a sequence of events leaves. -/
def CInstantSend.run (events : List InstantSendEvent) : CInstantSend :=
  events.foldl CInstantSend.step s

end Binarium
