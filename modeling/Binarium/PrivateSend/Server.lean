import Binarium.Coins.Cache
import Binarium.Script.Interpreter

set_option autoImplicit false

/-! # The mixing server (`privatesend.h`, `privatesend.cpp`, `privatesend-server.cpp`)

A masternode runs one mixing session at a time. Participants pay a collateral to enter the queue
(`DSACCEPT`), hand in their inputs and outputs (`DSVIN`), and sign the joint transaction that the
masternode builds from all entries (`DSSIGNFINALTX`). A thread ends sessions that take too long.

Every handler maps the session to the next one and to what is sent. What it reads of the rest of the
node is a `MixingContext`, which may be another one at every step. -/

namespace Binarium

open Checks

/-! ## The session -/

/-- `PoolMessage`. -/
inductive PoolMessage where
  | ERR_ALREADY_HAVE | ERR_DENOM | ERR_ENTRIES_FULL | ERR_EXISTING_TX | ERR_FEES
  | ERR_INVALID_COLLATERAL | ERR_INVALID_INPUT | ERR_INVALID_SCRIPT | ERR_INVALID_TX | ERR_MAXIMUM
  | ERR_MN_LIST | ERR_MODE | ERR_NON_STANDARD_PUBKEY | ERR_NOT_A_MN | ERR_QUEUE_FULL | ERR_RECENT
  | ERR_SESSION | ERR_MISSING_TX | ERR_VERSION | MSG_NOERR | MSG_SUCCESS | MSG_ENTRIES_ADDED
deriving DecidableEq

/-- `PoolState`. -/
inductive PoolState where
  | idle | queue | acceptingEntries | signing | error | success
deriving DecidableEq

/-- `PoolStatusUpdate`. -/
inductive PoolStatusUpdate where
  | rejected | accepted
deriving DecidableEq

/-- `CService`: network addresses are only compared. -/
abbrev CService := ℕ

/-- `CTxDSIn`. The fields it adds are not on the wire and start with their defaults. -/
structure CTxDSIn extends CTxIn where
  prevPubKey : CScript := []
  fHasSig : Bool := false
deriving DecidableEq

/-- `CDarkSendEntry`. -/
structure CDarkSendEntry where
  vecTxDSIn : List CTxDSIn
  vecTxOut : List CTxOut
  txCollateral : CTransaction
  addr : CService
deriving DecidableEq

/-- `CPrivateSendServer` with the session of `CPrivateSendBase`. -/
structure CPrivateSendServer where
  vecSessionCollaterals : List CTransaction := []
  vecEntries : List CDarkSendEntry := []
  nState : PoolState := .idle
  nTimeLastSuccessfulStep : ℤ := 0
  nSessionID : ℕ := 0
  nSessionDenom : Int32 := 0
  finalMutableTransaction : CMutableTransaction := ⟨1, [], [], 0⟩

/-- What is sent: status updates, the final transaction, the outcome, a queue announcement, and a
    collateral that is charged. -/
inductive PoolSend where
  | status (addr : CService) (nSessionID : ℕ) (nState : PoolState) (nEntries : ℕ)
      (update : PoolStatusUpdate) (message : PoolMessage)
  | finalTx (addr : CService) (nSessionID : ℕ) (tx : CMutableTransaction)
  | complete (addr : CService) (nSessionID : ℕ) (message : PoolMessage)
  | queue (nDenom : Int32) (fReady : Bool)
  | collateral (tx : CTransaction)
deriving DecidableEq

/-- What the server reads of the rest of the node, and its random draws. -/
structure MixingContext where
  network : Network
  fMasternodeMode : Bool
  fLiteMode : Bool
  isBlockchainSynced : Bool
  /-- `GetMasternodeInfo` of the own masternode. -/
  hasMasternodeInfo : Bool
  lastDsqTooRecent : Bool
  getUTXOCoin : COutPoint → Option Coin
  /-- `AcceptToMemoryPool` as a dry run. -/
  acceptToMemoryPool : CTransaction → Bool
  /-- `TRY_LOCK(cs_main, lockMain)`. -/
  lockMain : Bool
  getHash : CMutableTransaction → Uint256
  crypto : ScriptCrypto
  /-- `MutableTransactionSignatureChecker(&tx, nIn)`. -/
  checker : CMutableTransaction → ℕ → BaseSignatureChecker
  /-- Does `ForNode` find a peer? -/
  connected : CService → Bool
  getTimeMillis : ℤ
  /-- `GetRandInt(999999)`, the two draws of `ChargeFees` below 100, and its shuffle. -/
  randSession : ℕ
  randCharge : ℕ
  randMostly : ℕ
  shuffle : List CTransaction → List CTransaction

/-- `CPrivateSend::GetMaxPoolTransactions`: the regression test network leaves it at 0. -/
def Network.poolMaxTransactions : Network → ℕ
  | .main | .test => 3
  | .regtest => 0

/-- `MIN_PRIVATESEND_PEER_PROTO_VERSION`. -/
def MIN_PRIVATESEND_PEER_PROTO_VERSION : ℤ := 70208

/-- `PRIVATESEND_ENTRY_MAX_SIZE`. -/
def PRIVATESEND_ENTRY_MAX_SIZE : ℕ := 9

/-- `vecStandardDenominations`. -/
def vecStandardDenominations : List CAmount := [1000010000, 100001000, 10000100, 1000010]

/-- `CPrivateSend::GetDenominations`. -/
def getDenominations (vecTxOut : List CTxOut) : Int32 :=
  if vecTxOut.all fun txout => vecStandardDenominations.contains txout.nValue then
    vecStandardDenominations.zipIdx.foldl (fun nDenom s =>
      if vecTxOut.any (·.nValue == s.1) then nDenom ||| 1 <<< Int32.ofNat s.2 else nDenom) 0
  else 0

/-- `CPrivateSend::GetDenominationsBits`, as far as it succeeds. -/
def getDenominationsBits (nDenom : Int32) : Bool :=
  decide (nDenom < 16) && (List.range 4).any fun i => nDenom &&& 1 <<< Int32.ofNat i != 0

/-- The sum of the amounts of some outputs. -/
def sumOut (vout : List CTxOut) : CAmount := vout.foldl (fun sum txout => sum + txout.nValue) 0

/-- The coins of some inputs, if all are there. -/
def MixingContext.coins (ctx : MixingContext) (vin : List CTxIn) : Option (List CTxOut) :=
  vin.mapM fun txin => (ctx.getUTXOCoin txin.prevout).map (·.out)

/-- `CPrivateSend::IsCollateralValid`. -/
def MixingContext.isCollateralValid (ctx : MixingContext) (txCollateral : CTransaction) : Bool :=
  !txCollateral.vout.isEmpty && txCollateral.nLockTime == 0
    && txCollateral.vout.all (·.scriptPubKey.isPayToPublicKeyHash)
    && (match ctx.coins txCollateral.vin with
      | none => false
      | some coins => decide (100000 ≤ sumOut coins - sumOut txCollateral.vout))
    && ctx.acceptToMemoryPool txCollateral

namespace CPrivateSendServer

variable (ctx : MixingContext) (s : CPrivateSendServer)

/-- `SetNull`. -/
def setNull : CPrivateSendServer :=
  { nTimeLastSuccessfulStep := ctx.getTimeMillis
    finalMutableTransaction := { s.finalMutableTransaction with vin := [], vout := [] } }

/-- `SetState`: a masternode refuses the states of a client. -/
def setState (nStateNew : PoolState) : CPrivateSendServer :=
  if ctx.fMasternodeMode && (nStateNew = .error || nStateNew = .success) then s
  else { s with nState := nStateNew }

/-- `IsSessionReady`. -/
def isSessionReady : Bool := decide (ctx.network.poolMaxTransactions ≤ s.vecSessionCollaterals.length)

/-! ## Messages to the participants -/

/-- `PushStatus`. -/
def pushStatus (addr : CService) (update : PoolStatusUpdate) (message : PoolMessage) : PoolSend :=
  .status addr s.nSessionID s.nState s.vecEntries.length update message

/-- `RelayStatus`: when a participant has left the others are told that the session ends, and when
    all have left it does. -/
def relayStatus (update : PoolStatusUpdate) : List PoolSend × CPrivateSendServer :=
  let live := s.vecEntries.filter fun entry => ctx.connected entry.addr
  let sent := live.map fun entry => s.pushStatus entry.addr update .MSG_NOERR
  if live.length = s.vecEntries.length then (sent, s)
  else (sent ++ live.map fun entry => s.pushStatus entry.addr .rejected .MSG_NOERR,
    if live = [] then s.setNull ctx else s)

/-- The loop of `RelayFinalTransaction` and of `RelayCompletedTransaction`: it stops at the first
    participant that has left. -/
def relayToEntries (message : CService → PoolSend) : List PoolSend × CPrivateSendServer :=
  let live := s.vecEntries.takeWhile fun entry => ctx.connected entry.addr
  let sent := live.map fun entry => message entry.addr
  if live.length = s.vecEntries.length then (sent, s)
  else (sent ++ (s.relayStatus ctx .rejected).1, (s.relayStatus ctx .rejected).2)

/-- `RelayFinalTransaction`. -/
def relayFinalTransaction : List PoolSend × CPrivateSendServer :=
  s.relayToEntries ctx fun addr => .finalTx addr s.nSessionID s.finalMutableTransaction

/-- `RelayCompletedTransaction`. -/
def relayCompletedTransaction (message : PoolMessage) : List PoolSend × CPrivateSendServer :=
  s.relayToEntries ctx fun addr => .complete addr s.nSessionID message

/-! ## The joint transaction -/

/-- `CompareInputBIP69`: bytes from the last to the first, then the index. -/
def compareInputBIP69 (a b : CTxIn) : Bool :=
  if a.prevout.hash = b.prevout.hash then decide (a.prevout.n < b.prevout.n)
  else decide ((uint256Bytes a.prevout.hash).reverse < (uint256Bytes b.prevout.hash).reverse)

/-- `CompareOutputBIP69`. -/
def compareOutputBIP69 (a b : CTxOut) : Bool :=
  decide (a.nValue < b.nValue) || (a.nValue == b.nValue && decide (a.scriptPubKey < b.scriptPubKey))

/-- The inputs of all entries, in the order of the entries. -/
def poolInputs : List CTxDSIn := s.vecEntries.flatMap (·.vecTxDSIn)

/-- The transaction of all entries, not sorted. -/
def poolTransaction : CMutableTransaction :=
  ⟨1, s.poolInputs.map (·.toCTxIn), s.vecEntries.flatMap (·.vecTxOut), 0⟩

/-- `CreateFinalTransaction`. -/
def createFinalTransaction : List PoolSend × CPrivateSendServer :=
  let txNew : CMutableTransaction := { s.poolTransaction with
    vin := s.poolTransaction.vin.insertionSort fun a b => compareInputBIP69 b a = false
    vout := s.poolTransaction.vout.insertionSort fun a b => compareOutputBIP69 b a = false }
  let r := { s with finalMutableTransaction := txNew }.relayFinalTransaction ctx
  (r.1, r.2.setState ctx .signing)

/-- Does the memory pool take the final transaction? -/
def finalAccepted : Bool :=
  ctx.lockMain && ctx.acceptToMemoryPool
    (s.finalMutableTransaction.toTransaction (ctx.getHash s.finalMutableTransaction))

/-- `CommitFinalTransaction`. -/
def commitFinalTransaction : List PoolSend × CPrivateSendServer :=
  if !ctx.fMasternodeMode then ([], s)
  else if !s.finalAccepted ctx then (s.setNull ctx).relayCompletedTransaction ctx .ERR_INVALID_TX
  else
    let r := s.relayCompletedTransaction ctx .MSG_SUCCESS
    (r.1, r.2.setNull ctx)

/-- `IsSignaturesComplete`. -/
def isSignaturesComplete : Bool := s.poolInputs.all (·.fHasSig)

/-- `CheckPool`. -/
def checkPool : List PoolSend × CPrivateSendServer :=
  if ctx.fMasternodeMode && s.nState = .acceptingEntries
      && decide (ctx.network.poolMaxTransactions ≤ s.vecEntries.length) then
    s.createFinalTransaction ctx
  else if ctx.fMasternodeMode && s.nState = .signing && s.isSignaturesComplete then
    s.commitFinalTransaction ctx
  else if (s.nState = .error || s.nState = .success)
      && decide (10000 ≤ ctx.getTimeMillis - s.nTimeLastSuccessfulStep) then ([], s.setNull ctx)
  else ([], s)

/-! ## Entering the queue -/

/-- `IsAcceptableDenomAndCollateral`, on a masternode. -/
def isAcceptableDenomAndCollateral (nDenom : Int32) (txCollateral : CTransaction) :
    Except PoolMessage Unit := do
  require (getDenominationsBits nDenom) .ERR_DENOM
  require (ctx.isCollateralValid txCollateral) .ERR_INVALID_COLLATERAL

/-- `CreateNewSession`, on a masternode without a session. -/
def createNewSession (nDenom : Int32) (txCollateral : CTransaction) :
    Except PoolMessage CPrivateSendServer := do
  require (s.nState = .idle) .ERR_MODE
  isAcceptableDenomAndCollateral ctx nDenom txCollateral
  .ok { s.setState ctx .queue with
    nSessionID := ctx.randSession + 1, nSessionDenom := nDenom
    nTimeLastSuccessfulStep := ctx.getTimeMillis
    vecSessionCollaterals := s.vecSessionCollaterals ++ [txCollateral] }

/-- `AddUserToExistingSession`, on a masternode with a session that is not ready. -/
def addUserToExistingSession (nDenom : Int32) (txCollateral : CTransaction) :
    Except PoolMessage CPrivateSendServer := do
  isAcceptableDenomAndCollateral ctx nDenom txCollateral
  require (s.nState = .queue) .ERR_MODE
  require (nDenom = s.nSessionDenom) .ERR_DENOM
  .ok { s with
    nTimeLastSuccessfulStep := ctx.getTimeMillis
    vecSessionCollaterals := s.vecSessionCollaterals ++ [txCollateral] }

/-- The checks of `DSACCEPT` and the session with the new participant. -/
def acceptUser (nDenom : Int32) (txCollateral : CTransaction) :
    Except PoolMessage CPrivateSendServer := do
  require ctx.hasMasternodeInfo .ERR_MN_LIST
  require (!(s.vecSessionCollaterals.isEmpty && ctx.lastDsqTooRecent)) .ERR_RECENT
  if s.nSessionID = 0 then s.createNewSession ctx nDenom txCollateral
  else s.addUserToExistingSession ctx nDenom txCollateral

/-- `ProcessMessage` of `DSACCEPT`, after the check of the version. -/
def processDSACCEPT (addr : CService) (nDenom : Int32) (txCollateral : CTransaction) :
    List PoolSend × CPrivateSendServer :=
  if s.isSessionReady ctx then ([s.pushStatus addr .accepted .ERR_QUEUE_FULL], s)
  else match s.acceptUser ctx nDenom txCollateral with
    | .error message => ([s.pushStatus addr .rejected message], s)
    | .ok s' => ((if s.nSessionID = 0 then [.queue nDenom false] else [])
        ++ [s'.pushStatus addr .accepted .MSG_NOERR], s')

/-! ## Handing in inputs and outputs -/

/-- `IsOutputsCompatibleWithSessionDenom`. -/
def isOutputsCompatibleWithSessionDenom (vecTxOut : List CTxOut) : Bool :=
  getDenominations vecTxOut != 0
    && s.vecEntries.all fun entry => getDenominations vecTxOut == getDenominations entry.vecTxOut

/-- The checks of `DSVIN` before `AddEntry`. -/
def checkEntry (entry : CDarkSendEntry) : Except PoolMessage Unit := do
  require (decide (entry.vecTxDSIn.length ≤ PRIVATESEND_ENTRY_MAX_SIZE)) .ERR_MAXIMUM
  require (decide (entry.vecTxOut.length ≤ PRIVATESEND_ENTRY_MAX_SIZE)) .ERR_MAXIMUM
  require (s.isOutputsCompatibleWithSessionDenom entry.vecTxOut) .ERR_EXISTING_TX
  entry.vecTxOut.forM fun txout => do
    require (txout.scriptPubKey.length == 25) .ERR_NON_STANDARD_PUBKEY
    require txout.scriptPubKey.isPayToPublicKeyHash .ERR_INVALID_SCRIPT
  let vin := entry.vecTxDSIn.map (·.toCTxIn)
  match ctx.coins vin with
  | none => .error .ERR_MISSING_TX
  | some coins => do
    require (sumOut coins - sumOut entry.vecTxOut == 0) .ERR_FEES
    let tx : CMutableTransaction := ⟨1, vin, entry.vecTxOut, 0⟩
    require (ctx.acceptToMemoryPool (tx.toTransaction (ctx.getHash tx))) .ERR_INVALID_TX

/-- `AddEntry`, on a masternode. -/
def addEntry (entryNew : CDarkSendEntry) : Except PoolMessage CPrivateSendServer := do
  require (entryNew.vecTxDSIn.all fun txin => !txin.prevout.isNull) .ERR_INVALID_INPUT
  require (ctx.isCollateralValid entryNew.txCollateral) .ERR_INVALID_COLLATERAL
  require (decide (s.vecEntries.length < ctx.network.poolMaxTransactions)) .ERR_ENTRIES_FULL
  require (entryNew.vecTxDSIn.all fun txin => s.poolInputs.all (·.prevout != txin.prevout))
    .ERR_ALREADY_HAVE
  .ok { s with
    vecEntries := s.vecEntries ++ [entryNew]
    nTimeLastSuccessfulStep := ctx.getTimeMillis }

/-- `ProcessMessage` of `DSVIN`, after the check of the version: an entry that `AddEntry` refuses
    resets the session. -/
def processDSVIN (entry : CDarkSendEntry) : List PoolSend × CPrivateSendServer :=
  if !s.isSessionReady ctx then ([s.pushStatus entry.addr .rejected .ERR_SESSION], s)
  else match s.checkEntry ctx entry with
    | .error message => ([s.pushStatus entry.addr .rejected message], s)
    | .ok () =>
      match s.addEntry ctx entry with
      | .error message => ([s.pushStatus entry.addr .rejected message], s.setNull ctx)
      | .ok s' =>
        let r := s'.checkPool ctx
        let r' := r.2.relayStatus ctx .accepted
        (s'.pushStatus entry.addr .accepted .MSG_ENTRIES_ADDED :: (r.1 ++ r'.1), r'.2)

/-! ## Signing -/

/-- `SCRIPT_VERIFY_P2SH | SCRIPT_VERIFY_STRICTENC`. -/
def poolFlags : ScriptFlags := SCRIPT_VERIFY_P2SH ||| SCRIPT_VERIFY_STRICTENC

/-- The last input of the pool that spends the same output, and its index. -/
def matchingInput (txin : CTxIn) : Option (CTxDSIn × ℕ) :=
  (s.poolInputs.zipIdx.filter fun p => p.1.prevout = txin.prevout).getLast?

/-- The transaction of the pool with the script of the input at an index. -/
def rebuilt (txin : CTxIn) (nTxInIndex : ℕ) : CMutableTransaction :=
  { s.poolTransaction with
    vin := s.poolTransaction.vin.modify nTxInIndex ({ · with scriptSig := txin.scriptSig }) }

/-- `IsInputScriptSigValid`. -/
def isInputScriptSigValid (txin : CTxIn) : Bool :=
  match s.matchingInput txin with
  | none => false
  | some (txdsin, i) => (verifyScript ctx.crypto (ctx.checker (s.rebuilt txin i) i) poolFlags
      txin.scriptSig txdsin.prevPubKey).result.toBool

/-- The loop of `CDarkSendEntry::AddScriptSig`: the first input that matches decides. -/
def addScriptSigInputs (txin : CTxIn) : List CTxDSIn → Option (List CTxDSIn)
  | [] => none
  | txdsin :: rest =>
    if txdsin.prevout = txin.prevout ∧ txdsin.nSequence = txin.nSequence then
      if txdsin.fHasSig then none
      else some ({ txdsin with scriptSig := txin.scriptSig, fHasSig := true } :: rest)
    else (addScriptSigInputs txin rest).map (txdsin :: ·)

/-- The loop over the entries in `AddScriptSig`: the first one that takes the signature. -/
def addScriptSigEntries (txin : CTxIn) : List CDarkSendEntry → Option (List CDarkSendEntry)
  | [] => none
  | entry :: rest =>
    match addScriptSigInputs txin entry.vecTxDSIn with
    | some vecTxDSIn => some ({ entry with vecTxDSIn } :: rest)
    | none => (addScriptSigEntries txin rest).map (entry :: ·)

/-- The script of an input is set in the final transaction. -/
def setFinalScript (txinNew : CTxIn) (tx : CMutableTransaction) : CMutableTransaction :=
  { tx with vin := tx.vin.map fun txin =>
      if txinNew.prevout = txin.prevout ∧ txin.nSequence = txinNew.nSequence then
        { txin with scriptSig := txinNew.scriptSig }
      else txin }

/-- Is the signature new to the pool and valid for it? -/
def takesScriptSig (txinNew : CTxIn) : Bool :=
  s.poolInputs.all (·.scriptSig != txinNew.scriptSig) && s.isInputScriptSigValid ctx txinNew

/-- `AddScriptSig`: the final transaction is written before the entries are asked. -/
def addScriptSig (txinNew : CTxIn) : Bool × CPrivateSendServer :=
  if !s.takesScriptSig ctx txinNew then (false, s)
  else
    let s' := { s with
      finalMutableTransaction := setFinalScript txinNew s.finalMutableTransaction }
    match addScriptSigEntries txinNew s.vecEntries with
    | some vecEntries => (true, { s' with vecEntries })
    | none => (false, s')

/-- The loop of `DSSIGNFINALTX`, up to the first signature that is refused. -/
def addScriptSigs : List CTxIn → CPrivateSendServer → Bool × CPrivateSendServer
  | [], s => (true, s)
  | txin :: rest, s =>
    let r := s.addScriptSig ctx txin
    if r.1 then addScriptSigs rest r.2 else r

/-- `ProcessMessage` of `DSSIGNFINALTX`, after the check of the version. -/
def processDSSIGNFINALTX (vecTxIn : List CTxIn) : List PoolSend × CPrivateSendServer :=
  let r := addScriptSigs ctx vecTxIn s
  if r.1 then r.2.checkPool ctx else r.2.relayStatus ctx .rejected

/-! ## Fees and timeouts -/

/-- The collaterals of those who did not do their part, as `ChargeFees` collects them. -/
def offendersCollaterals : List CTransaction :=
  if s.nState = .acceptingEntries then
    s.vecSessionCollaterals.filter fun txCollateral =>
      s.vecEntries.all fun entry => entry.txCollateral.hash != txCollateral.hash
  else if s.nState = .signing then
    s.vecEntries.flatMap fun entry =>
      (entry.vecTxDSIn.filter fun txdsin => !txdsin.fHasSig).map fun _ => entry.txCollateral
  else []

/-- `ChargeFees`: the collateral that is submitted. -/
def chargeFees : Option CTransaction :=
  let offenders := s.offendersCollaterals
  if !ctx.fMasternodeMode || decide (33 < ctx.randCharge) || offenders.isEmpty then none
  else if (ctx.network.poolMaxTransactions : ℤ) - 1 ≤ offenders.length ∧ 33 < ctx.randMostly then none
  else if ctx.network.poolMaxTransactions ≤ offenders.length then none
  else (ctx.shuffle offenders).head?

/-- `CheckTimeout`. -/
def checkTimeout : List PoolSend × CPrivateSendServer :=
  let nTimeout : ℤ := if s.nState = .signing then 15 else 30
  if ctx.fMasternodeMode && s.nState ≠ .idle
      && decide (nTimeout * 1000 ≤ ctx.getTimeMillis - s.nTimeLastSuccessfulStep) then
    ((s.chargeFees ctx).toList.map .collateral, (s.setNull ctx).setState ctx .error)
  else ([], s)

/-- `CheckForCompleteQueue`. -/
def checkForCompleteQueue : List PoolSend × CPrivateSendServer :=
  if ctx.fMasternodeMode && s.nState = .queue && s.isSessionReady ctx then
    ([.queue s.nSessionDenom true], s.setState ctx .acceptingEntries)
  else ([], s)

/-! ## Runs -/

end CPrivateSendServer

/-- A message of a participant. -/
inductive PoolRequest where
  | DSACCEPT (nDenom : Int32) (txCollateral : CTransaction)
  | DSVIN (vecTxIn : List CTxIn) (txCollateral : CTransaction) (vecTxOut : List CTxOut)
  | DSSIGNFINALTX (vecTxIn : List CTxIn)

/-- What moves the session: a message from a peer, or a tick of the thread. -/
inductive PoolEvent where
  | message (nVersion : ℤ) (addr : CService) (request : PoolRequest)
  | checkTimeout
  | checkForCompleteQueue

namespace CPrivateSendServer

/-- `CPrivateSendServer::ProcessMessage`, for the messages that touch the session. -/
def processMessage (ctx : MixingContext) (s : CPrivateSendServer) (nVersion : ℤ) (addr : CService)
    (request : PoolRequest) : List PoolSend × CPrivateSendServer :=
  if !ctx.fMasternodeMode || ctx.fLiteMode || !ctx.isBlockchainSynced then ([], s)
  else if nVersion < MIN_PRIVATESEND_PEER_PROTO_VERSION then
    match request with
    | .DSSIGNFINALTX _ => ([], s)
    | _ => ([s.pushStatus addr .rejected .ERR_VERSION], s)
  else match request with
    | .DSACCEPT nDenom txCollateral => s.processDSACCEPT ctx addr nDenom txCollateral
    | .DSVIN vecTxIn txCollateral vecTxOut =>
      s.processDSVIN ctx ⟨vecTxIn.map fun txin => { txin with }, vecTxOut, txCollateral, addr⟩
    | .DSSIGNFINALTX vecTxIn => s.processDSSIGNFINALTX ctx vecTxIn

/-- One event. -/
def step (ctx : MixingContext) (s : CPrivateSendServer) :
    PoolEvent → List PoolSend × CPrivateSendServer
  | .message nVersion addr request => s.processMessage ctx nVersion addr request
  | .checkTimeout => s.checkTimeout ctx
  | .checkForCompleteQueue => s.checkForCompleteQueue ctx

/-- The session after some events, each in its own context. -/
def run (s : CPrivateSendServer) (events : List (MixingContext × PoolEvent)) : CPrivateSendServer :=
  events.foldl (fun s e => (s.step e.1 e.2).2) s

/-- The session of a server that has just started. -/
def initial (nTime : ℤ) : CPrivateSendServer := { nTimeLastSuccessfulStep := nTime }

/-- A session that a server can come to. -/
def Reachable (s : CPrivateSendServer) : Prop := ∃ nTime events, s = (initial nTime).run events

end CPrivateSendServer

end Binarium
