import Binarium.Mempool.Graph
import Binarium.Validation.ConnectBlock

set_option autoImplicit false

/-! # Acceptance to the memory pool (`validation.cpp`)

`AcceptToMemoryPoolWorker`, in the order of the source: checks of the transaction alone, the conflicts
with the pool, the coins it spends, its fee, its ancestors in the pool, and the conditions under which
it replaces its conflicts. Only then the pool changes: the replaced transactions leave, the new one
enters, and the pool is cut to its size.

What the function reads from outside comes from an `AcceptContext`: the chain, InstantSend, the options
of the node and the parts of the policy that are not modelled. -/

namespace Binarium

open Closure Checks

/-! ## Constants and context -/

/-- `REJECT_INSUFFICIENTFEE`. -/
def REJECT_INSUFFICIENTFEE : ℕ := 0x42

/-- `REJECT_HIGHFEE`. -/
def REJECT_HIGHFEE : ℕ := 0x100

/-- `REJECT_ALREADY_KNOWN`. -/
def REJECT_ALREADY_KNOWN : ℕ := 0x101

/-- `REJECT_CONFLICT`. -/
def REJECT_CONFLICT : ℕ := 0x102

/-- `MAX_STANDARD_TX_SIZE`. -/
def MAX_STANDARD_TX_SIZE : ℕ := 100000

/-- `MAX_STANDARD_TX_SIGOPS`. -/
def MAX_STANDARD_TX_SIGOPS : ℕ := 4000

/-- `MANDATORY_SCRIPT_VERIFY_FLAGS`. -/
def MANDATORY_SCRIPT_VERIFY_FLAGS : ScriptFlags := 0x1

/-- `STANDARD_SCRIPT_VERIFY_FLAGS`. -/
def STANDARD_SCRIPT_VERIFY_FLAGS : ScriptFlags :=
  MANDATORY_SCRIPT_VERIFY_FLAGS ||| STANDARD_NOT_MANDATORY_VERIFY_FLAGS

/-- `MEMPOOL_HEIGHT`. -/
def MEMPOOL_HEIGHT : BitVec 31 := 0x7fffffff

/-- `maxDescendantsToVisit`. -/
def maxDescendantsToVisit : UInt64 := 100

/-- What acceptance reads besides the transaction and the pool. -/
structure AcceptContext where
  node : NodeContext
  /-- `chainActive.Tip()` -/
  tip : CBlockIndex
  fRequireStandard : Bool
  /-- the reason for which `IsStandardTx` returns false -/
  notStandardReason : CTransaction → Option String
  /-- `CheckFinalTx` -/
  checkFinalTx : CTransaction → Bool
  /-- `instantsend.HasTxLockRequest` -/
  hasTxLockRequest : Uint256 → Bool
  /-- `CTxLockRequest(tx).IsValid()` -/
  isValidLockRequest : CTransaction → Bool
  fEnableReplacement : Bool
  /-- `pcoinsTip->GetCoin` -/
  tipCoin : COutPoint → Option Coin
  /-- `pcoinsTip->GetBestBlock()` -/
  tipBestBlock : Uint256
  /-- `CheckSequenceLocks` -/
  checkSequenceLocks : CTransaction → Bool
  /-- `AreInputsStandard` -/
  areInputsStandard : CTransaction → CCoinsViewCache → Bool
  /-- `GetTime()` -/
  time : ℤ
  nBytesPerSigOp : ℕ
  /-- `pool.GetMinFee(...)` -/
  poolMinFee : CFeeRate
  /-- `-relaypriority` -/
  relayPriority : Bool
  /-- `AllowFree` of the priority of the transaction -/
  allowFree : CTransaction → Bool
  minRelayTxFee : CFeeRate
  /-- `dFreeCount` has reached `-limitfreerelay` -/
  freeLimitReached : Bool
  /-- `-limitancestorcount` and the options like it -/
  limits : CTxMemPool.AncestorLimits
  /-- `LimitMempoolSize` -/
  limitMempoolSize : CTxMemPool → CTxMemPool

/-- The flags of a call. -/
structure AcceptFlags where
  fLimitFree : Bool
  fOverrideMempoolLimit : Bool
  fRejectAbsurdFee : Bool
  fDryRun : Bool

/-- Why a transaction is not accepted: an input is missing, for which no state is recorded, or a check
    fails. -/
inductive AcceptFailure where
  | missingInputs
  | failed (failure : Failure)
deriving DecidableEq

/-! ## The transaction alone -/

/-- `ContextualCheckTransaction`. -/
def contextualCheckTransaction (ctx : NodeContext) (tx : CTransaction) (pindexPrev : CBlockIndex) :
    Except Failure Unit :=
  require (!(ctx.dip0001Active pindexPrev && decide (tx.serializeSize > MAX_STANDARD_TX_SIZE)))
    (stateDoS 100 REJECT_INVALID "bad-txns-oversize")

variable (ctx : AcceptContext) (pool : CTxMemPool)

variable (tx : CTransaction) (view : CCoinsViewCache)

/-- `IsStandardTx`, if it is required. -/
def checkStandard : Except Failure Unit :=
  match ctx.notStandardReason tx with
  | none => .ok ()
  | some reason => require (!ctx.fRequireStandard) (stateDoS 0 REJECT_NONSTANDARD reason)

/-- The check of one input against the completed transaction locks. -/
def checkLockedInput (hash : Uint256) (txin : CTxIn) : Except Failure Unit :=
  match ctx.node.lockedOutPointTxHash txin.prevout with
  | none => .ok ()
  | some hashLocked =>
    require (decide (hash = hashLocked)) (stateDoS 10 REJECT_INVALID "tx-txlock-conflict")

/-- The checks before the pool is searched for conflicts. -/
def checkLooseTransaction : Except Failure Unit := do
  checkTransaction tx
  contextualCheckTransaction ctx.node tx ctx.tip
  require (!tx.isCoinBase) (stateDoS 100 REJECT_INVALID "coinbase")
  checkStandard ctx tx
  require (!(ctx.fRequireStandard && decide (tx.nVersion.toInt ≥ 2) && !ctx.node.csvActive ctx.tip))
    (stateDoS 0 REJECT_NONSTANDARD "premature-version2-tx")
  require (ctx.checkFinalTx tx) (stateDoS 0 REJECT_NONSTANDARD "non-final")
  require (!pool.existsTx tx.hash) (stateDoS 0 REJECT_ALREADY_KNOWN "txn-already-in-mempool")
  require (!(ctx.hasTxLockRequest tx.hash && !ctx.isValidLockRequest tx))
    (stateDoS 10 REJECT_INVALID "bad-txlockrequest")
  tx.vin.forM (checkLockedInput ctx tx.hash)

/-! ## Conflicts -/

/-- Some input of the transaction signals that it may be replaced. -/
def signalsReplacement : Bool :=
  tx.vin.any fun txin => decide (txin.nSequence < 0xfffffffe)

/-- The checks of a transaction of the pool that spends the same output. -/
def checkConflict (hash : Uint256) (ptxConflicting : CTransaction) : Except Failure Unit := do
  require (!ctx.hasTxLockRequest ptxConflicting.hash)
    (stateDoS 0 REJECT_INVALID "tx-txlockreq-mempool-conflict")
  require (!ctx.hasTxLockRequest hash) (stateDoS 0 REJECT_INVALID "txlockreq-tx-mempool-conflict")
  require (ctx.fEnableReplacement && signalsReplacement ptxConflicting)
    (stateDoS 0 REJECT_CONFLICT "txn-mempool-conflict")

/-- The loop that collects `setConflicts`. -/
def findConflicts (ctx : AcceptContext) (pool : CTxMemPool) (hash : Uint256) :
    List CTxIn → SetEntries → Except Failure SetEntries
  | [], setConflicts => .ok setConflicts
  | txin :: rest, setConflicts =>
    match pool.mapNextTx.lookup txin.prevout with
    | none => findConflicts ctx pool hash rest setConflicts
    | some next =>
      if next.ptx.hash ∈ setConflicts then findConflicts ctx pool hash rest setConflicts
      else do
        checkConflict ctx hash next.ptx
        findConflicts ctx pool hash rest (insertSet hashOrder next.ptx.hash setConflicts)

/-! ## Coins -/

/-- `CCoinsViewMemPool::GetCoin`. -/
def poolCoin (outpoint : COutPoint) : Option Coin :=
  match pool.mapTx.lookup outpoint.hash with
  | some entry => entry.tx.vout[outpoint.n.toNat]?.map fun out => ⟨out, false, MEMPOOL_HEIGHT⟩
  | none => ctx.tipCoin outpoint

/-- `dummy`, the view without coins. -/
def dummyView : CCoinsView := .db ⟨∅, 0⟩

/-- `view.HaveCoin`, with the pool behind the view. The view itself is left with the backend
    `dummy`. -/
def haveCoinInPool (outpoint : COutPoint) : Bool × CCoinsViewCache :=
  let got := view.fetchFrom outpoint (poolCoin ctx pool outpoint, dummyView)
  (got.1.any (fun entry => !entry.coin.isSpent), got.2)

/-- The loop over the outputs: none of them is known, from output `out` on. -/
def checkOutputsUnknown (ctx : AcceptContext) (pool : CTxMemPool) (tx : CTransaction) :
    CCoinsViewCache → ℕ → List CTxOut → Except Failure CCoinsViewCache
  | view, _, [] => .ok view
  | view, out, _ :: rest => do
    let got := haveCoinInPool ctx pool view (tx.outpoint out)
    require (!got.1) (stateDoS 0 REJECT_ALREADY_KNOWN "txn-already-known")
    checkOutputsUnknown ctx pool tx got.2 (out + 1) rest

/-- The loop over the inputs: all of them exist. -/
def fetchInputs (ctx : AcceptContext) (pool : CTxMemPool) :
    CCoinsViewCache → List CTxIn → Except AcceptFailure CCoinsViewCache
  | view, [] => .ok view
  | view, txin :: rest => do
    let got := haveCoinInPool ctx pool view txin.prevout
    require got.1 .missingInputs
    fetchInputs ctx pool got.2 rest

/-- The view with the coins that the transaction spends. -/
def inputView : Except AcceptFailure CCoinsViewCache := do
  let view ← (checkOutputsUnknown ctx pool tx (.over dummyView) 0 tx.vout).mapError .failed
  let view ← fetchInputs ctx pool view tx.vin
  .ok { view with hashBlock := ctx.tipBestBlock }

/-! ## Fees -/

/-- The candidate for the pool with its fee. -/
structure Candidate where
  entry : CTxMemPoolEntry
  nFees : CAmount
  nModifiedFees : CAmount

/-- `nSize`. -/
def Candidate.nSize (c : Candidate) : ℕ := c.entry.getTxSize

/-- Some input spends a coinbase. -/
def spendsCoinbase : CCoinsViewCache → List CTxIn → Bool
  | _, [] => false
  | view, txin :: rest =>
    let got := view.accessCoin txin.prevout
    got.1.fCoinBase || spendsCoinbase got.2 rest

/-- The new entry and its fee. -/
def candidate : Except Failure Candidate := do
  let nValueIn := (view.getValueIn tx).1
  require (ctx.checkSequenceLocks tx) (stateDoS 0 REJECT_NONSTANDARD "non-BIP68-final")
  require (!ctx.fRequireStandard || ctx.areInputsStandard tx view)
    (stateDoS 0 REJECT_NONSTANDARD "bad-txns-nonstandard-inputs")
  let p2sh ← getP2SHSigOpCount ctx.node tx view
  let nSigOps := getLegacySigOpCount ctx.node tx + p2sh.1
  let nValueOut ← valueOutOrThrow tx
  let nFees := nValueIn - nValueOut
  .ok {
    entry := .create tx nFees ctx.time ctx.tip.nHeight (pool.hasNoInputsOf tx)
      (spendsCoinbase view tx.vin) nSigOps
    nFees := nFees
    nModifiedFees := pool.applyDeltas tx.hash nFees }

/-- The checks of the signature operations and the fee. -/
def checkFee (flags : AcceptFlags) (c : Candidate) : Except Failure Unit := do
  let nSigOps := c.entry.sigOpCount
  require (!(decide (nSigOps > MAX_STANDARD_TX_SIGOPS)
      || decide (ctx.nBytesPerSigOp ≠ 0 ∧ nSigOps > c.nSize / ctx.nBytesPerSigOp)))
    (.invalid ⟨0, REJECT_NONSTANDARD, "bad-txns-too-many-sigops", false, toString nSigOps⟩)
  let mempoolRejectFee := ctx.poolMinFee.getFee c.nSize
  let relayFee := ctx.minRelayTxFee.getFee c.nSize
  require (!decide (mempoolRejectFee > 0 ∧ c.nModifiedFees < mempoolRejectFee))
    (.invalid ⟨0, REJECT_INSUFFICIENTFEE, "mempool min fee not met", false,
      toString c.nFees ++ " < " ++ toString mempoolRejectFee⟩)
  require (!(ctx.relayPriority && decide (c.nModifiedFees < relayFee) && !ctx.allowFree c.entry.tx))
    (stateDoS 0 REJECT_INSUFFICIENTFEE "insufficient priority")
  require (!(flags.fLimitFree && decide (c.nModifiedFees < relayFee) && ctx.freeLimitReached))
    (stateDoS 0 REJECT_INSUFFICIENTFEE "rate limited free transaction")
  require (!(flags.fRejectAbsurdFee && decide (c.nFees > relayFee * 10000)))
    (.invalid ⟨0, REJECT_HIGHFEE, "absurdly-high-fee", false,
      toString c.nFees ++ " > " ++ toString (relayFee * 10000)⟩)

/-! ## Ancestors -/

/-- The ancestors in the pool, none of which may be a conflict. -/
def checkAncestors (setConflicts : SetEntries) (entry : CTxMemPoolEntry) :
    Except Failure SetEntries := do
  let setAncestors ← (pool.calculateMemPoolAncestors entry ctx.limits true).mapError fun errString =>
    .invalid ⟨0, REJECT_NONSTANDARD, "too-long-mempool-chain", false, errString⟩
  setAncestors.forM fun hashAncestor =>
    require (decide (hashAncestor ∉ setConflicts))
      (stateDoS 10 REJECT_INVALID "bad-txns-spends-conflicting-tx")
  .ok setAncestors

/-! ## Replacement -/

/-- What the loop over the direct conflicts collects. -/
structure Conflicting where
  setIterConflicting : SetEntries
  setConflictsParents : SetEntries
  nConflictingCount : UInt64

/-- The loop over the direct conflicts. -/
def checkDirectConflicts (pool : CTxMemPool) (newFeeRate : CFeeRate) :
    SetEntries → Conflicting → Except Failure Conflicting
  | [], acc => .ok acc
  | hashConflicting :: rest, acc =>
    match pool.mapTx.lookup hashConflicting with
    | none => checkDirectConflicts pool newFeeRate rest acc
    | some mi => do
      require (!mi.isDirty) (stateDoS 0 REJECT_NONSTANDARD "too many potential replacements")
      let oldFeeRate := CFeeRate.ofPaid mi.getModifiedFee mi.getTxSize
      require (!decide (newFeeRate.nSatoshisPerK ≤ oldFeeRate.nSatoshisPerK))
        (stateDoS 0 REJECT_INSUFFICIENTFEE "insufficient fee")
      checkDirectConflicts pool newFeeRate rest {
        setIterConflicting := insertSet hashOrder hashConflicting acc.setIterConflicting
        setConflictsParents := mi.tx.vin.foldl
          (fun s txin => insertSet hashOrder txin.prevout.hash s) acc.setConflictsParents
        nConflictingCount := acc.nConflictingCount + mi.nCountWithDescendants }

/-- The new inputs of a replacement are confirmed. -/
def checkNewInput (setConflictsParents : SetEntries) (txin : CTxIn) : Except Failure Unit :=
  require (decide (txin.prevout.hash ∈ setConflictsParents) || !pool.existsTx txin.prevout.hash)
    (stateDoS 0 REJECT_NONSTANDARD "replacement-adds-unconfirmed")

/-- `nConflictingFees`. -/
def conflictingFees (allConflicting : SetEntries) : CAmount :=
  allConflicting.foldl (fun nFees it => nFees + (pool.deref it).getModifiedFee) 0

/-- The conditions for the replacement of the conflicts: the transactions that leave the pool. -/
def checkReplacement (setConflicts : SetEntries) (c : Candidate) : Except Failure SetEntries :=
  if setConflicts.isEmpty then .ok []
  else do
    let newFeeRate := CFeeRate.ofPaid c.nModifiedFees c.nSize
    let conflicting ← checkDirectConflicts pool newFeeRate setConflicts ⟨[], [], 0⟩
    require (decide (conflicting.nConflictingCount ≤ maxDescendantsToVisit))
      (stateDoS 0 REJECT_NONSTANDARD "too many potential replacements")
    let allConflicting := conflicting.setIterConflicting.foldl
      (fun found it => pool.calculateDescendants it found) []
    c.entry.tx.vin.forM (checkNewInput pool conflicting.setConflictsParents)
    let nConflictingFees := conflictingFees pool allConflicting
    require (!decide (c.nModifiedFees < nConflictingFees))
      (stateDoS 0 REJECT_INSUFFICIENTFEE "insufficient fee")
    require (!decide (c.nModifiedFees - nConflictingFees < ctx.minRelayTxFee.getFee c.nSize))
      (stateDoS 0 REJECT_INSUFFICIENTFEE "insufficient fee")
    .ok allConflicting

/-! ## `AcceptToMemoryPoolWorker` -/

/-- What the checks before the script checks leave. -/
structure Checked where
  view : CCoinsViewCache
  entry : CTxMemPoolEntry
  setAncestors : SetEntries
  allConflicting : SetEntries

/-- All checks up to `fDryRun`. -/
def acceptChecks (flags : AcceptFlags) : Except AcceptFailure Checked := do
  (checkLooseTransaction ctx pool tx).mapError .failed
  let setConflicts ← (findConflicts ctx pool tx.hash tx.vin []).mapError .failed
  let view ← inputView ctx pool tx
  let c ← (candidate ctx pool tx view).mapError .failed
  (checkFee ctx flags c).mapError .failed
  let setAncestors ← (checkAncestors ctx pool setConflicts c.entry).mapError .failed
  let allConflicting ← (checkReplacement ctx pool setConflicts c).mapError .failed
  .ok { view, entry := c.entry, setAncestors, allConflicting }

/-- `CheckInputs` against the standard flags and again against the mandatory ones, without threads. -/
def checkInputsTwice : Except Failure Unit := do
  let node := { ctx.node with scriptCheckThreads := false }
  let checked ← checkInputs node tx view true STANDARD_SCRIPT_VERIFY_FLAGS
  let _ ← checkInputs node tx checked.2 true MANDATORY_SCRIPT_VERIFY_FLAGS
  .ok ()

/-- `AcceptToMemoryPoolWorker`: whether the transaction is accepted, and the pool. -/
def acceptToMemoryPoolWorker (flags : AcceptFlags) : Except AcceptFailure Unit × CTxMemPool :=
  match acceptChecks ctx pool tx flags with
  | .error e => (.error e, pool)
  | .ok checked =>
    if flags.fDryRun then (.ok (), pool)
    else
      match checkInputsTwice ctx tx checked.view with
      | .error e => (.error (.failed e), pool)
      | .ok _ =>
        let pool := (pool.removeStaged checked.allConflicting).addUnchecked tx.hash checked.entry
          checked.setAncestors
        if flags.fOverrideMempoolLimit then (.ok (), pool)
        else
          let pool := ctx.limitMempoolSize pool
          if pool.existsTx tx.hash then (.ok (), pool)
          else (.error (.failed (stateDoS 0 REJECT_INSUFFICIENTFEE "mempool full")), pool)

end Binarium
