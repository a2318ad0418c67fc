import Binarium.Validation.CheckBlock

set_option autoImplicit false

/-! # Connecting a block to the coins (`validation.cpp`, `coins.cpp`)

`ConnectBlock` checks a block against a coins view and applies it: for every transaction it checks
the inputs, adds up the fee, spends the inputs and adds the outputs, and it records the spent coins
as undo data. The loops are recursive functions that pass the view along, since reading a view fills
its caches. What is written to the indexes on disk is left out; it is not read back here. -/

namespace Binarium

open Checks

/-! ## Undo data -/

/-- `CTxUndo`: the coins spent by the inputs of a transaction. -/
structure CTxUndo where
  vprevout : List Coin
deriving DecidableEq

/-- `CBlockUndo`: the undo data of all transactions but the coinbase. -/
structure CBlockUndo where
  vtxundo : List CTxUndo
deriving DecidableEq

/-! ## Reading the inputs -/

/-- The loop of `CCoinsViewCache::HaveInputs`. -/
def CCoinsViewCache.haveAll : CCoinsViewCache → List CTxIn → Bool × CCoinsViewCache
  | view, [] => (true, view)
  | view, txin :: rest =>
    let got := view.haveCoin txin.prevout
    if got.1 then got.2.haveAll rest else (false, got.2)

/-- `CCoinsViewCache::HaveInputs`. -/
def CCoinsViewCache.haveInputs (view : CCoinsViewCache) (tx : CTransaction) :
    Bool × CCoinsViewCache :=
  if tx.isCoinBase then (true, view) else view.haveAll tx.vin

/-- The loop of `CCoinsViewCache::GetValueIn` from a running sum. -/
def CCoinsViewCache.sumValueIn : CCoinsViewCache → CAmount → List CTxIn → CAmount × CCoinsViewCache
  | view, nResult, [] => (nResult, view)
  | view, nResult, txin :: rest =>
    let got := view.accessCoin txin.prevout
    got.2.sumValueIn (nResult + got.1.out.nValue) rest

/-- `CCoinsViewCache::GetValueIn`. -/
def CCoinsViewCache.getValueIn (view : CCoinsViewCache) (tx : CTransaction) :
    CAmount × CCoinsViewCache :=
  if tx.isCoinBase then (0, view) else view.sumValueIn 0 tx.vin

/-- The loop that collects `prevheights`. -/
def CCoinsViewCache.prevHeights : CCoinsViewCache → List CTxIn → List (BitVec 31) × CCoinsViewCache
  | view, [] => ([], view)
  | view, txin :: rest =>
    let got := view.accessCoin txin.prevout
    let heights := got.2.prevHeights rest
    (got.1.nHeight :: heights.1, heights.2)

/-- The loop of `GetP2SHSigOpCount`. -/
def p2shSigOps (ctx : NodeContext) :
    CCoinsViewCache → List CTxIn → Except Failure (ℕ × CCoinsViewCache)
  | view, [] => .ok (0, view)
  | view, txin :: rest => do
    let got := view.accessCoin txin.prevout
    assertThat (!got.1.isSpent) "!coin.IsSpent()"
    let more ← p2shSigOps ctx got.2 rest
    let script := got.1.out.scriptPubKey
    .ok ((if script.isPayToScriptHash then ctx.p2shSigOpCount script txin.scriptSig else 0)
      + more.1, more.2)

variable (ctx : NodeContext) (tx : CTransaction)

/-- `GetP2SHSigOpCount`. -/
def getP2SHSigOpCount (view : CCoinsViewCache) : Except Failure (ℕ × CCoinsViewCache) :=
  if tx.isCoinBase then .ok (0, view) else p2shSigOps ctx view tx.vin

/-! ## `CheckTxInputs` -/

/-- `GetValueOut` with its exception. -/
def valueOutOrThrow : Except Failure CAmount :=
  match tx.getValueOut with
  | some nValueOut => .ok nValueOut
  | none => .error (.raised (.runtimeError "GetValueOut: value out of range"))

/-- `FormatMoney`: at least two decimals, no further trailing zeros. -/
def formatMoney (n : CAmount) : String :=
  let n_abs := if n > 0 then n else -n
  let digits := toString (n_abs % COIN).toInt
  let decimals := List.replicate (8 - digits.length) '0' ++ digits.toList
  let trimmed := (decimals.drop 2).reverse.dropWhile (· == '0')
  (if n < 0 then "-" else "") ++ toString (n_abs / COIN).toInt ++ "."
    ++ String.ofList (decimals.take 2 ++ trimmed.reverse)

/-- The loop of `CheckTxInputs` from a running sum. -/
def checkInputValues (nSpendHeight : ℤ) :
    CCoinsViewCache → CAmount → List CTxIn → Except Failure (CAmount × CCoinsViewCache)
  | view, nValueIn, [] => .ok (nValueIn, view)
  | view, nValueIn, txin :: rest => do
    let got := view.accessCoin txin.prevout
    assertThat (!got.1.isSpent) "!coin.IsSpent()"
    let depth := nSpendHeight - got.1.nHeight.toNat
    require (!got.1.fCoinBase || decide (depth ≥ COINBASE_MATURITY))
      (.invalid ⟨0, REJECT_INVALID, "bad-txns-premature-spend-of-coinbase", false,
        "tried to spend coinbase at depth " ++ toString depth⟩)
    require (moneyRange got.1.out.nValue && moneyRange (nValueIn + got.1.out.nValue))
      (stateDoS 100 REJECT_INVALID "bad-txns-inputvalues-outofrange")
    checkInputValues nSpendHeight got.2 (nValueIn + got.1.out.nValue) rest

/-- `Consensus::CheckTxInputs`. -/
def checkTxInputs (view : CCoinsViewCache) (nSpendHeight : ℤ) : Except Failure CCoinsViewCache := do
  let available := view.haveInputs tx
  require available.1 (.invalid ⟨0, 0, "", false, "Inputs unavailable"⟩)
  let valueIn ← checkInputValues nSpendHeight available.2 0 tx.vin
  let nValueOut ← valueOutOrThrow tx
  require (!decide (valueIn.1 < nValueOut))
    (.invalid ⟨100, REJECT_INVALID, "bad-txns-in-belowout", false,
      "value in (" ++ formatMoney valueIn.1 ++ ") < value out (" ++ formatMoney nValueOut ++ ")"⟩)
  let nTxFee := valueIn.1 - nValueOut
  require (!decide (nTxFee < 0)) (stateDoS 100 REJECT_INVALID "bad-txns-fee-negative")
  require (moneyRange (0 + nTxFee)) (stateDoS 100 REJECT_INVALID "bad-txns-fee-outofrange")
  .ok valueIn.2

/-! ## `CheckInputs` -/

/-- `GetSpendHeight`. -/
def getSpendHeight (view : CCoinsViewCache) : Except Failure (ℤ × CCoinsViewCache) :=
  let best := view.getBestBlock
  match ctx.mapBlockIndexHeight best.1 with
  | some height => .ok ((height : ℤ) + 1, best.2)
  | none => .error (.raised (.nullPointer "mapBlockIndex.find(inputs.GetBestBlock())->second"))

/-- `CScriptCheck`. -/
structure CScriptCheck where
  scriptPubKey : CScript
  amount : CAmount
  ptxTo : CTransaction
  nIn : ℕ
  nFlags : ScriptFlags

/-- `CScriptCheck::operator()`. -/
def CScriptCheck.passes (check : CScriptCheck) : Bool :=
  ctx.scriptCheck check.scriptPubKey check.amount check.ptxTo check.nIn check.nFlags

/-- `STANDARD_NOT_MANDATORY_VERIFY_FLAGS`. -/
def STANDARD_NOT_MANDATORY_VERIFY_FLAGS : ScriptFlags := 0x7de

/-- What `CheckInputs` does with a script check if there are no threads for it. -/
def runScriptCheck (check : CScriptCheck) : Except Failure Unit :=
  let why := ctx.scriptErrorString check.scriptPubKey check.amount check.ptxTo check.nIn check.nFlags
  let mandatory := { check with nFlags := check.nFlags &&& ~~~STANDARD_NOT_MANDATORY_VERIFY_FLAGS }
  if check.passes ctx then .ok ()
  else if check.nFlags &&& STANDARD_NOT_MANDATORY_VERIFY_FLAGS ≠ 0 ∧ mandatory.passes ctx then
    .error (stateDoS 0 REJECT_NONSTANDARD ("non-mandatory-script-verify-flag (" ++ why ++ ")"))
  else
    .error (stateDoS 100 REJECT_INVALID ("mandatory-script-verify-flag-failed (" ++ why ++ ")"))

/-- A script check is left for the threads, or made at once. -/
def addScriptCheck (check : CScriptCheck) : Except Failure (List CScriptCheck) :=
  if ctx.scriptCheckThreads then .ok [check] else (runScriptCheck ctx check).map fun _ => []

/-- The loop of `CheckInputs` over the scripts, from input `i`: the checks left for the threads. -/
def checkInputScripts (ctx : NodeContext) (tx : CTransaction) (flags : ScriptFlags) :
    CCoinsViewCache → ℕ → List CTxIn → Except Failure (List CScriptCheck × CCoinsViewCache)
  | view, _, [] => .ok ([], view)
  | view, i, txin :: rest => do
    let got := view.accessCoin txin.prevout
    assertThat (!got.1.isSpent) "!coin.IsSpent()"
    let pending ← addScriptCheck ctx
      ⟨got.1.out.scriptPubKey, got.1.out.nValue, tx, i, flags⟩
    let more ← checkInputScripts ctx tx flags got.2 (i + 1) rest
    .ok (pending ++ more.1, more.2)

/-- The script checks, if they are not skipped. -/
def checkScripts (view : CCoinsViewCache) (fScriptChecks : Bool) (flags : ScriptFlags) :
    Except Failure (List CScriptCheck × CCoinsViewCache) :=
  if fScriptChecks then checkInputScripts ctx tx flags view 0 tx.vin else .ok ([], view)

/-- `CheckInputs`, for a transaction that is not a coinbase. -/
def checkInputs (view : CCoinsViewCache) (fScriptChecks : Bool) (flags : ScriptFlags) :
    Except Failure (List CScriptCheck × CCoinsViewCache) := do
  let spend ← getSpendHeight ctx view
  let view ← checkTxInputs tx spend.2 spend.1
  checkScripts ctx tx view fScriptChecks flags

/-! ## `UpdateCoins` -/

/-- The outpoint of output `i`. -/
def CTransaction.outpoint (i : ℕ) : COutPoint := ⟨tx.hash, BitVec.ofNat 32 i⟩

/-- The loop of `AddCoins`, from output `i`. -/
def addCoinsFrom (tx : CTransaction) (nHeight : ℕ) :
    CCoinsViewCache → ℕ → List CTxOut → Except CppError CCoinsViewCache
  | cache, _, [] => .ok cache
  | cache, i, txout :: rest => do
    let cache ← cache.addCoin (tx.outpoint i) ⟨txout, tx.isCoinBase, BitVec.ofNat 31 nHeight⟩
      tx.isCoinBase
    addCoinsFrom tx nHeight cache (i + 1) rest

/-- `AddCoins`. -/
def addCoins (cache : CCoinsViewCache) (tx : CTransaction) (nHeight : ℕ) :
    Except CppError CCoinsViewCache :=
  addCoinsFrom tx nHeight cache 0 tx.vout

/-- The loop of `UpdateCoins` over the inputs: the coins moved out, in order. -/
def spendInputs : CCoinsViewCache → List CTxIn → Except CppError (List Coin × CCoinsViewCache)
  | inputs, [] => .ok ([], inputs)
  | inputs, txin :: rest =>
    match inputs.spendCoin txin.prevout with
    | (none, _) => .error (.assertion "is_spent")
    | (some coin, inputs) => do
      let more ← spendInputs inputs rest
      .ok (coin :: more.1, more.2)

/-- The inputs that `UpdateCoins` marks spent: a coinbase has none. -/
def CTransaction.spends : List CTxIn := if tx.isCoinBase then [] else tx.vin

/-- `UpdateCoins`. -/
def updateCoins (inputs : CCoinsViewCache) (nHeight : ℕ) :
    Except CppError (CTxUndo × CCoinsViewCache) := do
  let spent ← spendInputs inputs tx.spends
  let inputs ← addCoins spent.2 tx nHeight
  .ok (⟨spent.1⟩, inputs)

/-! ## The loop over the transactions -/

/-- The variables of the loop in `ConnectBlock`; `vChecks` is what `control` was given. -/
structure ConnectState where
  view : CCoinsViewCache
  blockundo : CBlockUndo
  nFees : CAmount
  nSigOps : ℕ
  vChecks : List CScriptCheck

/-- What `ConnectBlock` decides once for all transactions. -/
structure ConnectFlags where
  fScriptChecks : Bool
  fStrictPayToScriptHash : Bool
  fDIP0001Active_context : Bool
  /-- `nLockTimeFlags & LOCKTIME_VERIFY_SEQUENCE` -/
  verifySequence : Bool
  flags : ScriptFlags

/-- The P2SH signature operations, if they count. -/
def addP2SHSigOps (cf : ConnectFlags) (tx : CTransaction) (view : CCoinsViewCache) (nSigOps : ℕ) :
    Except Failure (ℕ × CCoinsViewCache) :=
  if cf.fStrictPayToScriptHash then do
    let count ← getP2SHSigOpCount ctx tx view
    require (decide (nSigOps + count.1 ≤ maxBlockSigOps cf.fDIP0001Active_context))
      (stateDoS 100 REJECT_INVALID "bad-blk-sigops")
    .ok (nSigOps + count.1, count.2)
  else .ok (nSigOps, view)

/-- The checks of a transaction that is not a coinbase, with its fee added. -/
def connectInputs (cf : ConnectFlags) (pindex : CBlockIndex) (tx : CTransaction) (s : ConnectState) :
    Except Failure ConnectState := do
  let available := s.view.haveInputs tx
  require available.1 (stateDoS 100 REJECT_INVALID "bad-txns-inputs-missingorspent")
  let prevheights := available.2.prevHeights tx.vin
  require (ctx.sequenceLocks tx cf.verifySequence prevheights.1 pindex)
    (stateDoS 100 REJECT_INVALID "bad-txns-nonfinal")
  let sigOps ← addP2SHSigOps ctx cf tx prevheights.2 s.nSigOps
  let valueIn := sigOps.2.getValueIn tx
  let nValueOut ← valueOutOrThrow tx
  let checks ← checkInputs ctx tx valueIn.2 cf.fScriptChecks cf.flags
  .ok { s with
    view := checks.2
    nFees := s.nFees + (valueIn.1 - nValueOut)
    nSigOps := sigOps.1
    vChecks := s.vChecks ++ checks.1 }

/-- The checks of a transaction. -/
def connectChecks (cf : ConnectFlags) (pindex : CBlockIndex) (tx : CTransaction) (s : ConnectState) :
    Except Failure ConnectState := do
  let nSigOps := s.nSigOps + getLegacySigOpCount ctx tx
  require (decide (nSigOps ≤ maxBlockSigOps cf.fDIP0001Active_context))
    (stateDoS 100 REJECT_INVALID "bad-blk-sigops")
  if tx.isCoinBase then .ok { s with nSigOps := nSigOps }
  else connectInputs ctx cf pindex tx { s with nSigOps := nSigOps }

/-- The body of the loop, for transaction `i`. -/
def connectTx (cf : ConnectFlags) (pindex : CBlockIndex) (i : ℕ) (tx : CTransaction)
    (s : ConnectState) : Except Failure ConnectState := do
  let s ← connectChecks ctx cf pindex tx s
  let updated ← (updateCoins tx s.view pindex.nHeight).mapError Failure.raised
  .ok { s with
    view := updated.2
    blockundo := if i = 0 then s.blockundo else ⟨s.blockundo.vtxundo ++ [updated.1]⟩ }

/-- The loop over the transactions, from transaction `i`. -/
def connectTxs (ctx : NodeContext) (cf : ConnectFlags) (pindex : CBlockIndex) :
    ℕ → List CTransaction → ConnectState → Except Failure ConnectState
  | _, [], s => .ok s
  | i, tx :: rest, s => do
    let s ← connectTx ctx cf pindex i tx s
    connectTxs ctx cf pindex (i + 1) rest s

/-! ## `ConnectBlock` -/

/-- `fEnforceBIP30`. -/
def fEnforceBIP30 (pindex : CBlockIndex) : Bool :=
  let params := consensusParams ctx.net
  (match pindex.phashBlock with
    | none => true
    | some hash =>
      !decide ((pindex.nHeight = 91842
          ∧ hash = 0x00000000000a4d0a398161ffc163c503763b1f4360639393e0e4c8e300e0caec)
        ∨ (pindex.nHeight = 91880
          ∧ hash = 0x00000000000743f190a18c5577a3c2d2a1f610ae9601ac046a38084ccb7cd721)))
  && (match pindex.prevAncestor params.BIP34Height with
    | none => true
    | some ancestor => !decide (ancestor.hash = params.BIP34Hash))

/-- The check that no output of the block is in the view already. -/
def checkOverwrites : CCoinsViewCache → List COutPoint → Except Failure CCoinsViewCache
  | view, [] => .ok view
  | view, outpoint :: rest => do
    let got := view.haveCoin outpoint
    require (!got.1) (stateDoS 100 REJECT_INVALID "bad-txns-BIP30")
    checkOverwrites got.2 rest

/-- The outpoints of all outputs. -/
def CTransaction.outpoints : List COutPoint :=
  (List.range tx.vout.length).map tx.outpoint

/-- The check of BIP30, if it is enforced. -/
def checkBIP30 (block : CBlock) (pindex : CBlockIndex) (view : CCoinsViewCache) :
    Except Failure CCoinsViewCache :=
  if fEnforceBIP30 ctx pindex then
    checkOverwrites view (block.vtx.flatMap CTransaction.outpoints)
  else .ok view

/-- The flags for the transactions of a block. -/
def connectFlags (block : CBlock) (pindex : CBlockIndex) : ConnectFlags :=
  let fStrictPayToScriptHash := decide (pindex.nTime.toNat ≥ 1333238400)
  { fScriptChecks := ctx.fScriptChecks pindex
    fStrictPayToScriptHash := fStrictPayToScriptHash
    fDIP0001Active_context := ctx.dip0001Active pindex
    verifySequence := ctx.csvActive pindex
    flags :=
      (if fStrictPayToScriptHash then 1 else 0)
      ||| (if block.header.nVersion.toInt ≥ 3 ∧ ctx.isSuperMajority 3 pindex then 0x4 else 0)
      ||| (if block.header.nVersion.toInt ≥ 4 ∧ ctx.isSuperMajority 4 pindex then 0x200 else 0)
      ||| (if ctx.csvActive pindex then 0x400 else 0) }

/-- What `ConnectBlock` leaves: the view, the undo data (none for the genesis block), the fees and
    the block reward. -/
structure ConnectResult where
  view : CCoinsViewCache
  blockundo : Option CBlockUndo
  nFees : CAmount
  blockReward : CAmount

/-- `pindex->GetBlockHash()`. -/
def CBlockIndex.getBlockHash (pindex : CBlockIndex) : Except CppError Uint256 :=
  match pindex.phashBlock with
  | some hash => .ok hash
  | none => .error (.nullPointer "phashBlock")

/-- The checks of the coinbase after the loop. -/
def checkCoinbasePayments (coinbase : CTransaction) (pindex : CBlockIndex) (blockReward : CAmount) :
    Except Failure Unit := do
  match isBlockValueValid ctx.net ctx.payments coinbase pindex.nHeight blockReward with
  | none => .error (.raised (.runtimeError "GetValueOut: value out of range"))
  | some check => do
    require check.valid (stateDoS 0 REJECT_INVALID "bad-cb-amount")
    require (ctx.isBlockPayeeValid coinbase pindex.nHeight blockReward)
      (stateDoS 0 REJECT_INVALID "bad-cb-payee")

/-- Move the best block pointer, unless the block is only checked. -/
def moveBestBlock (view : CCoinsViewCache) (pindex : CBlockIndex) (fJustCheck : Bool) :
    Except Failure CCoinsViewCache :=
  if fJustCheck then .ok view
  else do
    let hash ← pindex.getBlockHash.mapError Failure.raised
    .ok (view.setBestBlock hash)

/-- `ConnectBlock` for a block that is not the genesis block, over `pprev`. -/
def connectTransactions (block : CBlock) (pindex : CBlockIndex) (prev : IndexNode)
    (view : CCoinsViewCache) (fJustCheck : Bool) : Except Failure ConnectResult := do
  let view ← checkBIP30 ctx block pindex view
  let s ← connectTxs ctx (connectFlags ctx block pindex) pindex 0 block.vtx ⟨view, ⟨[]⟩, 0, 0, []⟩
  let blockReward := s.nFees + getBlockSubsidy ctx.net prev.nBits (pindex.nHeight - 1)
    (consensusParams ctx.net) false
  match block.vtx with
  | [] => .error (.raised (.nullPointer "block.vtx[0]"))
  | coinbase :: _ => do
    checkCoinbasePayments ctx coinbase pindex blockReward
    -- control.Wait()
    require (s.vChecks.all (CScriptCheck.passes ctx)) (stateDoS 100 0 "")
    let view ← moveBestBlock s.view pindex fJustCheck
    .ok ⟨view, if fJustCheck then none else some s.blockundo, s.nFees, blockReward⟩

/-- `ConnectBlock`. -/
def connectBlock (block : CBlock) (pindex : CBlockIndex) (view : CCoinsViewCache)
    (fJustCheck : Bool) : Except Failure ConnectResult := do
  let _ ← checkBlock ctx block (!fJustCheck) (!fJustCheck)
  let best := view.getBestBlock
  assertThat (decide ((pindex.pprev.map IndexNode.hash).getD 0 = best.1))
    "hashPrevBlock == view.GetBestBlock()"
  if ctx.getHash block.header = ctx.hashGenesisBlock then do
    let view ← moveBestBlock best.2 pindex fJustCheck
    .ok ⟨view, none, 0, 0⟩
  else
    match pindex.pprev with
    | none => .error (.raised (.nullPointer "pindex->pprev"))
    | some prev => connectTransactions ctx block pindex prev best.2 fJustCheck

end Binarium
