import Binarium.Validation.ConnectBlock

set_option autoImplicit false

/-! # Disconnecting a block (`validation.cpp`, `coins.cpp`)

`DisconnectBlock` takes a block off a coins view: from the last transaction to the first it removes
the outputs and puts back the coins of the undo data. It reports `DISCONNECT_UNCLEAN` when what it
finds is not what the block left. -/

namespace Binarium

open Checks

/-- `DisconnectResult`. -/
inductive DisconnectResult where
  | DISCONNECT_OK
  | DISCONNECT_UNCLEAN
  | DISCONNECT_FAILED
deriving DecidableEq

/-- Why the disconnection of a block stops early: `DISCONNECT_FAILED`, or an exception. -/
inductive DisconnectStop where
  | failed (why : String)
  | raised (e : CppError)
deriving DecidableEq

/-- `MAX_OUTPUTS_PER_BLOCK`: the block size over the size of an empty output. -/
def MAX_OUTPUTS_PER_BLOCK : ℕ := maxBlockSize true / CTxOut.serializeSize ⟨-1, []⟩

/-- The loop of `AccessByTxid`, from output `n` for a number of steps. -/
def accessByTxidFrom (txid : Uint256) : ℕ → ℕ → CCoinsViewCache → Coin × CCoinsViewCache
  | 0, _, view => (coinEmpty, view)
  | steps + 1, n, view =>
    let alternate := view.accessCoin ⟨txid, BitVec.ofNat 32 n⟩
    if alternate.1.isSpent then accessByTxidFrom txid steps (n + 1) alternate.2 else alternate

/-- `AccessByTxid`. -/
def accessByTxid (view : CCoinsViewCache) (txid : Uint256) : Coin × CCoinsViewCache :=
  accessByTxidFrom txid MAX_OUTPUTS_PER_BLOCK 0 view

/-- The metadata part of `ApplyTxInUndo`: a coin without a height takes it from another output of
    the same transaction. -/
def completeUndo (undo : Coin) (view : CCoinsViewCache) (out : COutPoint) :
    Except DisconnectStop (Coin × CCoinsViewCache) :=
  if undo.nHeight = 0 then
    let alternate := accessByTxid view out.hash
    if alternate.1.isSpent then
      .error (.failed "adding output for transaction without known metadata")
    else
      .ok ({ undo with nHeight := alternate.1.nHeight, fCoinBase := alternate.1.fCoinBase },
        alternate.2)
  else .ok (undo, view)

/-- `ApplyTxInUndo`: `fClean` and the view. -/
def applyTxInUndo (undo : Coin) (view : CCoinsViewCache) (out : COutPoint) :
    Except DisconnectStop (Bool × CCoinsViewCache) := do
  -- overwriting transaction output
  let overwritten := view.haveCoin out
  let completed ← completeUndo undo overwritten.2 out
  let view ← (completed.2.addCoin out completed.1 completed.1.fCoinBase).mapError .raised
  .ok (!overwritten.1, view)

/-- The loop over the outputs, from output `o`: they are removed, and have to match the block. -/
def removeOutputs (tx : CTransaction) (nHeight : ℕ) :
    ℕ → List CTxOut → Bool × CCoinsViewCache → Bool × CCoinsViewCache
  | _, [], s => s
  | o, txout :: rest, (fClean, view) =>
    if txout.scriptPubKey.isUnspendable then removeOutputs tx nHeight (o + 1) rest (fClean, view)
    else
      let spent := view.spendCoin (tx.outpoint o)
      let matched := match spent.1 with
        | none => false
        | some coin => decide (txout = coin.out ∧ nHeight = coin.nHeight.toNat
            ∧ tx.isCoinBase = coin.fCoinBase)
      removeOutputs tx nHeight (o + 1) rest (fClean && matched, spent.2)

/-- The loop that restores the inputs, last input first. -/
def restoreInputs : List (CTxIn × Coin) → Bool × CCoinsViewCache →
    Except DisconnectStop (Bool × CCoinsViewCache)
  | [], s => .ok s
  | (txin, undo) :: rest, s => do
    let s ← restoreInputs rest s
    let res ← applyTxInUndo undo s.2 txin.prevout
    .ok (s.1 && res.1, res.2)

/-- The body of the loop over the transactions; `undo` is `none` for the coinbase. -/
def disconnectTx (nHeight : ℕ) (tx : CTransaction) (undo : Option CTxUndo)
    (s : Bool × CCoinsViewCache) : Except DisconnectStop (Bool × CCoinsViewCache) :=
  let s := removeOutputs tx nHeight 0 tx.vout s
  match undo with
  | none => .ok s
  | some txundo => do
    require (decide (txundo.vprevout.length = tx.vin.length))
      (.failed "DisconnectBlock(): transaction and undo data inconsistent")
    restoreInputs (tx.vin.zip txundo.vprevout) s

/-- The loop over the transactions, last transaction first. -/
def disconnectTxs (nHeight : ℕ) : List (CTransaction × Option CTxUndo) → Bool × CCoinsViewCache →
    Except DisconnectStop (Bool × CCoinsViewCache)
  | [], s => .ok s
  | (tx, undo) :: rest, s => do
    let s ← disconnectTxs nHeight rest s
    disconnectTx nHeight tx undo s

/-- `DisconnectBlock` up to an early stop. -/
def disconnectOrStop (block : CBlock) (pindex : CBlockIndex) (blockUndo : Option CBlockUndo)
    (view : CCoinsViewCache) : Except DisconnectStop (Bool × CCoinsViewCache) := do
  let hash ← pindex.getBlockHash.mapError DisconnectStop.raised
  let best := view.getBestBlock
  require (decide (hash = best.1))
    (.raised (.assertion "pindex->GetBlockHash() == view.GetBestBlock()"))
  match blockUndo, pindex.pprev with
  | none, _ => .error (.failed "DisconnectBlock(): no undo data available")
  | some _, none => .error (.raised (.nullPointer "pindex->pprev"))
  | some blockUndo, some prev => do
    require (decide (blockUndo.vtxundo.length + 1 = block.vtx.length))
      (.failed "DisconnectBlock(): block and undo data inconsistent")
    let s ← disconnectTxs pindex.nHeight
      (block.vtx.zip (none :: blockUndo.vtxundo.map some)) (true, best.2)
    .ok (s.1, s.2.setBestBlock prev.hash)

/-- `DisconnectBlock`. The view it leaves on failure is unspecified. -/
def disconnectBlock (block : CBlock) (pindex : CBlockIndex) (blockUndo : Option CBlockUndo)
    (view : CCoinsViewCache) : Except CppError (DisconnectResult × CCoinsViewCache) :=
  match disconnectOrStop block pindex blockUndo view with
  | .ok (fClean, view) => .ok (if fClean then .DISCONNECT_OK else .DISCONNECT_UNCLEAN, view)
  | .error (.failed _) => .ok (.DISCONNECT_FAILED, view)
  | .error (.raised e) => .error e

end Binarium
