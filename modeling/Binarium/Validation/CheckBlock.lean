import Binarium.Lib.Checks
import Binarium.Coins.Cache
import Binarium.Payments
import Binarium.Primitives.Block

set_option autoImplicit false

/-! # Checks that need no chain state (`validation.cpp`, `consensus/validation.h`)

`CheckTransaction` and `CheckBlock`. What they read from outside of the block, the proof of work, the
merkle root, the signature operation counts, the locks of InstantSend and so on, comes from a
`NodeContext`; the functions are stated for every such context. -/

namespace Binarium

open Checks List

/-! ## Failures -/

/-- `REJECT_INVALID`. -/
def REJECT_INVALID : ℕ := 0x10

/-- `REJECT_NONSTANDARD`. -/
def REJECT_NONSTANDARD : ℕ := 0x40

/-- What `CValidationState` records of a rejection. -/
structure CValidationState where
  nDoS : ℕ
  chRejectCode : ℕ
  strRejectReason : String
  corruptionPossible : Bool
  strDebugMessage : String
deriving DecidableEq

/-- Why a validation function does not return true: the state it records, or what stops it. -/
inductive Failure where
  | invalid (state : CValidationState)
  | raised (e : CppError)
deriving DecidableEq

/-- `state.DoS(level, false, chRejectCode, strRejectReason)`. -/
def stateDoS (level chRejectCode : ℕ) (strRejectReason : String) : Failure :=
  .invalid ⟨level, chRejectCode, strRejectReason, false, ""⟩

/-- `assert`. -/
def assertThat (c : Bool) (expr : String) : Except Failure Unit :=
  require c (.raised (.assertion expr))

/-! ## Context -/

/-- What validation reads besides the block, the block index entry and the coins. -/
structure NodeContext where
  net : Network
  /-- `Params().GetConsensus().hashGenesisBlock` -/
  hashGenesisBlock : Uint256
  /-- `CBlockHeader::GetHash` -/
  getHash : CBlockHeader → Uint256
  /-- `CheckProofOfWork` -/
  checkProofOfWork : Uint256 → BitVec 32 → Bool
  /-- `GetAdjustedTime()` -/
  adjustedTime : ℤ
  /-- `BlockMerkleRoot` and its flag `mutated` -/
  blockMerkleRoot : List CTransaction → Uint256 × Bool
  /-- `SPORK_3_INSTANTSEND_BLOCK_FILTERING` -/
  spork3InstantSendBlockFiltering : Bool
  /-- `instantsend.GetLockedOutPointTxHash` -/
  lockedOutPointTxHash : COutPoint → Option Uint256
  /-- `CScript::GetSigOpCount(false)` -/
  sigOpCount : CScript → ℕ
  /-- `CScript::GetSigOpCount(scriptSig)` of a pay-to-script-hash script -/
  p2shSigOpCount : CScript → CScript → ℕ
  /-- `SequenceLocks` -/
  sequenceLocks : CTransaction → Bool → List (BitVec 31) → CBlockIndex → Bool
  /-- `IsSuperMajority` over the ancestors of a block -/
  isSuperMajority : ℕ → CBlockIndex → Bool
  /-- `VersionBitsState(..., DEPLOYMENT_CSV, ...) == THRESHOLD_ACTIVE` -/
  csvActive : CBlockIndex → Bool
  /-- `VersionBitsState(..., DEPLOYMENT_DIP0001, ...) == THRESHOLD_ACTIVE` -/
  dip0001Active : CBlockIndex → Bool
  /-- `fScriptChecks`, decided from `hashAssumeValid` -/
  fScriptChecks : CBlockIndex → Bool
  /-- whether `nScriptCheckThreads` is not zero -/
  scriptCheckThreads : Bool
  /-- `CScriptCheck::operator()` for a script, amount, transaction, input and flags -/
  scriptCheck : CScript → CAmount → CTransaction → ℕ → ScriptFlags → Bool
  /-- `ScriptErrorString` of a failed check -/
  scriptErrorString : CScript → CAmount → CTransaction → ℕ → ScriptFlags → String
  /-- the height of an entry of `mapBlockIndex` -/
  mapBlockIndexHeight : Uint256 → Option ℕ
  payments : PaymentsContext
  /-- `IsBlockPayeeValid` -/
  isBlockPayeeValid : CTransaction → ℕ → CAmount → Bool

/-- `GetLegacySigOpCount`. -/
def getLegacySigOpCount (ctx : NodeContext) (tx : CTransaction) : ℕ :=
  (tx.vin.map fun txin => ctx.sigOpCount txin.scriptSig).sum
    + (tx.vout.map fun txout => ctx.sigOpCount txout.scriptPubKey).sum

/-! ## `CheckTransaction` -/

/-- The loop over the outputs, from a running sum. -/
def checkOutputs : CAmount → List CTxOut → Except Failure Unit
  | _, [] => .ok ()
  | nValueOut, txout :: rest => do
    require (!decide (txout.nValue < 0)) (stateDoS 100 REJECT_INVALID "bad-txns-vout-negative")
    require (!decide (txout.nValue > MAX_MONEY))
      (stateDoS 100 REJECT_INVALID "bad-txns-vout-toolarge")
    require (moneyRange (nValueOut + txout.nValue))
      (stateDoS 100 REJECT_INVALID "bad-txns-txouttotal-toolarge")
    checkOutputs (nValueOut + txout.nValue) rest

/-- The loop over the inputs, with the outpoints seen so far. -/
def checkDuplicateInputs : List COutPoint → List CTxIn → Except Failure Unit
  | _, [] => .ok ()
  | vInOutPoints, txin :: rest => do
    require (!decide (txin.prevout ∈ vInOutPoints))
      (stateDoS 100 REJECT_INVALID "bad-txns-inputs-duplicate")
    checkDuplicateInputs (txin.prevout :: vInOutPoints) rest

/-- `CheckTransaction`. -/
def checkTransaction (tx : CTransaction) : Except Failure Unit := do
  require (!tx.vin.isEmpty) (stateDoS 10 REJECT_INVALID "bad-txns-vin-empty")
  require (!tx.vout.isEmpty) (stateDoS 10 REJECT_INVALID "bad-txns-vout-empty")
  require (decide (tx.serializeSize ≤ MAX_LEGACY_BLOCK_SIZE))
    (stateDoS 100 REJECT_INVALID "bad-txns-oversize")
  checkOutputs 0 tx.vout
  checkDuplicateInputs [] tx.vin
  if tx.isCoinBase then
    tx.vin.forM fun txin =>
      require (decide (2 ≤ txin.scriptSig.length ∧ txin.scriptSig.length ≤ 100))
        (stateDoS 100 REJECT_INVALID "bad-cb-length")
  else
    tx.vin.forM fun txin =>
      require (!txin.prevout.isNull) (stateDoS 10 REJECT_INVALID "bad-txns-prevout-null")

/-! ## `CheckBlock` -/

/-- `CheckBlockHeader`. -/
def checkBlockHeader (ctx : NodeContext) (header : CBlockHeader) (fCheckPOW : Bool) :
    Except Failure Unit := do
  require (!fCheckPOW || ctx.checkProofOfWork (ctx.getHash header) header.nBits)
    (stateDoS 50 REJECT_INVALID "high-hash")
  require (decide ((header.nTime.toNat : ℤ) ≤ ctx.adjustedTime + 2 * 60 * 60))
    (stateDoS 0 REJECT_INVALID "time-too-new")

/-- The check of the merkle root, if asked for. -/
def checkMerkleRoot (ctx : NodeContext) (block : CBlock) (fCheckMerkleRoot : Bool) :
    Except Failure Unit :=
  if fCheckMerkleRoot then do
    let (hashMerkleRoot2, mutated) := ctx.blockMerkleRoot block.vtx
    require (decide (block.header.hashMerkleRoot = hashMerkleRoot2))
      (.invalid ⟨100, REJECT_INVALID, "bad-txnmrklroot", true, ""⟩)
    require (!mutated) (.invalid ⟨100, REJECT_INVALID, "bad-txns-duplicate", true, ""⟩)
  else .ok ()

/-- The check of a transaction against the locks of InstantSend. -/
def checkTransactionLocks (ctx : NodeContext) (tx : CTransaction) : Except Failure Unit :=
  if tx.isCoinBase then .ok ()
  else
    tx.vin.forM fun txin =>
      match ctx.lockedOutPointTxHash txin.prevout with
      | none => .ok ()
      | some hashLocked =>
        require (decide (hashLocked = tx.hash)) (stateDoS 0 REJECT_INVALID "conflict-tx-lock")

/-- The check of all transactions against the locks, if the spork is active. -/
def checkBlockLocks (ctx : NodeContext) (block : CBlock) : Except Failure Unit :=
  if ctx.spork3InstantSendBlockFiltering then block.vtx.forM (checkTransactionLocks ctx) else .ok ()

/-- The checks of `CheckBlock` on a block that was not checked before. -/
def checkBlockContent (ctx : NodeContext) (block : CBlock) (fCheckPOW fCheckMerkleRoot : Bool) :
    Except Failure Unit := do
  checkBlockHeader ctx block.header fCheckPOW
  checkMerkleRoot ctx block fCheckMerkleRoot
  require (!block.vtx.isEmpty && decide (block.vtx.length ≤ maxBlockSize true)
    && decide (block.serializeSize ≤ maxBlockSize true))
    (stateDoS 100 REJECT_INVALID "bad-blk-length")
  require (block.vtx.head?.any CTransaction.isCoinBase)
    (stateDoS 100 REJECT_INVALID "bad-cb-missing")
  require (block.vtx.tail.all fun tx => !tx.isCoinBase)
    (stateDoS 100 REJECT_INVALID "bad-cb-multiple")
  checkBlockLocks ctx block
  block.vtx.forM checkTransaction
  require (decide ((block.vtx.map (getLegacySigOpCount ctx)).sum ≤ maxBlockSigOps true))
    (stateDoS 100 REJECT_INVALID "bad-blk-sigops")

/-- `CheckBlock`: the block with its flag `fChecked` set. -/
def checkBlock (ctx : NodeContext) (block : CBlock) (fCheckPOW fCheckMerkleRoot : Bool) :
    Except Failure CBlock :=
  if block.fChecked then .ok block
  else do
    checkBlockContent ctx block fCheckPOW fCheckMerkleRoot
    .ok (if fCheckPOW && fCheckMerkleRoot then { block with fChecked := true } else block)

/-! ## What a checked transaction is -/

theorem checkOutputs_sumOutputs (outs : List CTxOut) :
    ∀ {nValueOut : CAmount}, checkOutputs nValueOut outs = .ok () →
      ∃ v, sumOutputs nValueOut outs = some v := by
  induction outs with
  | nil => exact fun _ => ⟨_, rfl⟩
  | cons txout rest ih =>
    intro nValueOut h
    obtain ⟨hneg, h⟩ := require_bind h
    obtain ⟨hlarge, h⟩ := require_bind h
    obtain ⟨hsum, h⟩ := require_bind h
    obtain ⟨v, hv⟩ := ih h
    have hvalue : moneyRange txout.nValue := by
      rw [Bool.not_eq_true', decide_eq_false_iff_not, Int64.not_lt] at hneg hlarge
      exact decide_eq_true ⟨hneg, hlarge⟩
    exact ⟨v, by simp [sumOutputs, hvalue, hsum, hv]⟩

theorem checkDuplicateInputs_nodup (ins : List CTxIn) :
    ∀ {seen : List COutPoint}, checkDuplicateInputs seen ins = .ok () →
      (ins.map CTxIn.prevout).Nodup ∧ ∀ txin ∈ ins, txin.prevout ∉ seen := by
  induction ins with
  | nil => exact fun _ => ⟨nodup_nil, by simp⟩
  | cons txin rest ih =>
    intro seen h
    obtain ⟨hnew, h⟩ := require_bind h
    obtain ⟨hnodup, hrest⟩ := ih h
    rw [Bool.not_eq_true', decide_eq_false_iff_not] at hnew
    simp only [mem_cons, not_or] at hrest
    refine ⟨?_, forall_mem_cons.mpr ⟨hnew, fun other hother => (hrest other hother).2⟩⟩
    rw [map_cons, nodup_cons, mem_map]
    exact ⟨fun ⟨other, hother, heq⟩ => (hrest other hother).1 heq, hnodup⟩

/-- What `CheckTransaction` guarantees to the code after it. -/
structure TransactionOk (tx : CTransaction) : Prop where
  vin_ne : tx.vin ≠ []
  valueOut : ∃ v, tx.getValueOut = some v
  inputs_nodup : (tx.vin.map CTxIn.prevout).Nodup
  vout_length : tx.vout.length ≤ 1000000

theorem checkTransaction_ok {tx : CTransaction} (h : checkTransaction tx = .ok ()) :
    TransactionOk tx := by
  obtain ⟨hvin, h⟩ := require_bind h
  obtain ⟨-, h⟩ := require_bind h
  obtain ⟨hsize, h⟩ := require_bind h
  obtain ⟨_, houts, h⟩ := bind_eq_ok_iff.mp h
  obtain ⟨_, hins, -⟩ := bind_eq_ok_iff.mp h
  exact ⟨by simpa using hvin, checkOutputs_sumOutputs tx.vout houts,
    (checkDuplicateInputs_nodup tx.vin hins).1,
    le_trans tx.length_vout_le (of_decide_eq_true hsize)⟩

/-! ## What a checked block is -/

/-- What `CheckBlock` guarantees to the code after it: a coinbase and then transactions that are not,
    each of them checked. -/
structure BlockOk (coinbase : CTransaction) (rest : List CTransaction) : Prop where
  isCoinBase : coinbase.isCoinBase = true
  not_isCoinBase : ∀ tx ∈ rest, tx.isCoinBase = false
  coinbase_ok : TransactionOk coinbase
  rest_ok : ∀ tx ∈ rest, TransactionOk tx

variable {block block' : CBlock} {ctx : NodeContext} {fCheckMerkleRoot fCheckPOW : Bool}

theorem checkBlockContent_ok (h : checkBlockContent ctx block fCheckPOW fCheckMerkleRoot = .ok ()) :
    ∃ coinbase rest, block.vtx = coinbase :: rest ∧ BlockOk coinbase rest := by
  obtain ⟨_, -, h⟩ := bind_eq_ok_iff.mp h
  obtain ⟨_, -, h⟩ := bind_eq_ok_iff.mp h
  obtain ⟨-, h⟩ := require_bind h
  obtain ⟨hfirst, h⟩ := require_bind h
  obtain ⟨hothers, h⟩ := require_bind h
  obtain ⟨_, -, h⟩ := bind_eq_ok_iff.mp h
  obtain ⟨_, htxs, -⟩ := bind_eq_ok_iff.mp h
  have hchecked := forM_eq_ok_iff.mp htxs
  cases hvtx : block.vtx with
  | nil => simp [hvtx] at hfirst
  | cons coinbase rest =>
    rw [hvtx] at hfirst hothers hchecked
    rw [forall_mem_cons] at hchecked
    refine ⟨coinbase, rest, rfl, hfirst, ?_, checkTransaction_ok hchecked.1,
      fun tx htx => checkTransaction_ok (hchecked.2 tx htx)⟩
    simpa using hothers

/-- The flag `fChecked` is set by `CheckBlock` only, after all checks have passed at that time. -/
def CBlock.CheckedBefore (block : CBlock) : Prop :=
  block.fChecked = true → ∃ ctx, checkBlockContent ctx block true true = .ok ()

theorem checkBlock_ok (hblock : block.CheckedBefore)
    (h : checkBlock ctx block fCheckPOW fCheckMerkleRoot = .ok block') :
    ∃ coinbase rest, block.vtx = coinbase :: rest ∧ BlockOk coinbase rest := by
  unfold checkBlock at h
  split at h
  · next hflag =>
      obtain ⟨ctx', hcontent⟩ := hblock hflag
      exact checkBlockContent_ok hcontent
  · obtain ⟨_, hcontent, -⟩ := bind_eq_ok_iff.mp h
    exact checkBlockContent_ok hcontent

end Binarium
