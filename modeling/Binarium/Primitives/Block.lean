import Binarium.Pow.BlockHash
import Binarium.Primitives.Transaction

set_option autoImplicit false

/-! # Blocks and their place in the chain (`primitives/block.h`, `chain.h`, `consensus/consensus.h`)

Blocks with their serialized size, and the block index entry of a block, with the chain of its
ancestors as a list. -/

namespace Binarium

/-! ## Serialized sizes -/

/-- `GetSizeOfCompactSize`. -/
def getSizeOfCompactSize (nSize : ℕ) : ℕ :=
  if nSize < 253 then 1 else if nSize ≤ 0xffff then 3 else if nSize ≤ 0xffffffff then 5 else 9

/-- The serialized size of a script. -/
def CScript.serializeSize (script : CScript) : ℕ :=
  getSizeOfCompactSize script.length + script.length

/-- The serialized size of an input: outpoint, script and sequence number. -/
def CTxIn.serializeSize (txin : CTxIn) : ℕ := 36 + txin.scriptSig.serializeSize + 4

/-- The serialized size of an output: value and script. -/
def CTxOut.serializeSize (txout : CTxOut) : ℕ := 8 + txout.scriptPubKey.serializeSize

/-- `GetSerializeSize` of a transaction: version, inputs, outputs and lock time. -/
def CTransaction.serializeSize (tx : CTransaction) : ℕ :=
  4 + (getSizeOfCompactSize tx.vin.length + (tx.vin.map CTxIn.serializeSize).sum)
    + (getSizeOfCompactSize tx.vout.length + (tx.vout.map CTxOut.serializeSize).sum) + 4

theorem CTransaction.two_le_serializeSize (tx : CTransaction) : 2 ≤ tx.serializeSize := by
  simp [CTransaction.serializeSize]

/-- Every output takes up space. -/
theorem CTransaction.length_vout_le (tx : CTransaction) : tx.vout.length ≤ tx.serializeSize := by
  have hsum : tx.vout.length ≤ (tx.vout.map CTxOut.serializeSize).sum := by
    induction tx.vout with
    | nil => exact Nat.le_refl 0
    | cons txout rest ih =>
      simp only [List.map_cons, List.sum_cons, List.length_cons]
      have hone : 1 ≤ txout.serializeSize := by
        unfold CTxOut.serializeSize
        omega
      omega
  unfold CTransaction.serializeSize
  omega

/-! ## Blocks -/

/-- `CBlock`: a header, transactions and the memory-only flag of `CheckBlock`. -/
structure CBlock where
  header : CBlockHeader
  vtx : List CTransaction
  fChecked : Bool
deriving DecidableEq

/-- `GetSerializeSize` of a block. -/
def CBlock.serializeSize (block : CBlock) : ℕ :=
  80 + (getSizeOfCompactSize block.vtx.length
    + (block.vtx.map CTransaction.serializeSize).sum)

/-- `MAX_LEGACY_BLOCK_SIZE`. -/
def MAX_LEGACY_BLOCK_SIZE : ℕ := 1000000

/-- `MAX_DIP0001_BLOCK_SIZE`. -/
def MAX_DIP0001_BLOCK_SIZE : ℕ := 2000000

/-- `MaxBlockSize`. -/
def maxBlockSize (fDIP0001Active : Bool) : ℕ :=
  if fDIP0001Active then MAX_DIP0001_BLOCK_SIZE else MAX_LEGACY_BLOCK_SIZE

/-- `MaxBlockSigOps`. -/
def maxBlockSigOps (fDIP0001Active : Bool) : ℕ := maxBlockSize fDIP0001Active / 50

/-- `COINBASE_MATURITY`. -/
def COINBASE_MATURITY : ℤ := 100

/-! ## The block index -/

/-- What is read of an ancestor in the block index. -/
structure IndexNode where
  hash : Uint256
  nBits : BitVec 32
deriving DecidableEq

/-- `CBlockIndex`: the hash (null for a block template), the time and the ancestors, `pprev` first.
    The height is their number and fits an `int`. -/
structure CBlockIndex where
  phashBlock : Option Uint256
  nTime : BitVec 32
  ancestors : List IndexNode
  height_lt : ancestors.length < 2 ^ 31

/-- `nHeight`. -/
def CBlockIndex.nHeight (pindex : CBlockIndex) : ℕ := pindex.ancestors.length

/-- `pprev`. -/
def CBlockIndex.pprev (pindex : CBlockIndex) : Option IndexNode := pindex.ancestors.head?

/-- `pprev->GetAncestor(height)`. -/
def CBlockIndex.prevAncestor (pindex : CBlockIndex) (height : ℤ) : Option IndexNode :=
  if height < 0 ∨ height > (pindex.nHeight : ℤ) - 1 then none
  else pindex.ancestors[pindex.nHeight - 1 - height.toNat]?

end Binarium
