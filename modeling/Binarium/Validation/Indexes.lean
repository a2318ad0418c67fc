import Binarium.Validation.RoundTrip

set_option autoImplicit false

/-! # The address, spent and timestamp indexes (`validation.cpp`, `txdb.cpp`, `spentindex.h`)

With `-addressindex`, `-spentindex` and `-timestampindex` the node keeps four more tables: the activity
of an address, its unspent outputs, the input that spends an output, and the blocks by their time.
`ConnectBlock` and `DisconnectBlock` collect batches of changes in their loops over the transactions and
write them at the end.

The loops are those of the models of `ConnectBlock` and `DisconnectBlock`, with the coins that are read
on the way. The two sides are written as the source has them: `DisconnectBlock` treats an input of kind
pay-to-public-key in its own way, fills a batch for the spent index that it does not write, and has
nothing for the timestamp index. -/

namespace Binarium

open Checks Journal

/-! ## Keys and values -/

/-- `CAddressIndexKey`. -/
structure CAddressIndexKey where
  type : ℕ
  hashBytes : Valtype
  blockHeight : ℕ
  txindex : ℕ
  txhash : Uint256
  index : ℕ
  spending : Bool
deriving DecidableEq

/-- `CAddressUnspentKey`. -/
structure CAddressUnspentKey where
  type : ℕ
  hashBytes : Valtype
  txhash : Uint256
  index : BitVec 32
deriving DecidableEq

/-- `CAddressUnspentValue`. -/
structure CAddressUnspentValue where
  satoshis : CAmount := -1
  script : CScript := []
  blockHeight : ℕ := 0
deriving DecidableEq

/-- `CAddressUnspentValue::IsNull`. -/
def CAddressUnspentValue.isNull (value : CAddressUnspentValue) : Bool := decide (value.satoshis = -1)

/-- `CSpentIndexKey`. -/
structure CSpentIndexKey where
  txid : Uint256
  outputIndex : BitVec 32
deriving DecidableEq

/-- `CSpentIndexValue`. -/
structure CSpentIndexValue where
  txid : Uint256 := 0
  inputIndex : ℕ := 0
  blockHeight : ℕ := 0
  satoshis : CAmount := 0
  addressType : ℕ := 0
  addressHash : Valtype := []
deriving DecidableEq

/-- `CSpentIndexValue::IsNull`. -/
def CSpentIndexValue.isNull (value : CSpentIndexValue) : Bool := decide (value.txid = 0)

/-- `CTimestampIndexKey`. -/
structure CTimestampIndexKey where
  timestamp : BitVec 32
  blockHash : Uint256
deriving DecidableEq

/-- The tables of `pblocktree`. -/
structure Indexes where
  address : CAddressIndexKey → Option CAmount
  unspent : CAddressUnspentKey → Option CAddressUnspentValue
  spent : CSpentIndexKey → Option CSpentIndexValue
  timestamp : CTimestampIndexKey → Option ℕ

/-- The options of the node, and `Hash160`. -/
structure IndexOptions where
  fAddressIndex : Bool
  fSpentIndex : Bool
  fTimestampIndex : Bool
  hash160 : Valtype → Valtype

/-! ## Addresses -/

/-- The kinds of scripts that have an address. -/
inductive ScriptKind where
  | payToScriptHash
  | payToPublicKeyHash
  | payToPublicKey
deriving DecidableEq

/-- The order of the checks in `ConnectBlock` and `DisconnectBlock`. -/
def CScript.kind (script : CScript) : Option ScriptKind :=
  if script.isPayToScriptHash then some .payToScriptHash
  else if script.isPayToPublicKeyHash then some .payToPublicKeyHash
  else if script.isPayToPublicKey then some .payToPublicKey
  else none

/-- The type of an address. -/
def ScriptKind.addressType : ScriptKind → ℕ
  | .payToScriptHash => 2
  | .payToPublicKeyHash => 1
  | .payToPublicKey => 1

/-- The `hashBytes` of a script of a kind. -/
def ScriptKind.hashBytes (hash160 : Valtype → Valtype) (script : CScript) : ScriptKind → Valtype
  | .payToScriptHash => (script.drop 2).take 20
  | .payToPublicKeyHash => (script.drop 3).take 20
  | .payToPublicKey => hash160 (script.drop 1).dropLast

/-- The key of an output in the index of unspent outputs. -/
def unspentKey (hash160 : Valtype → Valtype) (script : CScript) (kind : ScriptKind)
    (outpoint : COutPoint) : CAddressUnspentKey :=
  ⟨kind.addressType, kind.hashBytes hash160 script, outpoint.hash, outpoint.n⟩

/-- The key of an input or output in the address index. -/
def addressKey (hash160 : Valtype → Valtype) (script : CScript) (kind : ScriptKind)
    (nHeight txindex : ℕ) (txhash : Uint256) (index : ℕ) (spending : Bool) : CAddressIndexKey :=
  ⟨kind.addressType, kind.hashBytes hash160 script, nHeight, txindex, txhash, index, spending⟩

/-! ## Batches -/

/-- An input with its position and the coin that is read for it, and for `DisconnectBlock` the height of
    its undo data. -/
structure IndexInput where
  index : ℕ
  txin : CTxIn
  coin : Coin
  undoHeight : ℕ := 0

/-- What the loops collect. -/
structure IndexBatch where
  address : List (CAddressIndexKey × CAmount) := []
  unspent : List (CAddressUnspentKey × CAddressUnspentValue) := []
  spent : List (CSpentIndexKey × CSpentIndexValue) := []

/-- Two batches, one after the other. -/
def IndexBatch.append (b b' : IndexBatch) : IndexBatch :=
  ⟨b.address ++ b'.address, b.unspent ++ b'.unspent, b.spent ++ b'.spent⟩

section
variable (hash160 : Valtype → Valtype) (nHeight txindex : ℕ) (tx : CTransaction)

variable (output : CTxOut × ℕ) (input : IndexInput)

/-- `ConnectBlock` records the spending activity of an input. -/
def connectInputAddress : List (CAddressIndexKey × CAmount) :=
  match input.coin.out.scriptPubKey.kind with
  | none => []
  | some kind => [(addressKey hash160 input.coin.out.scriptPubKey kind nHeight txindex tx.hash
      input.index true, input.coin.out.nValue * -1)]

/-- `ConnectBlock` removes the spent output from the unspent index. -/
def connectInputUnspent : List (CAddressUnspentKey × CAddressUnspentValue) :=
  match input.coin.out.scriptPubKey.kind with
  | none => []
  | some kind => [(unspentKey hash160 input.coin.out.scriptPubKey kind input.txin.prevout, {})]

/-- `ConnectBlock` adds the input to the spent index. -/
def connectInputSpent : CSpentIndexKey × CSpentIndexValue :=
  (⟨input.txin.prevout.hash, input.txin.prevout.n⟩,
    { txid := tx.hash
      inputIndex := input.index
      blockHeight := nHeight
      satoshis := input.coin.out.nValue
      addressType := (input.coin.out.scriptPubKey.kind.map ScriptKind.addressType).getD 0
      addressHash := (input.coin.out.scriptPubKey.kind.map
        (ScriptKind.hashBytes hash160 input.coin.out.scriptPubKey)).getD [] })

/-- The receiving activity of output `k`, which `ConnectBlock` records and `DisconnectBlock` undoes. -/
def outputAddress : List (CAddressIndexKey × CAmount) :=
  match output.1.scriptPubKey.kind with
  | none => []
  | some kind => [(addressKey hash160 output.1.scriptPubKey kind nHeight txindex tx.hash output.2 false,
      output.1.nValue)]

/-- `ConnectBlock` records an unspent output. -/
def connectOutputUnspent : List (CAddressUnspentKey × CAddressUnspentValue) :=
  match output.1.scriptPubKey.kind with
  | none => []
  | some kind => [(unspentKey hash160 output.1.scriptPubKey kind (tx.outpoint output.2),
      ⟨output.1.nValue, output.1.scriptPubKey, nHeight⟩)]

/-- `DisconnectBlock` undoes the unspent output. -/
def disconnectOutputUnspent : List (CAddressUnspentKey × CAddressUnspentValue) :=
  match output.1.scriptPubKey.kind with
  | none => []
  | some kind => [(unspentKey hash160 output.1.scriptPubKey kind (tx.outpoint output.2), {})]

/-- `DisconnectBlock` undoes the spending activity of an input. For a public key it takes the key of a
    receiving output. -/
def disconnectInputAddress : List (CAddressIndexKey × CAmount) :=
  match input.coin.out.scriptPubKey.kind with
  | none => []
  | some .payToPublicKey =>
    [(addressKey hash160 input.coin.out.scriptPubKey .payToPublicKey nHeight txindex tx.hash
      input.index false, input.coin.out.nValue)]
  | some kind => [(addressKey hash160 input.coin.out.scriptPubKey kind nHeight txindex tx.hash
      input.index true, input.coin.out.nValue * -1)]

/-- `DisconnectBlock` restores the unspent output. For a public key it removes an output of the
    transaction itself, at the position of the input. -/
def disconnectInputUnspent : List (CAddressUnspentKey × CAddressUnspentValue) :=
  match input.coin.out.scriptPubKey.kind with
  | none => []
  | some .payToPublicKey =>
    [(unspentKey hash160 input.coin.out.scriptPubKey .payToPublicKey (tx.outpoint input.index), {})]
  | some kind => [(unspentKey hash160 input.coin.out.scriptPubKey kind input.txin.prevout,
      ⟨input.coin.out.nValue, input.coin.out.scriptPubKey, input.undoHeight⟩)]

end

/-- The outputs with their positions. -/
def CTransaction.outputs (tx : CTransaction) : List (CTxOut × ℕ) := tx.vout.zipIdx

variable (ix : Indexes) (opts : IndexOptions)

/-- What the loop of `ConnectBlock` collects for a transaction. -/
def connectBatch (nHeight txindex : ℕ) (tx : CTransaction) (inputs : List IndexInput) :
    IndexBatch where
  address :=
    if opts.fAddressIndex then
      inputs.flatMap (connectInputAddress opts.hash160 nHeight txindex tx)
        ++ tx.outputs.flatMap (outputAddress opts.hash160 nHeight txindex tx)
    else []
  unspent :=
    if opts.fAddressIndex then
      inputs.flatMap (connectInputUnspent opts.hash160)
        ++ tx.outputs.flatMap (connectOutputUnspent opts.hash160 nHeight tx)
    else []
  spent := if opts.fSpentIndex then inputs.map (connectInputSpent opts.hash160 nHeight tx) else []

/-- What the loop of `DisconnectBlock` collects for a transaction, last output and last input first. -/
def disconnectBatch (nHeight txindex : ℕ) (tx : CTransaction) (inputs : List IndexInput) :
    IndexBatch where
  address :=
    if opts.fAddressIndex then
      tx.outputs.reverse.flatMap (outputAddress opts.hash160 nHeight txindex tx)
        ++ inputs.reverse.flatMap (disconnectInputAddress opts.hash160 nHeight txindex tx)
    else []
  unspent :=
    if opts.fAddressIndex then
      tx.outputs.reverse.flatMap (disconnectOutputUnspent opts.hash160 tx)
        ++ inputs.reverse.flatMap (disconnectInputUnspent opts.hash160 tx)
    else []
  spent :=
    if opts.fSpentIndex then
      inputs.reverse.map fun input =>
        (⟨input.txin.prevout.hash, input.txin.prevout.n⟩, {})
    else []

/-! ## Writing the batches -/

/-- `CBlockTreeDB::WriteAddressIndex`. -/
def Indexes.writeAddressIndex (vect : List (CAddressIndexKey × CAmount)) : Indexes :=
  { ix with address := applyAll (vect.map fun entry => (entry.1, some entry.2)) ix.address }

/-- `CBlockTreeDB::EraseAddressIndex`. -/
def Indexes.eraseAddressIndex (vect : List (CAddressIndexKey × CAmount)) : Indexes :=
  { ix with address := applyAll (vect.map fun entry => (entry.1, none)) ix.address }

/-- The change that an entry stands for. -/
def unspentChange (entry : CAddressUnspentKey × CAddressUnspentValue) :
    CAddressUnspentKey × Option CAddressUnspentValue :=
  (entry.1, if entry.2.isNull then none else some entry.2)

/-- `CBlockTreeDB::UpdateAddressUnspentIndex`. -/
def Indexes.updateAddressUnspentIndex (vect : List (CAddressUnspentKey × CAddressUnspentValue)) :
    Indexes :=
  { ix with unspent := applyAll (vect.map unspentChange) ix.unspent }

/-- `CBlockTreeDB::UpdateSpentIndex`. -/
def Indexes.updateSpentIndex (vect : List (CSpentIndexKey × CSpentIndexValue)) : Indexes :=
  { ix with
    spent := applyAll (vect.map fun entry =>
      (entry.1, if entry.2.isNull then none else some entry.2)) ix.spent }

/-- `CBlockTreeDB::WriteTimestampIndex`. -/
def Indexes.writeTimestampIndex (key : CTimestampIndexKey) : Indexes :=
  { ix with timestamp := Function.update ix.timestamp key (some 0) }

/-- The end of `ConnectBlock`. -/
def Indexes.connect (batch : IndexBatch) (key : CTimestampIndexKey) : Indexes :=
  let ix := if opts.fAddressIndex then
    (ix.writeAddressIndex batch.address).updateAddressUnspentIndex batch.unspent else ix
  let ix := if opts.fSpentIndex then ix.updateSpentIndex batch.spent else ix
  if opts.fTimestampIndex then ix.writeTimestampIndex key else ix

/-- The end of `DisconnectBlock`. -/
def Indexes.disconnect (batch : IndexBatch) : Indexes :=
  if opts.fAddressIndex then
    (ix.eraseAddressIndex batch.address).updateAddressUnspentIndex batch.unspent
  else ix

/-! ## `ConnectBlock` -/

/-- The coins of the inputs, as `AccessCoin` gives them. -/
def readInputs (view : CCoinsViewCache) (tx : CTransaction) : List IndexInput :=
  tx.spends.zipIdx.map fun input => ⟨input.2, input.1, (view.accessCoin input.1.prevout).1, 0⟩

/-- The loop of `ConnectBlock` with the batch. The inputs are read when they are known to be there,
    so reading them leaves the view as it is. -/
def connectIndexTxs (opts : IndexOptions) (ctx : NodeContext) (cf : ConnectFlags)
    (pindex : CBlockIndex) : ℕ → List CTransaction → ConnectState → Except Failure IndexBatch
  | _, [], _ => .ok {}
  | i, tx :: rest, s => do
    let s' ← connectTx ctx cf pindex i tx s
    let more ← connectIndexTxs opts ctx cf pindex (i + 1) rest s'
    .ok ((connectBatch opts pindex.nHeight i tx (readInputs s.view tx)).append more)

/-- `ConnectBlock` with the indexes. For the genesis block nothing is written. -/
def connectBlockIndexed (ctx : NodeContext) (block : CBlock) (pindex : CBlockIndex)
    (view : CCoinsViewCache) (ix : Indexes) : Except Failure (ConnectResult × Indexes) := do
  let r ← connectBlock ctx block pindex view false
  match r.blockundo with
  | none => .ok (r, ix)
  | some _ => do
    let start ← checkBIP30 ctx block pindex view.getBestBlock.2
    let batch ← connectIndexTxs opts ctx (connectFlags ctx block pindex) pindex 0 block.vtx
      ⟨start, ⟨[]⟩, 0, 0, []⟩
    let hash ← pindex.getBlockHash.mapError Failure.raised
    .ok (r, ix.connect opts batch ⟨pindex.nTime, hash⟩)

/-! ## `DisconnectBlock` -/

/-- The loop that restores the inputs, last input first, with the coins it reads. -/
def restoreIndexInputs : ℕ → List (CTxIn × Coin) → Bool × CCoinsViewCache →
    Except DisconnectStop ((Bool × CCoinsViewCache) × List IndexInput)
  | _, [], s => .ok (s, [])
  | j, (txin, undo) :: rest, s => do
    let later ← restoreIndexInputs (j + 1) rest s
    let res ← applyTxInUndo undo later.1.2 txin.prevout
    .ok ((later.1.1 && res.1, res.2),
      ⟨j, txin, (res.2.accessCoin txin.prevout).1, undo.nHeight.toNat⟩ :: later.2)

/-- The body of the loop over the transactions. -/
def disconnectIndexTx (nHeight txindex : ℕ) (tx : CTransaction) (undo : Option CTxUndo)
    (s : Bool × CCoinsViewCache) : Except DisconnectStop ((Bool × CCoinsViewCache) × IndexBatch) :=
  let s := removeOutputs tx nHeight 0 tx.vout s
  match undo with
  | none => .ok (s, disconnectBatch opts nHeight txindex tx [])
  | some txundo => do
    require (decide (txundo.vprevout.length = tx.vin.length))
      (.failed "DisconnectBlock(): transaction and undo data inconsistent")
    let restored ← restoreIndexInputs 0 (tx.vin.zip txundo.vprevout) s
    .ok (restored.1, disconnectBatch opts nHeight txindex tx restored.2)

/-- The loop over the transactions, last transaction first. -/
def disconnectIndexTxs (opts : IndexOptions) (nHeight : ℕ) :
    ℕ → List (CTransaction × Option CTxUndo) → Bool × CCoinsViewCache →
    Except DisconnectStop ((Bool × CCoinsViewCache) × IndexBatch)
  | _, [], s => .ok (s, {})
  | i, (tx, undo) :: rest, s => do
    let later ← disconnectIndexTxs opts nHeight (i + 1) rest s
    let one ← disconnectIndexTx opts nHeight i tx undo later.1
    .ok (one.1, later.2.append one.2)

/-- `DisconnectBlock` with the indexes, which it leaves alone if it fails. -/
def disconnectBlockIndexed (block : CBlock) (pindex : CBlockIndex) (blockUndo : Option CBlockUndo)
    (view : CCoinsViewCache) (ix : Indexes) :
    Except CppError (DisconnectResult × CCoinsViewCache × Indexes) := do
  let res ← disconnectBlock block pindex blockUndo view
  match blockUndo with
  | none => .ok (res.1, res.2, ix)
  | some blockUndo =>
    match disconnectIndexTxs opts pindex.nHeight 0
        (block.vtx.zip (none :: blockUndo.vtxundo.map some)) (true, view.getBestBlock.2) with
    | .ok loop =>
      .ok (res.1, res.2, if res.1 = .DISCONNECT_FAILED then ix else ix.disconnect opts loop.2)
    | .error _ => .ok (res.1, res.2, ix)

end Binarium
