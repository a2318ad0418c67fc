import Binarium.Primitives.Transaction

set_option autoImplicit false

/-! # Scripts (`script/script.h`, `script/script.cpp`)

A script is a string of bytes, read one instruction after the other by `GetOp`. What an instruction is
depends on nothing but the position, so the loops over a script run over its instructions: `CScript.code`
is the list of them, with the bytes after each one, and it ends well or with bytes that are no
instruction.

Signature operations are counted without running the script. The accurate count takes the number of keys
of a `CHECKMULTISIG` from the instruction before it, if that pushes a small number. -/

namespace Binarium

/-- The flags of script verification, as an `unsigned int`. -/
abbrev ScriptFlags := BitVec 32

/-- `valtype`: an element of the stack. -/
abbrev Valtype := List (BitVec 8)

/-! ## Opcodes -/

/-- `opcodetype`: any byte. -/
abbrev OpCode := BitVec 8

/-- `OP_0`. -/
def OP_0 : OpCode := 0x00

/-- `OP_PUSHDATA1`. -/
def OP_PUSHDATA1 : OpCode := 0x4c

/-- `OP_PUSHDATA2`. -/
def OP_PUSHDATA2 : OpCode := 0x4d

/-- `OP_PUSHDATA4`. -/
def OP_PUSHDATA4 : OpCode := 0x4e

/-- `OP_1NEGATE`. -/
def OP_1NEGATE : OpCode := 0x4f

/-- `OP_1`. -/
def OP_1 : OpCode := 0x51

/-- `OP_16`. -/
def OP_16 : OpCode := 0x60

/-- `OP_IF`. -/
def OP_IF : OpCode := 0x63

/-- `OP_ENDIF`. -/
def OP_ENDIF : OpCode := 0x68

/-- `OP_RETURN`. -/
def OP_RETURN : BitVec 8 := 0x6a

/-- `OP_CHECKSIG`. -/
def OP_CHECKSIG : OpCode := 0xac

/-- `OP_CHECKSIGVERIFY`. -/
def OP_CHECKSIGVERIFY : OpCode := 0xad

/-- `OP_CHECKMULTISIG`. -/
def OP_CHECKMULTISIG : OpCode := 0xae

/-- `OP_CHECKMULTISIGVERIFY`. -/
def OP_CHECKMULTISIGVERIFY : OpCode := 0xaf

/-- `OP_INVALIDOPCODE`. -/
def OP_INVALIDOPCODE : OpCode := 0xff

/-- `MAX_SCRIPT_SIZE`. -/
def MAX_SCRIPT_SIZE : ℕ := 10000

/-- `MAX_SCRIPT_ELEMENT_SIZE`. -/
def MAX_SCRIPT_ELEMENT_SIZE : ℕ := 520

/-- `MAX_OPS_PER_SCRIPT`. -/
def MAX_OPS_PER_SCRIPT : ℕ := 201

/-- `MAX_PUBKEYS_PER_MULTISIG`. -/
def MAX_PUBKEYS_PER_MULTISIG : ℕ := 20

/-! ## Reading a script -/

/-- The number with the given bytes, the least significant first. -/
def leValue : List (BitVec 8) → ℕ
  | [] => 0
  | b :: rest => b.toNat + 256 * leValue rest

/-- An instruction and the bytes after it. -/
structure Instruction where
  opcode : OpCode
  vch : Valtype
  rest : CScript
deriving DecidableEq

/-- The end of `GetOp2` for a push of `nSize` bytes. -/
def takeData (opcode : OpCode) (nSize : ℕ) (bytes : CScript) : Option Instruction :=
  if bytes.length < nSize then none else some ⟨opcode, bytes.take nSize, bytes.drop nSize⟩

/-- The end of `GetOp2` for a push with its size in the `width` bytes after the opcode. -/
def takeSized (opcode : OpCode) (width : ℕ) (bytes : CScript) : Option Instruction :=
  if bytes.length < width then none
  else takeData opcode (leValue (bytes.take width)) (bytes.drop width)

/-- `CScript::GetOp2`. -/
def getOp : CScript → Option Instruction
  | [] => none
  | opcode :: bytes =>
    if opcode < OP_PUSHDATA1 then takeData opcode opcode.toNat bytes
    else if opcode = OP_PUSHDATA1 then takeSized opcode 1 bytes
    else if opcode = OP_PUSHDATA2 then takeSized opcode 2 bytes
    else if opcode = OP_PUSHDATA4 then takeSized opcode 4 bytes
    else some ⟨opcode, [], bytes⟩

/-- The instructions of a script: all of them, or up to bytes that `GetOp` fails at. -/
inductive Code where
  | done
  | bad
  | op (instr : Instruction) (next : Code)

/-- The instructions of a script of at most so many bytes. -/
def codeFrom : ℕ → CScript → Code
  | _, [] => .done
  | 0, _ :: _ => .bad
  | size + 1, b :: bytes =>
    match getOp (b :: bytes) with
    | none => .bad
    | some instr => .op instr (codeFrom size instr.rest)

variable (script : CScript)

/-- The instructions of a script. -/
def CScript.code : Code := codeFrom script.length script

/-! ## Forms of scripts -/

/-- `CScript::IsPayToPublicKeyHash`. -/
def CScript.isPayToPublicKeyHash : Bool :=
  decide (script.length = 25) && script[0]? == some 0x76 && script[1]? == some 0xa9
    && script[2]? == some 0x14 && script[23]? == some 0x88 && script[24]? == some 0xac

/-- `CScript::IsPayToScriptHash`. -/
def CScript.isPayToScriptHash : Bool :=
  decide (script.length = 23 ∧ script[0]? = some 0xa9 ∧ script[1]? = some 0x14
    ∧ script[22]? = some 0x87)

/-- `CScript::IsPayToPublicKey`. -/
def CScript.isPayToPublicKey : Bool :=
  if script.length = 35 then
    (script[1]? == some 0x02 || script[1]? == some 0x03) && script[34]? == some OP_CHECKSIG
  else if script.length = 67 then script[1]? == some 0x04 && script[66]? == some OP_CHECKSIG
  else false

/-- `CScript::IsUnspendable`. -/
def CScript.isUnspendable : Bool :=
  script.head? == some OP_RETURN || decide (script.length > MAX_SCRIPT_SIZE)

/-- `CScript::IsPushOnly`, over the instructions. -/
def Code.isPushOnly : Code → Bool
  | .done => true
  | .bad => false
  | .op instr next => if instr.opcode > OP_16 then false else next.isPushOnly

/-- `CScript::IsPushOnly`. -/
def CScript.isPushOnly (script : CScript) : Bool := (CScript.code script).isPushOnly

/-! ## Writing a script -/

/-- The bytes of a number, the least significant first, at most so many. -/
def leBytes : ℕ → ℕ → List (BitVec 8)
  | 0, _ => []
  | width + 1, n => BitVec.ofNat 8 n :: leBytes width (n / 256)

/-- `CScript(vch)`: the push of an element. -/
def pushScript (b : Valtype) : CScript :=
  if b.length < OP_PUSHDATA1.toNat then BitVec.ofNat 8 b.length :: b
  else if b.length ≤ 0xff then OP_PUSHDATA1 :: leBytes 1 b.length ++ b
  else if b.length ≤ 0xffff then OP_PUSHDATA2 :: leBytes 2 b.length ++ b
  else OP_PUSHDATA4 :: leBytes 4 b.length ++ b

/-- The inner loop of `FindAndDelete`: skip `b` as often as it comes, which is at most once for every
    byte. -/
def skipAll (b : CScript) : ℕ → CScript → CScript
  | 0, bytes => bytes
  | size + 1, bytes => if b.isPrefixOf bytes then skipAll b size (bytes.drop b.length) else bytes

/-- The outer loop of `FindAndDelete`: what is left of the bytes. -/
def deleteAll (b : CScript) : ℕ → CScript → CScript
  | 0, bytes => bytes
  | size + 1, bytes =>
    let bytes := skipAll b bytes.length bytes
    match getOp bytes with
    | none => bytes
    | some instr =>
      bytes.take (bytes.length - instr.rest.length) ++ deleteAll b size instr.rest

/-- `CScript::FindAndDelete`: the script without `b` where an instruction starts. -/
def findAndDelete (b : CScript) : CScript :=
  if b.isEmpty then script else deleteAll b (script.length + 1) script

/-! ## Numbers -/

/-- `CScriptNum::set_vch`. -/
def scriptNumValue (vch : Valtype) : ℤ :=
  match vch.getLast? with
  | none => 0
  | some back =>
    if back &&& 0x80 ≠ 0 then -((leValue vch - 0x80 * 256 ^ (vch.length - 1) : ℕ) : ℤ)
    else leValue vch

/-- The bytes of `absvalue` up to the last one that is not zero, for a `uint64_t`. -/
def absBytes : ℕ → ℕ → List (BitVec 8)
  | 0, _ => []
  | width + 1, n => if n = 0 then [] else BitVec.ofNat 8 n :: absBytes width (n / 256)

/-- `CScriptNum::serialize`. -/
def scriptNumSerialize (value : ℤ) : Valtype :=
  let result := absBytes 8 value.natAbs
  match result.getLast? with
  | none => []
  | some back =>
    if back &&& 0x80 ≠ 0 then result ++ [if value < 0 then 0x80 else 0]
    else if value < 0 then result.dropLast ++ [back ||| 0x80]
    else result

/-- The encoding of a number is as short as possible. -/
def isMinimalNum (vch : Valtype) : Bool :=
  match vch.reverse with
  | [] => true
  | [back] => decide (back &&& 0x7f ≠ 0)
  | back :: before :: _ => decide (back &&& 0x7f ≠ 0) || decide (before &&& 0x80 ≠ 0)

/-! ## Signature operations -/

/-- `CScript::DecodeOP_N`, for `OP_1` to `OP_16`. -/
def decodeOP_N (opcode : OpCode) : ℕ := opcode.toNat - (OP_1.toNat - 1)

/-- What an instruction adds in `GetSigOpCount`. -/
def sigOpsOf (fAccurate : Bool) (lastOpcode opcode : OpCode) : ℕ :=
  if opcode = OP_CHECKSIG ∨ opcode = OP_CHECKSIGVERIFY then 1
  else if opcode = OP_CHECKMULTISIG ∨ opcode = OP_CHECKMULTISIGVERIFY then
    if fAccurate = true ∧ lastOpcode ≥ OP_1 ∧ lastOpcode ≤ OP_16 then decodeOP_N lastOpcode
    else MAX_PUBKEYS_PER_MULTISIG
  else 0

/-- The loop of `GetSigOpCount`. -/
def Code.sigOpCount (fAccurate : Bool) : OpCode → Code → ℕ
  | _, .done => 0
  | _, .bad => 0
  | lastOpcode, .op instr next =>
    sigOpsOf fAccurate lastOpcode instr.opcode + next.sigOpCount fAccurate instr.opcode

/-- `CScript::GetSigOpCount(fAccurate)`. The count is an `unsigned int`; a script of the largest size
    that is read from the network (`MAX_SIZE`) does not overflow it. -/
def CScript.getSigOpCount (fAccurate : Bool) : ℕ :=
  (CScript.code script).sigOpCount fAccurate OP_INVALIDOPCODE

/-- The loop over `scriptSig` in `GetSigOpCount(scriptSig)`: the data of the last instruction. -/
def Code.lastData : Valtype → Code → Option Valtype
  | data, .done => some data
  | _, .bad => none
  | _, .op instr next => if instr.opcode > OP_16 then none else next.lastData instr.vch

/-- `CScript::GetSigOpCount(scriptSig)`. -/
def CScript.getSigOpCountOf (scriptSig : CScript) : ℕ :=
  if script.isPayToScriptHash then
    match (CScript.code scriptSig).lastData [] with
    | none => 0
    | some data => CScript.getSigOpCount data true
  else script.getSigOpCount true

end Binarium
