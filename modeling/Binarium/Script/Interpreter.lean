import Binarium.Lib.Counted
import Binarium.Script.Script

set_option autoImplicit false

/-! # The script interpreter (`script/interpreter.cpp`)

`EvalScript` runs a script on a stack, `VerifyScript` runs the two scripts of an input on one stack and
for pay-to-script-hash a third one that is taken from it. The stacks are lists with the top first.

Which errors there are and when a script fails depends on the flags; the hash functions and the check of
the low half of a signature's order are parameters, as is the signature checker of the input. A
computation counts its calls of `CheckSig`, whether or not it succeeds. The one `catch` of `EvalScript`
is for numbers that are too long or not minimal, which become `SCRIPT_ERR_UNKNOWN_ERROR`. -/

namespace Binarium

/-! ## Errors and flags -/

/-- `ScriptError`, and an assertion that fails. -/
inductive ScriptError where
  | unknownError | evalFalse | opReturn
  | scriptSize | pushSize | opCount | stackSize | sigCount | pubkeyCount
  | verify | equalVerify | checkMultiSigVerify | checkSigVerify | numEqualVerify
  | badOpcode | disabledOpcode | invalidStackOperation | invalidAltstackOperation
  | unbalancedConditional
  | negativeLocktime | unsatisfiedLocktime
  | sigHashtype | sigDer | minimalData | sigPushOnly | sigHighS | sigNullDummy | pubkeyType | cleanStack
  | discourageUpgradableNops
  | abort (assertion : String)
deriving DecidableEq

/-- `SCRIPT_VERIFY_P2SH`. -/
def SCRIPT_VERIFY_P2SH : ScriptFlags := 1 <<< 0

/-- `SCRIPT_VERIFY_STRICTENC`. -/
def SCRIPT_VERIFY_STRICTENC : ScriptFlags := 1 <<< 1

/-- `SCRIPT_VERIFY_DERSIG`. -/
def SCRIPT_VERIFY_DERSIG : ScriptFlags := 1 <<< 2

/-- `SCRIPT_VERIFY_LOW_S`. -/
def SCRIPT_VERIFY_LOW_S : ScriptFlags := 1 <<< 3

/-- `SCRIPT_VERIFY_NULLDUMMY`. -/
def SCRIPT_VERIFY_NULLDUMMY : ScriptFlags := 1 <<< 4

/-- `SCRIPT_VERIFY_SIGPUSHONLY`. -/
def SCRIPT_VERIFY_SIGPUSHONLY : ScriptFlags := 1 <<< 5

/-- `SCRIPT_VERIFY_MINIMALDATA`. -/
def SCRIPT_VERIFY_MINIMALDATA : ScriptFlags := 1 <<< 6

/-- `SCRIPT_VERIFY_DISCOURAGE_UPGRADABLE_NOPS`. -/
def SCRIPT_VERIFY_DISCOURAGE_UPGRADABLE_NOPS : ScriptFlags := 1 <<< 7

/-- `SCRIPT_VERIFY_CLEANSTACK`. -/
def SCRIPT_VERIFY_CLEANSTACK : ScriptFlags := 1 <<< 8

/-- `SCRIPT_VERIFY_CHECKLOCKTIMEVERIFY`. -/
def SCRIPT_VERIFY_CHECKLOCKTIMEVERIFY : ScriptFlags := 1 <<< 9

/-- `SCRIPT_VERIFY_CHECKSEQUENCEVERIFY`. -/
def SCRIPT_VERIFY_CHECKSEQUENCEVERIFY : ScriptFlags := 1 <<< 10

/-- `(flags & flag) != 0`. -/
def hasFlag (flags flag : ScriptFlags) : Bool := flags &&& flag != 0

/-- A check that is made if a flag is set. -/
def whenFlag (flags flag : ScriptFlags) (check : Except ScriptError Unit) : Except ScriptError Unit :=
  if hasFlag flags flag then check else .ok ()

/-! ## Parameters -/

/-- The cryptography of the interpreter. -/
structure ScriptCrypto where
  ripemd160 : Valtype → Valtype
  sha1 : Valtype → Valtype
  sha256 : Valtype → Valtype
  /-- `CPubKey::CheckLowS` -/
  checkLowS : Valtype → Bool

/-- `BaseSignatureChecker`. -/
structure BaseSignatureChecker where
  checkSig : Valtype → Valtype → CScript → Bool
  checkLockTime : ℤ → Bool
  checkSequence : ℤ → Bool

/-! ## Encodings -/

/-- `CastToBool`. -/
def castToBool : Valtype → Bool
  | [] => false
  | [last] => decide (last ≠ 0 ∧ last ≠ 0x80)
  | b :: rest => if b ≠ 0 then true else castToBool rest

/-- `IsCompressedOrUncompressedPubKey`. -/
def isCompressedOrUncompressedPubKey (vchPubKey : Valtype) : Bool :=
  if vchPubKey.length < 33 then false
  else if vchPubKey[0]? = some 0x04 then decide (vchPubKey.length = 65)
  else if vchPubKey[0]? = some 0x02 ∨ vchPubKey[0]? = some 0x03 then
    decide (vchPubKey.length = 33)
  else false

/-- One of the two integers of a signature, from `start` on: positive and without padding. -/
def isValidInteger (sig : Valtype) (start len : ℕ) : Bool :=
  decide (len ≠ 0) && decide (sig.getD start 0 &&& 0x80 = 0)
    && !(decide (len > 1) && decide (sig.getD start 0 = 0)
      && decide (sig.getD (start + 1) 0 &&& 0x80 = 0))

/-- `IsValidSignatureEncoding`. -/
def isValidSignatureEncoding (sig : Valtype) : Bool :=
  if sig.length < 9 then false
  else if sig.length > 73 then false
  else if sig.getD 0 0 ≠ 0x30 then false
  else if (sig.getD 1 0).toNat ≠ sig.length - 3 then false
  else
    let lenR := (sig.getD 3 0).toNat
    if 5 + lenR ≥ sig.length then false
    else
      let lenS := (sig.getD (5 + lenR) 0).toNat
      if lenR + lenS + 7 ≠ sig.length then false
      else
        decide (sig.getD 2 0 = 0x02) && isValidInteger sig 4 lenR
          && decide (sig.getD (lenR + 4) 0 = 0x02) && isValidInteger sig (lenR + 6) lenS

/-- `IsDefinedHashtypeSignature`. -/
def isDefinedHashtypeSignature (vchSig : Valtype) : Bool :=
  match vchSig.getLast? with
  | none => false
  | some back => decide (1 ≤ back &&& 0x7f ∧ back &&& 0x7f ≤ 3)

/-- `CheckMinimalPush`. -/
def checkMinimalPush (data : Valtype) (opcode : OpCode) : Bool :=
  if data.length = 0 then decide (opcode = OP_0)
  else if data.length = 1 ∧ 1 ≤ data.getD 0 0 ∧ data.getD 0 0 ≤ 16 then
    decide (opcode = OP_1 + (data.getD 0 0 - 1))
  else if data.length = 1 ∧ data.getD 0 0 = 0x81 then decide (opcode = OP_1NEGATE)
  else if data.length ≤ 75 then decide (opcode.toNat = data.length)
  else if data.length ≤ 255 then decide (opcode = OP_PUSHDATA1)
  else if data.length ≤ 65535 then decide (opcode = OP_PUSHDATA2)
  else true

/-- The constructor of `CScriptNum`, whose exceptions `EvalScript` catches. -/
def scriptNum (fRequireMinimal : Bool) (nMaxNumSize : ℕ) (vch : Valtype) : Except ScriptError ℤ :=
  if vch.length > nMaxNumSize then .error .unknownError
  else if fRequireMinimal && !isMinimalNum vch then .error .unknownError
  else .ok (scriptNumValue vch)

/-- `CScriptNum::nDefaultMaxNumSize`. -/
def nDefaultMaxNumSize : ℕ := 4

/-- `CScriptNum::getint`. -/
def getInt (value : ℤ) : ℤ :=
  if value > 2 ^ 31 - 1 then 2 ^ 31 - 1 else if value < -2 ^ 31 then -2 ^ 31 else value

section
variable (crypto : ScriptCrypto)

/-- `IsLowDERSignature`. -/
def isLowDERSignature (vchSig : Valtype) : Except ScriptError Unit := do
  Checks.require (isValidSignatureEncoding vchSig) .sigDer
  Checks.require (crypto.checkLowS vchSig.dropLast) .sigHighS

/-- `CheckSignatureEncoding`. -/
def checkSignatureEncoding (flags : ScriptFlags) (vchSig : Valtype) : Except ScriptError Unit :=
  if vchSig.length = 0 then .ok ()
  else do
    whenFlag flags (SCRIPT_VERIFY_DERSIG ||| SCRIPT_VERIFY_LOW_S ||| SCRIPT_VERIFY_STRICTENC)
      (Checks.require (isValidSignatureEncoding vchSig) .sigDer)
    whenFlag flags SCRIPT_VERIFY_LOW_S (isLowDERSignature crypto vchSig)
    whenFlag flags SCRIPT_VERIFY_STRICTENC
      (Checks.require (isDefinedHashtypeSignature vchSig) .sigHashtype)

end

/-- `CheckPubKeyEncoding`. -/
def checkPubKeyEncoding (flags : ScriptFlags) (vchPubKey : Valtype) : Except ScriptError Unit :=
  whenFlag flags SCRIPT_VERIFY_STRICTENC
    (Checks.require (isCompressedOrUncompressedPubKey vchPubKey) .pubkeyType)

/-! ## Operations -/

/-- The operations on one number. -/
inductive UnaryOp where
  | add1 | sub1 | negate | abs | not | notEqual0
deriving DecidableEq

/-- The operations on two numbers. -/
inductive BinaryOp where
  | add | sub | boolAnd | boolOr | numEqual | numNotEqual | lessThan | greaterThan
  | lessThanOrEqual | greaterThanOrEqual | min | max
deriving DecidableEq

/-- The hash functions. -/
inductive HashOp where
  | ripemd160 | sha1 | sha256 | hash160 | hash256
deriving DecidableEq

/-- The operations on the stacks. -/
inductive StackOp where
  | verify | opReturn | toAltStack | fromAltStack | drop2 | dup2 | dup3 | over2 | rot2 | swap2
  | ifDup | depth | drop | dup | nip | over | rot | swap | tuck | size
deriving DecidableEq

/-- The cases of the `switch` of `EvalScript`. -/
inductive Op where
  | pushNumber (n : ℤ)
  | nop
  | checkLockTimeVerify
  | checkSequenceVerify
  | upgradableNop
  | conditional (negated : Bool)
  | otherwise
  | endIf
  | onStack (op : StackOp)
  | pick (roll : Bool)
  | equal (fVerify : Bool)
  | unary (op : UnaryOp)
  | binary (op : BinaryOp) (fVerify : Bool)
  | within
  | hash (op : HashOp)
  | codeSeparator
  | checkSig (fVerify : Bool)
  | checkMultiSig (fVerify : Bool)
  | bad
deriving DecidableEq

/-- The case of an opcode above the pushes of data, by its number. -/
def decodeOp (opcode : OpCode) : Op :=
  match opcode.toNat with
  | 0x4f => .pushNumber (-1)
  | 0x61 => .nop
  | 0x63 => .conditional false
  | 0x64 => .conditional true
  | 0x67 => .otherwise
  | 0x68 => .endIf
  | 0x69 => .onStack .verify
  | 0x6a => .onStack .opReturn
  | 0x6b => .onStack .toAltStack
  | 0x6c => .onStack .fromAltStack
  | 0x6d => .onStack .drop2
  | 0x6e => .onStack .dup2
  | 0x6f => .onStack .dup3
  | 0x70 => .onStack .over2
  | 0x71 => .onStack .rot2
  | 0x72 => .onStack .swap2
  | 0x73 => .onStack .ifDup
  | 0x74 => .onStack .depth
  | 0x75 => .onStack .drop
  | 0x76 => .onStack .dup
  | 0x77 => .onStack .nip
  | 0x78 => .onStack .over
  | 0x79 => .pick false
  | 0x7a => .pick true
  | 0x7b => .onStack .rot
  | 0x7c => .onStack .swap
  | 0x7d => .onStack .tuck
  | 0x82 => .onStack .size
  | 0x87 => .equal false
  | 0x88 => .equal true
  | 0x8b => .unary .add1
  | 0x8c => .unary .sub1
  | 0x8f => .unary .negate
  | 0x90 => .unary .abs
  | 0x91 => .unary .not
  | 0x92 => .unary .notEqual0
  | 0x93 => .binary .add false
  | 0x94 => .binary .sub false
  | 0x9a => .binary .boolAnd false
  | 0x9b => .binary .boolOr false
  | 0x9c => .binary .numEqual false
  | 0x9d => .binary .numEqual true
  | 0x9e => .binary .numNotEqual false
  | 0x9f => .binary .lessThan false
  | 0xa0 => .binary .greaterThan false
  | 0xa1 => .binary .lessThanOrEqual false
  | 0xa2 => .binary .greaterThanOrEqual false
  | 0xa3 => .binary .min false
  | 0xa4 => .binary .max false
  | 0xa5 => .within
  | 0xa6 => .hash .ripemd160
  | 0xa7 => .hash .sha1
  | 0xa8 => .hash .sha256
  | 0xa9 => .hash .hash160
  | 0xaa => .hash .hash256
  | 0xab => .codeSeparator
  | 0xac => .checkSig false
  | 0xad => .checkSig true
  | 0xae => .checkMultiSig false
  | 0xaf => .checkMultiSig true
  | 0xb1 => .checkLockTimeVerify
  | 0xb2 => .checkSequenceVerify
  | n =>
    if OP_1.toNat ≤ n ∧ n ≤ OP_16.toNat then .pushNumber (n - 0x50)
    else if n = 0xb0 ∨ (0xb3 ≤ n ∧ n ≤ 0xb9) then .upgradableNop
    else .bad

/-- The opcodes that fail also in a branch that is not executed. -/
def isDisabled (opcode : OpCode) : Bool :=
  opcode.toNat ∈ [0x7e, 0x7f, 0x80, 0x81, 0x83, 0x84, 0x85, 0x86, 0x8d, 0x8e, 0x95, 0x96, 0x97, 0x98,
    0x99]

/-- A number that is a truth value. -/
def ofBool (b : Bool) : ℤ := if b then 1 else 0

/-- The `switch` over the operations on one number. -/
def UnaryOp.apply (bn : ℤ) : UnaryOp → ℤ
  | .add1 => bn + 1
  | .sub1 => bn - 1
  | .negate => -bn
  | .abs => if bn < 0 then -bn else bn
  | .not => ofBool (decide (bn = 0))
  | .notEqual0 => ofBool (decide (bn ≠ 0))

/-- The `switch` over the operations on two numbers. -/
def BinaryOp.apply (bn1 bn2 : ℤ) : BinaryOp → ℤ
  | .add => bn1 + bn2
  | .sub => bn1 - bn2
  | .boolAnd => ofBool (decide (bn1 ≠ 0 ∧ bn2 ≠ 0))
  | .boolOr => ofBool (decide (bn1 ≠ 0 ∨ bn2 ≠ 0))
  | .numEqual => ofBool (decide (bn1 = bn2))
  | .numNotEqual => ofBool (decide (bn1 ≠ bn2))
  | .lessThan => ofBool (decide (bn1 < bn2))
  | .greaterThan => ofBool (decide (bn1 > bn2))
  | .lessThanOrEqual => ofBool (decide (bn1 ≤ bn2))
  | .greaterThanOrEqual => ofBool (decide (bn1 ≥ bn2))
  | .min => if bn1 < bn2 then bn1 else bn2
  | .max => if bn1 > bn2 then bn1 else bn2

/-- The hash of an element: `CHash160` and `CHash256` are compositions. -/
def HashOp.apply (crypto : ScriptCrypto) (vch : Valtype) : HashOp → Valtype
  | .ripemd160 => crypto.ripemd160 vch
  | .sha1 => crypto.sha1 vch
  | .sha256 => crypto.sha256 vch
  | .hash160 => crypto.ripemd160 (crypto.sha256 vch)
  | .hash256 => crypto.sha256 (crypto.sha256 vch)

/-- The variables of the loop of `EvalScript`. -/
structure EvalState where
  stack : List Valtype
  altstack : List Valtype := []
  /-- the innermost condition first -/
  vfExec : List Bool := []
  nOpCount : ℕ := 0
  /-- the script from `pbegincodehash` on -/
  scriptCode : CScript
deriving DecidableEq

/-- `fExec`: no condition around is false. -/
def EvalState.fExec (s : EvalState) : Bool := s.vfExec.all id

/-- `vchTrue`. -/
def vchTrue : Valtype := [1]

/-- `vchFalse`. -/
def vchFalse : Valtype := []

/-- Push the outcome of a check on the rest of the stack; the `VERIFY` variants take it off again or
    fail. -/
def EvalState.pushCheck (s : EvalState) (stack : List Valtype) (fSuccess fVerify : Bool)
    (serror : ScriptError) : Except ScriptError EvalState :=
  if fVerify then if fSuccess then .ok { s with stack } else .error serror
  else .ok { s with stack := (if fSuccess then vchTrue else vchFalse) :: stack }

/-- The operations that move elements, on the main stack. -/
def StackOp.move : StackOp → List Valtype → Option (List Valtype)
  | .drop2, _ :: _ :: st => some st
  | .dup2, x2 :: x1 :: st => some (x2 :: x1 :: x2 :: x1 :: st)
  | .dup3, x3 :: x2 :: x1 :: st => some (x3 :: x2 :: x1 :: x3 :: x2 :: x1 :: st)
  | .over2, x4 :: x3 :: x2 :: x1 :: st => some (x2 :: x1 :: x4 :: x3 :: x2 :: x1 :: st)
  | .rot2, x6 :: x5 :: x4 :: x3 :: x2 :: x1 :: st =>
    some (x2 :: x1 :: x6 :: x5 :: x4 :: x3 :: st)
  | .swap2, x4 :: x3 :: x2 :: x1 :: st => some (x2 :: x1 :: x4 :: x3 :: st)
  | .ifDup, x :: st => some (if castToBool x then x :: x :: st else x :: st)
  | .depth, st => some (scriptNumSerialize st.length :: st)
  | .drop, _ :: st => some st
  | .dup, x :: st => some (x :: x :: st)
  | .nip, x2 :: _ :: st => some (x2 :: st)
  | .over, x2 :: x1 :: st => some (x1 :: x2 :: x1 :: st)
  | .rot, x3 :: x2 :: x1 :: st => some (x1 :: x3 :: x2 :: st)
  | .swap, x2 :: x1 :: st => some (x1 :: x2 :: st)
  | .tuck, x2 :: x1 :: st => some (x2 :: x1 :: x2 :: st)
  | .size, x :: st => some (scriptNumSerialize x.length :: x :: st)
  | _, _ => none

/-- The operations on the stacks. -/
def StackOp.exec (s : EvalState) : StackOp → Except ScriptError EvalState
  | .verify =>
    match s.stack with
    | [] => .error .invalidStackOperation
    | x :: stack => if castToBool x then .ok { s with stack } else .error .verify
  | .opReturn => .error .opReturn
  | .toAltStack =>
    match s.stack with
    | [] => .error .invalidStackOperation
    | x :: stack => .ok { s with stack, altstack := x :: s.altstack }
  | .fromAltStack =>
    match s.altstack with
    | [] => .error .invalidAltstackOperation
    | x :: altstack => .ok { s with stack := x :: s.stack, altstack }
  | op =>
    match op.move s.stack with
    | none => .error .invalidStackOperation
    | some stack => .ok { s with stack }

section
variable (crypto : ScriptCrypto) (checker : BaseSignatureChecker) (flags : ScriptFlags)

/-- `fRequireMinimal`. -/
def fRequireMinimal : Bool := hasFlag flags SCRIPT_VERIFY_MINIMALDATA

/-- `OP_CHECKLOCKTIMEVERIFY` and `OP_CHECKSEQUENCEVERIFY`: a no-op unless the flag is set, a check of
    the number on top of the stack if it is. -/
def checkLock (flag : ScriptFlags) (check : ℤ → Bool) (s : EvalState) :
    Except ScriptError EvalState :=
  if !hasFlag flags flag then
    if hasFlag flags SCRIPT_VERIFY_DISCOURAGE_UPGRADABLE_NOPS then .error .discourageUpgradableNops
    else .ok s
  else
    match s.stack with
    | [] => .error .invalidStackOperation
    | top :: _ => do
      let n ← scriptNum (fRequireMinimal flags) 5 top
      if n < 0 then .error .negativeLocktime
      else if !check n then .error .unsatisfiedLocktime
      else .ok s

/-- `(nSequence & CTxIn::SEQUENCE_LOCKTIME_DISABLE_FLAG) != 0`, for a number that is not negative. -/
def isLocktimeDisabled (nSequence : ℤ) : Bool := nSequence.toNat.testBit 31

/-- `OP_PICK` and `OP_ROLL`. -/
def execPick (roll : Bool) (s : EvalState) : Except ScriptError EvalState :=
  match s.stack with
  | top :: x :: rest => do
    let stack := x :: rest
    let n := getInt (← scriptNum (fRequireMinimal flags) nDefaultMaxNumSize top)
    if n < 0 then .error .invalidStackOperation
    else
      match stack[n.toNat]? with
      | none => .error .invalidStackOperation
      | some vch =>
        .ok { s with stack := vch :: if roll then stack.eraseIdx n.toNat else stack }
  | _ => .error .invalidStackOperation

/-- The cases of the `switch` that check no signature. `rest` is the script after the instruction. -/
def execPlain (rest : CScript) (s : EvalState) : Op → Except ScriptError EvalState
  | .pushNumber n => .ok { s with stack := scriptNumSerialize n :: s.stack }
  | .nop => .ok s
  | .checkLockTimeVerify =>
    checkLock flags SCRIPT_VERIFY_CHECKLOCKTIMEVERIFY checker.checkLockTime s
  | .checkSequenceVerify =>
    checkLock flags SCRIPT_VERIFY_CHECKSEQUENCEVERIFY
      (fun n => isLocktimeDisabled n || checker.checkSequence n) s
  | .upgradableNop =>
    if hasFlag flags SCRIPT_VERIFY_DISCOURAGE_UPGRADABLE_NOPS then
      .error .discourageUpgradableNops
    else .ok s
  | .conditional negated =>
    if s.fExec then
      match s.stack with
      | [] => .error .unbalancedConditional
      | vch :: stack => .ok { s with stack, vfExec := (castToBool vch != negated) :: s.vfExec }
    else .ok { s with vfExec := false :: s.vfExec }
  | .otherwise =>
    match s.vfExec with
    | [] => .error .unbalancedConditional
    | c :: vfExec => .ok { s with vfExec := (!c) :: vfExec }
  | .endIf =>
    match s.vfExec with
    | [] => .error .unbalancedConditional
    | _ :: vfExec => .ok { s with vfExec }
  | .onStack op => op.exec s
  | .pick roll => execPick flags roll s
  | .equal fVerify =>
    match s.stack with
    | vch2 :: vch1 :: stack => s.pushCheck stack (decide (vch1 = vch2)) fVerify .equalVerify
    | _ => .error .invalidStackOperation
  | .unary op =>
    match s.stack with
    | [] => .error .invalidStackOperation
    | vch :: stack => do
      let bn ← scriptNum (fRequireMinimal flags) nDefaultMaxNumSize vch
      .ok { s with stack := scriptNumSerialize (op.apply bn) :: stack }
  | .binary op fVerify =>
    match s.stack with
    | vch2 :: vch1 :: stack => do
      let bn1 ← scriptNum (fRequireMinimal flags) nDefaultMaxNumSize vch1
      let bn2 ← scriptNum (fRequireMinimal flags) nDefaultMaxNumSize vch2
      let vch := scriptNumSerialize (op.apply bn1 bn2)
      if fVerify then
        if castToBool vch then .ok { s with stack } else .error .numEqualVerify
      else .ok { s with stack := vch :: stack }
    | _ => .error .invalidStackOperation
  | .within =>
    match s.stack with
    | vch3 :: vch2 :: vch1 :: stack => do
      let bn1 ← scriptNum (fRequireMinimal flags) nDefaultMaxNumSize vch1
      let bn2 ← scriptNum (fRequireMinimal flags) nDefaultMaxNumSize vch2
      let bn3 ← scriptNum (fRequireMinimal flags) nDefaultMaxNumSize vch3
      s.pushCheck stack (decide (bn2 ≤ bn1 ∧ bn1 < bn3)) false .verify
    | _ => .error .invalidStackOperation
  | .hash op =>
    match s.stack with
    | [] => .error .invalidStackOperation
    | vch :: stack => .ok { s with stack := op.apply crypto vch :: stack }
  | .codeSeparator => .ok { s with scriptCode := rest }
  | _ => .error .badOpcode

/-- The check of one signature: of the encodings, and then the call of `CheckSig`. -/
def checkOneSig (vchSig vchPubKey : Valtype) (scriptCode : CScript) : Counted ScriptError Bool := do
  Counted.lift (checkSignatureEncoding crypto flags vchSig)
  Counted.lift (checkPubKeyEncoding flags vchPubKey)
  Counted.event (checker.checkSig vchSig vchPubKey scriptCode)

/-- `OP_CHECKSIG` and `OP_CHECKSIGVERIFY`. -/
def execCheckSig (fVerify : Bool) (s : EvalState) : Counted ScriptError EvalState :=
  match s.stack with
  | vchPubKey :: vchSig :: stack => do
    let scriptCode := findAndDelete s.scriptCode (pushScript vchSig)
    let fSuccess ← checkOneSig crypto checker flags vchSig vchPubKey scriptCode
    Counted.lift (s.pushCheck stack fSuccess fVerify .checkSigVerify)
  | _ => Counted.fail .invalidStackOperation

/-- The loop of `OP_CHECKMULTISIG` over the keys that are left. -/
def checkSigs (scriptCode : CScript) : List Valtype → List Valtype → Counted ScriptError Bool
  | _, [] => pure true
  | [], _ :: _ => pure false
  | vchPubKey :: keys, vchSig :: sigs => do
    let fOk ← checkOneSig crypto checker flags vchSig vchPubKey scriptCode
    let left := if fOk then sigs else vchSig :: sigs
    if left.length > keys.length then pure false else checkSigs scriptCode keys left

/-- A count on the stack of `OP_CHECKMULTISIG`, from zero to a limit. -/
def readCount (vch : Valtype) (limit : ℕ) (serror : ScriptError) : Except ScriptError ℕ := do
  let n := getInt (← scriptNum (fRequireMinimal flags) nDefaultMaxNumSize vch)
  if n < 0 ∨ n > limit then .error serror else .ok n.toNat

/-- `OP_CHECKMULTISIG` and `OP_CHECKMULTISIGVERIFY`. -/
def execCheckMultiSig (fVerify : Bool) (s : EvalState) : Counted ScriptError EvalState := do
  Counted.ensure (decide (1 ≤ s.stack.length)) .invalidStackOperation
  let nKeysCount ← Counted.lift
    (readCount flags (s.stack.getD 0 []) MAX_PUBKEYS_PER_MULTISIG .pubkeyCount)
  let nOpCount := s.nOpCount + nKeysCount
  Counted.ensure (decide (nOpCount ≤ MAX_OPS_PER_SCRIPT)) .opCount
  Counted.ensure (decide (2 + nKeysCount ≤ s.stack.length)) .invalidStackOperation
  let nSigsCount ← Counted.lift
    (readCount flags (s.stack.getD (1 + nKeysCount) []) nKeysCount .sigCount)
  Counted.ensure (decide (3 + nKeysCount + nSigsCount ≤ s.stack.length)) .invalidStackOperation
  let keys := (s.stack.drop 1).take nKeysCount
  let sigs := (s.stack.drop (2 + nKeysCount)).take nSigsCount
  let scriptCode := sigs.foldl (fun code vchSig => findAndDelete code (pushScript vchSig)) s.scriptCode
  let fSuccess ← checkSigs crypto checker flags scriptCode keys sigs
  -- one more argument is consumed than the operation has
  match s.stack.drop (2 + nKeysCount + nSigsCount) with
  | [] => Counted.fail .invalidStackOperation
  | dummy :: stack =>
    Counted.lift (whenFlag flags SCRIPT_VERIFY_NULLDUMMY
      (Checks.require (decide (dummy.length = 0)) .sigNullDummy))
    Counted.lift ({ s with nOpCount }.pushCheck stack fSuccess fVerify .checkMultiSigVerify)

/-- The `switch` of `EvalScript`. -/
def execOp (rest : CScript) (s : EvalState) : Op → Counted ScriptError EvalState
  | .checkSig fVerify => execCheckSig crypto checker flags fVerify s
  | .checkMultiSig fVerify => execCheckMultiSig crypto checker flags fVerify s
  | op => Counted.lift (execPlain crypto checker flags rest s op)

/-! ## `EvalScript` and `VerifyScript` -/

/-- What an instruction does once it is read and its limits are checked. -/
def dispatch (instr : Instruction) (s : EvalState) : Counted ScriptError EvalState :=
  if s.fExec && decide (instr.opcode ≤ OP_PUSHDATA4) then do
    Counted.lift (whenFlag flags SCRIPT_VERIFY_MINIMALDATA
      (Checks.require (checkMinimalPush instr.vch instr.opcode) .minimalData))
    pure { s with stack := instr.vch :: s.stack }
  else if s.fExec || decide (OP_IF ≤ instr.opcode ∧ instr.opcode ≤ OP_ENDIF) then
    execOp crypto checker flags instr.rest s (decodeOp instr.opcode)
  else pure s

/-- The counter `nOpCount` after an instruction is read. -/
def countOp (instr : Instruction) (s : EvalState) : EvalState :=
  { s with nOpCount := s.nOpCount + if instr.opcode > OP_16 then 1 else 0 }

/-- The loop of `EvalScript` for one instruction. -/
def evalOp (instr : Instruction) (s : EvalState) : Counted ScriptError EvalState := do
  Counted.ensure (decide (instr.vch.length ≤ MAX_SCRIPT_ELEMENT_SIZE)) .pushSize
  Counted.ensure (!(decide (instr.opcode > OP_16)
    && decide ((countOp instr s).nOpCount > MAX_OPS_PER_SCRIPT))) .opCount
  Counted.ensure (!isDisabled instr.opcode) .disabledOpcode
  let s ← dispatch crypto checker flags instr (countOp instr s)
  Counted.ensure (decide (s.stack.length + s.altstack.length ≤ 1000)) .stackSize
  pure s

/-- The loop of `EvalScript`. -/
def evalCode : Code → EvalState → Counted ScriptError EvalState
  | .done, s => pure s
  | .bad, _ => Counted.fail .badOpcode
  | .op instr next, s => do evalCode next (← evalOp crypto checker flags instr s)

/-- `EvalScript`: the stack it leaves. -/
def evalScript (stack : List Valtype) (script : CScript) : Counted ScriptError (List Valtype) := do
  Counted.ensure (decide (script.length ≤ MAX_SCRIPT_SIZE)) .scriptSize
  let s ← evalCode crypto checker flags script.code { stack, scriptCode := script }
  Counted.ensure s.vfExec.isEmpty .unbalancedConditional
  pure s.stack

/-- The check of `VerifyScript` after an evaluation: the top of the stack is true. -/
def topIsTrue (stack : List Valtype) : Bool :=
  match stack with
  | [] => false
  | top :: _ => castToBool top

/-- The third evaluation of `VerifyScript`, of the script on top of the stack that `scriptSig` left. -/
def verifyRedeem (scriptSig : CScript) (stackCopy : List Valtype) :
    Counted ScriptError (List Valtype) := do
  Counted.ensure scriptSig.isPushOnly .sigPushOnly
  match stackCopy with
  | [] => Counted.fail (.abort "!stack.empty()")
  | pubKeySerialized :: stack =>
    let stack ← evalScript crypto checker flags stack pubKeySerialized
    Counted.ensure (topIsTrue stack) .evalFalse
    pure stack

/-- The additional validation for spend-to-script-hash transactions. -/
def verifyP2SH (scriptSig scriptPubKey : CScript) (stackCopy stack : List Valtype) :
    Counted ScriptError (List Valtype) :=
  if hasFlag flags SCRIPT_VERIFY_P2SH && scriptPubKey.isPayToScriptHash then
    verifyRedeem crypto checker flags scriptSig stackCopy
  else pure stack

/-- The check of `SCRIPT_VERIFY_CLEANSTACK`. -/
def checkCleanStack (stack : List Valtype) : Except ScriptError Unit := do
  Checks.require (hasFlag flags SCRIPT_VERIFY_P2SH) (.abort "(flags & SCRIPT_VERIFY_P2SH) != 0")
  Checks.require (decide (stack.length = 1)) .cleanStack

/-- `VerifyScript`. -/
def verifyScript (scriptSig scriptPubKey : CScript) : Counted ScriptError Unit := do
  Counted.lift (whenFlag flags SCRIPT_VERIFY_SIGPUSHONLY
    (Checks.require scriptSig.isPushOnly .sigPushOnly))
  let stackCopy ← evalScript crypto checker flags [] scriptSig
  let stack ← evalScript crypto checker flags stackCopy scriptPubKey
  Counted.ensure (topIsTrue stack) .evalFalse
  let stack ← verifyP2SH crypto checker flags scriptSig scriptPubKey stackCopy stack
  Counted.lift (whenFlag flags SCRIPT_VERIFY_CLEANSTACK (checkCleanStack flags stack))

end

end Binarium
