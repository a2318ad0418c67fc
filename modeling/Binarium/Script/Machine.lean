import Binarium.Script.Interpreter

set_option autoImplicit false

/-! # `EvalScript` with its vectors and machine integers

`Script/Interpreter.lean` takes a stack apart by its shape, so it cannot read or pop what is not there.
The code can: `stacktop` is `vector::at` at a computed position, `popstack` throws on an empty vector,
elements are erased and inserted at iterators, and the values of `CScriptNum` are 64-bit integers with
assertions. Here the cases of the `switch` are written with these operations, and whatever can go wrong
with them is a `Fault` of its own.

A vector is a list with its last element first, and `stacktop(i)` is for negative `i`. -/

namespace Binarium.Machine

/-- What ends an evaluation. -/
inductive Fault where
  /-- `return set_error(serror, ...)` -/
  | error (serror : ScriptError)
  /-- a `scriptnum_error` -/
  | scriptNum
  /-- the exceptions of `vector::at` and of `popstack` -/
  | outOfRange
  /-- an iterator that is not in the vector -/
  | badIterator
  /-- an assertion of `CScriptNum` -/
  | assertion
  /-- a result or an operand that is no `int64_t` -/
  | overflow
  /-- a loop that needs more rounds -/
  | unfinished
deriving DecidableEq

/-- `if (!...) return set_error(serror, ...)`. -/
def require (c : Bool) (serror : ScriptError) : Except Fault Unit := Checks.require c (.error serror)

/-! ## Vectors -/

/-- `stacktop(i)`. -/
def stacktop (stack : List Valtype) : ℤ → Except Fault Valtype
  | .ofNat _ => .error .outOfRange
  | .negSucc n =>
    match stack[n]? with
    | none => .error .outOfRange
    | some vch => .ok vch

/-- `popstack`. -/
def popstack : List Valtype → Except Fault (List Valtype)
  | [] => .error .outOfRange
  | _ :: stack => .ok stack

/-- So many calls of `popstack`. -/
def popMany : ℕ → List Valtype → Except Fault (List Valtype)
  | 0, stack => .ok stack
  | n + 1, stack => do popMany n (← popstack stack)

/-- `swap(stacktop(i), stacktop(j))`. -/
def swapTop (stack : List Valtype) (i j : ℤ) : Except Fault (List Valtype) := do
  let a ← stacktop stack i
  let b ← stacktop stack j
  .ok ((stack.set (-i - 1).toNat b).set (-j - 1).toNat a)

/-- `stack.erase(stack.end() - first, stack.end() - last)`. -/
def eraseTop (stack : List Valtype) (first last : ℕ) : Except Fault (List Valtype) :=
  if last ≤ first ∧ first ≤ stack.length then .ok (stack.take last ++ stack.drop first)
  else .error .badIterator

/-- `stack.insert(stack.end() - n, vch)`. -/
def insertTop (stack : List Valtype) (n : ℕ) (vch : Valtype) : Except Fault (List Valtype) :=
  if n ≤ stack.length then .ok (stack.take n ++ vch :: stack.drop n) else .error .badIterator

/-- `if (stack.size() < n) return set_error(serror, SCRIPT_ERR_INVALID_STACK_OPERATION)`. -/
def need (n : ℕ) (stack : List Valtype) : Except Fault Unit :=
  require (decide (n ≤ stack.length)) .invalidStackOperation

/-- `if ((int)stack.size() < i) return set_error(serror, SCRIPT_ERR_INVALID_STACK_OPERATION)`. -/
def needInt (i : ℤ) (stack : List Valtype) : Except Fault Unit :=
  require (decide (i ≤ stack.length)) .invalidStackOperation

/-! ## Numbers -/

def INT64_MIN : ℤ := -2 ^ 63

def INT64_MAX : ℤ := 2 ^ 63 - 1

/-- The result of a 64-bit operation. -/
def checked (x : ℤ) : Except Fault ℤ :=
  if INT64_MIN ≤ x ∧ x ≤ INT64_MAX then .ok x else .error .overflow

/-- `CScriptNum::set_vch`: the bytes are shifted to their places in an `int64_t`. -/
def setVch (vch : Valtype) : Except Fault ℤ :=
  if vch.zipIdx.all fun (b, i) => decide ((b.toNat : ℤ) * 2 ^ (8 * i) ≤ INT64_MAX) then
    checked (scriptNumValue vch)
  else .error .overflow

/-- The constructor of `CScriptNum`. -/
def scriptNum (fRequireMinimal : Bool) (nMaxNumSize : ℕ) (vch : Valtype) : Except Fault ℤ :=
  if vch.length > nMaxNumSize then .error .scriptNum
  else if fRequireMinimal && !isMinimalNum vch then .error .scriptNum
  else setVch vch

/-- `CScriptNum::operator+=`. -/
def addAssign (value rhs : ℤ) : Except Fault ℤ :=
  if rhs = 0 ∨ (rhs > 0 ∧ value ≤ INT64_MAX - rhs) ∨ (rhs < 0 ∧ value ≥ INT64_MIN - rhs) then
    checked (value + rhs)
  else .error .assertion

/-- `CScriptNum::operator-=`. -/
def subAssign (value rhs : ℤ) : Except Fault ℤ :=
  if rhs = 0 ∨ (rhs > 0 ∧ value ≥ INT64_MIN + rhs) ∨ (rhs < 0 ∧ value ≤ INT64_MAX + rhs) then
    checked (value - rhs)
  else .error .assertion

/-- `CScriptNum::operator-`. -/
def negate (value : ℤ) : Except Fault ℤ :=
  if value ≠ INT64_MIN then checked (-value) else .error .assertion

/-- `CScriptNum::getvch`: `serialize` negates a negative value. -/
def getvch (value : ℤ) : Except Fault Valtype := do
  let _ ← checked (if value < 0 then -value else value)
  .ok (scriptNumSerialize value)

/-- The `switch` over the operations on one number. -/
def unary (bn : ℤ) : UnaryOp → Except Fault ℤ
  | .add1 => addAssign bn 1
  | .sub1 => subAssign bn 1
  | .negate => negate bn
  | .abs => if bn < 0 then negate bn else .ok bn
  | .not => .ok (ofBool (decide (bn = 0)))
  | .notEqual0 => .ok (ofBool (decide (bn ≠ 0)))

/-- The `switch` over the operations on two numbers. -/
def binary (bn1 bn2 : ℤ) : BinaryOp → Except Fault ℤ
  | .add => checked (bn1 + bn2)
  | .sub => checked (bn1 - bn2)
  | op => .ok (op.apply bn1 bn2)

/-! ## Operations -/

/-- Push the outcome of a check; the `VERIFY` variants pop it or fail. -/
def pushResult (stack : List Valtype) (fSuccess fVerify : Bool) (serror : ScriptError) :
    Except Fault (List Valtype) :=
  let stack := (if fSuccess then vchTrue else vchFalse) :: stack
  if fVerify then if fSuccess then popstack stack else .error (.error serror) else .ok stack

/-- The operations that move elements, on the main stack. -/
def move (stack : List Valtype) : StackOp → Except Fault (List Valtype)
  | .drop2 => do
    need 2 stack
    let stack ← popstack stack
    popstack stack
  | .dup2 => do
    need 2 stack
    let vch1 ← stacktop stack (-2)
    let vch2 ← stacktop stack (-1)
    .ok (vch2 :: vch1 :: stack)
  | .dup3 => do
    need 3 stack
    let vch1 ← stacktop stack (-3)
    let vch2 ← stacktop stack (-2)
    let vch3 ← stacktop stack (-1)
    .ok (vch3 :: vch2 :: vch1 :: stack)
  | .over2 => do
    need 4 stack
    let vch1 ← stacktop stack (-4)
    let vch2 ← stacktop stack (-3)
    .ok (vch2 :: vch1 :: stack)
  | .rot2 => do
    need 6 stack
    let vch1 ← stacktop stack (-6)
    let vch2 ← stacktop stack (-5)
    let stack ← eraseTop stack 6 4
    .ok (vch2 :: vch1 :: stack)
  | .swap2 => do
    need 4 stack
    let stack ← swapTop stack (-4) (-2)
    swapTop stack (-3) (-1)
  | .ifDup => do
    need 1 stack
    let vch ← stacktop stack (-1)
    .ok (if castToBool vch then vch :: stack else stack)
  | .depth => do
    let bn ← checked stack.length
    let vch ← getvch bn
    .ok (vch :: stack)
  | .drop => do
    need 1 stack
    popstack stack
  | .dup => do
    need 1 stack
    let vch ← stacktop stack (-1)
    .ok (vch :: stack)
  | .nip => do
    need 2 stack
    eraseTop stack 2 1
  | .over => do
    need 2 stack
    let vch ← stacktop stack (-2)
    .ok (vch :: stack)
  | .rot => do
    need 3 stack
    let stack ← swapTop stack (-3) (-2)
    swapTop stack (-2) (-1)
  | .swap => do
    need 2 stack
    swapTop stack (-2) (-1)
  | .tuck => do
    need 2 stack
    let vch ← stacktop stack (-1)
    insertTop stack 2 vch
  | .size => do
    need 1 stack
    let top ← stacktop stack (-1)
    let bn ← checked top.length
    let vch ← getvch bn
    .ok (vch :: stack)
  | _ => .error (.error .badOpcode)

/-- The operations on the stacks. -/
def execStackOp (s : EvalState) : StackOp → Except Fault EvalState
  | .verify => do
    need 1 s.stack
    let vch ← stacktop s.stack (-1)
    if castToBool vch then (popstack s.stack).map fun stack => { s with stack }
    else .error (.error .verify)
  | .opReturn => .error (.error .opReturn)
  | .toAltStack => do
    need 1 s.stack
    let vch ← stacktop s.stack (-1)
    let stack ← popstack s.stack
    .ok { s with stack, altstack := vch :: s.altstack }
  | .fromAltStack => do
    require (decide (1 ≤ s.altstack.length)) .invalidAltstackOperation
    let vch ← stacktop s.altstack (-1)
    let altstack ← popstack s.altstack
    .ok { s with stack := vch :: s.stack, altstack }
  | op => (move s.stack op).map fun stack => { s with stack }

section
variable (crypto : ScriptCrypto) (checker : BaseSignatureChecker) (flags : ScriptFlags)

/-- `CScriptNum(stacktop(i), fRequireMinimal, nMaxNumSize)`. -/
def numberAt (stack : List Valtype) (i : ℤ) (nMaxNumSize : ℕ) : Except Fault ℤ := do
  let vch ← stacktop stack i
  scriptNum (fRequireMinimal flags) nMaxNumSize vch

/-- `OP_CHECKLOCKTIMEVERIFY` and `OP_CHECKSEQUENCEVERIFY`. -/
def checkLock (flag : ScriptFlags) (check : ℤ → Bool) (s : EvalState) : Except Fault EvalState :=
  if !hasFlag flags flag then
    if hasFlag flags SCRIPT_VERIFY_DISCOURAGE_UPGRADABLE_NOPS then
      .error (.error .discourageUpgradableNops)
    else .ok s
  else do
    need 1 s.stack
    let n ← numberAt flags s.stack (-1) 5
    if n < 0 then .error (.error .negativeLocktime)
    else if !check n then .error (.error .unsatisfiedLocktime)
    else .ok s

/-- `OP_PICK` and `OP_ROLL`. -/
def execPick (roll : Bool) (s : EvalState) : Except Fault EvalState := do
  need 2 s.stack
  let n := getInt (← numberAt flags s.stack (-1) nDefaultMaxNumSize)
  let stack ← popstack s.stack
  if n < 0 ∨ n ≥ stack.length then .error (.error .invalidStackOperation)
  else do
    let vch ← stacktop stack (-n - 1)
    let stack ← if roll then eraseTop stack (n + 1).toNat n.toNat else .ok stack
    .ok { s with stack := vch :: stack }

/-- The cases of the `switch` that check no signature. -/
def execPlain (rest : CScript) (s : EvalState) : Op → Except Fault EvalState
  | .pushNumber n => do
    let vch ← getvch n
    .ok { s with stack := vch :: s.stack }
  | .nop => .ok s
  | .checkLockTimeVerify =>
    checkLock flags SCRIPT_VERIFY_CHECKLOCKTIMEVERIFY checker.checkLockTime s
  | .checkSequenceVerify =>
    checkLock flags SCRIPT_VERIFY_CHECKSEQUENCEVERIFY
      (fun n => isLocktimeDisabled n || checker.checkSequence n) s
  | .upgradableNop =>
    if hasFlag flags SCRIPT_VERIFY_DISCOURAGE_UPGRADABLE_NOPS then
      .error (.error .discourageUpgradableNops)
    else .ok s
  | .conditional negated =>
    if s.fExec then do
      require (decide (1 ≤ s.stack.length)) .unbalancedConditional
      let vch ← stacktop s.stack (-1)
      let stack ← popstack s.stack
      .ok { s with stack, vfExec := (castToBool vch != negated) :: s.vfExec }
    else .ok { s with vfExec := false :: s.vfExec }
  | .otherwise =>
    match s.vfExec with
    | [] => .error (.error .unbalancedConditional)
    | c :: vfExec => .ok { s with vfExec := (!c) :: vfExec }
  | .endIf =>
    match s.vfExec with
    | [] => .error (.error .unbalancedConditional)
    | _ :: vfExec => .ok { s with vfExec }
  | .onStack op => execStackOp s op
  | .pick roll => execPick flags roll s
  | .equal fVerify => do
    need 2 s.stack
    let vch1 ← stacktop s.stack (-2)
    let vch2 ← stacktop s.stack (-1)
    let stack ← popMany 2 s.stack
    let stack ← pushResult stack (decide (vch1 = vch2)) fVerify .equalVerify
    .ok { s with stack }
  | .unary op => do
    need 1 s.stack
    let bn ← numberAt flags s.stack (-1) nDefaultMaxNumSize
    let bn ← unary bn op
    let stack ← popstack s.stack
    let vch ← getvch bn
    .ok { s with stack := vch :: stack }
  | .binary op fVerify => do
    need 2 s.stack
    let bn1 ← numberAt flags s.stack (-2) nDefaultMaxNumSize
    let bn2 ← numberAt flags s.stack (-1) nDefaultMaxNumSize
    let bn ← binary bn1 bn2 op
    let stack ← popMany 2 s.stack
    let vch ← getvch bn
    let stack := vch :: stack
    if fVerify then do
      let top ← stacktop stack (-1)
      if castToBool top then (popstack stack).map fun stack => { s with stack }
      else .error (.error .numEqualVerify)
    else .ok { s with stack }
  | .within => do
    need 3 s.stack
    let bn1 ← numberAt flags s.stack (-3) nDefaultMaxNumSize
    let bn2 ← numberAt flags s.stack (-2) nDefaultMaxNumSize
    let bn3 ← numberAt flags s.stack (-1) nDefaultMaxNumSize
    let stack ← popMany 3 s.stack
    let stack ← pushResult stack (decide (bn2 ≤ bn1 ∧ bn1 < bn3)) false .verify
    .ok { s with stack }
  | .hash op => do
    need 1 s.stack
    let vch ← stacktop s.stack (-1)
    let stack ← popstack s.stack
    .ok { s with stack := op.apply crypto vch :: stack }
  | .codeSeparator => .ok { s with scriptCode := rest }
  | _ => .error (.error .badOpcode)

/-- The checks of the encodings, whose error is returned, and then `CheckSig`. -/
def checkOneSig (vchSig vchPubKey : Valtype) (scriptCode : CScript) : Except Fault Bool := do
  (checkSignatureEncoding crypto flags vchSig).mapError Fault.error
  (checkPubKeyEncoding flags vchPubKey).mapError Fault.error
  .ok (checker.checkSig vchSig vchPubKey scriptCode)

/-- `OP_CHECKSIG` and `OP_CHECKSIGVERIFY`. -/
def execCheckSig (fVerify : Bool) (s : EvalState) : Except Fault EvalState := do
  need 2 s.stack
  let vchSig ← stacktop s.stack (-2)
  let vchPubKey ← stacktop s.stack (-1)
  let scriptCode := findAndDelete s.scriptCode (pushScript vchSig)
  let fSuccess ← checkOneSig crypto checker flags vchSig vchPubKey scriptCode
  let stack ← popMany 2 s.stack
  let stack ← pushResult stack fSuccess fVerify .checkSigVerify
  .ok { s with stack }

/-- The loop of `OP_CHECKMULTISIG` that takes the signatures out of the script, from `k` on. -/
def deleteLoop (stack : List Valtype) (isig : ℤ) : ℕ → ℤ → CScript → Except Fault CScript
  | 0, _, scriptCode => .ok scriptCode
  | left + 1, k, scriptCode => do
    let vchSig ← stacktop stack (-isig - k)
    deleteLoop stack isig left (k + 1) (findAndDelete scriptCode (pushScript vchSig))

/-- The loop of `OP_CHECKMULTISIG` over the keys, for at most so many rounds. -/
def multiSigLoop (stack : List Valtype) (scriptCode : CScript) :
    ℕ → ℤ → ℤ → ℤ → ℤ → Except Fault Bool
  | 0, _, _, nSigsCount, _ => if nSigsCount > 0 then .error .unfinished else .ok true
  | rounds + 1, isig, ikey, nSigsCount, nKeysCount =>
    if nSigsCount > 0 then do
      let vchSig ← stacktop stack (-isig)
      let vchPubKey ← stacktop stack (-ikey)
      let fOk ← checkOneSig crypto checker flags vchSig vchPubKey scriptCode
      let isig := if fOk then isig + 1 else isig
      let nSigsCount := if fOk then nSigsCount - 1 else nSigsCount
      if nSigsCount > nKeysCount - 1 then .ok false
      else multiSigLoop stack scriptCode rounds isig (ikey + 1) nSigsCount (nKeysCount - 1)
    else .ok true

/-- A count on the stack of `OP_CHECKMULTISIG`. -/
def countAt (stack : List Valtype) (i limit : ℤ) (serror : ScriptError) : Except Fault ℤ := do
  let n := getInt (← numberAt flags stack i nDefaultMaxNumSize)
  if n < 0 ∨ n > limit then .error (.error serror) else .ok n

/-- `(flags & SCRIPT_VERIFY_NULLDUMMY) && stacktop(-1).size()`. -/
def nullDummy (stack : List Valtype) : Except Fault Unit :=
  if hasFlag flags SCRIPT_VERIFY_NULLDUMMY then do
    let dummy ← stacktop stack (-1)
    require (decide (dummy.length = 0)) .sigNullDummy
  else .ok ()

/-- `OP_CHECKMULTISIG` and `OP_CHECKMULTISIGVERIFY`. -/
def execCheckMultiSig (fVerify : Bool) (s : EvalState) : Except Fault EvalState := do
  let i : ℤ := 1
  needInt i s.stack
  let nKeysCount ← countAt flags s.stack (-i) MAX_PUBKEYS_PER_MULTISIG .pubkeyCount
  let nOpCount := s.nOpCount + nKeysCount.toNat
  require (decide (nOpCount ≤ MAX_OPS_PER_SCRIPT)) .opCount
  let ikey := i + 1
  let i := ikey + nKeysCount
  needInt i s.stack
  let nSigsCount ← countAt flags s.stack (-i) nKeysCount .sigCount
  let isig := i + 1
  let i := isig + nSigsCount
  needInt i s.stack
  let scriptCode ← deleteLoop s.stack isig nSigsCount.toNat 0 s.scriptCode
  let fSuccess ← multiSigLoop crypto checker flags s.stack scriptCode nKeysCount.toNat isig ikey
    nSigsCount nKeysCount
  let stack ← popMany (i - 1).toNat s.stack
  need 1 stack
  nullDummy flags stack
  let stack ← popstack stack
  let stack ← pushResult stack fSuccess fVerify .checkMultiSigVerify
  .ok { s with stack, nOpCount }

/-- The `switch` of `EvalScript`. -/
def execOp (rest : CScript) (s : EvalState) : Op → Except Fault EvalState
  | .checkSig fVerify => execCheckSig crypto checker flags fVerify s
  | .checkMultiSig fVerify => execCheckMultiSig crypto checker flags fVerify s
  | op => execPlain crypto checker flags rest s op

/-! ## `EvalScript` -/

/-- What an instruction does once it is read and its limits are checked. -/
def dispatch (instr : Instruction) (s : EvalState) : Except Fault EvalState :=
  if s.fExec && decide (instr.opcode ≤ OP_PUSHDATA4) then do
    require (!(fRequireMinimal flags && !checkMinimalPush instr.vch instr.opcode)) .minimalData
    .ok { s with stack := instr.vch :: s.stack }
  else if s.fExec || decide (OP_IF ≤ instr.opcode ∧ instr.opcode ≤ OP_ENDIF) then
    execOp crypto checker flags instr.rest s (decodeOp instr.opcode)
  else .ok s

/-- The loop of `EvalScript` for one instruction. -/
def evalOp (instr : Instruction) (s : EvalState) : Except Fault EvalState := do
  require (decide (instr.vch.length ≤ MAX_SCRIPT_ELEMENT_SIZE)) .pushSize
  require (!(decide (instr.opcode > OP_16)
    && decide ((countOp instr s).nOpCount > MAX_OPS_PER_SCRIPT))) .opCount
  require (!isDisabled instr.opcode) .disabledOpcode
  let s ← dispatch crypto checker flags instr (countOp instr s)
  require (decide (s.stack.length + s.altstack.length ≤ 1000)) .stackSize
  .ok s

/-- The loop of `EvalScript`. -/
def evalCode : Code → EvalState → Except Fault EvalState
  | .done, s => .ok s
  | .bad, _ => .error (.error .badOpcode)
  | .op instr next, s => do evalCode next (← evalOp crypto checker flags instr s)

/-- `EvalScript` without the `catch`: the stack it leaves. -/
def evalScript (stack : List Valtype) (script : CScript) : Except Fault (List Valtype) := do
  require (decide (script.length ≤ MAX_SCRIPT_SIZE)) .scriptSize
  let s ← evalCode crypto checker flags script.code { stack, scriptCode := script }
  require s.vfExec.isEmpty .unbalancedConditional
  .ok s.stack

end

end Binarium.Machine
