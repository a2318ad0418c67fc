import Binarium.Script.Machine

set_option autoImplicit false

/-! # The interpreter stays inside its stacks

The machine-level interpreter agrees with `Script/Interpreter.lean` on every stack that is not too large:
it ends with the same stack, or with the error that the other one has. As that one has no other errors
than those `EvalScript` returns and those of numbers, which the `catch` turns into an unknown error, none
of the other faults can happen.

The sizes are an invariant of the loop (`StackOk`): at most 1000 elements of at most 520 bytes. It also
bounds what `OP_DEPTH` and `OP_SIZE` push. -/

namespace Binarium.Machine

open List Counted Checks Nat

/-! ## Agreement -/

/-- The error of the interpreter as a fault. Its unknown error is the exception of a number. -/
def toFault : ScriptError → Fault
  | .unknownError => .scriptNum
  | serror => .error serror

/-- The same result, or the same error. -/
def Agrees {α : Type} (m : Except Fault α) (x : Except ScriptError α) : Prop :=
  m = x.mapError toFault

variable {α : Type} {serror : ScriptError} {s : EvalState} {vch : Valtype}

theorem Agrees.bind {β : Type} {m : Except Fault α} {x : Except ScriptError α}
    {f : α → Except Fault β} {g : α → Except ScriptError β} (hm : Agrees m x)
    (hf : ∀ a, x = .ok a → Agrees (f a) (g a)) : Agrees (m >>= f) (x >>= g) := by
  subst hm
  cases x with
  | error e => rfl
  | ok a => exact hf a rfl

theorem agrees_require {c : Bool} (h : serror ≠ .unknownError) :
    Agrees (require c serror) (Checks.require c serror) := by
  cases c with
  | true => rfl
  | false => cases serror <;> first | exact absurd rfl h | rfl

/-! ## Stack operations -/

/-- Elements that are not too long. -/
def Small (stack : List Valtype) : Prop := ∀ vch ∈ stack, vch.length ≤ MAX_SCRIPT_ELEMENT_SIZE

/-- The elements of both stacks are not too long. -/
def SmallState (s : EvalState) : Prop := Small s.stack ∧ Small s.altstack

/-- The sizes that the loop maintains. -/
structure StackOk (s : EvalState) : Prop where
  size : s.stack.length + s.altstack.length ≤ 1000
  small : SmallState s

theorem checked_eq {x : ℤ} (h : |x| ≤ 2 ^ 62) : checked x = .ok x := by
  have hmin : INT64_MIN = -2 ^ 63 := rfl
  have hmax : INT64_MAX = 2 ^ 63 - 1 := rfl
  obtain ⟨hlow, hhigh⟩ := abs_le.mp h
  exact if_pos ⟨by omega, by omega⟩

theorem getvch_eq {x : ℤ} (h : |x| ≤ 2 ^ 62) : getvch x = .ok (scriptNumSerialize x) := by
  have habs : (if x < 0 then -x else x) = |x| := by
    split
    next hneg => exact (abs_of_neg hneg).symm
    next hneg => exact (abs_of_nonneg (not_lt.mp hneg)).symm
  rw [getvch, habs, checked_eq (by rwa [abs_abs])]
  rfl

theorem abs_natCast_le {n : ℕ} (h : n ≤ 1000) : |(n : ℤ)| ≤ 2 ^ 62 := by
  rw [abs_cast]
  omega

theorem bind_getvch {β : Type} {n : ℕ} (h : n ≤ 1000) (f : Valtype → Except Fault β) :
    (checked n >>= fun bn => getvch bn >>= f) = f (scriptNumSerialize n) := by
  rw [checked_eq (abs_natCast_le h)]
  show (getvch n >>= f) = _
  rw [getvch_eq (abs_natCast_le h)]
  rfl

theorem agrees_execStackOp (hs : StackOk s) (op : StackOp) :
    Agrees (execStackOp s op) (op.exec s) := by
  obtain ⟨stack, altstack, vfExec, nOpCount, scriptCode⟩ := s
  cases op with
  | verify =>
    rcases stack with _ | ⟨x, stack⟩
    · rfl
    · show Agrees (if castToBool x then _ else _) (if castToBool x then _ else _)
      split <;> rfl
  | opReturn => rfl
  | fromAltStack => rcases altstack with _ | ⟨x, altstack⟩ <;> rfl
  | depth => exact congrArg (Except.map _) (bind_getvch (le_of_add_right_le hs.size) _)
  | size =>
    rcases stack with _ | ⟨x, stack⟩
    · rfl
    · have hsize : x.length ≤ 1000 :=
        le_trans (hs.small.1 x mem_cons_self) (by decide)
      exact congrArg (Except.map _) (bind_getvch hsize _)
  | _ =>
    rcases stack with _ | ⟨x, _ | ⟨y, _ | ⟨z, _ | ⟨w, _ | ⟨u, _ | ⟨v, stack⟩⟩⟩⟩⟩⟩ <;> rfl

/-! ## Numbers -/

theorem leValue_lt (vch : Valtype) : leValue vch < 256 ^ vch.length := by
  induction vch with
  | nil => simp [leValue]
  | cons b rest ih =>
    rw [leValue, length_cons, pow_succ]
    omega

theorem abs_scriptNumValue_lt (h : vch.length ≤ 5) : |scriptNumValue vch| < 2 ^ 40 := by
  have hvalue := leValue_lt vch
  have hpow : 256 ^ vch.length ≤ 256 ^ 5 := Nat.pow_le_pow_right (by decide) h
  unfold scriptNumValue
  split
  next => decide
  next back _ =>
    split
    next =>
      rw [abs_neg, Nat.abs_cast]
      omega
    next =>
      rw [Nat.abs_cast]
      omega

/-- Every one of five bytes fits at its place. -/
theorem byteAt_le (h : vch.length ≤ 5) {b : BitVec 8} {i : ℕ} (hmem : (b, i) ∈ vch.zipIdx) :
    (b.toNat : ℤ) * 2 ^ (8 * i) ≤ INT64_MAX := by
  have hi : i < vch.length := (mem_zipIdx' hmem).1
  have hpow : (2 : ℤ) ^ (8 * i) ≤ 2 ^ 32 := pow_le_pow_right₀ (by decide) (by omega)
  have hmul : (b.toNat : ℤ) * 2 ^ (8 * i) ≤ 255 * 2 ^ 32 :=
    mul_le_mul (by omega) hpow (by positivity) (by decide)
  have hmax : INT64_MAX = 2 ^ 63 - 1 := rfl
  omega

theorem setVch_eq (h : vch.length ≤ 5) : setVch vch = .ok (scriptNumValue vch) := by
  unfold setVch
  split
  next =>
    have hlt := abs_scriptNumValue_lt h
    rw [checked_eq (by omega)]
  next hshift =>
    refine absurd (all_eq_true.mpr ?_) hshift
    rintro ⟨b, i⟩ hmem
    exact decide_eq_true (byteAt_le h hmem)

theorem agrees_scriptNum {minimal : Bool} {nMaxNumSize : ℕ} (h : nMaxNumSize ≤ 5) (vch : Valtype) :
    Agrees (scriptNum minimal nMaxNumSize vch) (Binarium.scriptNum minimal nMaxNumSize vch) := by
  unfold scriptNum Binarium.scriptNum
  split
  next => rfl
  next hsize =>
    split
    next => rfl
    next => exact setVch_eq (by omega)

/-- The values that the constructor accepts. -/
theorem abs_lt_of_scriptNum {minimal : Bool} {nMaxNumSize : ℕ} (h : nMaxNumSize ≤ 5) {n : ℤ}
    (hn : Binarium.scriptNum minimal nMaxNumSize vch = .ok n) : |n| < 2 ^ 40 := by
  unfold Binarium.scriptNum at hn
  split at hn
  next => simp at hn
  next hsize =>
    split at hn
    next => simp at hn
    next =>
      cases hn
      exact abs_scriptNumValue_lt (by omega)

theorem abs_unary_le {bn : ℤ} (h : |bn| < 2 ^ 40) (op : UnaryOp) : |op.apply bn| ≤ 2 ^ 62 := by
  rw [abs_lt] at h
  rw [abs_le]
  cases op <;> simp only [UnaryOp.apply, ofBool] <;> (try split) <;> omega

theorem abs_binary_le {bn1 bn2 : ℤ} (h1 : |bn1| < 2 ^ 40) (h2 : |bn2| < 2 ^ 40) (op : BinaryOp) :
    |op.apply bn1 bn2| ≤ 2 ^ 62 := by
  rw [abs_lt] at h1 h2
  rw [abs_le]
  cases op <;> simp only [BinaryOp.apply, ofBool] <;> (try split) <;> omega

theorem unary_eq {bn : ℤ} (h : |bn| < 2 ^ 40) (op : UnaryOp) : unary bn op = .ok (op.apply bn) := by
  obtain ⟨hlow, hhigh⟩ := abs_lt.mp h
  have hmin : INT64_MIN = -2 ^ 63 := rfl
  have hmax : INT64_MAX = 2 ^ 63 - 1 := rfl
  have hneg : negate bn = .ok (-bn) :=
    (if_pos (by omega)).trans (checked_eq (abs_unary_le h .negate))
  have hbound := abs_unary_le h op
  cases op with
  | add1 | sub1 => exact (if_pos (by omega)).trans (checked_eq hbound)
  | negate => exact hneg
  | abs =>
    rw [unary, UnaryOp.apply]
    split
    next => exact hneg
    next => rfl
  | not | notEqual0 => rfl

theorem binary_eq {bn1 bn2 : ℤ} (h1 : |bn1| < 2 ^ 40) (h2 : |bn2| < 2 ^ 40) (op : BinaryOp) :
    binary bn1 bn2 op = .ok (op.apply bn1 bn2) := by
  have hbound := abs_binary_le h1 h2 op
  cases op with
  | add | sub => exact checked_eq hbound
  | _ => rfl

/-! ## The plain operations -/

section
variable {crypto : ScriptCrypto} {checker : BaseSignatureChecker} {flags : ScriptFlags}

theorem agrees_checkLock (flag : ScriptFlags) (check : ℤ → Bool) (s : EvalState) :
    Agrees (checkLock flags flag check s) (Binarium.checkLock flags flag check s) := by
  obtain ⟨stack, altstack, vfExec, nOpCount, scriptCode⟩ := s
  unfold checkLock Binarium.checkLock
  split
  next => split <;> rfl
  next =>
    rcases stack with _ | ⟨top, stack⟩
    · rfl
    · refine Agrees.bind (agrees_scriptNum (by decide) top) fun n _ => ?_
      split
      next => rfl
      next => split <;> rfl

variable {stack : List Valtype} {s' : EvalState}

theorem stacktop_eq {n : ℕ} (h : n < stack.length) :
    stacktop stack (-(n : ℤ) - 1) = .ok (stack.getD n []) := by
  have hneg : -(n : ℤ) - 1 = Int.negSucc n := by omega
  rw [hneg, stacktop, getElem?_eq_getElem h, getD_eq_getElem?_getD, getElem?_eq_getElem h]
  rfl

theorem agrees_execPick (roll : Bool) (s : EvalState) :
    Agrees (execPick flags roll s) (Binarium.execPick flags roll s) := by
  obtain ⟨stack, altstack, vfExec, nOpCount, scriptCode⟩ := s
  rcases stack with _ | ⟨top, _ | ⟨x, rest⟩⟩
  · rfl
  · rfl
  · refine Agrees.bind (agrees_scriptNum (by decide) top) fun number _ => ?_
    generalize getInt number = n
    show Agrees (if n < 0 ∨ n ≥ ((x :: rest).length : ℤ) then _ else _) _
    by_cases hneg : n < 0
    · rw [if_pos (Or.inl hneg), if_pos hneg]
      rfl
    · rw [if_neg hneg]
      obtain ⟨k, rfl⟩ := Int.eq_ofNat_of_zero_le (not_lt.mp hneg)
      rw [Int.toNat_natCast]
      by_cases hlt : k < (x :: rest).length
      · rw [if_neg (by omega), stacktop_eq hlt, getElem?_eq_getElem hlt,
          getD_eq_getElem _ _ hlt]
        cases roll with
        | false => rfl
        | true =>
          have herase : eraseTop (x :: rest) ((k : ℤ) + 1).toNat k
              = .ok ((x :: rest).eraseIdx k) := by
            rw [show ((k : ℤ) + 1).toNat = k + 1 by omega, eraseTop, if_pos ⟨by omega, by omega⟩,
              eraseIdx_eq_take_drop_succ]
          show Agrees (eraseTop (x :: rest) ((k : ℤ) + 1).toNat (k : ℤ).toNat >>= _) _
          rw [Int.toNat_natCast, herase]
          rfl
      · rw [if_pos (Or.inr (by omega)), getElem?_eq_none (by omega)]
        rfl

/-- The outcome of a check on the rest of the stack. -/
theorem agrees_pushResult (s : EvalState) (stack : List Valtype) (fSuccess fVerify : Bool)
    (h : serror ≠ .unknownError) :
    Agrees (pushResult stack fSuccess fVerify serror >>= fun stack => .ok { s with stack })
      (s.pushCheck stack fSuccess fVerify serror) := by
  cases fVerify with
  | false => cases fSuccess <;> rfl
  | true =>
    cases fSuccess with
    | true => rfl
    | false => cases serror <;> first | exact absurd rfl h | rfl

/-- **The plain operations agree.** -/
theorem agrees_execPlain (hs : StackOk s) (rest : CScript) {op : Op}
    (hnumber : ∀ n, op = .pushNumber n → |n| ≤ 2 ^ 62) :
    Agrees (execPlain crypto checker flags rest s op)
      (Binarium.execPlain crypto checker flags rest s op) := by
  obtain ⟨stack, altstack, vfExec, nOpCount, scriptCode⟩ := s
  cases op with
  | pushNumber n =>
    rw [execPlain, getvch_eq (hnumber n rfl)]
    rfl
  | nop => rfl
  | checkLockTimeVerify | checkSequenceVerify => exact agrees_checkLock _ _ _
  | upgradableNop =>
    rw [execPlain, Binarium.execPlain]
    split <;> rfl
  | conditional negated =>
    rw [execPlain, Binarium.execPlain]
    split
    next => rcases stack with _ | ⟨x, stack⟩ <;> rfl
    next => rfl
  | otherwise | endIf => rcases vfExec with _ | ⟨c, vfExec⟩ <;> rfl
  | onStack op => exact agrees_execStackOp hs op
  | pick roll => exact agrees_execPick roll _
  | equal fVerify =>
    rcases stack with _ | ⟨vch2, _ | ⟨vch1, stack⟩⟩
    · rfl
    · rfl
    · exact agrees_pushResult _ stack (decide (vch1 = vch2)) fVerify (by simp)
  | unary op =>
    rcases stack with _ | ⟨vch, stack⟩
    · rfl
    · refine Agrees.bind (agrees_scriptNum (by decide) vch) fun bn hbn => ?_
      have hsmall := abs_lt_of_scriptNum (by decide) hbn
      rw [unary_eq hsmall]
      show Agrees (getvch _ >>= _) _
      rw [getvch_eq (abs_unary_le hsmall op)]
      rfl
  | binary op fVerify =>
    rcases stack with _ | ⟨vch2, _ | ⟨vch1, stack⟩⟩
    · rfl
    · rfl
    · refine Agrees.bind (agrees_scriptNum (by decide) vch1) fun bn1 hbn1 => ?_
      refine Agrees.bind (agrees_scriptNum (by decide) vch2) fun bn2 hbn2 => ?_
      have h1 := abs_lt_of_scriptNum (by decide) hbn1
      have h2 := abs_lt_of_scriptNum (by decide) hbn2
      rw [binary_eq h1 h2]
      show Agrees (getvch _ >>= _) _
      rw [getvch_eq (abs_binary_le h1 h2 op)]
      cases fVerify with
      | false => rfl
      | true =>
        show Agrees (if castToBool _ then _ else _) (if castToBool _ then _ else _)
        split <;> rfl
  | within =>
    rcases stack with _ | ⟨vch3, _ | ⟨vch2, _ | ⟨vch1, stack⟩⟩⟩
    · rfl
    · rfl
    · rfl
    · refine Agrees.bind (agrees_scriptNum (by decide) vch1) fun bn1 _ => ?_
      refine Agrees.bind (agrees_scriptNum (by decide) vch2) fun bn2 _ => ?_
      refine Agrees.bind (agrees_scriptNum (by decide) vch3) fun bn3 _ => ?_
      exact agrees_pushResult _ stack (decide (bn2 ≤ bn1 ∧ bn1 < bn3)) false (by simp)
  | hash op => rcases stack with _ | ⟨vch, stack⟩ <;> rfl
  | codeSeparator | checkSig | checkMultiSig | bad => rfl

/-! ## Signature checks -/

/-- A check that has no unknown error. -/
def Known {α : Type} (x : Except ScriptError α) : Prop := ErrorsIn x (· ≠ .unknownError)

theorem known_whenFlag {flag : ScriptFlags} {x : Except ScriptError Unit} (h : Known x) :
    Known (whenFlag flags flag x) := by
  unfold whenFlag
  split
  next => exact h
  next => exact .ok ()

theorem known_checkSignatureEncoding (vchSig : Valtype) :
    Known (checkSignatureEncoding crypto flags vchSig) := by
  unfold checkSignatureEncoding
  split
  next => exact .ok ()
  next =>
    refine ErrorsIn.bind (known_whenFlag (.require (by simp))) fun _ => ?_
    refine ErrorsIn.bind (known_whenFlag ?_) fun _ => known_whenFlag (.require (by simp))
    exact .bind (.require (by simp)) fun _ => .require (by simp)

theorem agrees_of_known {x : Except ScriptError α} (h : Known x) :
    Agrees (x.mapError Fault.error) x := by
  cases x with
  | ok a => rfl
  | error e => cases e <;> first | exact absurd rfl (h _ rfl) | rfl

/-- A computation that counts, of another type of results. -/
theorem Agrees.bindCounted {α' β : Type} {m : Except Fault α'} {x : Counted ScriptError α}
    {f : α' → Except Fault β} {g : α → Counted ScriptError β} (r : α → α')
    (hm : m = (x.result.mapError toFault).map r)
    (hf : ∀ a, x.result = .ok a → Agrees (f (r a)) (g a).result) :
    Agrees (m >>= f) (x >>= g).result := by
  subst hm
  obtain ⟨n, x⟩ := x
  cases x with
  | error e => rfl
  | ok a => exact hf a rfl

theorem Agrees.bindResult {β : Type} {m : Except Fault α} {x : Counted ScriptError α}
    {f : α → Except Fault β} {g : α → Counted ScriptError β} (hm : Agrees m x.result)
    (hf : ∀ a, x.result = .ok a → Agrees (f a) (g a).result) :
    Agrees (m >>= f) (x >>= g).result := by
  rw [result_bind]
  exact hm.bind hf

theorem agrees_checkOneSig (vchSig vchPubKey : Valtype) (scriptCode : CScript) :
    Agrees (checkOneSig crypto checker flags vchSig vchPubKey scriptCode)
      (Binarium.checkOneSig crypto checker flags vchSig vchPubKey scriptCode).result := by
  have hsig : Agrees ((checkSignatureEncoding crypto flags vchSig).mapError Fault.error)
      (checkSignatureEncoding crypto flags vchSig) :=
    agrees_of_known (known_checkSignatureEncoding vchSig)
  have hkey : Agrees ((checkPubKeyEncoding flags vchPubKey).mapError Fault.error)
      (checkPubKeyEncoding flags vchPubKey) :=
    agrees_of_known (known_whenFlag (.require (by simp)))
  exact Agrees.bindResult hsig fun _ _ => Agrees.bindResult hkey fun _ _ => rfl

theorem agrees_execCheckSig (fVerify : Bool) (s : EvalState) :
    Agrees (execCheckSig crypto checker flags fVerify s)
      (Binarium.execCheckSig crypto checker flags fVerify s).result := by
  obtain ⟨stack, altstack, vfExec, nOpCount, scriptCode⟩ := s
  rcases stack with _ | ⟨vchPubKey, _ | ⟨vchSig, stack⟩⟩
  · rfl
  · rfl
  · refine Agrees.bindResult (agrees_checkOneSig vchSig vchPubKey _) fun fSuccess _ => ?_
    exact agrees_pushResult _ stack fSuccess fVerify (by simp)

/-! ## Multisignatures -/

theorem popMany_eq (n : ℕ) :
    ∀ {stack : List Valtype}, n ≤ stack.length → popMany n stack = .ok (stack.drop n) := by
  induction n with
  | zero => exact fun _ => rfl
  | succ n ih =>
    intro stack hle
    cases stack with
    | nil => simp at hle
    | cons x stack => exact ih (le_of_succ_le_succ hle)

/-- A segment of the stack starts with the element at its cursor. -/
theorem take_drop_succ {i n : ℕ} (h : i < stack.length) :
    (stack.drop i).take (n + 1) = stack.getD i [] :: (stack.drop (i + 1)).take n := by
  rw [drop_eq_getElem_cons h, take_succ_cons, getD_eq_getElem _ _ h]

theorem deleteLoop_eq {j : ℕ} (left : ℕ) :
    ∀ {k : ℕ} {scriptCode : CScript}, j + k + left ≤ stack.length →
      deleteLoop stack ((j : ℤ) + 1) left k scriptCode
        = .ok (((stack.drop (j + k)).take left).foldl
            (fun code vchSig => findAndDelete code (pushScript vchSig)) scriptCode) := by
  induction left with
  | zero => exact fun _ => rfl
  | succ left ih =>
    intro k scriptCode hle
    have hcursor : -((j : ℤ) + 1) - k = -((j + k : ℕ) : ℤ) - 1 := by omega
    have hk : (k : ℤ) + 1 = ((k + 1 : ℕ) : ℤ) := by omega
    rw [deleteLoop, hcursor, stacktop_eq (by omega), take_drop_succ (by omega), foldl_cons]
    show deleteLoop stack ((j : ℤ) + 1) left ((k : ℤ) + 1) _ = _
    rw [hk, ih (by omega)]
    rfl

/-- **The loop over the keys** reads the segments of the stack, and ends. -/
theorem agrees_multiSigLoop (stack : List Valtype) (scriptCode : CScript) (nKeys : ℕ) :
    ∀ {nSigs i j : ℕ}, i + nKeys ≤ stack.length → j + nSigs ≤ stack.length → nSigs ≤ nKeys →
      Agrees (multiSigLoop crypto checker flags stack scriptCode nKeys ((j : ℤ) + 1) ((i : ℤ) + 1)
          nSigs nKeys)
        (checkSigs crypto checker flags scriptCode ((stack.drop i).take nKeys)
          ((stack.drop j).take nSigs)).result := by
  induction nKeys with
  | zero =>
    intro nSigs i j _ _ hle
    obtain rfl : nSigs = 0 := by omega
    rfl
  | succ nKeys ih =>
    intro nSigs i j hkeys hsigs hle
    rw [multiSigLoop]
    cases nSigs with
    | zero =>
      rw [if_neg (by simp), take_drop_succ (by omega)]
      rfl
    | succ nSigs =>
      have hkeyAt : -((i : ℤ) + 1) = -(i : ℤ) - 1 := by omega
      have hsigAt : -((j : ℤ) + 1) = -(j : ℤ) - 1 := by omega
      rw [if_pos (by omega), take_drop_succ (by omega), take_drop_succ (by omega), hkeyAt, hsigAt,
        stacktop_eq (by omega), stacktop_eq (by omega)]
      refine Agrees.bindResult (agrees_checkOneSig _ _ scriptCode) fun fOk _ => ?_
      have hkeysLength : ((stack.drop (i + 1)).take nKeys).length = nKeys := by
        rw [length_take, length_drop]
        omega
      have hsigsLength : ((stack.drop (j + 1)).take nSigs).length = nSigs := by
        rw [length_take, length_drop]
        omega
      have hkeysLeft : ((nKeys + 1 : ℕ) : ℤ) - 1 = nKeys := by omega
      have hikey : (i : ℤ) + 1 + 1 = ((i + 1 : ℕ) : ℤ) + 1 := by omega
      cases fOk with
      | true =>
        have hsigsLeft : ((nSigs + 1 : ℕ) : ℤ) - 1 = nSigs := by omega
        have hisig : (j : ℤ) + 1 + 1 = ((j + 1 : ℕ) : ℤ) + 1 := by omega
        simp only [if_true, hsigsLength, hkeysLength, hkeysLeft, hsigsLeft, hikey, hisig]
        rw [if_neg (by omega), if_neg (by omega)]
        exact ih (by omega) (by omega) (by omega)
      | false =>
        simp only [Bool.false_eq_true, if_false, length_cons, hsigsLength, hkeysLength,
          hkeysLeft, hikey]
        by_cases hmore : nSigs + 1 > nKeys
        · rw [if_pos (by omega), if_pos hmore]
          rfl
        · rw [if_neg (by omega), if_neg hmore, ← take_drop_succ (by omega)]
          exact ih (by omega) (by omega) (by omega)

/-- The check of the size against a cursor. -/
theorem agrees_needInt {i : ℤ} {n : ℕ} (h : i = n) (stack : List Valtype) :
    Agrees (needInt i stack)
      (Counted.ensure (decide (n ≤ stack.length)) ScriptError.invalidStackOperation).result := by
  have hiff : decide (i ≤ (stack.length : ℤ)) = decide (n ≤ stack.length) := by
    rw [decide_eq_decide]
    omega
  rw [needInt, hiff]
  exact agrees_require (by simp)

/-- A count at a cursor, as a natural number. -/
theorem countAt_eq {i : ℤ} {p limit : ℕ} (hi : i = -(p : ℤ) - 1) (hp : p < stack.length)
    (h : serror ≠ .unknownError) :
    countAt flags stack i limit serror
      = ((readCount flags (stack.getD p []) limit serror).mapError toFault).map Nat.cast := by
  subst hi
  have hnumber : Agrees (scriptNum (fRequireMinimal flags) nDefaultMaxNumSize (stack.getD p []))
      (Binarium.scriptNum (fRequireMinimal flags) nDefaultMaxNumSize (stack.getD p [])) :=
    agrees_scriptNum (by decide) _
  rw [countAt, numberAt, stacktop_eq hp, readCount]
  show (scriptNum (fRequireMinimal flags) nDefaultMaxNumSize (stack.getD p []) >>= _) = _
  rw [hnumber]
  cases Binarium.scriptNum (fRequireMinimal flags) nDefaultMaxNumSize (stack.getD p []) with
  | error e => rfl
  | ok number =>
    show (if getInt number < 0 ∨ getInt number > (limit : ℤ) then _ else _)
      = Except.map _ (Except.mapError toFault
        (if getInt number < 0 ∨ getInt number > (limit : ℤ) then _ else _))
    split
    next => cases serror <;> first | exact absurd rfl h | rfl
    next hrange => exact congrArg Except.ok (Int.toNat_of_nonneg (by omega)).symm

/-- What follows the two loops. -/
theorem agrees_consume {dummy : Valtype} {rest : List Valtype} (nOpCount : ℕ)
    (fSuccess fVerify : Bool) :
    Agrees (do
        need 1 (dummy :: rest)
        nullDummy flags (dummy :: rest)
        let stack ← popstack (dummy :: rest)
        let stack ← pushResult stack fSuccess fVerify .checkMultiSigVerify
        .ok { s with stack, nOpCount })
      (do
        Counted.lift (whenFlag flags SCRIPT_VERIFY_NULLDUMMY
          (Checks.require (decide (dummy.length = 0)) .sigNullDummy))
        Counted.lift ({ s with nOpCount }.pushCheck rest fSuccess fVerify
          .checkMultiSigVerify) : Counted ScriptError EvalState).result := by
  have hnull : Agrees (nullDummy flags (dummy :: rest)) (whenFlag flags SCRIPT_VERIFY_NULLDUMMY
      (Checks.require (decide (dummy.length = 0)) .sigNullDummy)) := by
    unfold nullDummy whenFlag
    split
    next => exact agrees_require (by simp)
    next => rfl
  show Agrees (nullDummy flags (dummy :: rest) >>= _) _
  refine Agrees.bindResult hnull fun _ _ => ?_
  exact agrees_pushResult { s with nOpCount } rest fSuccess fVerify (by simp)

/-- **Multisignatures agree**: the cursors stay inside the stack. -/
theorem agrees_execCheckMultiSig (fVerify : Bool) (s : EvalState) :
    Agrees (execCheckMultiSig crypto checker flags fVerify s)
      (Binarium.execCheckMultiSig crypto checker flags fVerify s).result := by
  refine Agrees.bindResult (agrees_needInt rfl s.stack) fun _ hone => ?_
  have hone : 1 ≤ s.stack.length := of_decide_eq_true (require_eq_ok_iff.mp hone)
  refine Agrees.bindCounted Nat.cast (countAt_eq (by rfl) hone (by simp)) fun nKeys _ => ?_
  refine Agrees.bindResult (agrees_require (by simp)) fun _ _ => ?_
  refine Agrees.bindResult (agrees_needInt (n := 2 + nKeys) (by omega) s.stack) fun _ htwo => ?_
  have htwo : 2 + nKeys ≤ s.stack.length := of_decide_eq_true (require_eq_ok_iff.mp htwo)
  refine Agrees.bindCounted Nat.cast (countAt_eq (p := 1 + nKeys) (by omega) (by omega) (by simp))
    fun nSigs hnSigs => ?_
  have hle : nSigs ≤ nKeys := by
    obtain ⟨number, -, hcount⟩ := bind_eq_ok_iff.mp hnSigs
    dsimp only at hcount
    split at hcount
    next => simp at hcount
    next hrange =>
      cases hcount
      omega
  refine Agrees.bindResult (agrees_needInt (n := 3 + nKeys + nSigs) (by omega) s.stack)
    fun _ hthree => ?_
  have hthree : 3 + nKeys + nSigs ≤ s.stack.length :=
    of_decide_eq_true (require_eq_ok_iff.mp hthree)
  have hisig : (1 : ℤ) + 1 + (nKeys : ℤ) + 1 = ((2 + nKeys : ℕ) : ℤ) + 1 := by omega
  have hpops : (1 + 1 + (nKeys : ℤ) + 1 + (nSigs : ℤ) - 1).toNat = 2 + nKeys + nSigs := by omega
  have hdelete : deleteLoop s.stack (((2 + nKeys : ℕ) : ℤ) + 1) nSigs 0 s.scriptCode
      = .ok (((s.stack.drop (2 + nKeys)).take nSigs).foldl
          (fun code vchSig => findAndDelete code (pushScript vchSig)) s.scriptCode) :=
    @deleteLoop_eq s.stack (2 + nKeys) nSigs 0 s.scriptCode (by omega)
  have hlast : 2 + nKeys + nSigs < s.stack.length := by omega
  rw [hpops, hisig, Int.toNat_natCast, hdelete, popMany_eq _ (by omega),
    drop_eq_getElem_cons hlast]
  show Agrees (multiSigLoop crypto checker flags s.stack _ nKeys (((2 + nKeys : ℕ) : ℤ) + 1)
    (((1 : ℕ) : ℤ) + 1) nSigs nKeys >>= _) _
  refine Agrees.bindResult (agrees_multiSigLoop s.stack _ nKeys (by omega) (by omega) hle)
    fun fSuccess _ => ?_
  exact agrees_consume _ fSuccess fVerify

/-! ## The loop of `EvalScript` -/

theorem agrees_execOp (hs : StackOk s) (rest : CScript) {op : Op}
    (hnumber : ∀ n, op = .pushNumber n → |n| ≤ 2 ^ 62) :
    Agrees (execOp crypto checker flags rest s op)
      (Binarium.execOp crypto checker flags rest s op).result := by
  have hplain : Agrees (execPlain crypto checker flags rest s op)
      (Binarium.execPlain crypto checker flags rest s op) := agrees_execPlain hs rest hnumber
  cases op with
  | checkSig fVerify => exact agrees_execCheckSig fVerify s
  | checkMultiSig fVerify => exact agrees_execCheckMultiSig fVerify s
  | _ => exact hplain

theorem abs_le_of_decodeOp (opcode : OpCode) :
    ∀ n, decodeOp opcode = .pushNumber n → |n| ≤ 2 ^ 62 := by
  have hall : ∀ opcode : OpCode, (match decodeOp opcode with
      | .pushNumber n => decide (|n| ≤ 2 ^ 62)
      | _ => true) = true := by decide +kernel
  intro n hn
  have h := hall opcode
  rw [hn] at h
  exact of_decide_eq_true h

section

variable (hs : StackOk s) (instr : Instruction)

include hs

theorem agrees_dispatch :
    Agrees (dispatch crypto checker flags instr s)
      (Binarium.dispatch crypto checker flags instr s).result := by
  unfold dispatch Binarium.dispatch
  split
  next =>
    have hminimal : Agrees
        (require (!(fRequireMinimal flags && !checkMinimalPush instr.vch instr.opcode)) .minimalData)
        (whenFlag flags SCRIPT_VERIFY_MINIMALDATA
          (Checks.require (checkMinimalPush instr.vch instr.opcode) .minimalData)) := by
      unfold whenFlag fRequireMinimal
      cases hasFlag flags SCRIPT_VERIFY_MINIMALDATA <;>
        cases checkMinimalPush instr.vch instr.opcode <;> rfl
    exact Agrees.bindResult hminimal fun _ _ => rfl
  next =>
    split
    next => exact agrees_execOp hs instr.rest (abs_le_of_decodeOp instr.opcode)
    next => rfl

theorem StackOk.countOp : StackOk (countOp instr s) := ⟨hs.size, hs.small⟩

/-- **One instruction agrees.** -/
theorem agrees_evalOp :
    Agrees (evalOp crypto checker flags instr s)
      (Binarium.evalOp crypto checker flags instr s).result := by
  refine Agrees.bindResult (agrees_require (by simp)) fun _ _ => ?_
  refine Agrees.bindResult (agrees_require (by simp)) fun _ _ => ?_
  refine Agrees.bindResult (agrees_require (by simp)) fun _ _ => ?_
  refine Agrees.bindResult (agrees_dispatch (hs.countOp instr) instr) fun s' _ => ?_
  exact Agrees.bindResult (agrees_require (by simp)) fun _ _ => rfl

end

/-! ## Sizes of elements -/

theorem small_cons : Small (vch :: stack) ↔ vch.length ≤ MAX_SCRIPT_ELEMENT_SIZE ∧ Small stack :=
  forall_mem_cons

theorem Small.tail (h : Small (vch :: stack)) : Small stack := (small_cons.mp h).2

theorem length_absBytes_le (width n : ℕ) : (absBytes width n).length ≤ width := by
  induction width generalizing n with
  | zero => exact le_refl 0
  | succ width ih =>
    rw [absBytes]
    split
    next => exact zero_le _
    next => exact succ_le_succ (ih _)

theorem length_scriptNumSerialize_le (value : ℤ) :
    (scriptNumSerialize value).length ≤ MAX_SCRIPT_ELEMENT_SIZE := by
  have hmax : MAX_SCRIPT_ELEMENT_SIZE = 520 := rfl
  have hle := length_absBytes_le 8 value.natAbs
  unfold scriptNumSerialize
  dsimp only
  split
  next => exact zero_le _
  next back _ =>
    split
    next => rw [length_append, length_singleton]; omega
    next =>
      split
      next => rw [length_append, length_dropLast, length_singleton]; omega
      next => omega

/-- What is moved was there, except for numbers. -/
theorem mem_of_move {op : StackOp} {stack' : List Valtype} (h : op.move stack = some stack')
    (hvch : vch ∈ stack') : vch ∈ stack ∨ ∃ n : ℤ, vch = scriptNumSerialize n := by
  unfold StackOp.move at h
  split at h
  all_goals
    grind

/-- The sizes of the hashes, which `EvalScript` allocates. -/
structure HashSizes (crypto : ScriptCrypto) : Prop where
  ripemd160 : ∀ vch, (crypto.ripemd160 vch).length = 20
  sha1 : ∀ vch, (crypto.sha1 vch).length = 20
  sha256 : ∀ vch, (crypto.sha256 vch).length = 32

theorem length_hash_le (hcrypto : HashSizes crypto) (op : HashOp) (vch : Valtype) :
    (op.apply crypto vch).length ≤ MAX_SCRIPT_ELEMENT_SIZE := by
  have hmax : MAX_SCRIPT_ELEMENT_SIZE = 520 := rfl
  cases op with
  | ripemd160 => exact (hcrypto.ripemd160 vch).trans_le (by omega)
  | sha1 => exact (hcrypto.sha1 vch).trans_le (by omega)
  | sha256 => exact (hcrypto.sha256 vch).trans_le (by omega)
  | hash160 => exact (hcrypto.ripemd160 _).trans_le (by omega)
  | hash256 => exact (hcrypto.sha256 _).trans_le (by omega)

theorem small_pushCheck {fSuccess fVerify : Bool} (hstack : Small stack) (halt : Small s.altstack) :
    Ensures (s.pushCheck stack fSuccess fVerify serror) SmallState := by
  refine .ite (.ite (.ok ⟨hstack, halt⟩) .error) (.ok ⟨small_cons.mpr ⟨?_, hstack⟩, halt⟩)
  cases fSuccess <;> decide

theorem small_execStackOp (hs : SmallState s) (op : StackOp) : Ensures (op.exec s) SmallState := by
  obtain ⟨stack, altstack, vfExec, nOpCount, scriptCode⟩ := s
  unfold StackOp.exec
  split
  next =>
    rcases stack with _ | ⟨x, stack⟩
    · exact .error
    · exact .ite (.ok ⟨hs.1.tail, hs.2⟩) .error
  next => exact .error
  next =>
    rcases stack with _ | ⟨x, stack⟩
    · exact .error
    · exact .ok ⟨hs.1.tail, small_cons.mpr ⟨(small_cons.mp hs.1).1, hs.2⟩⟩
  next =>
    rcases altstack with _ | ⟨x, altstack⟩
    · exact .error
    · exact .ok ⟨small_cons.mpr ⟨(small_cons.mp hs.2).1, hs.1⟩, hs.2.tail⟩
  next =>
    split
    next => exact .error
    next stack' hmove =>
      refine .ok ⟨fun vch hvch => ?_, hs.2⟩
      rcases mem_of_move hmove hvch with hold | ⟨n, rfl⟩
      · exact hs.1 vch hold
      · exact length_scriptNumSerialize_le n

theorem small_execPick (hs : SmallState s) (roll : Bool) :
    Ensures (Binarium.execPick flags roll s) SmallState := by
  unfold Binarium.execPick
  split
  next top x rest hstack =>
    have hrest : Small (x :: rest) := Small.tail (hstack ▸ hs.1)
    refine .bind fun number _ => .ite .error ?_
    split
    next => exact .error
    next vch hvch =>
      refine .ok ⟨small_cons.mpr ⟨hrest vch (mem_of_getElem? hvch), ?_⟩, hs.2⟩
      cases roll with
      | false => exact hrest
      | true => exact fun y hy => hrest y (mem_of_mem_eraseIdx hy)
  next => exact .error

theorem small_checkLock (hs : SmallState s) (flag : ScriptFlags) (check : ℤ → Bool) :
    Ensures (Binarium.checkLock flags flag check s) SmallState := by
  refine .ite (.ite .error (.ok hs)) ?_
  split
  next => exact .error
  next => exact .bind fun n _ => .ite .error (.ite .error (.ok hs))

/-- **The plain operations** leave elements that are not too long. -/
theorem small_execPlain (hcrypto : HashSizes crypto) (hs : SmallState s) (rest : CScript) (op : Op) :
    Ensures (Binarium.execPlain crypto checker flags rest s op) SmallState := by
  obtain ⟨stack, altstack, vfExec, nOpCount, scriptCode⟩ := s
  cases op with
  | checkLockTimeVerify | checkSequenceVerify => exact small_checkLock hs _ _
  | onStack op => exact small_execStackOp hs op
  | pick roll => exact small_execPick hs roll
  | pushNumber n => exact .ok ⟨small_cons.mpr ⟨length_scriptNumSerialize_le n, hs.1⟩, hs.2⟩
  | upgradableNop => exact .ite .error (.ok hs)
  | conditional negated =>
    refine .ite ?_ (.ok hs)
    rcases stack with _ | ⟨vch, stack⟩
    · exact .error
    · exact .ok ⟨hs.1.tail, hs.2⟩
  | otherwise | endIf =>
    rcases vfExec with _ | ⟨c, vfExec⟩
    · exact .error
    · exact .ok hs
  | equal fVerify =>
    rcases stack with _ | ⟨vch2, _ | ⟨vch1, stack⟩⟩
    · exact .error
    · exact .error
    · exact small_pushCheck hs.1.tail.tail hs.2
  | unary op =>
    rcases stack with _ | ⟨vch, stack⟩
    · exact .error
    · refine .bind fun bn _ => .ok ⟨small_cons.mpr ⟨?_, hs.1.tail⟩, hs.2⟩
      exact length_scriptNumSerialize_le _
  | binary op fVerify =>
    rcases stack with _ | ⟨vch2, _ | ⟨vch1, stack⟩⟩
    · exact .error
    · exact .error
    · have hrest := hs.1.tail.tail
      refine .bind fun bn1 _ => .bind fun bn2 _ => .ite (.ite (.ok ⟨hrest, hs.2⟩) .error) ?_
      exact .ok ⟨small_cons.mpr ⟨length_scriptNumSerialize_le _, hrest⟩, hs.2⟩
  | within =>
    rcases stack with _ | ⟨vch3, _ | ⟨vch2, _ | ⟨vch1, stack⟩⟩⟩
    · exact .error
    · exact .error
    · exact .error
    · refine .bind fun bn1 _ => .bind fun bn2 _ => .bind fun bn3 _ => ?_
      exact small_pushCheck hs.1.tail.tail.tail hs.2
  | hash op =>
    rcases stack with _ | ⟨vch, stack⟩
    · exact .error
    · exact .ok ⟨small_cons.mpr ⟨length_hash_le hcrypto op vch, hs.1.tail⟩, hs.2⟩
  | nop | codeSeparator => exact .ok hs
  | checkSig | checkMultiSig | bad => exact .error

theorem small_execCheckSig (hs : SmallState s) (fVerify : Bool) :
    Ensures (Binarium.execCheckSig crypto checker flags fVerify s).result SmallState := by
  unfold Binarium.execCheckSig
  split
  next vchPubKey vchSig stack hstack =>
    have hrest : Small stack := (Small.tail (hstack ▸ hs.1)).tail
    exact ensures_bind fun fSuccess _ => small_pushCheck hrest hs.2
  next => exact .error

theorem small_execCheckMultiSig (hs : SmallState s) (fVerify : Bool) :
    Ensures (Binarium.execCheckMultiSig crypto checker flags fVerify s).result SmallState := by
  refine ensures_bind fun _ _ => ensures_bind fun nKeys _ => ensures_bind fun _ _ =>
    ensures_bind fun _ _ => ensures_bind fun nSigs _ => ensures_bind fun _ _ =>
      ensures_bind fun fSuccess _ => ?_
  split
  next => exact .error
  next dummy stack hdrop =>
    refine ensures_bind fun _ _ => small_pushCheck (fun vch hvch => hs.1 vch ?_) hs.2
    exact mem_of_mem_drop (hdrop ▸ mem_cons_of_mem dummy hvch)

theorem small_dispatch (hcrypto : HashSizes crypto) {instr : Instruction}
    (hvch : instr.vch.length ≤ MAX_SCRIPT_ELEMENT_SIZE) (hs : SmallState s) :
    Ensures (Binarium.dispatch crypto checker flags instr s).result SmallState := by
  unfold Binarium.dispatch
  split
  next => exact ensures_bind fun _ _ => .ok ⟨small_cons.mpr ⟨hvch, hs.1⟩, hs.2⟩
  next =>
    split
    next =>
      unfold Binarium.execOp
      split
      next => exact small_execCheckSig hs _
      next => exact small_execCheckMultiSig hs _
      next => exact small_execPlain hcrypto hs _ _
    next => exact .ok hs

/-- **One instruction** keeps the sizes. -/
theorem stackOk_of_evalOp (hcrypto : HashSizes crypto) {instr : Instruction} (hs : StackOk s) :
    Ensures (Binarium.evalOp crypto checker flags instr s).result StackOk := by
  refine ensures_bind fun _ hvch => ensures_bind fun _ _ => ensures_bind fun _ _ =>
    ensures_bind fun s₁ hdispatch => ensures_bind fun _ hsize => ?_
  have hsmall := small_dispatch (s := countOp instr s) hcrypto
    (of_decide_eq_true (require_eq_ok_iff.mp hvch)) hs.small s₁ hdispatch
  exact .ok ⟨of_decide_eq_true (require_eq_ok_iff.mp hsize), hsmall⟩

/-- **The whole script** agrees and keeps the sizes. -/
theorem agrees_evalCode (hcrypto : HashSizes crypto) (code : Code) :
    ∀ {s : EvalState}, StackOk s →
      Agrees (evalCode crypto checker flags code s)
        (Binarium.evalCode crypto checker flags code s).result ∧
      Ensures (Binarium.evalCode crypto checker flags code s).result StackOk := by
  induction code with
  | done => exact fun hs => ⟨rfl, .ok hs⟩
  | bad => exact fun _ => ⟨rfl, .error⟩
  | op instr next ih =>
    intro s hs
    exact ⟨Agrees.bindResult (agrees_evalOp hs instr) fun s₁ hs₁ =>
        (ih (stackOk_of_evalOp hcrypto hs s₁ hs₁)).1,
      ensures_bind fun s₁ hs₁ => (ih (stackOk_of_evalOp hcrypto hs s₁ hs₁)).2⟩

theorem stackOk_initial (hsize : stack.length ≤ 1000) (hsmall : Small stack) (script : CScript) :
    StackOk { stack, scriptCode := script } :=
  ⟨hsize, hsmall, by simp [Small]⟩

theorem agrees_evalScript (hcrypto : HashSizes crypto) (hsize : stack.length ≤ 1000)
    (hsmall : Small stack) (script : CScript) :
    Agrees (evalScript crypto checker flags stack script)
      (Binarium.evalScript crypto checker flags stack script).result := by
  refine Agrees.bindResult (agrees_require (by simp)) fun _ _ => ?_
  refine Agrees.bindResult
    (agrees_evalCode hcrypto script.code (stackOk_initial hsize hsmall script)).1 fun s _ => ?_
  exact Agrees.bindResult (agrees_require (by simp)) fun _ _ => rfl

/-- **`EvalScript` is safe.** For every script, all flags and every stack of at most 1000 elements of at
    most 520 bytes, it never reads, pops, erases or inserts outside of a stack, no assertion of
    `CScriptNum` fails and no 64-bit operation overflows: it ends with an error that it returns, or with
    the exception for numbers, or with a stack of at most 1000 elements of at most 520 bytes. It leaves
    the stack that the interpreter computes. -/
theorem evalScript_safe (crypto : ScriptCrypto) (checker : BaseSignatureChecker) (flags : ScriptFlags)
    (script : CScript) (stack : List Valtype) (hcrypto : HashSizes crypto)
    (hsize : stack.length ≤ 1000) (hsmall : ∀ vch ∈ stack, vch.length ≤ MAX_SCRIPT_ELEMENT_SIZE) :
    (∀ fault, evalScript crypto checker flags stack script = .error fault →
      fault = .scriptNum ∨ ∃ serror, fault = .error serror) ∧
    ∀ stack', evalScript crypto checker flags stack script = .ok stack' →
      stack'.length ≤ 1000 ∧ (∀ vch ∈ stack', vch.length ≤ MAX_SCRIPT_ELEMENT_SIZE) ∧
        (Binarium.evalScript crypto checker flags stack script).result = .ok stack' := by
  have hagrees : Agrees (evalScript crypto checker flags stack script) _ :=
    agrees_evalScript hcrypto hsize hsmall script
  refine ⟨fun fault hfault => ?_, fun stack' hok => ?_⟩
  · rw [hagrees] at hfault
    cases hresult : (Binarium.evalScript crypto checker flags stack script).result with
    | ok a =>
      rw [hresult] at hfault
      cases hfault
    | error e =>
      rw [hresult] at hfault
      cases hfault
      cases e with
      | unknownError => exact Or.inl rfl
      | _ => exact Or.inr ⟨_, rfl⟩
  · rw [hagrees, mapError_eq_ok_iff] at hok
    obtain ⟨_, -, h⟩ := result_bind_eq_ok.mp hok
    obtain ⟨s, hcode, h⟩ := result_bind_eq_ok.mp h
    obtain ⟨_, -, h⟩ := result_bind_eq_ok.mp h
    cases h
    have hs := (agrees_evalCode hcrypto script.code (stackOk_initial hsize hsmall script)).2 s hcode
    exact ⟨le_of_add_right_le hs.size, hs.small.1, hok⟩

end

/-- Hash functions with nothing but the right sizes. -/
def zeroCrypto : ScriptCrypto :=
  ⟨fun _ => List.replicate 20 0, fun _ => List.replicate 20 0, fun _ => List.replicate 32 0,
    fun _ => true⟩

theorem hashSizes_zeroCrypto : HashSizes zeroCrypto := ⟨fun _ => rfl, fun _ => rfl, fun _ => rfl⟩

/-- A checker that accepts nothing. -/
def noChecker : BaseSignatureChecker := ⟨fun _ _ _ => false, fun _ => false, fun _ => false⟩

/-- `1 ADD 0 PICK` on a two. -/
theorem evalScript_safe_pick :
    evalScript zeroCrypto noChecker 0 [[2]] [0x51, 0x93, 0x00, 0x79] = .ok [[3], [3]] ∧
      [[3], [3]].length ≤ 1000 ∧
      (∀ vch ∈ ([[3], [3]] : List Valtype), vch.length ≤ MAX_SCRIPT_ELEMENT_SIZE) ∧
      (Binarium.evalScript zeroCrypto noChecker 0 [[2]] [0x51, 0x93, 0x00, 0x79]).result
        = .ok [[3], [3]] := by
  have hrun : evalScript zeroCrypto noChecker 0 [[2]] [0x51, 0x93, 0x00, 0x79] = .ok [[3], [3]] := rfl
  exact ⟨hrun, (evalScript_safe zeroCrypto noChecker 0 [0x51, 0x93, 0x00, 0x79] [[2]]
    hashSizes_zeroCrypto (by decide) (by decide)).2 [[3], [3]] hrun⟩

end Binarium.Machine
