import Binarium.Script.Interpreter

set_option autoImplicit false

/-! # Flags are soft forks

A flag of script verification only adds ways to fail: what succeeds under a set of flags succeeds under
every smaller one, and with the same stack. For `EvalScript` there is one exception,
`SCRIPT_VERIFY_DISCOURAGE_UPGRADABLE_NOPS`, which makes an opcode fail whose own flag is *not* set, so
the smaller set must not have it. `VerifyScript` moreover asserts that `SCRIPT_VERIFY_CLEANSTACK` comes
with `SCRIPT_VERIFY_P2SH`.

Every part of the interpreter has a lemma that takes its result under the larger set to the smaller one,
in the order of the calls. -/

namespace Binarium

open Counted (Implies)

/-- The flags `F` are among the flags `G`, and do not discourage the opcodes that `G` may define. -/
structure SofterThan (F G : ScriptFlags) : Prop where
  subset : F &&& G = F
  allowsNops : hasFlag F SCRIPT_VERIFY_DISCOURAGE_UPGRADABLE_NOPS = false

section
variable {F G : ScriptFlags}

theorem hasFlag_of_subset (hsub : F &&& G = F) {flag : ScriptFlags}
    (hflag : hasFlag F flag) : hasFlag G flag := by
  simp only [hasFlag, bne_iff_ne] at hflag ⊢
  intro hG
  apply hflag
  calc F &&& flag = F &&& (G &&& flag) := by rw [← BitVec.and_assoc, hsub]
    _ = 0 := by rw [hG]; exact BitVec.and_zero

theorem whenFlag_softer (h : SofterThan F G) (flag : ScriptFlags) (check : Except ScriptError Unit) :
    Checks.Implies (whenFlag G flag check) (whenFlag F flag check) := by
  intro _ hG
  unfold whenFlag at hG ⊢
  cases hF : hasFlag F flag with
  | false => rfl
  | true => rwa [hasFlag_of_subset h.subset hF] at hG

/-! ## Encodings and numbers -/

theorem scriptNum_softer (h : SofterThan F G) (size : ℕ) (vch : Valtype) :
    Checks.Implies (scriptNum (fRequireMinimal G) size vch)
      (scriptNum (fRequireMinimal F) size vch) := by
  intro n hG
  unfold scriptNum at hG ⊢
  split_ifs at hG with hsize hmin
  rw [if_neg hsize, if_neg]
  · exact hG
  · intro hF
    rw [Bool.and_eq_true] at hF
    apply hmin
    rw [Bool.and_eq_true]
    exact ⟨hasFlag_of_subset h.subset hF.1, hF.2⟩

theorem readCount_softer (h : SofterThan F G) (vch : Valtype) (limit : ℕ) (serror : ScriptError) :
    Checks.Implies (readCount G vch limit serror) (readCount F vch limit serror) :=
  (scriptNum_softer h _ vch).bind fun _ => .refl _

theorem checkPubKeyEncoding_softer (h : SofterThan F G) (vch : Valtype) :
    Checks.Implies (checkPubKeyEncoding G vch) (checkPubKeyEncoding F vch) :=
  whenFlag_softer h _ _

variable (crypto : ScriptCrypto) (checker : BaseSignatureChecker)

theorem checkSignatureEncoding_softer (h : SofterThan F G) (vch : Valtype) :
    Checks.Implies (checkSignatureEncoding crypto G vch) (checkSignatureEncoding crypto F vch) := by
  unfold checkSignatureEncoding
  split
  · exact .refl _
  · refine (whenFlag_softer h _ _).bind fun _ => ?_
    refine (whenFlag_softer h _ _).bind fun _ => ?_
    exact whenFlag_softer h _ _

/-! ## Operations -/

theorem checkLock_state {flag : ScriptFlags} {check : ℤ → Bool} {s s' : EvalState}
    (hG : checkLock G flag check s = .ok s') : s' = s := by
  unfold checkLock at hG
  split_ifs at hG
  · exact (Except.ok.inj hG).symm
  · split at hG
    · simp at hG
    · obtain ⟨n, -, hn⟩ := Checks.bind_eq_ok_iff.mp hG
      split_ifs at hn
      exact (Except.ok.inj hn).symm

section

variable (h : SofterThan F G)

include h

/-- An opcode whose flag is not in the smaller set is a no-op there, since it is not discouraged. -/
theorem checkLock_softer (flag : ScriptFlags) (check : ℤ → Bool)
    (s : EvalState) : Checks.Implies (checkLock G flag check s) (checkLock F flag check s) := by
  cases hF : hasFlag F flag with
  | false =>
    intro s' hG
    rw [checkLock_state hG, checkLock, hF, h.allowsNops]
    rfl
  | true =>
    unfold checkLock
    rw [hF, hasFlag_of_subset h.subset hF, if_neg (by simp), if_neg (by simp)]
    split
    · exact .refl _
    · exact (scriptNum_softer h _ _).bind fun _ => .refl _

theorem execPick_softer (roll : Bool) (s : EvalState) :
    Checks.Implies (execPick G roll s) (execPick F roll s) := by
  unfold execPick
  split
  · exact (scriptNum_softer h _ _).bind fun _ => .refl _
  · exact .refl _

/-- Most cases do not read the flags; the others read numbers or are no-ops with a flag. -/
theorem execPlain_softer (rest : CScript) (s : EvalState) (op : Op) :
    Checks.Implies (execPlain crypto checker G rest s op) (execPlain crypto checker F rest s op) := by
  cases op with
  | checkLockTimeVerify | checkSequenceVerify => exact checkLock_softer h _ _ s
  | upgradableNop =>
    intro s' hG
    simp only [execPlain] at hG ⊢
    split_ifs at hG
    rwa [h.allowsNops]
  | pick roll => exact execPick_softer h roll s
  | unary op =>
    simp only [execPlain]
    split
    · exact .refl _
    · exact (scriptNum_softer h _ _).bind fun _ => .refl _
  | binary op fVerify =>
    simp only [execPlain]
    split
    · refine (scriptNum_softer h _ _).bind fun _ => ?_
      exact (scriptNum_softer h _ _).bind fun _ => .refl _
    · exact .refl _
  | within =>
    simp only [execPlain]
    split
    · refine (scriptNum_softer h _ _).bind fun _ => ?_
      refine (scriptNum_softer h _ _).bind fun _ => ?_
      exact (scriptNum_softer h _ _).bind fun _ => .refl _
    · exact .refl _
  | _ => exact .refl _

theorem checkOneSig_softer (vchSig vchPubKey : Valtype) (code : CScript) :
    Implies (checkOneSig crypto checker G vchSig vchPubKey code)
      (checkOneSig crypto checker F vchSig vchPubKey code) := by
  refine (Implies.lift (checkSignatureEncoding_softer crypto h vchSig)).bind fun _ => ?_
  exact (Implies.lift (checkPubKeyEncoding_softer h vchPubKey)).bind fun _ => .refl _

theorem execCheckSig_softer (fVerify : Bool) (s : EvalState) :
    Implies (execCheckSig crypto checker G fVerify s) (execCheckSig crypto checker F fVerify s) := by
  unfold execCheckSig
  split
  · exact (checkOneSig_softer crypto checker h _ _ _).bind fun _ => .refl _
  · exact .refl _

theorem checkSigs_softer (code : CScript) (keys sigs : List Valtype) :
    Implies (checkSigs crypto checker G code keys sigs)
      (checkSigs crypto checker F code keys sigs) := by
  induction keys generalizing sigs with
  | nil => cases sigs <;> exact .refl _
  | cons key keys ih =>
    cases sigs with
    | nil => exact .refl _
    | cons sig sigs =>
      refine (checkOneSig_softer crypto checker h _ _ _).bind fun fOk => ?_
      dsimp only
      generalize (if fOk then sigs else sig :: sigs) = left
      split
      · exact .refl _
      · exact ih left

theorem execCheckMultiSig_softer (fVerify : Bool) (s : EvalState) :
    Implies (execCheckMultiSig crypto checker G fVerify s)
      (execCheckMultiSig crypto checker F fVerify s) := by
  refine (Implies.refl _).bind fun _ => ?_
  refine (Implies.lift (readCount_softer h _ _ _)).bind fun nKeysCount => ?_
  refine (Implies.refl _).bind fun _ => (Implies.refl _).bind fun _ => ?_
  refine (Implies.lift (readCount_softer h _ _ _)).bind fun nSigsCount => ?_
  refine (Implies.refl _).bind fun _ => ?_
  refine (checkSigs_softer crypto checker h _ _ _).bind fun fSuccess => ?_
  split
  · exact .refl _
  · exact (Implies.lift (whenFlag_softer h _ _)).bind fun _ => .refl _

theorem execOp_softer (rest : CScript) (s : EvalState) (op : Op) :
    Implies (execOp crypto checker G rest s op) (execOp crypto checker F rest s op) := by
  cases op with
  | checkSig fVerify => exact execCheckSig_softer crypto checker h fVerify s
  | checkMultiSig fVerify => exact execCheckMultiSig_softer crypto checker h fVerify s
  | _ => exact Implies.lift (execPlain_softer crypto checker h rest s _)

/-! ## `EvalScript` -/

theorem dispatch_softer (instr : Instruction) (s : EvalState) :
    Implies (dispatch crypto checker G instr s) (dispatch crypto checker F instr s) := by
  unfold dispatch
  split
  · exact (Implies.lift (whenFlag_softer h _ _)).bind fun _ => .refl _
  · split
    · exact execOp_softer crypto checker h _ s _
    · exact .refl _

theorem evalOp_softer (instr : Instruction) (s : EvalState) :
    Implies (evalOp crypto checker G instr s) (evalOp crypto checker F instr s) := by
  refine (Implies.refl _).bind fun _ => (Implies.refl _).bind fun _ => ?_
  refine (Implies.refl _).bind fun _ => ?_
  exact (dispatch_softer crypto checker h instr _).bind fun _ => .refl _

theorem evalCode_softer (code : Code) (s : EvalState) :
    Implies (evalCode crypto checker G code s) (evalCode crypto checker F code s) := by
  induction code generalizing s with
  | done | bad => exact .refl _
  | op instr next ih => exact (evalOp_softer crypto checker h instr s).bind fun s' => ih s'

/-- **`EvalScript` leaves the same stack under fewer flags.** -/
theorem evalScript_softer (stack : List Valtype) (script : CScript) :
    Implies (evalScript crypto checker G stack script) (evalScript crypto checker F stack script) := by
  refine (Implies.refl _).bind fun _ => ?_
  exact (evalCode_softer crypto checker h _ _).bind fun _ => .refl _

/-! ## `VerifyScript` -/

theorem verifyRedeem_softer (scriptSig : CScript) (stackCopy : List Valtype) :
    Implies (verifyRedeem crypto checker G scriptSig stackCopy)
      (verifyRedeem crypto checker F scriptSig stackCopy) := by
  refine (Implies.refl _).bind fun _ => ?_
  split
  · exact .refl _
  · exact (evalScript_softer crypto checker h _ _).bind fun _ => .refl _

/-- With the flag in both sets the third evaluation leaves one stack; without it there is none. -/
theorem verifyP2SH_softer (scriptSig scriptPubKey : CScript) {stackCopy stack stack' : List Valtype}
    (hG : (verifyP2SH crypto checker G scriptSig scriptPubKey stackCopy stack).result = .ok stack') :
    ∃ stack'', (verifyP2SH crypto checker F scriptSig scriptPubKey stackCopy stack).result
        = .ok stack''
      ∧ (hasFlag F SCRIPT_VERIFY_P2SH → stack'' = stack') := by
  unfold verifyP2SH at hG ⊢
  cases hF : hasFlag F SCRIPT_VERIFY_P2SH with
  | false => exact ⟨stack, rfl, by simp⟩
  | true =>
    rw [hasFlag_of_subset h.subset hF] at hG
    refine ⟨stack', ?_, fun _ => rfl⟩
    split_ifs at hG ⊢
    · exact verifyRedeem_softer crypto checker h scriptSig stackCopy stack' hG
    · exact hG

/-- The stack is checked only together with pay-to-script-hash. -/
theorem cleanStack_softer (hclean : hasFlag F SCRIPT_VERIFY_CLEANSTACK → hasFlag F SCRIPT_VERIFY_P2SH)
    {stack stack' : List Valtype} (hstack : hasFlag F SCRIPT_VERIFY_P2SH → stack' = stack)
    (hG : whenFlag G SCRIPT_VERIFY_CLEANSTACK (checkCleanStack G stack) = .ok ()) :
    whenFlag F SCRIPT_VERIFY_CLEANSTACK (checkCleanStack F stack') = .ok () := by
  cases hF : hasFlag F SCRIPT_VERIFY_CLEANSTACK with
  | false => rw [whenFlag, hF]; rfl
  | true =>
    have hp2sh := hclean hF
    rw [whenFlag, hasFlag_of_subset h.subset hF, if_pos rfl] at hG
    rw [whenFlag, hF, if_pos rfl, hstack hp2sh, checkCleanStack, Checks.bind_of_require hp2sh]
    exact (Checks.require_bind hG).2

end

end

/-- **Flags are soft forks.** An input that is valid under flags `G` is valid under all flags `F` among
    them, if `F` does not discourage upgradable opcodes and does not ask for a clean stack without
    pay-to-script-hash. -/
theorem verifyScript_of_more_flags (crypto : ScriptCrypto) (checker : BaseSignatureChecker)
    (F G : ScriptFlags) (scriptSig scriptPubKey : CScript) (hsub : F &&& G = F)
    (hnops : hasFlag F SCRIPT_VERIFY_DISCOURAGE_UPGRADABLE_NOPS = false)
    (hclean : hasFlag F SCRIPT_VERIFY_CLEANSTACK = true → hasFlag F SCRIPT_VERIFY_P2SH = true)
    (hG : (verifyScript crypto checker G scriptSig scriptPubKey).result = .ok ()) :
    (verifyScript crypto checker F scriptSig scriptPubKey).result = .ok () := by
  have h : SofterThan F G := ⟨hsub, hnops⟩
  obtain ⟨_, hpush, hG⟩ := Counted.result_bind_eq_ok.mp hG
  obtain ⟨stackCopy, hsig, hG⟩ := Counted.result_bind_eq_ok.mp hG
  obtain ⟨stack, hpub, hG⟩ := Counted.result_bind_eq_ok.mp hG
  obtain ⟨_, htrue, hG⟩ := Counted.result_bind_eq_ok.mp hG
  obtain ⟨stack', hredeem, hG⟩ := Counted.result_bind_eq_ok.mp hG
  obtain ⟨stack'', hredeem, hsame⟩ := verifyP2SH_softer crypto checker h _ _ hredeem
  refine Counted.result_bind_eq_ok.mpr ⟨(), whenFlag_softer h _ _ () hpush, ?_⟩
  refine Counted.result_bind_eq_ok.mpr
    ⟨stackCopy, evalScript_softer crypto checker h _ _ _ hsig, ?_⟩
  refine Counted.result_bind_eq_ok.mpr ⟨stack, evalScript_softer crypto checker h _ _ _ hpub, ?_⟩
  refine Counted.result_bind_eq_ok.mpr ⟨(), htrue, ?_⟩
  exact Counted.result_bind_eq_ok.mpr ⟨stack'', hredeem, cleanStack_softer h hclean hsame hG⟩

/-- Functions that ignore their input, for a script without hashes and signatures. -/
def noCrypto : ScriptCrypto where
  ripemd160 _ := []
  sha1 _ := []
  sha256 _ := []
  checkLowS _ := false

/-- A checker without valid signatures, for a transaction with lock time 5. -/
def lockTimeChecker : BaseSignatureChecker where
  checkSig _ _ _ := false
  checkLockTime n := decide (n ≤ 5)
  checkSequence _ := false

/-- A lock time of 5 is met, and to those who do not know the opcode it is none. -/
theorem verifyScript_of_more_flags_lockTime :
    hasFlag SCRIPT_VERIFY_P2SH SCRIPT_VERIFY_CHECKLOCKTIMEVERIFY = false
      ∧ (verifyScript noCrypto lockTimeChecker
        (SCRIPT_VERIFY_P2SH ||| SCRIPT_VERIFY_CHECKLOCKTIMEVERIFY) [] [0x55, 0xb1]).result = .ok ()
      ∧ (verifyScript noCrypto lockTimeChecker SCRIPT_VERIFY_P2SH [] [0x55, 0xb1]).result = .ok () :=
  ⟨by decide, by decide +kernel,
    verifyScript_of_more_flags noCrypto lockTimeChecker SCRIPT_VERIFY_P2SH
      (SCRIPT_VERIFY_P2SH ||| SCRIPT_VERIFY_CHECKLOCKTIMEVERIFY) [] [0x55, 0xb1] (by decide)
      (by decide) (by decide) (by decide +kernel)⟩

end Binarium
