import Binarium.Script.Interpreter

set_option autoImplicit false

/-! # Counting signature operations

`GetSigOpCount` bounds the calls of `CheckSig` without running the script. One instruction makes no more
calls than it counts for: the loop of `OP_CHECKMULTISIG` makes at most one call for every key, and when
the opcode before it pushed a small number, that number is on top of the stack, so it is the number of
keys. This is the invariant of the loop (`Announced`).

For pay-to-script-hash the third script is the last element that `scriptSig` pushes. `GetSigOpCount`
takes it from the bytes of `scriptSig`, where an opcode for a small number has no data; the stack then has the
number, whose bytes are a script without signature operations (`LastPush`). -/

namespace Binarium

open Nat Counted CScript

/-! ## The two counts -/

theorem decodeOP_N_le {opcode : OpCode} (h : opcode ≤ OP_16) :
    decodeOP_N opcode ≤ MAX_PUBKEYS_PER_MULTISIG := by
  have hle : opcode.toNat ≤ 0x60 := h
  show opcode.toNat - 0x50 ≤ 20
  omega

theorem sigOpsOf_accurate_le (lastOpcode opcode : OpCode) :
    sigOpsOf true lastOpcode opcode ≤ sigOpsOf false lastOpcode opcode := by
  have hlast := @decodeOP_N_le lastOpcode
  unfold sigOpsOf
  grind

theorem sigOpCount_accurate_le (code : Code) (lastOpcode : OpCode) :
    code.sigOpCount true lastOpcode ≤ code.sigOpCount false lastOpcode := by
  induction code generalizing lastOpcode with
  | done | bad => exact le_rfl
  | op instr next ih =>
    exact Nat.add_le_add (sigOpsOf_accurate_le lastOpcode instr.opcode) (ih instr.opcode)

/-- The accurate count knows the keys of a multisignature. -/
example : getSigOpCount [0x53, 0xae] true = 3 ∧ getSigOpCount [0x53, 0xae] false = 20 := by
  decide

/-! ## Calls of one instruction -/

section
variable (crypto : ScriptCrypto) (checker : BaseSignatureChecker) (flags : ScriptFlags)

theorem count_checkOneSig_le (vchSig vchPubKey : Valtype) (code : CScript) :
    (checkOneSig crypto checker flags vchSig vchPubKey code).count ≤ 1 := by
  refine count_bind_le_of_zero rfl fun _ _ => ?_
  exact count_bind_le_of_zero rfl fun _ _ => le_rfl

theorem count_execCheckSig_le (fVerify : Bool) (s : EvalState) :
    (execCheckSig crypto checker flags fVerify s).count ≤ 1 := by
  unfold execCheckSig
  split
  · exact count_bind_le_left (count_checkOneSig_le crypto checker flags _ _ _) fun _ => rfl
  · simp

theorem count_checkSigs_le (code : CScript) (keys sigs : List Valtype) :
    (checkSigs crypto checker flags code keys sigs).count ≤ keys.length := by
  induction keys generalizing sigs with
  | nil => cases sigs <;> exact le_rfl
  | cons key keys ih =>
    cases sigs with
    | nil => exact zero_le _
    | cons sig sigs =>
      rw [List.length_cons, add_comm]
      refine count_bind_le (count_checkOneSig_le crypto checker flags _ _ _) fun fOk _ => ?_
      dsimp only
      generalize (if fOk then sigs else sig :: sigs) = left
      split
      · simp
      · exact ih left

theorem count_execCheckMultiSig_le (fVerify : Bool) (s : EvalState) {n : ℕ}
    (hn : ∀ k, readCount flags (s.stack.getD 0 []) MAX_PUBKEYS_PER_MULTISIG .pubkeyCount = .ok k →
      k ≤ n) : (execCheckMultiSig crypto checker flags fVerify s).count ≤ n := by
  refine count_bind_le_of_zero rfl fun _ _ => ?_
  refine count_bind_le_of_zero rfl fun nKeysCount hkeys => ?_
  refine count_bind_le_of_zero rfl fun _ _ => ?_
  refine count_bind_le_of_zero rfl fun _ _ => ?_
  refine count_bind_le_of_zero rfl fun nSigsCount _ => ?_
  refine count_bind_le_of_zero rfl fun _ _ => ?_
  refine count_bind_le_left ?_ fun _ => ?_
  · exact (count_checkSigs_le crypto checker flags _ _ _).trans
      ((List.length_take_le nKeysCount (s.stack.drop 1)).trans (hn nKeysCount hkeys))
  · split
    · rfl
    · exact le_zero.mp (count_bind_le_of_zero rfl fun _ _ => le_rfl)

theorem readCount_le {vch : Valtype} {limit k : ℕ} {serror : ScriptError}
    (h : readCount flags vch limit serror = .ok k) : k ≤ limit := by
  obtain ⟨n, -, hk⟩ := Checks.bind_eq_ok_iff.mp h
  grind

/-! ## The invariant -/

/-- In an executed branch the small number that the last opcode pushed is on top of the stack. -/
def Announced (lastOpcode : OpCode) (s : EvalState) : Prop :=
  s.fExec = true → OP_1 ≤ lastOpcode → lastOpcode ≤ OP_16 →
    s.stack.head? = some (scriptNumSerialize (decodeOP_N lastOpcode))

theorem decodeOp_small : ∀ opcode : OpCode, OP_1 ≤ opcode → opcode ≤ OP_16 →
    decodeOp opcode = .pushNumber (decodeOP_N opcode) := by
  decide +kernel

theorem scriptNum_small : ∀ opcode : OpCode, OP_1 ≤ opcode → opcode ≤ OP_16 →
    getInt (scriptNumValue (scriptNumSerialize (decodeOP_N opcode))) = decodeOP_N opcode := by
  decide +kernel

theorem decodeOp_checkSig : ∀ opcode : OpCode, ∀ fVerify, decodeOp opcode = .checkSig fVerify →
    opcode = OP_CHECKSIG ∨ opcode = OP_CHECKSIGVERIFY := by
  decide +kernel

theorem decodeOp_checkMultiSig : ∀ opcode : OpCode, ∀ fVerify,
    decodeOp opcode = .checkMultiSig fVerify →
    ¬(opcode = OP_CHECKSIG ∨ opcode = OP_CHECKSIGVERIFY)
      ∧ (opcode = OP_CHECKMULTISIG ∨ opcode = OP_CHECKMULTISIGVERIFY) := by
  decide +kernel

variable {lastOpcode : OpCode} {s s' : EvalState} {instr : Instruction}

theorem readCount_announced {k : ℕ} {serror : ScriptError} (h : Announced lastOpcode s)
    (hexec : s.fExec) (h1 : OP_1 ≤ lastOpcode) (h16 : lastOpcode ≤ OP_16)
    (hk : readCount flags (s.stack.getD 0 []) MAX_PUBKEYS_PER_MULTISIG serror = .ok k) :
    k = decodeOP_N lastOpcode := by
  have htop : s.stack.getD 0 [] = scriptNumSerialize (decodeOP_N lastOpcode) := by
    rw [List.getD_eq_getElem?_getD, ← List.head?_eq_getElem?, h hexec h1 h16, Option.getD_some]
  obtain ⟨n, hn, hk⟩ := Checks.bind_eq_ok_iff.mp hk
  have hsmall := scriptNum_small lastOpcode h1 h16
  unfold scriptNum at hn
  grind

/-- The opcodes that are executed in any case are those of conditionals. -/
theorem fExec_of_checkMultiSig {opcode : OpCode}
    (hmulti : opcode = OP_CHECKMULTISIG ∨ opcode = OP_CHECKMULTISIGVERIFY)
    (hrun : (s.fExec || decide (OP_IF ≤ opcode ∧ opcode ≤ OP_ENDIF))) : s.fExec := by
  rcases hmulti with rfl | rfl <;> exact (Bool.or_false _).symm.trans hrun

theorem count_execOp_le {opcode : OpCode} (h : Announced lastOpcode s) (rest : CScript)
    (hrun : (s.fExec || decide (OP_IF ≤ opcode ∧ opcode ≤ OP_ENDIF))) :
    (execOp crypto checker flags rest s (decodeOp opcode)).count
      ≤ sigOpsOf true lastOpcode opcode := by
  cases hop : decodeOp opcode with
  | checkSig fVerify =>
    rw [sigOpsOf, if_pos (decodeOp_checkSig opcode fVerify hop)]
    exact count_execCheckSig_le crypto checker flags fVerify s
  | checkMultiSig fVerify =>
    obtain ⟨hsig, hmulti⟩ := decodeOp_checkMultiSig opcode fVerify hop
    have hexec := fExec_of_checkMultiSig hmulti hrun
    rw [sigOpsOf, if_neg hsig, if_pos hmulti]
    apply count_execCheckMultiSig_le
    intro k hk
    split_ifs with hlast
    · exact (readCount_announced flags h hexec hlast.2.1 hlast.2.2 hk).le
    · exact readCount_le flags hk
  | _ => exact zero_le _

theorem count_dispatch_le (h : Announced lastOpcode s) (instr : Instruction) :
    (dispatch crypto checker flags instr s).count ≤ sigOpsOf true lastOpcode instr.opcode := by
  unfold dispatch
  split_ifs with hpush hrun
  · exact count_bind_le_of_zero rfl fun _ _ => zero_le _
  · exact count_execOp_le crypto checker flags h instr.rest hrun
  · simp

/-- An opcode for a small number pushes it if it is executed, and leaves the conditions alone. -/
theorem announced_dispatch (hs : (dispatch crypto checker flags instr s).result = .ok s') :
    Announced instr.opcode s' := by
  intro hexec h1 h16
  have hlow : ¬ instr.opcode ≤ OP_PUSHDATA4 :=
    fun hle => absurd (BitVec.le_trans h1 hle) (by decide)
  have hif : ¬ (OP_IF ≤ instr.opcode ∧ instr.opcode ≤ OP_ENDIF) :=
    fun h => absurd (BitVec.le_trans h.1 h16) (by decide)
  rw [dispatch, decide_eq_false hlow, Bool.and_false, if_neg Bool.false_ne_true,
    decide_eq_false hif, Bool.or_false] at hs
  split_ifs at hs with hrun
  · rw [decodeOp_small instr.opcode h1 h16] at hs
    cases hs
    rfl
  · cases hs
    exact absurd hexec hrun

theorem evalOp_spec (h : Announced lastOpcode s) (instr : Instruction) :
    (evalOp crypto checker flags instr s).count ≤ sigOpsOf true lastOpcode instr.opcode
      ∧ ∀ s', (evalOp crypto checker flags instr s).result = .ok s' → Announced instr.opcode s' := by
  constructor
  · refine count_bind_le_of_zero rfl fun _ _ => ?_
    refine count_bind_le_of_zero rfl fun _ _ => ?_
    refine count_bind_le_of_zero rfl fun _ _ => ?_
    refine count_bind_le_left ?_ fun _ =>
      le_zero.mp (count_bind_le_of_zero rfl fun _ _ => le_rfl)
    -- the counter of operations is not part of what was announced
    exact count_dispatch_le crypto checker flags (s := countOp instr s) h instr
  · intro s' hs'
    obtain ⟨_, -, hs'⟩ := result_bind_eq_ok.mp hs'
    obtain ⟨_, -, hs'⟩ := result_bind_eq_ok.mp hs'
    obtain ⟨_, -, hs'⟩ := result_bind_eq_ok.mp hs'
    obtain ⟨s1, hs1, hs'⟩ := result_bind_eq_ok.mp hs'
    obtain ⟨_, -, ⟨⟩⟩ := result_bind_eq_ok.mp hs'
    exact announced_dispatch crypto checker flags hs1

/-! ## Calls of a script -/

theorem count_evalCode_le (code : Code) (h : Announced lastOpcode s) :
    (evalCode crypto checker flags code s).count ≤ code.sigOpCount true lastOpcode := by
  induction code generalizing lastOpcode s with
  | done | bad => exact le_rfl
  | op instr next ih =>
    obtain ⟨hcount, hnext⟩ := evalOp_spec crypto checker flags h instr
    exact count_bind_le hcount fun s' hs' => ih (hnext s' hs')

theorem count_evalScript_le (stack : List Valtype) (script : CScript) :
    (evalScript crypto checker flags stack script).count ≤ script.getSigOpCount true := by
  have hstart : Announced OP_INVALIDOPCODE { stack, scriptCode := script } :=
    fun _ _ h16 => absurd h16 (by decide)
  refine count_bind_le_of_zero rfl fun _ _ => ?_
  refine count_bind_le_left (count_evalCode_le crypto checker flags _ hstart) fun _ => ?_
  exact le_zero.mp (count_bind_le_of_zero rfl fun _ _ => le_rfl)

/-! ## The script of pay-to-script-hash -/

/-- The stack has the data of the last push on top, or a script without signature operations. -/
def LastPush (data : Valtype) (stack : List Valtype) : Prop :=
  ∀ top, stack.head? = some top → top = data ∨ CScript.getSigOpCount top true = 0

/-- The opcodes between the pushes of data and `OP_16` fail or push a number, whose bytes are no
    script with signature operations. -/
theorem decodeOp_push : ∀ opcode : OpCode, ¬ opcode ≤ OP_PUSHDATA4 → ¬ opcode > OP_16 →
    decodeOp opcode = .bad ∨ ∃ n ∈ (List.range 18).map fun i => (i : ℤ) - 1,
      decodeOp opcode = .pushNumber n ∧ getSigOpCount (scriptNumSerialize n) true = 0 := by
  decide +kernel

theorem lastPush_dispatch (hconds : s.vfExec = []) (hpush : ¬ instr.opcode > OP_16)
    (hs : (dispatch crypto checker flags instr s).result = .ok s') :
    s'.vfExec = [] ∧ LastPush instr.vch s'.stack := by
  have hexec : s.fExec := by rw [EvalState.fExec, hconds]; rfl
  rw [dispatch, hexec, Bool.true_and, Bool.true_or, if_pos rfl] at hs
  split_ifs at hs with hdata
  · obtain ⟨_, -, ⟨⟩⟩ := result_bind_eq_ok.mp hs
    exact ⟨hconds, fun top htop => Or.inl (Option.some.inj htop).symm⟩
  · rw [decide_eq_true_iff] at hdata
    rcases decodeOp_push instr.opcode hdata hpush with hbad | ⟨n, -, hn, hcount⟩
    · simp [hbad, execOp, execPlain] at hs
    · rw [hn] at hs
      cases hs
      exact ⟨hconds, fun top htop => Or.inr (Option.some.inj htop ▸ hcount)⟩

theorem lastPush_evalOp (hconds : s.vfExec = []) (hpush : ¬ instr.opcode > OP_16)
    (hs : (evalOp crypto checker flags instr s).result = .ok s') :
    s'.vfExec = [] ∧ LastPush instr.vch s'.stack := by
  obtain ⟨_, -, hs⟩ := result_bind_eq_ok.mp hs
  obtain ⟨_, -, hs⟩ := result_bind_eq_ok.mp hs
  obtain ⟨_, -, hs⟩ := result_bind_eq_ok.mp hs
  obtain ⟨s1, hs1, hs⟩ := result_bind_eq_ok.mp hs
  obtain ⟨_, -, ⟨⟩⟩ := result_bind_eq_ok.mp hs
  exact lastPush_dispatch crypto checker flags (s := countOp instr s) hconds hpush hs1

/-- A script that only pushes leaves on the stack what `GetSigOpCount` takes from its bytes. -/
theorem lastPush_evalCode (code : Code) {data : Valtype} (hconds : s.vfExec = [])
    (hdata : LastPush data s.stack) (hpush : code.isPushOnly)
    (hs : (evalCode crypto checker flags code s).result = .ok s') :
    ∃ last, code.lastData data = some last ∧ LastPush last s'.stack := by
  induction code generalizing data s with
  | done =>
    cases hs
    exact ⟨data, rfl, hdata⟩
  | bad => simp [Code.isPushOnly] at hpush
  | op instr next ih =>
    rw [Code.isPushOnly] at hpush
    split_ifs at hpush with hop
    obtain ⟨s1, hs1, hs⟩ := result_bind_eq_ok.mp hs
    obtain ⟨hconds1, hdata1⟩ := lastPush_evalOp crypto checker flags hconds hop hs1
    simp [Code.lastData, hop, ih hconds1 hdata1 hpush hs]

theorem lastPush_evalScript {scriptSig : CScript} {stack : List Valtype}
    (hpush : scriptSig.isPushOnly)
    (hs : (evalScript crypto checker flags [] scriptSig).result = .ok stack) :
    ∃ last, (code scriptSig).lastData [] = some last ∧ LastPush last stack := by
  obtain ⟨_, -, hs⟩ := result_bind_eq_ok.mp hs
  obtain ⟨s', hs', hs⟩ := result_bind_eq_ok.mp hs
  obtain ⟨_, -, ⟨⟩⟩ := result_bind_eq_ok.mp hs
  exact lastPush_evalCode crypto checker flags _ rfl (by simp [LastPush]) hpush hs'

theorem count_verifyP2SH_le {scriptSig : CScript} {stackCopy : List Valtype}
    (hs : (evalScript crypto checker flags [] scriptSig).result = .ok stackCopy)
    (scriptPubKey : CScript) (stack : List Valtype) :
    (verifyP2SH crypto checker flags scriptSig scriptPubKey stackCopy stack).count
      ≤ scriptPubKey.getSigOpCountOf scriptSig := by
  unfold verifyP2SH
  split_ifs with hp2sh
  · rw [Bool.and_eq_true] at hp2sh
    refine count_bind_le_of_zero rfl fun _ hpush => ?_
    obtain ⟨last, hlast, hdata⟩ :=
      lastPush_evalScript crypto checker flags (Checks.require_eq_ok_iff.mp hpush) hs
    rw [getSigOpCountOf, if_pos hp2sh.2, hlast]
    cases stackCopy with
    | nil => exact zero_le _
    | cons top rest =>
      refine count_bind_le_left ?_ fun _ =>
        le_zero.mp (count_bind_le_of_zero rfl fun _ _ => le_rfl)
      have hcalls := count_evalScript_le crypto checker flags rest top
      rcases hdata top rfl with rfl | hzero
      · exact hcalls
      · exact hcalls.trans (hzero.le.trans (zero_le _))
  · simp

end

/-- **The accounting of signature operations is sound.** `EvalScript` calls `CheckSig` at most as often
    as the accurate count of the script says, which is at most the other count; and `VerifyScript` at
    most as often as the accurate counts of its two scripts and of the pay-to-script-hash script say
    together. -/
theorem checkSig_calls_le_sigOpCount (crypto : ScriptCrypto) (checker : BaseSignatureChecker)
    (flags : ScriptFlags) :
    (∀ stack script,
      (evalScript crypto checker flags stack script).count ≤ script.getSigOpCount true
        ∧ script.getSigOpCount true ≤ script.getSigOpCount false)
    ∧ ∀ scriptSig scriptPubKey, (verifyScript crypto checker flags scriptSig scriptPubKey).count
        ≤ scriptSig.getSigOpCount true + scriptPubKey.getSigOpCount true
          + scriptPubKey.getSigOpCountOf scriptSig := by
  constructor
  · intro stack script
    exact ⟨count_evalScript_le crypto checker flags stack script, sigOpCount_accurate_le _ _⟩
  · intro scriptSig scriptPubKey
    rw [add_assoc]
    refine count_bind_le_of_zero rfl fun _ _ => ?_
    refine count_bind_le (count_evalScript_le crypto checker flags [] scriptSig)
      fun stackCopy hsig => ?_
    refine count_bind_le (count_evalScript_le crypto checker flags stackCopy scriptPubKey)
      fun stack _ => ?_
    refine count_bind_le_of_zero rfl fun _ _ => ?_
    exact count_bind_le_left
      (count_verifyP2SH_le crypto checker flags hsig scriptPubKey stack) fun _ => rfl

end Binarium
