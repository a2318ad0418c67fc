import Binarium.Lib.GreedyMatch
import Binarium.Script.Interpreter

set_option autoImplicit false

/-! # Multisignatures

`OP_CHECKMULTISIG` goes once through the keys and tries each of them on the first signature that is left.
It stops early when there are more signatures than keys. That is the greedy matching of `GreedyMatch`, so
it succeeds exactly when the signatures can be assigned to keys in order. -/

namespace Binarium

open List Counted GreedyMatch

section
variable (crypto : ScriptCrypto) (checker : BaseSignatureChecker) (flags : ScriptFlags)

/-- The script that the signatures of a multisignature sign: they are all taken out of it. -/
def multiSigCode (scriptCode : CScript) (sigs : List Valtype) : CScript :=
  sigs.foldl (fun code vchSig => findAndDelete code (pushScript vchSig)) scriptCode

variable {crypto checker flags}

theorem result_checkOneSig {vchSig vchPubKey : Valtype} {scriptCode : CScript}
    (hsig : checkSignatureEncoding crypto flags vchSig = .ok ())
    (hkey : checkPubKeyEncoding flags vchPubKey = .ok ()) :
    (checkOneSig crypto checker flags vchSig vchPubKey scriptCode).result
      = .ok (checker.checkSig vchSig vchPubKey scriptCode) := by
  rw [checkOneSig, result_bind_of_ok hsig, result_bind_of_ok hkey]
  rfl

/-- **The loop is greedy matching.** -/
theorem result_checkSigs (scriptCode : CScript) (keys : List Valtype) :
    ∀ {sigs : List Valtype}, (∀ key ∈ keys, checkPubKeyEncoding flags key = .ok ()) →
      (∀ sig ∈ sigs, checkSignatureEncoding crypto flags sig = .ok ()) →
      (checkSigs crypto checker flags scriptCode keys sigs).result
        = .ok (greedy (fun sig key => checker.checkSig sig key scriptCode) sigs keys) := by
  induction keys with
  | nil => rintro (_ | _) <;> exact fun _ _ => rfl
  | cons key keys ih =>
    intro sigs hkeys hsigs
    cases sigs with
    | nil => rfl
    | cons sig sigs =>
      rw [checkSigs, result_bind_of_ok (result_checkOneSig
        (hsigs sig mem_cons_self) (hkeys key mem_cons_self)), greedy]
      generalize checker.checkSig sig key scriptCode = fOk
      have hleft : ∀ x ∈ (if fOk then sigs else sig :: sigs),
          checkSignatureEncoding crypto flags x = .ok () := by grind
      generalize (if fOk then sigs else sig :: sigs) = left at hleft ⊢
      dsimp only
      split
      next hmore =>
        -- The early exit: too few keys are left.
        have hnone : ¬ greedy
            (fun sig key => checker.checkSig sig key scriptCode) left keys := by
          rw [greedy_iff]
          exact fun h => absurd h.length_le (by omega)
        simp [hnone]
      next => exact ih (forall_mem_cons.mp hkeys).2 hleft

theorem readCount_eq {vch : Valtype} {n limit : ℕ} (serror : ScriptError)
    (h : scriptNum (fRequireMinimal flags) nDefaultMaxNumSize vch = .ok (n : ℤ))
    (hle : n ≤ limit) (hlimit : limit ≤ MAX_PUBKEYS_PER_MULTISIG) :
    readCount flags vch limit serror = .ok n := by
  have hmax : MAX_PUBKEYS_PER_MULTISIG = 20 := rfl
  have hint : getInt (n : ℤ) = n := by
    rw [getInt, if_neg (by omega), if_neg (by omega)]
  rw [readCount, h]
  show (if getInt (n : ℤ) < 0 ∨ getInt (n : ℤ) > limit then _ else _) = _
  rw [hint, if_neg (by omega), Int.toNat_natCast]

/-- What the operation leaves of the stack and of the other variables. -/
def multiSigOutcome (flags : ScriptFlags) (fVerify : Bool) (s : EvalState) (nKeys : ℕ) (dummy : Valtype)
    (rest : List Valtype) (fSuccess : Bool) : Except ScriptError EvalState :=
  if s.nOpCount + nKeys > MAX_OPS_PER_SCRIPT then .error .opCount
  else if hasFlag flags SCRIPT_VERIFY_NULLDUMMY = true ∧ dummy ≠ [] then .error .sigNullDummy
  else { s with nOpCount := s.nOpCount + nKeys }.pushCheck rest fSuccess fVerify .checkMultiSigVerify

theorem result_ensure_bind {α : Type} {c : Prop} [Decidable c] {e : ScriptError}
    {f : Unit → Counted ScriptError α} (h : c) :
    (Counted.ensure (decide c) e >>= f).result = (f ()).result :=
  result_bind_of_ok (by
    rw [ensure, result_lift, decide_eq_true h]
    rfl)

/-- The dummy element, which no signature check looks at. -/
theorem result_nullDummy (s : EvalState) (fVerify fSuccess : Bool) (dummy : Valtype)
    (rest : List Valtype) : ((Counted.lift (whenFlag flags SCRIPT_VERIFY_NULLDUMMY
        (Checks.require (decide (dummy.length = 0)) .sigNullDummy)) >>= fun _ =>
      Counted.lift (s.pushCheck rest fSuccess fVerify .checkMultiSigVerify)).result)
      = if hasFlag flags SCRIPT_VERIFY_NULLDUMMY ∧ dummy ≠ [] then .error .sigNullDummy
        else s.pushCheck rest fSuccess fVerify .checkMultiSigVerify := by
  by_cases hflag : hasFlag flags SCRIPT_VERIFY_NULLDUMMY
  · rw [whenFlag, if_pos hflag]
    cases dummy with
    | nil =>
      rw [if_neg (by simp)]
      rfl
    | cons =>
      rw [if_pos ⟨hflag, by simp⟩]
      rfl
  · rw [whenFlag, if_neg hflag, if_neg fun h => hflag h.1]
    rfl

section

variable (crypto checker flags) (fVerify : Bool) (s : EvalState) (vchN vchM dummy : Valtype)
  (keys sigs rest : List Valtype)
  (hstack : s.stack = vchN :: (keys ++ vchM :: (sigs ++ dummy :: rest)))
  (hn : scriptNum (fRequireMinimal flags) nDefaultMaxNumSize vchN = .ok (keys.length : ℤ))
  (hm : scriptNum (fRequireMinimal flags) nDefaultMaxNumSize vchM = .ok (sigs.length : ℤ))
  (hle : sigs.length ≤ keys.length) (hlimit : keys.length ≤ MAX_PUBKEYS_PER_MULTISIG)
  (hkeys : ∀ key ∈ keys, checkPubKeyEncoding flags key = .ok ())
  (hsigs : ∀ sig ∈ sigs, checkSignatureEncoding crypto flags sig = .ok ())
include hstack hn hm hle hlimit hkeys hsigs

/-- **The operation** on a stack with its arguments. -/
theorem result_execCheckMultiSig :
    (execCheckMultiSig crypto checker flags fVerify s).result
      = multiSigOutcome flags fVerify s keys.length dummy rest (greedy
            (fun sig key => checker.checkSig sig key (multiSigCode s.scriptCode sigs)) sigs keys) := by
  have hlength : s.stack.length = 3 + keys.length + sigs.length + rest.length := by
    simp only [hstack, length_cons, length_append]
    omega
  have htop : s.stack.getD 0 [] = vchN := by rw [hstack]; rfl
  have hkeysAt : (s.stack.drop 1).take keys.length = keys := by simp [hstack]
  have hafter : s.stack.drop (1 + keys.length) = vchM :: (sigs ++ dummy :: rest) := by
    rw [hstack, Nat.add_comm, drop_succ_cons, drop_left]
  have hcountAt : s.stack.getD (1 + keys.length) [] = vchM := by
    rw [getD_eq_getElem?_getD, ← head?_drop, hafter]
    rfl
  have hsigsFrom : s.stack.drop (2 + keys.length) = sigs ++ dummy :: rest := by
    rw [show 2 + keys.length = 1 + keys.length + 1 by omega, ← drop_drop, hafter]
    rfl
  have hdummyFrom : s.stack.drop (2 + keys.length + sigs.length) = dummy :: rest := by
    rw [← drop_drop, hsigsFrom, drop_left]
  rw [execCheckMultiSig, result_ensure_bind (by omega), htop,
    result_bind_of_ok (readCount_eq .pubkeyCount hn hlimit le_rfl), multiSigOutcome]
  by_cases hops : s.nOpCount + keys.length > MAX_OPS_PER_SCRIPT
  · rw [if_pos hops, result_bind_of_error]
    rw [ensure, result_lift, decide_eq_false (by omega)]
    rfl
  · rw [if_neg hops, result_ensure_bind (by omega), result_ensure_bind (by omega), hcountAt,
      result_bind_of_ok (readCount_eq .sigCount hm hle hlimit),
      result_ensure_bind (by omega), hkeysAt, hsigsFrom, take_left, hdummyFrom,
      result_bind_of_ok (result_checkSigs _ keys hkeys hsigs)]
    exact result_nullDummy _ fVerify _ dummy rest

/-- **Multisignatures are complete.** For signatures and keys whose encodings pass the checks of the
    flags, no more signatures than keys and no more keys than allowed, the operation consumes the keys,
    the signatures, the two counts and one more element. It pushes true exactly when the signatures can
    be assigned to different keys in their order such that every check succeeds. It fails only if the
    script has too many operations, or with `SCRIPT_VERIFY_NULLDUMMY` if the additional element is not
    empty. -/
theorem execCheckMultiSig_complete :
    s.stack.length = rest.length + (sigs.length + keys.length + 3) ∧
    ∃ fSuccess : Bool,
      (execCheckMultiSig crypto checker flags fVerify s).result
        = multiSigOutcome flags fVerify s keys.length dummy rest fSuccess ∧
      (fSuccess = true ↔ ∃ f : Fin sigs.length → Fin keys.length, StrictMono f ∧
        ∀ i, checker.checkSig (sigs.get i) (keys.get (f i)) (multiSigCode s.scriptCode sigs)
          = true) := by
  refine ⟨?_, _, result_execCheckMultiSig crypto checker flags fVerify s vchN vchM dummy keys sigs rest
    hstack hn hm hle hlimit hkeys hsigs, ?_⟩
  · simp only [hstack, length_cons, length_append]
    omega
  · rw [greedy_iff, matches_iff_exists_strictMono]

end

/-- A checker for which a signature is the key itself, and hash functions that are not used. -/
def echoChecker : BaseSignatureChecker :=
  ⟨fun sig key _ => decide (sig = key), fun _ => false, fun _ => false⟩

def plainCrypto : ScriptCrypto := ⟨id, id, id, fun _ => true⟩

/-- Two signatures for three keys, over one more element. -/
def twoOfThree : EvalState where
  stack := [[3], [10], [11], [12], [2], [10], [12], [], [7]]
  scriptCode := []

/-- The second key is left out. -/
theorem execCheckMultiSig_complete_twoOfThree :
    twoOfThree.stack.length = 9 ∧
    (execCheckMultiSig plainCrypto echoChecker 0 false twoOfThree).result
      = .ok { twoOfThree with stack := [vchTrue, [7]], nOpCount := 3 } := by
  obtain ⟨hlength, fSuccess, hresult, hiff⟩ := execCheckMultiSig_complete plainCrypto echoChecker 0 false
    twoOfThree [3] [2] [] [[10], [11], [12]] [[10], [12]] [[7]] rfl rfl rfl (by decide) (by decide)
    (by simp [checkPubKeyEncoding, whenFlag, hasFlag]) (by decide)
  obtain rfl : fSuccess := hiff.mpr ⟨![0, 2], by decide, by decide⟩
  exact ⟨hlength, hresult⟩

end

end Binarium
