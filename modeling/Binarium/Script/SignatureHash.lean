import Binarium.Script.Script

set_option autoImplicit false

/-! # The bytes that a signature signs (`script/interpreter.cpp`, `test/sighash_tests.cpp`)

`SignatureHash` does not copy the transaction: `CTransactionSignatureSerializer` writes it with the
changes that the hash type asks for, and writes the script code in pieces, around its code separators.
The algorithm it replaces, which the tests keep as `SignatureHashOld`, changes a copy and serializes it.

Both write the same bytes if the script code is instructions to its end (`signatureHashBytes_eq_old`).
Where `GetOp` fails they need not: the serializer stops writing there, and `FindAndDelete` keeps the
rest. -/

namespace Binarium

open CScript List Code

/-! ## Serialization -/

/-- `WriteCompactSize`. -/
def writeCompactSize (nSize : ℕ) : List (BitVec 8) :=
  if nSize < 253 then leBytes 1 nSize
  else if nSize ≤ 0xffff then 253 :: leBytes 2 nSize
  else if nSize ≤ 0xffffffff then 254 :: leBytes 4 nSize
  else 255 :: leBytes 8 nSize

/-- `Serialize` of a script. -/
def scriptBytes (script : CScript) : List (BitVec 8) := writeCompactSize script.length ++ script

/-- `COutPoint::Serialize`. -/
def COutPoint.serialize (o : COutPoint) : List (BitVec 8) := uint256Bytes o.hash ++ leBytes 4 o.n.toNat

/-- `CTxIn::Serialize`. -/
def CTxIn.serialize (txin : CTxIn) : List (BitVec 8) :=
  txin.prevout.serialize ++ scriptBytes txin.scriptSig ++ leBytes 4 txin.nSequence.toNat

/-- `CTxOut::Serialize`. -/
def CTxOut.serialize (txout : CTxOut) : List (BitVec 8) :=
  leBytes 8 txout.nValue.toBitVec.toNat ++ scriptBytes txout.scriptPubKey

/-- `CTxOut()`. -/
def CTxOut.blank : CTxOut := ⟨-1, []⟩

/-- `CMutableTransaction::Serialize`. -/
def CMutableTransaction.serialize (tx : CMutableTransaction) : List (BitVec 8) :=
  leBytes 4 tx.nVersion.toNat
    ++ writeCompactSize tx.vin.length ++ tx.vin.flatMap CTxIn.serialize
    ++ writeCompactSize tx.vout.length ++ tx.vout.flatMap CTxOut.serialize
    ++ leBytes 4 tx.nLockTime.toNat

/-! ## `CTransactionSignatureSerializer` -/

/-- `OP_CODESEPARATOR`. -/
def OP_CODESEPARATOR : OpCode := 0xab

/-- Where `GetOp` leaves the iterator if it fails: after the opcode and the size, if that is there. -/
def getOpStop : CScript → CScript
  | [] => []
  | opcode :: bytes =>
    let width := if opcode = OP_PUSHDATA1 then 1 else if opcode = OP_PUSHDATA2 then 2
      else if opcode = OP_PUSHDATA4 then 4 else 0
    if bytes.length < width then bytes else bytes.drop width

/-- `nCodeSeparators`. -/
def Code.separators : Code → ℕ
  | .op instr next => (if instr.opcode = OP_CODESEPARATOR then 1 else 0) + next.separators
  | _ => 0

/-- The last piece, from `itBegin` to `it`. An iterator is the bytes from it to the end. -/
def writeLast (itBegin it : CScript) : List (BitVec 8) :=
  if itBegin = [] then [] else itBegin.take (itBegin.length - it.length)

/-- The second loop of `SerializeScriptCode`. -/
def Code.writePieces : Code → CScript → CScript → List (BitVec 8)
  | .done, itBegin, it => writeLast itBegin it
  | .bad, itBegin, it => writeLast itBegin (getOpStop it)
  | .op instr next, itBegin, _ =>
    if instr.opcode = OP_CODESEPARATOR then
      itBegin.take (itBegin.length - instr.rest.length - 1) ++ next.writePieces instr.rest instr.rest
    else next.writePieces itBegin instr.rest

/-- `SerializeScriptCode`. -/
def serializeScriptCode (scriptCode : CScript) : List (BitVec 8) :=
  writeCompactSize (scriptCode.length - (CScript.code scriptCode).separators)
    ++ (CScript.code scriptCode).writePieces scriptCode scriptCode

section Serializer

variable (scriptCode : CScript) (txTo : CTransaction) (nIn : ℕ) (nHashType : BitVec 32)

/-- `nHashType & SIGHASH_ANYONECANPAY`. -/
def fAnyoneCanPay : Bool := decide (nHashType &&& 0x80 ≠ 0)

/-- `(nHashType & 0x1f) == SIGHASH_SINGLE`. -/
def fHashSingle : Bool := decide (nHashType &&& 0x1f = 3)

/-- `(nHashType & 0x1f) == SIGHASH_NONE`. -/
def fHashNone : Bool := decide (nHashType &&& 0x1f = 2)

/-- `SerializeInput`. -/
def serializeInput (nInput : ℕ) : List (BitVec 8) :=
  let nInput := if fAnyoneCanPay nHashType then nIn else nInput
  txTo.vin[nInput]?.elim [] fun txin =>
    txin.prevout.serialize
      ++ (if nInput ≠ nIn then scriptBytes [] else serializeScriptCode scriptCode)
      ++ (if nInput ≠ nIn ∧ (fHashSingle nHashType || fHashNone nHashType) = true then leBytes 4 0
        else leBytes 4 txin.nSequence.toNat)

/-- `SerializeOutput`. -/
def serializeOutput (nOutput : ℕ) : List (BitVec 8) :=
  if fHashSingle nHashType = true ∧ nOutput ≠ nIn then CTxOut.blank.serialize
  else txTo.vout[nOutput]?.elim [] CTxOut.serialize

/-- `CTransactionSignatureSerializer::Serialize`. -/
def serializeForSignature : List (BitVec 8) :=
  let nInputs := if fAnyoneCanPay nHashType then 1 else txTo.vin.length
  let nOutputs := if fHashNone nHashType then 0
    else if fHashSingle nHashType then nIn + 1 else txTo.vout.length
  leBytes 4 txTo.nVersion.toNat
    ++ writeCompactSize nInputs
    ++ (List.range nInputs).flatMap (serializeInput scriptCode txTo nIn nHashType)
    ++ writeCompactSize nOutputs ++ (List.range nOutputs).flatMap (serializeOutput txTo nIn nHashType)
    ++ leBytes 4 txTo.nLockTime.toNat

/-- The bytes that `SignatureHash` hashes; nothing where it returns the number one. -/
def signatureHashBytes : Option (List (BitVec 8)) :=
  if nIn ≥ txTo.vin.length then none
  else if fHashSingle nHashType = true ∧ nIn ≥ txTo.vout.length then none
  else some (serializeForSignature scriptCode txTo nIn nHashType ++ leBytes 4 nHashType.toNat)

/-! ## `SignatureHashOld` -/

/-- The inputs of the copy, with blanked scripts and sequence numbers. -/
def blankedVin : List CTxIn :=
  let vin := (txTo.vin.map fun txin => { txin with scriptSig := [] }).modify nIn
    fun txin => { txin with scriptSig := findAndDelete scriptCode [OP_CODESEPARATOR] }
  if fHashNone nHashType || fHashSingle nHashType then
    vin.mapIdx fun i txin => if i ≠ nIn then { txin with nSequence := 0 } else txin
  else vin

/-- The inputs of the copy. -/
def signatureVin : List CTxIn :=
  let vin := blankedVin scriptCode txTo nIn nHashType
  if fAnyoneCanPay nHashType then
    match vin[nIn]? with
    | none => vin
    | some txin => (vin.set 0 txin).take 1
  else vin

/-- The outputs of the copy. -/
def signatureVout : List CTxOut :=
  if fHashNone nHashType then []
  else if fHashSingle nHashType then
    (txTo.vout.take (nIn + 1)).mapIdx fun i txout => if i < nIn then CTxOut.blank else txout
  else txTo.vout

/-- The bytes that `SignatureHashOld` hashes; nothing where it returns the number one. -/
def signatureHashOldBytes : Option (List (BitVec 8)) :=
  if nIn ≥ txTo.vin.length then none
  else if fHashSingle nHashType = true ∧ nIn ≥ txTo.vout.length then none
  else
    some (CMutableTransaction.serialize ⟨txTo.nVersion, signatureVin scriptCode txTo nIn nHashType,
      signatureVout txTo nIn nHashType, txTo.nLockTime⟩ ++ leBytes 4 nHashType.toNat)

end Serializer

/-! ## The script code -/

/-- The script is instructions to its end. -/
def Code.complete : Code → Bool
  | .done => true
  | .bad => false
  | .op _ next => next.complete

/-- The bytes of the instructions other than code separators, from an iterator on. -/
def Code.kept : Code → CScript → List (BitVec 8)
  | .op instr next, it =>
    (if instr.opcode = OP_CODESEPARATOR then [] else it.take (it.length - instr.rest.length))
      ++ next.kept instr.rest
  | _, _ => []

/-- What is taken off the front of a script by an instruction. -/
theorem getOp_spec {script : CScript} {instr : Instruction} (h : getOp script = some instr) :
    ∃ opcode operand, script = opcode :: operand ++ instr.rest ∧ instr.opcode = opcode
      ∧ (opcode = OP_CODESEPARATOR → operand = []) := by
  cases script with
  | nil => simp [getOp] at h
  | cons opcode bytes =>
    have hdata : ∀ {nSize : ℕ} (skipped : ℕ), takeData opcode nSize (bytes.drop skipped) = some instr →
        ∃ operand, bytes = operand ++ instr.rest ∧ instr.opcode = opcode := by
      intro nSize skipped hdata
      unfold takeData at hdata
      split_ifs at hdata
      cases hdata
      refine ⟨bytes.take (skipped + nSize), ?_, rfl⟩
      rw [drop_drop, take_append_drop]
    have hsized : ∀ {width : ℕ}, takeSized opcode width bytes = some instr →
        ∃ operand, bytes = operand ++ instr.rest ∧ instr.opcode = opcode := by
      intro width hsized
      unfold takeSized at hsized
      split_ifs at hsized
      exact hdata width hsized
    rw [getOp] at h
    by_cases hsep : opcode = OP_CODESEPARATOR
    · subst hsep
      cases h
      exact ⟨_, [], rfl, rfl, fun _ => rfl⟩
    · have hoperand : ∃ operand, bytes = operand ++ instr.rest ∧ instr.opcode = opcode := by
        split_ifs at h
        · exact hdata 0 h
        · exact hsized h
        · exact hsized h
        · exact hsized h
        · cases h
          exact ⟨[], rfl, rfl⟩
      obtain ⟨operand, hbytes, hopcode⟩ := hoperand
      exact ⟨opcode, operand, by rw [hbytes]; rfl, hopcode, fun habsurd => absurd habsurd hsep⟩

/-- The code of a script that is instructions to its end. -/
inductive Parsed : Code → CScript → Prop
  | done : Parsed .done []
  | op {operand : List (BitVec 8)} {instr : Instruction} {next : Code}
      (hop : getOp (instr.opcode :: operand ++ instr.rest) = some instr)
      (hsep : instr.opcode = OP_CODESEPARATOR → operand = []) (hnext : Parsed next instr.rest) :
      Parsed (.op instr next) (instr.opcode :: operand ++ instr.rest)

theorem parsed_of_complete (size : ℕ) : ∀ {it : CScript}, (codeFrom size it).complete →
    Parsed (codeFrom size it) it := by
  induction size with
  | zero =>
    intro it h
    cases it with
    | nil => exact .done
    | cons b bytes => simp [codeFrom, complete] at h
  | succ size ih =>
    intro it h
    cases it with
    | nil => exact .done
    | cons b bytes =>
      cases hgot : getOp (b :: bytes) with
      | none => simp [codeFrom, hgot, complete] at h
      | some instr =>
        rw [codeFrom, hgot] at h ⊢
        obtain ⟨opcode, operand, hit, rfl, hsep⟩ := getOp_spec hgot
        rw [hit] at hgot ⊢
        exact .op hgot hsep (ih h)

theorem take_front (pre rest : CScript) :
    (pre ++ rest).take ((pre ++ rest).length - rest.length) = pre := by
  simp

section

variable {code : Code} {it : CScript} (h : Parsed code it)

include h

/-- The pieces between code separators are the other instructions. -/
theorem writePieces_eq : ∀ pre, code.writePieces (pre ++ it) it = pre ++ code.kept it := by
  induction h with
  | done =>
    intro pre
    simp only [writePieces, writeLast, kept]
    split_ifs with hnil
    · exact hnil.symm
    · simp
  | @op operand instr next _ hsep _ ih =>
    intro pre
    rw [writePieces, kept]
    split_ifs with hif
    · have hrest := ih []
      rw [nil_append] at hrest
      rw [hsep hif, hrest, Nat.sub_sub, ← length_cons]
      exact congrArg (· ++ _) (take_front pre (instr.opcode :: instr.rest))
    · have hrest := ih (pre ++ instr.opcode :: operand)
      rw [append_assoc] at hrest
      rw [hrest, append_assoc, take_front (instr.opcode :: operand)]

theorem length_kept : (code.kept it).length + code.separators = it.length := by
  induction h with
  | done => rfl
  | op _ hsep _ ih =>
    rw [kept, separators, length_append]
    split_ifs with hif
    · simp [hsep hif]
      omega
    · simp
      omega

theorem deleteAll_eq :
    ∀ rounds, it.length < rounds → deleteAll [OP_CODESEPARATOR] rounds it = code.kept it := by
  induction h with
  | done =>
    intro rounds hrounds
    obtain ⟨rounds, rfl⟩ := Nat.exists_eq_succ_of_ne_zero (Nat.pos_iff_ne_zero.mp hrounds)
    rfl
  | @op operand instr next hop hsep _ ih =>
    intro rounds hrounds
    obtain ⟨rounds, rfl⟩ := Nat.exists_eq_succ_of_ne_zero (by omega : rounds ≠ 0)
    rw [kept]
    split_ifs with hif
    · -- the inner loop skips the separator and goes on
      rw [hsep hif] at hrounds ⊢
      rw [nil_append, ← ih (rounds + 1) (by simp at hrounds; omega), deleteAll, deleteAll, hif]
      rfl
    · have hskip : skipAll [OP_CODESEPARATOR] (instr.opcode :: operand ++ instr.rest).length
          (instr.opcode :: operand ++ instr.rest) = instr.opcode :: operand ++ instr.rest := by
        simp [length_cons, skipAll, Ne.symm hif]
      rw [deleteAll]
      simp only [hskip, hop]
      rw [ih rounds (by simp at hrounds; omega)]

end

/-- **The script code is written without its code separators.** -/
theorem serializeScriptCode_eq {scriptCode : CScript} (h : (code scriptCode).complete) :
    serializeScriptCode scriptCode
      = scriptBytes (findAndDelete scriptCode [OP_CODESEPARATOR]) := by
  have hparsed := parsed_of_complete scriptCode.length h
  have hkept : findAndDelete scriptCode [OP_CODESEPARATOR] = (code scriptCode).kept scriptCode :=
    deleteAll_eq hparsed _ (Nat.lt_succ_self _)
  have hlength := length_kept hparsed
  have hpieces := writePieces_eq hparsed []
  rw [hkept, scriptBytes, serializeScriptCode]
  refine congrArg₂ (· ++ ·) (congrArg writeCompactSize ?_) hpieces
  rw [code]
  omega

/-! ## The transaction -/

theorem map_range_eq {α β : Type} {l : List α} {f : ℕ → β} {g : α → β} {n : ℕ} (hn : n = l.length)
    (h : ∀ i x, l[i]? = some x → f i = g x) : (List.range n).map f = l.map g := by
  subst hn
  refine ext_getElem (by simp) fun i hi _ => ?_
  simp only [getElem_map, getElem_range]
  exact h i _ (getElem?_eq_getElem (by simpa using hi))

section Equal

variable {scriptCode : CScript} {txTo : CTransaction} {nIn : ℕ} {nHashType : BitVec 32}

/-- An input as it is signed. -/
def signedInput (scriptCode : CScript) (nIn : ℕ) (nHashType : BitVec 32) (i : ℕ) (txin : CTxIn) :
    CTxIn :=
  if i ≠ nIn then
    ⟨txin.prevout, [], if fHashNone nHashType || fHashSingle nHashType then 0 else txin.nSequence⟩
  else ⟨txin.prevout, findAndDelete scriptCode [OP_CODESEPARATOR], txin.nSequence⟩

theorem serializeInput_eq (h : (code scriptCode).complete) {i j : ℕ} {txin : CTxIn}
    (hj : (if fAnyoneCanPay nHashType then nIn else i) = j) (htxin : txTo.vin[j]? = some txin) :
    serializeInput scriptCode txTo nIn nHashType i
      = (signedInput scriptCode nIn nHashType j txin).serialize := by
  rw [serializeInput, hj, htxin, Option.elim_some, serializeScriptCode_eq h, Bool.or_comm, signedInput]
  by_cases hother : j ≠ nIn
  · split_ifs <;> simp_all [CTxIn.serialize]
  · rw [if_neg hother, if_neg hother, if_neg fun hboth => hother hboth.1]
    rfl

theorem getElem?_blankedVin (i : ℕ) : (blankedVin scriptCode txTo nIn nHashType)[i]?
    = txTo.vin[i]?.map (signedInput scriptCode nIn nHashType i) := by
  unfold blankedVin
  by_cases hi : nIn = i
  · cases hrest : fHashNone nHashType || fHashSingle nHashType <;> cases htxin : txTo.vin[i]? <;>
      simp [htxin, signedInput, hi]
  · cases hrest : fHashNone nHashType || fHashSingle nHashType <;> cases htxin : txTo.vin[i]? <;>
      simp [htxin, signedInput, hrest, hi, Ne.symm hi]

/-- **The inputs are written as those of the copy.** -/
theorem serializeInputs_eq (h : (code scriptCode).complete) (hin : nIn < txTo.vin.length) :
    let nInputs := if fAnyoneCanPay nHashType then 1 else txTo.vin.length
    nInputs = (signatureVin scriptCode txTo nIn nHashType).length
      ∧ (List.range nInputs).map (serializeInput scriptCode txTo nIn nHashType)
        = (signatureVin scriptCode txTo nIn nHashType).map CTxIn.serialize := by
  have hlength : (blankedVin scriptCode txTo nIn nHashType).length = txTo.vin.length := by
    unfold blankedVin
    split_ifs <;> simp
  have hsigned := @getElem?_blankedVin scriptCode txTo nIn nHashType
  unfold signatureVin
  cases hany : fAnyoneCanPay nHashType with
  | true =>
    obtain ⟨txin, htxin⟩ : ∃ txin, txTo.vin[nIn]? = some txin := ⟨_, getElem?_eq_getElem hin⟩
    have hone : (blankedVin scriptCode txTo nIn nHashType)[nIn]?
        = some (signedInput scriptCode nIn nHashType nIn txin) := by rw [hsigned, htxin]; rfl
    obtain ⟨first, rest, hcons⟩ := exists_cons_of_length_pos
      (by omega : 0 < (blankedVin scriptCode txTo nIn nHashType).length)
    simp only [if_true, hone]
    rw [hcons]
    exact ⟨rfl, congrArg (fun bytes => [bytes])
      (serializeInput_eq h (by rw [hany, if_pos rfl]) htxin)⟩
  | false =>
    simp only [Bool.false_eq_true, if_false]
    refine ⟨hlength.symm, map_range_eq hlength.symm fun i x hx => ?_⟩
    rw [hsigned] at hx
    obtain ⟨txin, htxin, rfl⟩ := Option.map_eq_some_iff.mp hx
    exact serializeInput_eq h (by rw [hany]; rfl) htxin

/-- **The outputs are written as those of the copy.** -/
theorem serializeOutputs_eq (hout : fHashSingle nHashType → nIn < txTo.vout.length) :
    let nOutputs := if fHashNone nHashType then 0
      else if fHashSingle nHashType then nIn + 1 else txTo.vout.length
    nOutputs = (signatureVout txTo nIn nHashType).length
      ∧ (List.range nOutputs).map (serializeOutput txTo nIn nHashType)
        = (signatureVout txTo nIn nHashType).map CTxOut.serialize := by
  unfold signatureVout
  split_ifs with hnone hsingle
  · simp
  · have hlength : nIn + 1 = ((txTo.vout.take (nIn + 1)).mapIdx fun i txout =>
        if i < nIn then CTxOut.blank else txout).length := by
      have := hout hsingle
      simp
      omega
    refine ⟨hlength, map_range_eq hlength fun i x hx => ?_⟩
    rw [getElem?_mapIdx] at hx
    obtain ⟨txout, htxout, rfl⟩ := Option.map_eq_some_iff.mp hx
    rw [getElem?_take] at htxout
    split_ifs at htxout
    rw [serializeOutput, htxout, hsingle]
    by_cases hlast : i < nIn
    · rw [if_pos ⟨rfl, hlast.ne⟩, if_pos hlast]
    · rw [if_neg fun h => h.2 (by omega), if_neg hlast]
      rfl
  · refine ⟨rfl, map_range_eq rfl fun i txout htxout => ?_⟩
    rw [serializeOutput, if_neg fun h => hsingle h.1, htxout]
    rfl

end Equal

/-- **The in-place serializer writes the bytes of the changed copy**, for every transaction, input and
    hash type, if the script code is instructions to its end. -/
theorem signatureHashBytes_eq_old {scriptCode : CScript} (txTo : CTransaction) (nIn : ℕ)
    (nHashType : BitVec 32) (h : (code scriptCode).complete = true) :
    signatureHashBytes scriptCode txTo nIn nHashType
      = signatureHashOldBytes scriptCode txTo nIn nHashType := by
  unfold signatureHashBytes signatureHashOldBytes
  split_ifs with hin hout
  · rfl
  · rfl
  · obtain ⟨hnin, hvin⟩ := @serializeInputs_eq scriptCode txTo nIn nHashType h (not_le.mp hin)
    obtain ⟨hnout, hvout⟩ := @serializeOutputs_eq txTo nIn nHashType
      fun hsingle => not_le.mp fun hle => hout ⟨hsingle, hle⟩
    simp only [serializeForSignature, CMutableTransaction.serialize, flatMap_def]
    rw [hvin, hvout, hnin, hnout]

/-- A transaction with two inputs and two outputs. -/
def twoInputsTx : CTransaction :=
  ⟨9, 1, [⟨⟨1, 0⟩, [0x51], 5⟩, ⟨⟨2, 1⟩, [0x52], 6⟩], [⟨1000, [0xac]⟩, ⟨2000, [0x6a]⟩], 7⟩

/-- **Separators before, inside and after a push**, of which the one inside is data. -/
theorem separatedScript_signatureHashBytes :
    ((code [0xab, 0x02, 0xab, 0xac, 0xab, 0xac]).complete = true
      ∧ findAndDelete [0xab, 0x02, 0xab, 0xac, 0xab, 0xac] [OP_CODESEPARATOR] = [0x02, 0xab, 0xac, 0xac])
    ∧ signatureHashBytes [0xab, 0x02, 0xab, 0xac, 0xab, 0xac] twoInputsTx 1 0x03
      = signatureHashOldBytes [0xab, 0x02, 0xab, 0xac, 0xab, 0xac] twoInputsTx 1 0x03 :=
  have h : (code [0xab, 0x02, 0xab, 0xac, 0xab, 0xac]).complete = true := by decide
  ⟨⟨h, by decide⟩, signatureHashBytes_eq_old twoInputsTx 1 0x03 h⟩

/-- A push that is cut off is not written to its end. -/
example : signatureHashBytes [0x02, 0xac] twoInputsTx 1 0x01
    ≠ signatureHashOldBytes [0x02, 0xac] twoInputsTx 1 0x01 := by decide +kernel

end Binarium
