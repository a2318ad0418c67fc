import Binarium.PrivateSend.Server

set_option autoImplicit false

/-! # The mixing client (`privatesend-client.cpp`)

`SignFinalTransaction` signs the client's inputs of the joint transaction once it has found the
client's outputs there. It counts the pairs of a final and an own output that are equal, and
compares their number and their value with those of the own outputs. A final output that is there
twice makes two pairs, and takes the place of another own output of the same value. -/

namespace Binarium

open Checks List CPrivateSendServer

/-- The entries of `CPrivateSendClient`. `SendDenominate` stores them with the outputs that
    `PrepareDenominate` made, all of a standard denomination. -/
structure CPrivateSendClient where
  vecEntries : List CDarkSendEntry
  denominated : ∀ entry ∈ vecEntries, ∀ txout ∈ entry.vecTxOut,
    txout.nValue ∈ vecStandardDenominations

/-- What the client reads of the rest of the node. -/
structure ClientContext where
  fMasternodeMode : Bool
  /-- Is `pnode` there? -/
  hasNode : Bool
  getHash : CMutableTransaction → Uint256
  /-- `SignSignature`: the `scriptSig` the input has afterwards. -/
  signSignature : CScript → CMutableTransaction → ℕ → CScript

/-- Why nothing is signed; only the second one gives the session up (`UnlockCoins`, `ReturnAll`,
    `SetNull`). -/
inductive SignRefusal where
  | ignored | givenUp
deriving DecidableEq

/-- The own outputs that the two loops find, once for every final output they are equal to. -/
def foundOutputs (vout vecTxOut : List CTxOut) : List CTxOut :=
  vout.flatMap fun txoutFinal => vecTxOut.filter fun txout => txoutFinal = txout

/-- The sum of the amounts. A message has no room for as many pairs as would overflow it. -/
def valueOf (vout : List CTxOut) : ℤ := (vout.map fun txout => txout.nValue.toInt).sum

/-- The check of the outputs of an entry. -/
def outputsFound (vout vecTxOut : List CTxOut) : Bool :=
  let found := foundOutputs vout vecTxOut
  vecTxOut.length ≤ found.length && valueOf found = valueOf vecTxOut

/-- `nMyInputIndex`: the last index of the input. -/
def myInputIndex (vin : List CTxIn) (txdsin : CTxDSIn) : Option ℕ :=
  vin.zipIdx.foldl (fun index p => if p.1 = txdsin.toCTxIn then some p.2 else index) none

/-- The final transaction while it is signed, and `sigs`. Every signed input is kept with the entry
    it is of. -/
structure Signing where
  tx : CMutableTransaction
  sigs : List (CDarkSendEntry × CTxIn)

/-- The loop body of `SignFinalTransaction` for an input of an entry. -/
def signInput (ctx : ClientContext) (st : Signing) (own : CDarkSendEntry × CTxDSIn) :
    Except SignRefusal Signing :=
  match myInputIndex st.tx.vin own.2 with
  | none => .ok st
  | some nMyInputIndex => do
    require (outputsFound st.tx.vout own.1.vecTxOut) .givenUp
    let scriptSig := ctx.signSignature own.2.prevPubKey st.tx nMyInputIndex
    let txin := { own.2.toCTxIn with scriptSig }
    .ok ⟨{ st.tx with vin := st.tx.vin.set nMyInputIndex txin }, st.sigs ++ [(own.1, txin)]⟩

/-- `CPrivateSendClient::SignFinalTransaction`, with the signatures it pushes to the masternode. -/
def CPrivateSendClient.signFinalTransaction (client : CPrivateSendClient) (ctx : ClientContext)
    (finalTransactionNew : CTransaction) : Except SignRefusal (List (CDarkSendEntry × CTxIn)) := do
  require (!ctx.fMasternodeMode && ctx.hasNode) .ignored
  let tx : CMutableTransaction :=
    { nVersion := finalTransactionNew.nVersion
      vin := finalTransactionNew.vin.insertionSort fun a b => compareInputBIP69 b a = false
      vout := finalTransactionNew.vout.insertionSort fun a b => compareOutputBIP69 b a = false
      nLockTime := finalTransactionNew.nLockTime }
  require (ctx.getHash tx == finalTransactionNew.hash) .givenUp
  let ownInputs := client.vecEntries.flatMap fun entry => entry.vecTxDSIn.map (entry, ·)
  let st ← ownInputs.foldlM (signInput ctx) ⟨tx, []⟩
  require (!st.sigs.isEmpty) .givenUp
  .ok st.sigs

/-! ## What the check says -/

variable {vout vecTxOut : List CTxOut}

theorem mem_foundOutputs {o : CTxOut} :
    o ∈ foundOutputs vout vecTxOut ↔ o ∈ vout ∧ o ∈ vecTxOut := by
  simp [foundOutputs]

theorem count_foundOutputs (o : CTxOut) :
    (foundOutputs vout vecTxOut).count o = vout.count o * vecTxOut.count o := by
  induction vout with
  | nil => simp [foundOutputs]
  | cons final rest ih =>
    rw [foundOutputs, flatMap_cons, count_append, ← foundOutputs, ih]
    by_cases ho : final = o
    · simp [ho, Nat.add_mul, Nat.add_comm]
    · simp [ho, count_eq_zero.mpr]

/-- What is left out of a sum has a value. -/
theorem eq_of_valueOf_le {l l' : List CTxOut} (hsub : l <+ l') :
    (∀ txout ∈ l', 0 < txout.nValue.toInt) →
      valueOf l ≤ valueOf l' ∧ (valueOf l' ≤ valueOf l → l = l') := by
  induction hsub with
  | slnil => simp
  | cons txout _ ih =>
    intro hpos
    obtain ⟨hle, -⟩ := ih (forall_mem_cons.mp hpos).2
    have := hpos txout mem_cons_self
    simp only [valueOf, map_cons, sum_cons] at hle ⊢
    omega
  | cons_cons txout _ ih =>
    intro hpos
    obtain ⟨hle, heq⟩ := ih (forall_mem_cons.mp hpos).2
    simp only [valueOf, map_cons, sum_cons, add_le_add_iff_left] at hle heq ⊢
    exact ⟨hle, fun h => by rw [heq h]⟩

/-- **Outputs that pass the check are all there exactly if none is there twice on either side.** -/
theorem subperm_iff_of_outputsFound (hpos : ∀ txout ∈ vecTxOut, 0 < txout.nValue.toInt)
    (hfound : outputsFound vout vecTxOut) :
    vecTxOut <+~ vout ↔ vecTxOut.Nodup ∧ ∀ o ∈ vecTxOut, vout.count o ≤ 1 := by
  simp only [outputsFound, Bool.and_eq_true, decide_eq_true_eq] at hfound
  have hcount := @count_foundOutputs vout vecTxOut
  constructor
  · intro hsub
    have hle := subperm_iff_count.mp hsub
    obtain ⟨part, hpart, hsublist⟩ : vecTxOut <+~ foundOutputs vout vecTxOut := by
      refine subperm_iff_count.mpr fun o => ?_
      rcases Nat.eq_zero_or_pos (vecTxOut.count o) with hzero | hown
      · simp [hzero]
      · exact hcount o ▸ Nat.le_mul_of_pos_left _ (hown.trans_le (hle o))
    -- the pairs have the value of the own outputs, so there are no more of them
    have hpairs : part = foundOutputs vout vecTxOut := by
      refine (eq_of_valueOf_le hsublist fun o ho => hpos o (mem_foundOutputs.mp ho).2).2 ?_
      exact (hfound.2.trans (hpart.map _).sum_eq.symm).le
    have hone : ∀ o ∈ vecTxOut, vout.count o = 1 := fun o ho =>
      Nat.eq_of_mul_eq_mul_right (count_pos_iff.mpr ho)
        (by rw [← hcount, ← hpairs, hpart.count_eq, one_mul])
    refine ⟨nodup_iff_count_le_one.mpr fun o => ?_, fun o ho => (hone o ho).le⟩
    by_cases ho : o ∈ vecTxOut
    · exact hone o ho ▸ hle o
    · simp [count_eq_zero.mpr ho]
  · rintro ⟨hnodup, hone⟩
    have hsub : foundOutputs vout vecTxOut <+~ vecTxOut := by
      refine subperm_iff_count.mpr fun o => hcount o ▸ ?_
      by_cases ho : o ∈ vecTxOut
      · exact mul_le_of_le_one_left (Nat.zero_le _) (hone o ho)
      · simp [count_eq_zero.mpr ho]
    have hperm := hsub.perm_of_length_le hfound.1
    exact subperm_of_subset hnodup fun o ho => (mem_foundOutputs.mp (hperm.mem_iff.mpr ho)).1

theorem pos_of_mem_denominations {nValue : CAmount} (h : nValue ∈ vecStandardDenominations) :
    0 < nValue.toInt := by
  have hall : vecStandardDenominations.all fun nValue => 0 < nValue.toInt := by decide
  simpa using all_eq_true.mp hall nValue h

/-! ## What is signed -/

variable {entries : List CDarkSendEntry} {ctx : ClientContext}

/-- The outputs stay as they are, and every entry with a signature passed the check. -/
def Signing.Checked (vout : List CTxOut) (entries : List CDarkSendEntry) (st : Signing) : Prop :=
  st.tx.vout = vout ∧ ∀ sig ∈ st.sigs, sig.1 ∈ entries ∧ outputsFound vout sig.1.vecTxOut

theorem Signing.Checked.signInput {st : Signing} {own : CDarkSendEntry × CTxDSIn}
    (hst : st.Checked vout entries) (hown : own.1 ∈ entries) :
    Ensures (signInput ctx st own) (Checked vout entries) := by
  unfold Binarium.signInput
  split
  · exact .ok hst
  · refine .bind fun _ hfound => .ok ⟨hst.1, fun sig hsig => ?_⟩
    rw [require_eq_ok_iff, hst.1] at hfound
    rcases mem_append.mp hsig with hsig | hsig
    · exact hst.2 sig hsig
    · rw [mem_singleton.mp hsig]
      exact ⟨hown, hfound⟩

namespace CPrivateSendClient

variable (client : CPrivateSendClient) (ctx) (finalTransactionNew : CTransaction)

theorem checked_of_signFinalTransaction :
    Ensures (client.signFinalTransaction ctx finalTransactionNew) fun sigs => ∀ sig ∈ sigs,
      (∀ o ∈ sig.1.vecTxOut, 0 < o.nValue.toInt) ∧ ∃ vout, vout ~ finalTransactionNew.vout ∧
        outputsFound vout sig.1.vecTxOut := by
  refine .bind fun _ _ => .bind fun _ _ => .bind fun st hst => .bind fun _ _ => .ok ?_
  intro sig hsig
  have hchecked := Ensures.foldlM (Q := Signing.Checked _ client.vecEntries) _ (by
    intro st hst own hown
    obtain ⟨entry, hentry, hown⟩ := mem_flatMap.mp hown
    obtain ⟨txdsin, -, rfl⟩ := mem_map.mp hown
    exact hst.signInput hentry) _ ⟨rfl, by simp⟩ st hst
  obtain ⟨hentry, hfound⟩ := hchecked.2 sig hsig
  exact ⟨fun o ho => pos_of_mem_denominations (client.denominated _ hentry o ho),
    _, perm_insertionSort _ _, hfound⟩

/-- **A client that signs keeps its outputs exactly if they differ and the masternode put none of
    them into the transaction twice.** -/
theorem signFinalTransaction_keeps_outputs_iff :
    (Ensures (client.signFinalTransaction ctx finalTransactionNew) fun sigs =>
        ∀ sig ∈ sigs, sig.1.vecTxOut <+~ finalTransactionNew.vout)
      ↔ Ensures (client.signFinalTransaction ctx finalTransactionNew) fun sigs =>
        ∀ sig ∈ sigs, sig.1.vecTxOut.Nodup
          ∧ ∀ o ∈ sig.1.vecTxOut, finalTransactionNew.vout.count o ≤ 1 := by
  refine forall_congr' fun sigs => forall_congr' fun hsigs => forall_congr' fun sig =>
    forall_congr' fun hsig => ?_
  obtain ⟨hpos, vout, hperm, hfound⟩ :=
    checked_of_signFinalTransaction ctx client finalTransactionNew sigs hsigs sig hsig
  simp only [← hperm.count_eq, ← hperm.subperm_left]
  exact subperm_iff_of_outputsFound hpos hfound

end CPrivateSendClient

/-- A client that wants to have two outputs of the smallest denomination. -/
def twoOutputsClient : CPrivateSendClient where
  vecEntries :=
    [⟨[⟨⟨⟨1, 0⟩, [], 0⟩, [], false⟩], [⟨1000010, [1]⟩, ⟨1000010, [2]⟩], ⟨0, 1, [], [], 0⟩, 0⟩]
  denominated := by decide

/-- The masternode sends the first output twice and the client signs. -/
theorem second_output_signed_away :
    ¬ Ensures (twoOutputsClient.signFinalTransaction ⟨false, true, fun _ => 0, fun _ _ _ => []⟩
      ⟨0, 1, [⟨⟨1, 0⟩, [], 0⟩], [⟨1000010, [1]⟩, ⟨1000010, [1]⟩], 0⟩) fun sigs =>
        ∀ sig ∈ sigs, sig.1.vecTxOut <+~ [⟨1000010, [1]⟩, ⟨1000010, [1]⟩] := by
  intro h
  have := h _ rfl _ mem_cons_self
  revert this
  decide

end Binarium
