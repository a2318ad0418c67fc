import Binarium.PrivateSend.Sessions

set_option autoImplicit false

/-! # What a mixing session is left with

Three ways out of the handlers: a rejected entry, a final transaction that the memory pool refuses, and
fees for those who did not sign. -/

namespace Binarium

open Checks List

namespace CPrivateSendServer

variable {ctx : MixingContext} {s : CPrivateSendServer}

/-! ## Rejected entries -/

/-- What the other participants have in the session is the same. -/
def SameSession (s s' : CPrivateSendServer) : Prop :=
  s'.vecEntries = s.vecEntries ∧ s'.vecSessionCollaterals = s.vecSessionCollaterals
    ∧ s'.nSessionID = s.nSessionID ∧ s'.nState = s.nState

/-- There is no session. -/
def NullSession (s : CPrivateSendServer) : Prop :=
  s.vecEntries = [] ∧ s.vecSessionCollaterals = [] ∧ s.nSessionID = 0 ∧ s.nState = .idle

theorem sameSession_setNull : SameSession s (s.setNull ctx) ↔ NullSession s := by
  simp [SameSession, NullSession, setNull, eq_comm]

/-- **Rejected entries are harmless if and only if they do not get as far as `AddEntry`**, or there was
    no session to reset. -/
theorem rejected_entry_harmless_iff (nVersion : ℤ) (addr : CService) (vecTxIn : List CTxIn)
    (tx : CTransaction) (vecTxOut : List CTxOut) (message : PoolMessage)
    (h : (s.processMessage ctx nVersion addr (.DSVIN vecTxIn tx vecTxOut)).1
      = [s.pushStatus addr .rejected message]) :
    SameSession s (s.processMessage ctx nVersion addr (.DSVIN vecTxIn tx vecTxOut)).2
      ↔ nVersion < MIN_PRIVATESEND_PEER_PROTO_VERSION ∨ s.isSessionReady ctx = false
        ∨ s.checkEntry ctx ⟨vecTxIn.map fun txin => { txin with }, vecTxOut, tx, addr⟩ ≠ .ok ()
        ∨ NullSession s := by
  have same : SameSession s s := ⟨rfl, rfl, rfl, rfl⟩
  simp only [processMessage] at h ⊢
  split_ifs at h ⊢ with hmode hversion
  · exact iff_of_true same (.inl hversion)
  · generalize (⟨vecTxIn.map fun txin => { txin with }, vecTxOut, tx, addr⟩ : CDarkSendEntry)
      = entry at h ⊢
    unfold processDSVIN at h ⊢
    split_ifs at h ⊢ with hready
    · exact iff_of_true same (.inr (.inl (by simpa using hready)))
    · cases hcheck : s.checkEntry ctx entry with
      | error m => exact iff_of_true same (by simp)
      | ok _ =>
        cases hadd : s.addEntry ctx entry with
        | error m => simp_all [sameSession_setNull]
        | ok s' =>
          -- the entry was accepted
          simp only [hcheck, hadd] at h
          simp [pushStatus] at h

/-- An entry without a denomination is rejected, and the session goes on. -/
theorem rejected_entry_harmless_undenominated :
    (((mixingRun 8 [1, 2]).processMessage sampleMixing 70208 3 (.DSVIN [] (sampleCollateral 3) [])).1
      = [(mixingRun 8 [1, 2]).pushStatus 3 .rejected .ERR_EXISTING_TX])
    ∧ SameSession (mixingRun 8 [1, 2])
      ((mixingRun 8 [1, 2]).processMessage sampleMixing 70208 3 (.DSVIN [] (sampleCollateral 3) [])).2 :=
  have h := by decide +kernel
  ⟨h, (rejected_entry_harmless_iff 70208 3 [] (sampleCollateral 3) [] .ERR_EXISTING_TX h).mpr
    (.inr (.inr (.inl (by decide +kernel))))⟩

/-- **An input that is there already resets the session** of two others. -/
theorem already_have_resets :
    let r := (mixingRun 8 [1, 2]).processMessage sampleMixing 70208 3
      (.DSVIN [sampleInput 1 []] (sampleCollateral 3) [⟨1000010, payToZero⟩])
    Reachable (mixingRun 8 [1, 2])
      ∧ r.1 = [(mixingRun 8 [1, 2]).pushStatus 3 .rejected .ERR_ALREADY_HAVE]
      ∧ (mixingRun 8 [1, 2]).vecEntries.length = 2 ∧ (mixingRun 8 [1, 2]).nSessionID = 1
      ∧ r.2.vecEntries = [] ∧ r.2.vecSessionCollaterals = [] ∧ r.2.nSessionID = 0
      ∧ r.2.nState = .idle :=
  ⟨reachable_mixingRun _ _, by decide +kernel⟩

/-! ## A final transaction that is refused -/

/-- **A failed commit tells nobody**: all participants with a connection are notified if and only if
    there are none. -/
theorem commit_failure_notified_iff (h : s.finalAccepted ctx = false) :
    (∀ entry ∈ s.vecEntries, ctx.connected entry.addr = true → ∃ nSessionID,
        .complete entry.addr nSessionID .ERR_INVALID_TX ∈ (s.commitFinalTransaction ctx).1)
      ↔ ∀ entry ∈ s.vecEntries, ctx.connected entry.addr = false := by
  have hnone : (s.commitFinalTransaction ctx).1 = [] := by
    unfold commitFinalTransaction
    split_ifs
    · rfl
    · -- the entries are gone before the relay
      simp [relayCompletedTransaction, relayToEntries, setNull]
    · simp_all
  simp [hnone]

/-- Without connections nobody has to be told. -/
theorem commit_failure_notified_disconnected :
    let ctx := { sampleMixing with lockMain := false, connected := fun _ => false }
    (mixingRun 8 [1, 2, 3]).finalAccepted ctx = false
      ∧ ∀ entry ∈ (mixingRun 8 [1, 2, 3]).vecEntries, ctx.connected entry.addr → ∃ nSessionID,
        .complete entry.addr nSessionID .ERR_INVALID_TX
          ∈ ((mixingRun 8 [1, 2, 3]).commitFinalTransaction ctx).1 :=
  ⟨rfl, (commit_failure_notified_iff rfl).mpr fun _ _ => rfl⟩

/-- **Three participants learn nothing of the failed commit.** -/
theorem commit_failure_silent :
    let ctx := { sampleMixing with acceptToMemoryPool := fun _ => false }
    Reachable (mixingRun 8 [1, 2, 3]) ∧ (mixingRun 8 [1, 2, 3]).finalAccepted ctx = false
      ∧ (mixingRun 8 [1, 2, 3]).vecEntries.map (·.addr) = [1, 2, 3]
      ∧ ((mixingRun 8 [1, 2, 3]).commitFinalTransaction ctx).1 = [] :=
  ⟨reachable_mixingRun _ _, by decide +kernel⟩

/-! ## Fees for those who did not sign -/

/-- The inputs without a signature. -/
def unsignedInputs (s : CPrivateSendServer) : List CTxDSIn :=
  s.poolInputs.filter fun txdsin => !txdsin.fHasSig

/-- The participant has an input without a signature. -/
def Unsigned (entry : CDarkSendEntry) : Prop := ∃ txdsin ∈ entry.vecTxDSIn, txdsin.fHasSig = false

instance (entry : CDarkSendEntry) : Decidable (Unsigned entry) := by
  unfold Unsigned
  infer_instance

theorem mem_offendersCollaterals (h : s.nState = .signing) (tx : CTransaction) :
    tx ∈ s.offendersCollaterals ↔ ∃ entry ∈ s.vecEntries, Unsigned entry ∧ tx = entry.txCollateral := by
  simp [offendersCollaterals, h, Unsigned]

theorem length_offendersCollaterals (h : s.nState = .signing) :
    s.offendersCollaterals.length = s.unsignedInputs.length := by
  simp [offendersCollaterals, h, unsignedInputs, poolInputs, filter_flatMap]

/-- **Non-signers are charged if and only if there are fewer open inputs than participants in a full
    pool**, when the draws pass. -/
theorem chargeFees_nonSigner_iff (hmode : ctx.fMasternodeMode = true) (hstate : s.nState = .signing)
    (hopen : ∃ entry ∈ s.vecEntries, Unsigned entry) (hcharge : ctx.randCharge ≤ 33)
    (hmostly : ctx.randMostly ≤ 33) (hshuffle : ∀ l, (ctx.shuffle l).Perm l) :
    (∃ entry ∈ s.vecEntries, Unsigned entry ∧ s.chargeFees ctx = some entry.txCollateral)
      ↔ s.unsignedInputs.length < ctx.network.poolMaxTransactions := by
  obtain ⟨first, hfirst, hunsigned⟩ := hopen
  have hmem := (mem_offendersCollaterals hstate first.txCollateral).mpr ⟨first, hfirst, hunsigned, rfl⟩
  have hfees : s.chargeFees ctx = if ctx.network.poolMaxTransactions ≤ s.unsignedInputs.length then none
      else (ctx.shuffle s.offendersCollaterals).head? := by
    simp [chargeFees, hmode, hcharge.not_gt, hmostly.not_gt, ne_nil_of_mem hmem,
      length_offendersCollaterals hstate]
  rw [hfees]
  split_ifs
  · exact iff_of_false (by simp) (by omega)
  · refine iff_of_true ?_ (by omega)
    -- the head of the shuffled list is one of the offenders
    obtain ⟨tx, htx⟩ := Option.ne_none_iff_exists'.mp (mt head?_eq_none_iff.mp
      (ne_nil_of_mem ((hshuffle _).mem_iff.mpr hmem)))
    have hoffender := (hshuffle _).mem_iff.mp (mem_of_mem_head? htx)
    obtain ⟨entry, hentry, hopen, rfl⟩ := (mem_offendersCollaterals hstate tx).mp hoffender
    exact ⟨entry, hentry, hopen, htx⟩

/-- Three participants hand in their entries, the second one for some inputs, and the others sign. -/
def partlySigned (inputs : ℕ) : CPrivateSendServer :=
  (mixingRun 8 [1]).run [
    (sampleMixing, .message 70208 2 (.DSVIN ((List.range inputs).map fun k => sampleInput (10 + k) [])
      (sampleCollateral 2) (List.replicate inputs ⟨1000010, payToZero⟩))),
    (sampleMixing, .message 70208 3 (.DSVIN [sampleInput 3 []] (sampleCollateral 3)
      [⟨1000010, payToZero⟩])),
    (sampleMixing, .message 70208 1 (.DSSIGNFINALTX [sampleInput 1 [0x51]])),
    (sampleMixing, .message 70208 3 (.DSSIGNFINALTX [sampleInput 3 [0x53]]))]

theorem reachable_partlySigned (inputs : ℕ) : Reachable (partlySigned inputs) :=
  ⟨0, _, (foldl_append ..).symm⟩

/-- Two open inputs of one participant are charged. -/
theorem chargeFees_nonSigner_two : (partlySigned 2).unsignedInputs.length = 2
    ∧ ∃ entry ∈ (partlySigned 2).vecEntries, Unsigned entry
      ∧ (partlySigned 2).chargeFees sampleMixing = some entry.txCollateral :=
  ⟨by decide +kernel, (chargeFees_nonSigner_iff rfl (by decide +kernel) (by decide +kernel) (by decide)
    (by decide) fun _ => .refl _).mpr (by decide +kernel)⟩

/-- **Three open inputs are not charged**, though the other participants have signed. -/
theorem chargeFees_spares_three : Reachable (partlySigned 3) ∧ (partlySigned 3).nState = .signing
    ∧ (∃ entry ∈ (partlySigned 3).vecEntries, Unsigned entry)
    ∧ (∃ entry ∈ (partlySigned 3).vecEntries, ∀ txdsin ∈ entry.vecTxDSIn, txdsin.fHasSig = true)
    ∧ (partlySigned 3).chargeFees sampleMixing = none :=
  ⟨reachable_partlySigned 3, by decide +kernel⟩

end CPrivateSendServer

end Binarium
