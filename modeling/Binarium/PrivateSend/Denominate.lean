import Binarium.PrivateSend.Client

set_option autoImplicit false

/-! # What a mixing client hands in (`privatesend-client.cpp`, `wallet/wallet.cpp`)

`SelectCoinsByDenominations` chooses coins of the wallet, and `PrepareDenominate` moves them into an
entry in five to `PRIVATESEND_ENTRY_MAX_SIZE` steps. A masternode refuses an entry with more than
`PRIVATESEND_ENTRY_MAX_SIZE` inputs or outputs. But a step takes a coin of every denomination of the
session, so that only a session of one denomination keeps to the limit. -/

namespace Binarium

open Checks List CPrivateSendServer Nat Int32

/-! ## The wallet -/

/-- `InsecureRand`. -/
structure InsecureRand where
  nRz : UInt32
  nRw : UInt32

/-- `InsecureRand::operator()`. -/
def InsecureRand.next (rand : InsecureRand) (nMax : Int64) : Int64 × InsecureRand :=
  let nRz : UInt32 := 36969 * (rand.nRz &&& 65535) + (rand.nRz >>> (16 : UInt32))
  let nRw : UInt32 := 18000 * (rand.nRw &&& 65535) + (rand.nRw >>> (16 : UInt32))
  (((nRw <<< (16 : UInt32)) + nRz).toUInt64.toInt64 % nMax, ⟨nRz, nRw⟩)

/-- `COutput`, with its `GetOutpointPrivateSendRounds`. -/
structure COutput where
  prevout : COutPoint
  nValue : CAmount
  scriptPubKey : CScript
  nRounds : ℤ

/-- `CTxDSIn(txin, scriptPubKey)` of a coin. -/
def COutput.txDSIn (out : COutput) : CTxDSIn :=
  ⟨⟨out.prevout, [], 0xFFFFFFFF⟩, out.scriptPubKey, false⟩

/-- The wallet, with what `AvailableCoins` finds for `ONLY_DENOMINATED`, shuffled. -/
structure CWallet where
  isLocked : Bool := false
  vCoins : List COutput
  denominated : ∀ out ∈ vCoins, out.nValue ∈ vecStandardDenominations

/-- The bits that `GetDenominationsBits` finds. -/
def vecBits (nDenom : Int32) : List ℕ :=
  (range 4).filter fun i => nDenom &&& 1 <<< Int32.ofNat i != 0

/-- The variables of `SelectCoinsByDenominations`. `vecTxDSInRet` are the inputs of `vCoinsRet`. -/
structure Selecting where
  nValueMax : CAmount
  insecureRand : InsecureRand
  nValueRet : CAmount := 0
  vCoinsRet : List COutput := []
  nDenomResult : Int32 := 0

/-- The loop body for a coin and a bit. An `.error` is the `return true` in it. -/
def selectBit (nValueMin : CAmount) (nCoins : ℕ) (out : COutput) (st : Selecting) (nBit : ℕ) :
    Except Selecting Selecting :=
  if out.nValue ≠ vecStandardDenominations.getD nBit 0 then .ok st
  else
    let selected (st : Selecting) : Selecting :=
      { st with
        nValueRet := st.nValueRet + out.nValue
        vCoinsRet := st.vCoinsRet ++ [out]
        nDenomResult := st.nDenomResult ||| 1 <<< Int32.ofNat nBit }
    if nValueMin ≤ st.nValueRet then
      let reduction := st.insecureRand.next (st.nValueMax / 5)
      let r := reduction.2.next (Int64.ofNat nCoins)
      let st := { st with nValueMax := st.nValueMax - reduction.1, insecureRand := r.2 }
      if r.1 < Int64.ofNat st.vCoinsRet.length then .error st else .ok (selected st)
    else .ok (selected st)

/-- `CWallet::SelectCoinsByDenominations`: its result, the coins and their value. -/
def CWallet.selectCoinsByDenominations (wallet : CWallet) (insecureRand : InsecureRand)
    (nDenom : Int32) (nValueMin nValueMax : CAmount) (nRoundsMin nRoundsMax : ℤ) :
    Bool × List COutput × CAmount :=
  if !getDenominationsBits nDenom then (false, [], 0)
  else
    let selectCoin (st : Selecting) (out : COutput) : Except Selecting Selecting :=
      if st.nValueRet + out.nValue ≤ st.nValueMax ∧ nRoundsMin ≤ out.nRounds
          ∧ out.nRounds < nRoundsMax then
        (vecBits nDenom).foldlM (selectBit nValueMin wallet.vCoins.length out) st
      else .ok st
    match wallet.vCoins.foldlM selectCoin { nValueMax, insecureRand } with
    | .error st => (true, st.vCoinsRet, st.nValueRet)
    | .ok st =>
      (nValueMin ≤ st.nValueRet && nDenom = st.nDenomResult, st.vCoinsRet, st.nValueRet)

/-! ## The entry -/

/-- What `PrepareDenominate` reads of the rest of the node. -/
structure DenominateContext where
  pwalletMain : Option CWallet
  insecureRand : InsecureRand
  /-- `GetRandInt(PRIVATESEND_ENTRY_MAX_SIZE-5+1)`. -/
  stepsRand : Fin (PRIVATESEND_ENTRY_MAX_SIZE - 5 + 1)
  /-- The scripts of `keyHolderStorage.AddKey`. -/
  addKey : ℕ → CScript

/-- The variables of `PrepareDenominate`. `vecTxDSIn` are the inputs of `vCoins`. -/
structure Preparing where
  vCoins : List COutput
  nValueLeft : CAmount
  vecTxDSInRet : List CTxDSIn := []
  vecTxOutRet : List CTxOut := []

/-- The loop body for a bit: the first coin of the denomination is moved. -/
def addDenomination (addKey : ℕ → CScript) (st : Preparing) (nBit : ℕ) : Preparing :=
  let nValueDenom := vecStandardDenominations.getD nBit 0
  if st.nValueLeft - nValueDenom < 0 then st
  else match st.vCoins.find? (·.nValue == nValueDenom) with
    | none => st
    | some out =>
      { vCoins := st.vCoins.eraseP (·.nValue == nValueDenom)
        nValueLeft := st.nValueLeft - nValueDenom
        vecTxDSInRet := st.vecTxDSInRet ++ [out.txDSIn]
        vecTxOutRet := st.vecTxOutRet ++ [⟨nValueDenom, addKey st.vecTxOutRet.length⟩] }

/-- The steps that are left. -/
def takeSteps (addKey : ℕ → CScript) (bits : List ℕ) : ℕ → Preparing → Preparing
  | 0, st => st
  | nSteps + 1, st =>
    let st := bits.foldl (addDenomination addKey) st
    if st.nValueLeft = 0 then st else takeSteps addKey bits nSteps st

/-- `GetMaxPoolAmount`. -/
def getMaxPoolAmount : CAmount :=
  Int64.ofNat PRIVATESEND_ENTRY_MAX_SIZE * vecStandardDenominations.headD 0

/-- `CPrivateSendClient::PrepareDenominate`: the inputs and outputs of the entry. -/
def CPrivateSendClient.prepareDenominate (client : CPrivateSendClient) (ctx : DenominateContext)
    (nSessionDenom : Int32) (nMinRounds nMaxRounds : ℤ) :
    Except String (List CTxDSIn × List CTxOut) :=
  match ctx.pwalletMain with
  | none => .error "Wallet is not initialized"
  | some wallet => do
    require (!wallet.isLocked) "Wallet locked, unable to create transaction!"
    require client.vecEntries.isEmpty "Already have pending entries in the PrivateSend pool"
    require (getDenominationsBits nSessionDenom) "Incorrect session denom"
    let bits := vecBits nSessionDenom
    let selection := wallet.selectCoinsByDenominations ctx.insecureRand nSessionDenom
      (vecStandardDenominations.getD (bits.headD 0) 0) getMaxPoolAmount nMinRounds nMaxRounds
    require (!(decide (0 ≤ nMinRounds) && !selection.1)) "Can't select current denominated inputs"
    let st := takeSteps ctx.addKey bits (5 + ctx.stepsRand) ⟨selection.2.1, selection.2.2, [], []⟩
    require (getDenominations st.vecTxOutRet == nSessionDenom)
      "Can't make current denominated outputs"
    .ok (st.vecTxDSInRet, st.vecTxOutRet)

/-! ## How large it is -/

/-- The entry has at most `n` inputs and outputs. -/
def Preparing.AtMost (n : ℕ) (st : Preparing) : Prop :=
  st.vecTxDSInRet.length ≤ n ∧ st.vecTxOutRet.length ≤ n

variable (addKey : ℕ → CScript) {n : ℕ} {st : Preparing}

theorem Preparing.AtMost.addDenomination (hst : st.AtMost n) (nBit : ℕ) :
    (addDenomination addKey st nBit).AtMost (n + 1) := by
  obtain ⟨hins, houts⟩ := hst
  unfold Binarium.addDenomination
  simp only
  split_ifs
  · exact ⟨hins.trans n.le_succ, houts.trans n.le_succ⟩
  · split
    · exact ⟨hins.trans n.le_succ, houts.trans n.le_succ⟩
    · simp [AtMost, hins, houts]

theorem Preparing.AtMost.foldl (bits : List ℕ) (hst : st.AtMost n) :
    (bits.foldl (Binarium.addDenomination addKey) st).AtMost (n + bits.length) := by
  induction bits generalizing n st with
  | nil => exact hst
  | cons nBit bits ih =>
    have := ih (hst.addDenomination addKey nBit)
    rwa [add_assoc, add_comm 1] at this

/-- A step adds a coin for each bit. -/
theorem Preparing.AtMost.takeSteps (bits : List ℕ) (nSteps : ℕ) (hst : st.AtMost n) :
    (takeSteps addKey bits nSteps st).AtMost (n + nSteps * bits.length) := by
  induction nSteps generalizing n st with
  | zero => simpa [Binarium.takeSteps] using hst
  | succ nSteps ih =>
    have hstep := hst.foldl addKey bits
    simp only [Binarium.takeSteps]
    split_ifs
    · exact ⟨by grind [hstep.1], by grind [hstep.2]⟩
    · have := ih hstep
      rwa [add_assoc, add_comm bits.length, ← succ_mul] at this

theorem getDenominations_nonneg (vecTxOut : List CTxOut) : 0 ≤ getDenominations vecTxOut := by
  unfold getDenominations
  simp only [vecStandardDenominations, zipIdx_cons, zipIdx_nil, foldl_cons, foldl_nil]
  split_ifs <;> decide

theorem lt_of_getDenominationsBits {nDenom : Int32} (h : getDenominationsBits nDenom) :
    nDenom < 16 := by
  simp only [getDenominationsBits, Bool.and_eq_true, decide_eq_true_eq] at h
  exact h.1

namespace CPrivateSendClient

/-- An entry has room for as many coins of each denomination as there are steps. -/
theorem prepareDenominate_spec (client : CPrivateSendClient) (ctx : DenominateContext)
    (nSessionDenom : Int32) (nMinRounds nMaxRounds : ℤ) :
    Ensures (client.prepareDenominate ctx nSessionDenom nMinRounds nMaxRounds) fun entry =>
      (0 ≤ nSessionDenom ∧ nSessionDenom < 16)
        ∧ entry.1.length ≤ PRIVATESEND_ENTRY_MAX_SIZE * (vecBits nSessionDenom).length
        ∧ entry.2.length ≤ PRIVATESEND_ENTRY_MAX_SIZE * (vecBits nSessionDenom).length := by
  unfold prepareDenominate
  split
  · exact .error
  · refine .bind fun _ _ => .bind fun _ _ => .bind fun _ hbits => .bind fun _ _ => .bind
      fun _ hdenom => .ok ?_
    rw [require_eq_ok_iff] at hbits hdenom
    rw [beq_iff_eq] at hdenom
    refine ⟨⟨hdenom ▸ getDenominations_nonneg _, lt_of_getDenominationsBits hbits⟩, ?_⟩
    have hsteps : 5 + ctx.stepsRand.val ≤ PRIVATESEND_ENTRY_MAX_SIZE := by
      have := ctx.stepsRand.isLt
      simp only [PRIVATESEND_ENTRY_MAX_SIZE] at this ⊢
      omega
    have hroom := mul_le_mul_right (vecBits nSessionDenom).length hsteps
    obtain ⟨hins, houts⟩ := @Preparing.AtMost.takeSteps ctx.addKey 0 ⟨_, _, [], []⟩
      (vecBits nSessionDenom) (5 + ctx.stepsRand) ⟨le_rfl, le_rfl⟩
    rw [zero_add] at hins houts
    exact ⟨hins.trans hroom, houts.trans hroom⟩

/-- Nine coins of each denomination, the small ones first. -/
def fullWallet : CWallet where
  vCoins := vecStandardDenominations.reverse.zipIdx.flatMap fun nValue =>
    (range 9).map fun k => ⟨⟨nValue.2, BitVec.ofNat 32 k⟩, nValue.1, [], 0⟩
  denominated := by decide

/-- A client with that wallet prepares an entry in nine steps. -/
def prepareFull (nSessionDenom : Int32) : Except String (List CTxDSIn × List CTxOut) :=
  prepareDenominate ⟨[], by simp⟩ ⟨some fullWallet, ⟨1, 1⟩, 4, fun _ => []⟩ nSessionDenom 0 1

/-- Is there an entry, and one of more inputs than a masternode takes? -/
def tooManyInputs : Except String (List CTxDSIn × List CTxOut) → Bool
  | .error _ => false
  | .ok entry => PRIVATESEND_ENTRY_MAX_SIZE < entry.1.length

theorem exists_of_tooManyInputs {r : Except String (List CTxDSIn × List CTxOut)}
    (h : tooManyInputs r) :
    ∃ entry, r = .ok entry ∧ PRIVATESEND_ENTRY_MAX_SIZE < entry.1.length := by
  cases r with
  | error => simp [tooManyInputs] at h
  | ok entry => exact ⟨entry, rfl, of_decide_eq_true h⟩

theorem tooManyInputs_prepareFull : (range 16).all fun k => decide ((vecBits (ofNat k)).length ≤ 1)
      || tooManyInputs (prepareFull (ofNat k)) := by
  decide +kernel

/-- **A client keeps to the size that the masternode takes exactly if the session has a single
    denomination.** The entry is never ready where the bits are not those of a session. -/
theorem prepareDenominate_fits_iff (nSessionDenom : Int32) :
    (∀ (client : CPrivateSendClient) (ctx : DenominateContext) (nMinRounds nMaxRounds : ℤ),
        Ensures (client.prepareDenominate ctx nSessionDenom nMinRounds nMaxRounds) fun entry =>
          entry.1.length ≤ PRIVATESEND_ENTRY_MAX_SIZE
            ∧ entry.2.length ≤ PRIVATESEND_ENTRY_MAX_SIZE)
      ↔ (0 ≤ nSessionDenom → nSessionDenom < 16 → (vecBits nSessionDenom).length ≤ 1) := by
  constructor
  · intro hfits hnonneg hlt
    obtain ⟨k, hk, rfl⟩ : ∃ k < 16, nSessionDenom = ofNat k := by
      rw [le_iff_toInt_le] at hnonneg
      rw [lt_iff_toInt_lt, show (16 : Int32).toInt = 16 by decide] at hlt
      obtain ⟨k, hk⟩ := Int.eq_ofNat_of_zero_le hnonneg
      refine ⟨k, by omega, ?_⟩
      rw [← ofInt_toInt nSessionDenom, hk]
      rfl
    have hfull := all_eq_true.mp tooManyInputs_prepareFull k (mem_range.mpr hk)
    rw [Bool.or_eq_true, decide_eq_true_eq] at hfull
    refine hfull.resolve_right fun hmany => ?_
    obtain ⟨entry, hentry, hlarge⟩ := exists_of_tooManyInputs hmany
    exact absurd (hfits _ _ _ _ entry hentry).1 (not_le.mpr hlarge)
  · intro hone client ctx nMinRounds nMaxRounds entry hentry
    obtain ⟨⟨hnonneg, hlt⟩, hins, houts⟩ :=
      client.prepareDenominate_spec ctx nSessionDenom nMinRounds nMaxRounds entry hentry
    have hroom := mul_le_mul_left PRIVATESEND_ENTRY_MAX_SIZE (hone hnonneg hlt)
    exact ⟨hins.trans hroom, houts.trans hroom⟩

/-- In a session of the two largest denominations, a masternode refuses the entry. -/
theorem prepared_entry_refused : ∃ entry, prepareFull 3 = .ok entry
    ∧ PRIVATESEND_ENTRY_MAX_SIZE < entry.1.length
    ∧ ∀ (s : CPrivateSendServer) (ctx : MixingContext) (txCollateral : CTransaction)
        (addr : CService), s.checkEntry ctx ⟨entry.1, entry.2, txCollateral, addr⟩
          = .error .ERR_MAXIMUM := by
  obtain ⟨entry, hentry, hlarge⟩ :=
    exists_of_tooManyInputs (show tooManyInputs (prepareFull 3) by decide +kernel)
  refine ⟨entry, hentry, hlarge, fun s ctx txCollateral addr => ?_⟩
  simp only [checkEntry, decide_eq_false (not_le.mpr hlarge)]
  rfl

end CPrivateSendClient

end Binarium
