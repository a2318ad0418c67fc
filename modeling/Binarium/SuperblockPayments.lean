import Binarium.Lib.Subsequence
import Binarium.Payments

set_option autoImplicit false

/-! # The payments of a superblock (`governance-classes.cpp`)

`CSuperblock::IsValid` asks for "an exact match (including order) between the expected superblock
payments and the payments actually in the block". Its loop searches every payment from the output
`nVoutIndex` on and sets `nVoutIndex` to the output it found, not to the one after it. The loop is
the search of `Subsequence.searchAll`, so what it decides is that the payments with their runs of
equal neighbours collapsed are a subsequence of the outputs (`matchPayments_iff`).

The other checks do not make up for it. From any accepted coinbase one gets another accepted one
that pays every run of equal payments once (`collapsedCoinbase`), with outputs to nobody in the
place of the payments left out. -/

namespace Binarium

open Subsequence List

/-! ## What the matching loop decides -/

/-- The output that a payment asks for. -/
def CGovernancePayment.toTxOut (payment : CGovernancePayment) : CTxOut :=
  ⟨payment.nAmount, payment.script⟩

open CGovernancePayment

theorem toTxOut_injective : Function.Injective toTxOut := by
  rintro ⟨script, amount⟩ ⟨script', amount'⟩ h
  simp only [toTxOut, CTxOut.mk.injEq] at h
  rw [h.1, h.2]

theorem toTxOut_eq_iff (payment : CGovernancePayment) (txout : CTxOut) :
    payment.toTxOut = txout
      ↔ payment.script = txout.scriptPubKey ∧ payment.nAmount = txout.nValue := by
  obtain ⟨value, script⟩ := txout
  simp [toTxOut, CTxOut.mk.injEq, and_comm]

variable (payments : List CGovernancePayment)

theorem matchPayments_eq_searchAll (outs : List CTxOut) :
    matchPayments payments outs
      = searchAll (payments.map toTxOut) outs := by
  induction payments generalizing outs with
  | nil => rfl
  | cons payment rest ih =>
    simp only [matchPayments, map_cons, searchAll, toTxOut_eq_iff]
    cases outs.dropWhile _ with
    | nil => rfl
    | cons txout found => exact ih _

/-- **What the loop decides.** -/
theorem matchPayments_iff (outs : List CTxOut) :
    matchPayments payments outs
      ↔ ((payments.destutter (· ≠ ·)).map toTxOut).Sublist outs := by
  rw [matchPayments_eq_searchAll, searchAll_iff, map_destutter_ne _ toTxOut_injective]

/-! ## An output for every payment -/

/-- Every payment has an output of its own, in the order of the payments. -/
def PaysEach (sb : CSuperblock) (txNew : CTransaction) : Prop :=
  ∃ assign : Fin sb.vecPayments.length → Fin txNew.vout.length, StrictMono assign
    ∧ ∀ i, (txNew.vout.get (assign i)).scriptPubKey = (sb.vecPayments.get i).script
      ∧ (txNew.vout.get (assign i)).nValue = (sb.vecPayments.get i).nAmount

theorem paysEach_iff (sb : CSuperblock) (txNew : CTransaction) :
    PaysEach sb txNew
      ↔ (sb.vecPayments.map toTxOut).Sublist txNew.vout := by
  rw [sublist_iff_exists_fin_orderEmbedding_get_eq]
  have hlen : sb.vecPayments.length = (sb.vecPayments.map toTxOut).length :=
    length_map _ |>.symm
  constructor
  · rintro ⟨assign, hmono, hpays⟩
    refine ⟨OrderEmbedding.ofStrictMono (fun i => assign (i.cast hlen.symm))
      (fun i j hij => hmono hij), fun i => ?_⟩
    obtain ⟨hscript, hvalue⟩ := hpays (i.cast hlen.symm)
    rw [get_eq_getElem, getElem_map]
    exact (toTxOut_eq_iff _ _).mpr ⟨hscript.symm, hvalue.symm⟩
  · rintro ⟨f, hf⟩
    refine ⟨fun i => f (i.cast hlen), fun i j hij => f.strictMono hij, fun i => ?_⟩
    have hget := hf (i.cast hlen)
    rw [get_eq_getElem, getElem_map] at hget
    obtain ⟨hscript, hvalue⟩ := (toTxOut_eq_iff _ _).mp hget
    exact ⟨hscript.symm, hvalue.symm⟩

/-! ## A coinbase that pays a run of equal payments once -/

/-- A script that no payment has: it is longer than all of them together. -/
def freshScript : CScript :=
  List.replicate ((payments.map fun payment => payment.script.length).sum + 1) 0x6a

theorem freshScript_ne {payments : List CGovernancePayment} {payment : CGovernancePayment}
    (hmem : payment ∈ payments) : payment.script ≠ freshScript payments := by
  intro heq
  have hle : payment.script.length ≤ (payments.map fun p => p.script.length).sum :=
    single_le_sum (by simp) _ (mem_map_of_mem hmem)
  rw [heq, freshScript, length_replicate] at hle
  omega

/-- The runs of equal payments paid once each, and an output of no value for every payment. -/
def collapsedCoinbase (sb : CSuperblock) : CTransaction :=
  { hash := 1, nVersion := 1,
    vin := [{ prevout := ⟨0, 0xffffffff⟩, scriptSig := [0x51, 0x51], nSequence := 0xffffffff }],
    vout := (sb.vecPayments.destutter (· ≠ ·)).map CGovernancePayment.toTxOut
      ++ List.replicate sb.vecPayments.length ⟨0, freshScript sb.vecPayments⟩,
    nLockTime := 0 }

theorem sumValues_replicate_zero (n : ℕ) (script : CScript) :
    sumValues (List.replicate n ⟨0, script⟩) = 0 := by
  induction n with
  | zero => rfl
  | succ n ih =>
    rw [replicate_succ, sumValues_cons, ih]
    rfl

theorem collapsedCoinbase_isValid {net : Network} {sb : CSuperblock} {txNew : CTransaction}
    {v : CAmount} {nBlockHeight : ℕ} {blockReward : CAmount} (hv : txNew.getValueOut = some v)
    (hvalid : sb.isValid net txNew v nBlockHeight blockReward) :
    ∃ v', (collapsedCoinbase sb).getValueOut = some v'
      ∧ sb.isValid net (collapsedCoinbase sb) v' nBlockHeight blockReward := by
  obtain ⟨hheight, hcount, htotal, hvalue, hmatch⟩ := isValid_iff.mp hvalid
  have hsub := (matchPayments_iff _ _).mp hmatch
  obtain ⟨hsum, hrange, houts⟩ := getValueOut_spec hv
  -- the outputs are outputs of `txNew` and outputs without value
  have hle : sumValues (collapsedCoinbase sb).vout ≤ v.toInt := by
    rw [collapsedCoinbase, sumValues_append, sumValues_replicate_zero, add_zero, hsum]
    exact sumValues_le_of_sublist hsub houts
  have houts' : ∀ txout ∈ (collapsedCoinbase sb).vout, moneyRange txout.nValue := by
    intro txout hmem
    rcases mem_append.mp hmem with hmem | hmem
    · exact houts txout (hsub.subset hmem)
    · simp [eq_of_mem_replicate hmem, (moneyRange_iff 0).mpr (by decide)]
  obtain ⟨v', hv'⟩ := exists_getValueOut houts' (le_trans hle ((moneyRange_iff v).mp hrange).2)
  refine ⟨v', hv', isValid_iff.mpr ⟨hheight, ?_, htotal, ?_, ?_⟩⟩
  · simp [collapsedCoinbase]
  · have hsum' := (getValueOut_spec hv').1
    exact Int64.le_trans (Int64.le_iff_toInt_le.mpr (by omega)) hvalue
  · exact (matchPayments_iff _ _).mpr (sublist_append_left _ _)

/-- With equal neighbours among the payments the collapsed coinbase does not pay them all. -/
theorem not_paysEach_collapsedCoinbase {sb : CSuperblock}
    (hequal : ¬ sb.vecPayments.IsChain (· ≠ ·)) : ¬ PaysEach sb (collapsedCoinbase sb) := by
  rw [paysEach_iff]
  intro hsub
  have hfiller : (⟨0, freshScript sb.vecPayments⟩ : CTxOut)
      ∉ sb.vecPayments.map toTxOut := by
    intro hmem
    obtain ⟨payment, hpayment, heq⟩ := mem_map.mp hmem
    exact freshScript_ne hpayment ((toTxOut_eq_iff _ _).mp heq).1
  have hlen := (sublist_of_sublist_append_replicate hfiller hsub).length_le
  have hshort := length_destutter_lt hequal
  simp only [length_map] at hlen
  omega

/-! ## When accepted superblocks pay all payments -/

/-- **Which superblocks are paid in full.** Every coinbase that `CSuperblock::IsValid` accepts has
    an output of its own for every payment exactly if no two neighbouring payments are equal (or no
    coinbase is accepted at all). -/
theorem isValid_paysEach_iff (net : Network) (sb : CSuperblock) (nBlockHeight : ℕ)
    (blockReward : CAmount) :
    (∀ (txNew : CTransaction) (v : CAmount), txNew.getValueOut = some v →
        sb.isValid net txNew v nBlockHeight blockReward = true → PaysEach sb txNew)
      ↔ sb.vecPayments.IsChain (· ≠ ·)
        ∨ ∀ (txNew : CTransaction) (v : CAmount), txNew.getValueOut = some v →
          sb.isValid net txNew v nBlockHeight blockReward = false := by
  constructor
  · intro hpays
    by_contra! hneither
    obtain ⟨hequal, txNew, v, hv, hvalid⟩ := hneither
    obtain ⟨v', hv', hvalid'⟩ := collapsedCoinbase_isValid hv (by simpa using hvalid)
    exact not_paysEach_collapsedCoinbase hequal (hpays _ v' hv' hvalid')
  · rintro (hchain | hnone) txNew v hv hvalid
    · have hsub := (matchPayments_iff _ _).mp (isValid_iff.mp hvalid).2.2.2.2
      rwa [destutter_of_isChain _ _ hchain, ← paysEach_iff] at hsub
    · simp [hnone txNew v hv] at hvalid

/-- One coin to the same payee, twice. -/
def twinPayments : CSuperblock :=
  ⟨1500, [⟨[0x76], 100000000⟩, ⟨[0x76], 100000000⟩], some ⟨true, 10⟩⟩

/-- A coinbase that pays the payee once and leaves the other coin to the miner. -/
def twinCoinbase : CTransaction :=
  { coinbasePaying 2600000000 with
    vout := [⟨2600000000, [0x51]⟩, ⟨100000000, [0x76]⟩] }

/-- The coinbase has one output for the payee of two equal payments, and the miner gets one coin
    more than the reward of 25. It is accepted. -/
theorem isValid_accepts_one_output_for_two_payments :
    twinCoinbase.getValueOut = some 2700000000
      ∧ twinPayments.isValid .regtest twinCoinbase 2700000000 1500 2500000000 = true
      ∧ ¬ PaysEach twinPayments twinCoinbase := by
  refine ⟨by decide, by decide +kernel, fun h => ?_⟩
  have hsub := (paysEach_iff twinPayments twinCoinbase).mp h
  exact absurd hsub (by decide)

end Binarium
