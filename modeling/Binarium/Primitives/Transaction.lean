import Binarium.Subsidy

set_option autoImplicit false

/-! # Transactions (`primitives/transaction.h`, `primitives/transaction.cpp`)

A transaction keeps its hash, as the class does. `GetValueOut` adds up the outputs and throws as
soon as an output or the running sum leaves the money range, so the sum it returns is exact
(`getValueOut_spec`). -/

namespace Binarium

open List

/-- `CScript`: the bytes of a script. -/
abbrev CScript := List (BitVec 8)

/-- The bytes of a hash in memory, the least significant first. -/
def uint256Bytes (h : Uint256) : List (BitVec 8) :=
  (List.range 32).map fun i => h.extractLsb' (8 * i) 8

/-- `operator<` of `uint256`: `memcmp` of the bytes. -/
def uint256Lt (a b : Uint256) : Bool := decide (uint256Bytes a < uint256Bytes b)

/-- `COutPoint`. -/
structure COutPoint where
  hash : Uint256
  n : BitVec 32
deriving DecidableEq

/-- `COutPoint::IsNull`. -/
def COutPoint.isNull (o : COutPoint) : Bool := decide (o.hash = 0 ∧ o.n = 0xffffffff)

/-- `CTxIn`. -/
structure CTxIn where
  prevout : COutPoint
  scriptSig : CScript
  nSequence : BitVec 32
deriving DecidableEq

/-- `CTxOut`. -/
structure CTxOut where
  nValue : CAmount
  scriptPubKey : CScript
deriving DecidableEq

/-- `CTransaction`; `hash` is the cached `GetHash()`. -/
structure CTransaction where
  hash : Uint256
  nVersion : BitVec 32
  vin : List CTxIn
  vout : List CTxOut
  nLockTime : BitVec 32
deriving DecidableEq

/-- `CMutableTransaction`. -/
structure CMutableTransaction where
  nVersion : BitVec 32
  vin : List CTxIn
  vout : List CTxOut
  nLockTime : BitVec 32
deriving DecidableEq

/-- The constructor of a `CTransaction`, with the hash it computes. -/
def CMutableTransaction.toTransaction (tx : CMutableTransaction) (hash : Uint256) : CTransaction :=
  { hash, nVersion := tx.nVersion, vin := tx.vin, vout := tx.vout, nLockTime := tx.nLockTime }

/-- `CTransaction::IsCoinBase`. -/
def CTransaction.isCoinBase (tx : CTransaction) : Bool :=
  match tx.vin with
  | [txin] => txin.prevout.isNull
  | _ => false

/-- The loop of `CTransaction::GetValueOut` from a running sum; `none` is the exception
    `GetValueOut: value out of range`. -/
def sumOutputs : CAmount → List CTxOut → Option CAmount
  | nValueOut, [] => some nValueOut
  | nValueOut, txout :: rest =>
    let nValueOut := nValueOut + txout.nValue
    if moneyRange txout.nValue ∧ moneyRange nValueOut then sumOutputs nValueOut rest else none

/-- `CTransaction::GetValueOut`. -/
def CTransaction.getValueOut (tx : CTransaction) : Option CAmount := sumOutputs 0 tx.vout

/-- The exact sum of output values. -/
def sumValues (outs : List CTxOut) : ℤ := (outs.map (fun txout => txout.nValue.toInt)).sum

@[simp]
theorem sumValues_cons (txout : CTxOut) (rest : List CTxOut) :
    sumValues (txout :: rest) = txout.nValue.toInt + sumValues rest := rfl

@[simp]
theorem sumValues_append (outs outs' : List CTxOut) :
    sumValues (outs ++ outs') = sumValues outs + sumValues outs' := by
  simp [sumValues]

theorem toInt_add_of_moneyRange {a b : CAmount} (ha : moneyRange a)
    (hb : moneyRange b) : (a + b).toInt = a.toInt + b.toInt := by
  rw [moneyRange_iff] at ha hb
  exact Int64.toInt_add_of_range (by omega) (by omega)

theorem sumValues_nonneg {outs : List CTxOut}
    (houts : ∀ txout ∈ outs, moneyRange txout.nValue) : 0 ≤ sumValues outs := by
  refine sum_nonneg fun x hx => ?_
  obtain ⟨txout, hmem, rfl⟩ := mem_map.mp hx
  exact ((moneyRange_iff _).mp (houts txout hmem)).1

theorem sumValues_le_of_sublist {outs outs' : List CTxOut} (hsub : outs.Sublist outs')
    (houts : ∀ txout ∈ outs', moneyRange txout.nValue) : sumValues outs ≤ sumValues outs' := by
  refine (hsub.map fun txout => txout.nValue.toInt).sum_le_sum fun x hx => ?_
  obtain ⟨txout, hmem, rfl⟩ := mem_map.mp hx
  exact ((moneyRange_iff _).mp (houts txout hmem)).1

theorem sumOutputs_spec (outs : List CTxOut) :
    ∀ {acc v : CAmount}, moneyRange acc → sumOutputs acc outs = some v →
      v.toInt = acc.toInt + sumValues outs ∧ moneyRange v
        ∧ ∀ txout ∈ outs, moneyRange txout.nValue := by
  induction outs with
  | nil =>
    intro acc v hacc h
    simp only [sumOutputs, Option.some.injEq] at h
    subst h
    exact ⟨by simp [sumValues], hacc, by simp⟩
  | cons txout rest ih =>
    intro acc v hacc h
    rw [sumOutputs] at h
    split at h
    · next hrange =>
        obtain ⟨hsum, hv, hrest⟩ := ih hrange.2 h
        refine ⟨?_, hv, ?_⟩
        · rw [hsum, toInt_add_of_moneyRange hacc hrange.1]
          simp only [sumValues, map_cons, sum_cons]
          ring
        · intro o ho
          rcases mem_cons.mp ho with rfl | ho
          · exact hrange.1
          · exact hrest o ho
    · simp at h

/-- **`GetValueOut` returns the exact sum, in the money range.** -/
theorem getValueOut_spec {tx : CTransaction} {v : CAmount} (h : tx.getValueOut = some v) :
    v.toInt = sumValues tx.vout ∧ moneyRange v
      ∧ ∀ txout ∈ tx.vout, moneyRange txout.nValue := by
  obtain ⟨hsum, hv, houts⟩ := sumOutputs_spec tx.vout (by decide) h
  exact ⟨by simpa using hsum, hv, houts⟩

theorem exists_sumOutputs (outs : List CTxOut) :
    ∀ {acc : CAmount}, moneyRange acc →
      (∀ txout ∈ outs, moneyRange txout.nValue) →
      acc.toInt + sumValues outs ≤ 2100000000000000 → ∃ v, sumOutputs acc outs = some v := by
  induction outs with
  | nil => exact fun _ _ _ => ⟨_, rfl⟩
  | cons txout rest ih =>
    intro acc hacc houts hsum
    have hvalue := houts txout mem_cons_self
    have hrest : ∀ o ∈ rest, moneyRange o.nValue :=
      fun o ho => houts o (mem_cons_of_mem _ ho)
    have hnonneg := sumValues_nonneg hrest
    rw [sumValues_cons] at hsum
    have hadd := toInt_add_of_moneyRange hacc hvalue
    have hrange : moneyRange (acc + txout.nValue) := by
      rw [moneyRange_iff] at hacc hvalue ⊢
      omega
    obtain ⟨v, hv⟩ := ih hrange hrest (by omega)
    exact ⟨v, by rw [sumOutputs, if_pos ⟨hvalue, hrange⟩, hv]⟩

/-- **When `GetValueOut` does not throw.** -/
theorem exists_getValueOut {tx : CTransaction} (houts : ∀ txout ∈ tx.vout, moneyRange txout.nValue)
    (hsum : sumValues tx.vout ≤ 2100000000000000) : ∃ v, tx.getValueOut = some v :=
  exists_sumOutputs tx.vout (by decide) houts (by simpa using hsum)

end Binarium
