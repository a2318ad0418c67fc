import Binarium.Arith.Compact
import Binarium.ChainParams
import Binarium.Lib.Decline
import Binarium.Lib.Int64Range

set_option autoImplicit false

/-! # Amounts and the block subsidy (`amount.h`, `GetBlockSubsidy` in `validation.cpp`)

Amounts are `int64_t` numbers of satoshi. The subsidy of a block is computed from the difficulty and
the height of the block before it: a base in whole coins, from a formula in `double` arithmetic that
is then clamped, and a decline by one fourteenth for every `nSubsidyHalvingInterval` blocks. From
`nBudgetPaymentsStartBlock` on a tenth of it is kept back for superblocks.

`double` is Lean's `Float`, whose arithmetic is IEEE binary64 as the code's is. No result about the
supply depends on the formulas, only on the clamps after them: a base is at most 500 coins below
height 24000 and at most 25 coins from there on, whatever the difficulty. -/

namespace Binarium

open Finset Int64 Decline

/-! ## Amounts -/

/-- `CAmount`. -/
abbrev CAmount := Int64

def COIN : CAmount := 100000000

def MAX_MONEY : CAmount := 21000000 * COIN

/-- `MoneyRange`. -/
def moneyRange (nValue : CAmount) : Bool := decide (nValue ≥ 0 ∧ nValue ≤ MAX_MONEY)

theorem toInt_MAX_MONEY : MAX_MONEY.toInt = 2100000000000000 := by decide

theorem moneyRange_iff (nValue : CAmount) :
    moneyRange nValue ↔ 0 ≤ nValue.toInt ∧ nValue.toInt ≤ 2100000000000000 := by
  simp [moneyRange, decide_eq_true_eq, ge_iff_le, le_iff_toInt_le, toInt_MAX_MONEY]

/-! ## The subsidy -/

/-- `(double)(nBits & 0x00ffffff)`. -/
def mantissaDouble (nBits : BitVec 32) : Float := (UInt32.ofBitVec (nBits &&& 0x00ffffff)).toFloat

/-- `ConvertBitsToDouble`: scale by 256 up or down to the exponent 29. -/
def convertBitsToDouble (nBits : BitVec 32) : Float :=
  let nShift := (nBits >>> 24).toNat
  let dDiff := 65535.0 / mantissaDouble nBits
  (fun d => d / 256.0)^[nShift - 29] ((fun d => d * 256.0)^[29 - nShift] dDiff)

/-- The assignment of a nonnegative `double` to a `CAmount`. -/
def truncToAmount (x : Float) : CAmount := x.toUInt64.toInt64

/-- `if (x > hi) x = hi; else if (x < lo) x = lo;`. -/
def clampAmount (lo hi x : CAmount) : CAmount := if x > hi then hi else if x < lo then lo else x

variable (net : Network) (nPrevBits : BitVec 32)

variable (nPrevHeight : ℕ) (params : ConsensusParams)

/-- `dDiff` in `GetBlockSubsidy`: the main network keeps an early bug up to height 4500. -/
def subsidyDifficulty : Float :=
  if nPrevHeight ≤ 4500 ∧ net = .main then 65535.0 / mantissaDouble nPrevBits
  else convertBitsToDouble nPrevBits

/-- `pow(x, 2.0)`. -/
def square (x : Float) : Float := x * x

/-- `nSubsidyBase`, in coins. -/
def subsidyBase (dDiff : Float) (nPrevHeight : ℕ) : CAmount :=
  if nPrevHeight < 5465 then
    clampAmount 1 500 (truncToAmount (1111.0 / square (dDiff + 1.0)))
  else if nPrevHeight < 17000 ∨ (dDiff ≤ 75 ∧ nPrevHeight < 24000) then
    clampAmount 25 500 (truncToAmount (11111.0 / square ((dDiff + 51.0) / 6.0)))
  else
    clampAmount 5 25 (truncToAmount (2222222.0 / square ((dDiff + 2600.0) / 9.0)))

/-- The subsidy before the superblock part is split off; the loop runs once for every full
    interval. -/
def fullSubsidy : CAmount :=
  (fun nSubsidy : CAmount => nSubsidy - nSubsidy / 14)^[nPrevHeight / params.nSubsidyHalvingInterval]
    (subsidyBase (subsidyDifficulty net nPrevBits nPrevHeight) nPrevHeight * COIN)

/-- `GetBlockSubsidy`. -/
def getBlockSubsidy (fSuperblockPartOnly : Bool) : CAmount :=
  let nSubsidy := fullSubsidy net nPrevBits nPrevHeight params
  let nSuperblockPart := if nPrevHeight > params.nBudgetPaymentsStartBlock then nSubsidy / 10 else 0
  if fSuperblockPartOnly then nSuperblockPart else nSubsidy - nSuperblockPart

/-! ## The base is clamped -/

theorem clampAmount_range {lo hi : CAmount} (h : lo.toInt ≤ hi.toInt) (x : CAmount) :
    lo.toInt ≤ (clampAmount lo hi x).toInt ∧ (clampAmount lo hi x).toInt ≤ hi.toInt := by
  unfold clampAmount
  split
  · exact ⟨h, le_rfl⟩
  · next hhi =>
      rw [gt_iff_lt, lt_iff_toInt_lt, not_lt] at hhi
      split
      · exact ⟨le_rfl, h⟩
      · next hlo =>
          rw [lt_iff_toInt_lt, not_lt] at hlo
          exact ⟨hlo, hhi⟩

theorem subsidyBase_range (dDiff : Float) (nPrevHeight : ℕ) :
    1 ≤ (subsidyBase dDiff nPrevHeight).toInt ∧ (subsidyBase dDiff nPrevHeight).toInt ≤ 500
      ∧ (24000 ≤ nPrevHeight → (subsidyBase dDiff nPrevHeight).toInt ≤ 25) := by
  unfold subsidyBase
  split
  · next h =>
      obtain ⟨hlo, hhi⟩ := @clampAmount_range 1 500 (by decide)
        (truncToAmount (1111.0 / square (dDiff + 1.0)))
      exact ⟨hlo, hhi, fun hge => absurd h (by omega)⟩
  · split
    · next h =>
        obtain ⟨hlo, hhi⟩ := @clampAmount_range 25 500 (by decide)
          (truncToAmount (11111.0 / square ((dDiff + 51.0) / 6.0)))
        refine ⟨le_trans (by decide) hlo, hhi, fun hge => ?_⟩
        rcases h with h | h
        · exact absurd h (by omega)
        · exact absurd h.2 (by omega)
    · obtain ⟨hlo, hhi⟩ := @clampAmount_range 5 25 (by decide)
        (truncToAmount (2222222.0 / square ((dDiff + 2600.0) / 9.0)))
      exact ⟨le_trans (by decide) hlo, le_trans hhi (by decide), fun _ => hhi⟩

/-! ## The yearly decline -/

theorem toInt_decline {x : CAmount} {n : ℕ} (h : x.toInt = n) :
    (x - x / 14).toInt = (decline 14 n : ℕ) := by
  have hlt := x.toInt_lt
  have h14 : (14 : CAmount).toInt = 14 := by decide
  have hdiv : (x / 14).toInt = ((n / 14 : ℕ) : ℤ) := by
    rw [toInt_div_of_nonneg (by omega) (by decide), h, h14]
    rfl
  rw [toInt_sub_of_range (by omega) (by omega), h, hdiv, decline]
  omega

theorem toInt_iterate_decline (k : ℕ) {x : CAmount} {n : ℕ} (h : x.toInt = n) :
    ((fun nSubsidy : CAmount => nSubsidy - nSubsidy / 14)^[k] x).toInt
      = ((decline 14)^[k] n : ℕ) := by
  induction k generalizing x n with
  | zero => exact h
  | succ k ih => exact ih (toInt_decline h)

/-- The base in satoshi, as a natural number. -/
def baseSatoshi : ℕ :=
  (subsidyBase (subsidyDifficulty net nPrevBits nPrevHeight) nPrevHeight).toInt.toNat * 100000000

theorem baseSatoshi_le :
    baseSatoshi net nPrevBits nPrevHeight ≤ 50000000000
      ∧ (24000 ≤ nPrevHeight → baseSatoshi net nPrevBits nPrevHeight ≤ 2500000000) := by
  obtain ⟨hlo, hhi, hlate⟩ :=
    subsidyBase_range (subsidyDifficulty net nPrevBits nPrevHeight) nPrevHeight
  unfold baseSatoshi
  omega

theorem toInt_fullSubsidy : (fullSubsidy net nPrevBits nPrevHeight params).toInt
      = ((decline 14)^[nPrevHeight / params.nSubsidyHalvingInterval]
        (baseSatoshi net nPrevBits nPrevHeight) : ℕ) := by
  obtain ⟨hlo, hhi, -⟩ :=
    subsidyBase_range (subsidyDifficulty net nPrevBits nPrevHeight) nPrevHeight
  have hcoin : COIN.toInt = 100000000 := by decide
  apply toInt_iterate_decline
  rw [baseSatoshi, toInt_mul_of_range (by rw [hcoin]; omega) (by rw [hcoin]; omega), hcoin]
  omega

theorem getBlockSubsidy_parts :
    0 ≤ (getBlockSubsidy net nPrevBits nPrevHeight params false).toInt
      ∧ (getBlockSubsidy net nPrevBits nPrevHeight params false).toInt
          + (getBlockSubsidy net nPrevBits nPrevHeight params true).toInt
        = (fullSubsidy net nPrevBits nPrevHeight params).toInt := by
  have hfull := toInt_fullSubsidy net nPrevBits nPrevHeight params
  unfold getBlockSubsidy
  generalize fullSubsidy net nPrevBits nPrevHeight params = x at *
  have hlt := x.toInt_lt
  simp only [if_true, Bool.false_eq_true, if_false]
  split
  · have hdiv : (x / 10).toInt = x.toInt / 10 := toInt_div_of_nonneg (by omega) (by decide)
    rw [toInt_sub_of_range (by omega) (by omega)]
    omega
  · simp [hfull]

/-! ## The supply -/

theorem toInt_fullSubsidy_le : (fullSubsidy net nPrevBits nPrevHeight params).toInt
      ≤ ((decline 14)^[nPrevHeight / params.nSubsidyHalvingInterval] 2500000000
        + (if nPrevHeight < 24000 then 47500000000 else 0) : ℕ) := by
  obtain ⟨hearly, hlate⟩ := baseSatoshi_le net nPrevBits nPrevHeight
  rw [toInt_fullSubsidy]
  generalize nPrevHeight / params.nSubsidyHalvingInterval = k
  apply Int.ofNat_le.mpr
  split
  · calc (decline 14)^[k] (baseSatoshi net nPrevBits nPrevHeight)
        ≤ (decline 14)^[k] (2500000000 + 47500000000) :=
          iterate_decline_mono hearly k
      _ ≤ _ := iterate_decline_add_le _ _ _
  · next hge => exact iterate_decline_mono (hlate (by omega)) k

theorem sum_early_le (N : ℕ) :
    ∑ h ∈ Finset.range N, (if h < 24000 then 47500000000 else 0) ≤ 24000 * 47500000000 := by
  rw [← sum_filter, sum_const, smul_eq_mul]
  apply Nat.mul_le_mul_right
  have hsub : (range N).filter (· < 24000) ⊆ range 24000 := by
    intro h hh
    exact mem_range.mpr (mem_filter.mp hh).2
  simpa using card_le_card hsub

theorem nSubsidyHalvingInterval_range :
    0 < (consensusParams net).nSubsidyHalvingInterval
      ∧ (consensusParams net).nSubsidyHalvingInterval ≤ 210240 := by
  cases net <;> decide

/-- **The supply is bounded whatever the difficulties are.** On every network, for every sequence of
    `nBits` and every number of heights that fit an `int`, the subsidies with their superblock parts
    add up to at most 84,984,280 coins. -/
theorem subsidy_supply_le (net : Network) (nBits : ℕ → BitVec 32) (N : ℕ) (hN : N ≤ 2 ^ 31) :
    ∑ h ∈ Finset.range N,
        ((getBlockSubsidy net (nBits h) h (consensusParams net) false).toInt
          + (getBlockSubsidy net (nBits h) h (consensusParams net) true).toInt)
      ≤ 84984280 * COIN.toInt := by
  obtain ⟨hpos, hmax⟩ := nSubsidyHalvingInterval_range net
  have hdecline := sum_decline_le (d := 14) (by norm_num) hpos 2500000000 N
  have hearly := sum_early_le N
  have hcoin : COIN.toInt = 100000000 := by decide
  calc ∑ h ∈ range N,
        ((getBlockSubsidy net (nBits h) h (consensusParams net) false).toInt
          + (getBlockSubsidy net (nBits h) h (consensusParams net) true).toInt)
      ≤ ∑ h ∈ range N,
          (((decline 14)^[h / (consensusParams net).nSubsidyHalvingInterval] 2500000000
            + (if h < 24000 then 47500000000 else 0) : ℕ) : ℤ) := by
        apply sum_le_sum
        intro h _
        rw [(getBlockSubsidy_parts ..).2]
        exact toInt_fullSubsidy_le net (nBits h) h _
    _ = ((∑ h ∈ range N,
            (decline 14)^[h / (consensusParams net).nSubsidyHalvingInterval] 2500000000
          + ∑ h ∈ range N, (if h < 24000 then 47500000000 else 0) : ℕ) : ℤ) := by
        simp [sum_add_distrib]
    _ ≤ 84984280 * COIN.toInt := by
        omega

/-- Three heights at the lowest difficulty of the main network. -/
theorem subsidy_supply_le_three :
    ∑ h ∈ Finset.range 3,
        ((getBlockSubsidy .main 0x1e0fffff h (consensusParams .main) false).toInt
          + (getBlockSubsidy .main 0x1e0fffff h (consensusParams .main) true).toInt)
      ≤ 84984280 * COIN.toInt :=
  subsidy_supply_le .main (fun _ => 0x1e0fffff) 3 (by norm_num)

/-- A word that retargeting can produce: the encoding of a positive target within the limit. -/
def RetargetBits (nBits : BitVec 32) : Prop :=
  ∃ target : ArithUint256, 0 < target.value ∧ target.value ≤ params.powLimit.toNat
    ∧ getCompact target false = some nBits

/-- The lowest difficulty of the main network is the encoding of its limit. -/
theorem retargetBits_powLimit : RetargetBits (consensusParams .main) 0x1e0fffff := by
  refine ⟨uintToArith256 (consensusParams .main).powLimit, ?_, ?_, ?_⟩
  · rw [value_uintToArith256]
    decide
  · rw [value_uintToArith256]
  · decide +kernel

theorem subsidyBase_late {h : ℕ} (hge : 24000 ≤ h) :
    subsidyBase (subsidyDifficulty net nPrevBits h) h = clampAmount 5 25 (truncToAmount
      (2222222.0 / square ((convertBitsToDouble nPrevBits + 2600.0) / 9.0))) := by
  have h1 : ¬ (h ≤ 4500 ∧ net = .main) := by omega
  have h2 : ¬ h < 5465 := by omega
  have h3 : ¬ (h < 17000 ∨ (convertBitsToDouble nPrevBits ≤ 75 ∧ h < 24000)) := by omega
  rw [subsidyDifficulty, if_neg h1, subsidyBase, if_neg h2, if_neg h3]

/-- At that difficulty every height from 24000 on pays the declined 25 coins. -/
theorem toInt_fullSubsidy_lowest (h : ℕ) (hge : 24000 ≤ h) :
    (fullSubsidy .main 0x1e0fffff h (consensusParams .main)).toInt
      = ((decline 14)^[h / 210240] 2500000000 : ℕ) := by
  have h25 : clampAmount 5 25 (truncToAmount
      (2222222.0 / square ((convertBitsToDouble 0x1e0fffff + 2600.0) / 9.0))) = 25 := by
    decide +kernel
  rw [toInt_fullSubsidy, baseSatoshi, subsidyBase_late _ _ hge, h25]
  rfl

/-- **The supply can pass 21 million coins.** With every block at the lowest difficulty, the first
    seven years of the main network pay more than `MAX_MONEY`. -/
theorem subsidy_supply_exceeds_MAX_MONEY :
    ¬ ∀ nBits : ℕ → BitVec 32, (∀ h, RetargetBits (consensusParams .main) (nBits h)) →
      ∀ N : ℕ, N ≤ 2 ^ 31 → ∑ h ∈ Finset.range N,
        ((getBlockSubsidy .main (nBits h) h (consensusParams .main) false).toInt
          + (getBlockSubsidy .main (nBits h) h (consensusParams .main) true).toInt)
        ≤ MAX_MONEY.toInt := by
  intro hall
  have hle := hall (fun _ => 0x1e0fffff) (fun _ => retargetBits_powLimit) 1471680 (by norm_num)
  simp only [(getBlockSubsidy_parts ..).2, toInt_MAX_MONEY] at hle
  -- from height 24000 on each height pays at least the amount of the seventh year
  have hlow : ∀ h ∈ Finset.Ico 24000 1471680,
      (((decline 14)^[6] 2500000000 : ℕ) : ℤ)
        ≤ (fullSubsidy .main 0x1e0fffff h (consensusParams .main)).toInt := by
    intro h hh
    obtain ⟨hge, hlt⟩ := mem_Ico.mp hh
    rw [toInt_fullSubsidy_lowest h hge]
    exact Int.ofNat_le.mpr (iterate_decline_antitone _ (by omega))
  have hsum := card_nsmul_le_sum _ _ _ hlow
  have hsub : Finset.Ico 24000 1471680 ⊆ range 1471680 := by
    intro h hh
    exact mem_range.mpr (mem_Ico.mp hh).2
  have hmono : ∑ h ∈ Finset.Ico 24000 1471680,
      (fullSubsidy .main 0x1e0fffff h (consensusParams .main)).toInt
        ≤ ∑ h ∈ range 1471680,
          (fullSubsidy .main 0x1e0fffff h (consensusParams .main)).toInt := by
    apply sum_le_sum_of_subset_of_nonneg hsub
    simp [toInt_fullSubsidy]
  have hsixth : (decline 14)^[6] 2500000000 = 1602624985 := by decide
  rw [Nat.card_Ico, hsixth] at hsum
  norm_num at hsum
  omega

end Binarium
