import Binarium.Subsidy

set_option autoImplicit false

/-! # Compressed amounts (`CompressAmount`, `DecompressAmount` in `compressor.cpp`)

An amount is written as a decimal exponent below ten and what is left of the number. Over the natural
numbers (`compressNumber`, `decompressNumber`) this is a bijection. The code computes it modulo `2 ^ 64`
(`toNat_compressAmount`, `toNat_decompressAmount`), which makes no difference for amounts in the money
range, as a compressed number is at most ten times the number. -/

namespace Binarium

open BitVec Nat

/-! ## The code -/

/-- The loop of `CompressAmount`; `room` is `9 - e`. -/
def stripZeros : ℕ → BitVec 64 → ℕ → BitVec 64 × ℕ
  | 0, n, e => (n, e)
  | room + 1, n, e => if n % 10 = 0 then stripZeros room (n / 10) (e + 1) else (n, e)

/-- The last part of `CompressAmount`. -/
def packAmount (n : BitVec 64) (e : ℕ) : BitVec 64 :=
  if e < 9 then
    let d := n % 10
    let n := n / 10
    1 + (n * 9 + d - 1) * 10 + BitVec.ofNat 64 e
  else 1 + (n - 1) * 10 + 9

/-- `CTxOutCompressor::CompressAmount`. -/
def compressAmount (n : BitVec 64) : BitVec 64 :=
  if n = 0 then 0 else
    let (n, e) := stripZeros 9 n 0
    packAmount n e

/-- The loop of `DecompressAmount`. -/
def appendZeros : ℕ → BitVec 64 → BitVec 64
  | 0, n => n
  | e + 1, n => appendZeros e (n * 10)

/-- `CTxOutCompressor::DecompressAmount`. -/
def decompressAmount (x : BitVec 64) : BitVec 64 :=
  if x = 0 then 0 else
    let x := x - 1
    let e := (x % 10).toNat
    let x := x / 10
    let n := if e < 9 then
        let d := x % 9 + 1
        let x := x / 9
        x * 10 + d
      else x + 1
    appendZeros e n

/-! ## The format

As the comment in the source describes it, without a bound. -/

/-- Divide by the largest power of ten up to the given one. -/
def trimZeros : ℕ → ℕ → ℕ → ℕ × ℕ
  | 0, n, e => (n, e)
  | room + 1, n, e => if n % 10 = 0 then trimZeros room (n / 10) (e + 1) else (n, e)

/-- A number without trailing zeros, or any positive number if the exponent is nine. -/
def packNumber (n e : ℕ) : ℕ :=
  if e < 9 then 1 + (n / 10 * 9 + n % 10 - 1) * 10 + e else 1 + (n - 1) * 10 + 9

def compressNumber (n : ℕ) : ℕ :=
  if n = 0 then 0 else packNumber (trimZeros 9 n 0).1 (trimZeros 9 n 0).2

def mantissa (x : ℕ) : ℕ :=
  if (x - 1) % 10 < 9 then (x - 1) / 10 / 9 * 10 + ((x - 1) / 10 % 9 + 1) else (x - 1) / 10 + 1

def decompressNumber (x : ℕ) : ℕ :=
  if x = 0 then 0 else mantissa x * 10 ^ ((x - 1) % 10)

/-- The mantissa and the exponent that `packNumber` is about. -/
structure TrimmedNumber (m e : ℕ) : Prop where
  pos : 0 < m
  le : e ≤ 9
  last : e < 9 → m % 10 ≠ 0

theorem trimZeros_spec (room : ℕ) :
    ∀ {n e : ℕ}, 0 < n → e + room = 9 →
      TrimmedNumber (trimZeros room n e).1 (trimZeros room n e).2 ∧ e ≤ (trimZeros room n e).2 ∧
        n = (trimZeros room n e).1 * 10 ^ ((trimZeros room n e).2 - e) := by
  induction room with
  | zero =>
    intro n e hn he
    exact ⟨⟨hn, by simp only [trimZeros]; omega, fun h => by simp only [trimZeros] at h; omega⟩,
      le_refl e, by simp [trimZeros]⟩
  | succ room ih =>
    intro n e hn he
    rw [trimZeros]
    split
    next hzero =>
      obtain ⟨htrimmed, hle, hvalue⟩ := @ih (n / 10) (e + 1) (by omega) (by omega)
      refine ⟨htrimmed, by omega, ?_⟩
      have hexp : (trimZeros room (n / 10) (e + 1)).2 - e
          = (trimZeros room (n / 10) (e + 1)).2 - (e + 1) + 1 := by omega
      rw [hexp, pow_succ, ← mul_assoc, ← hvalue]
      omega
    next hdigit =>
      exact ⟨⟨hn, by dsimp only; omega, fun _ => hdigit⟩, le_refl e, by simp⟩

/-- Trailing zeros of a trimmed number are taken off again. -/
theorem trimZeros_mul {m k : ℕ} (hm : TrimmedNumber m k) :
    ∀ (j room e : ℕ), e + j = k → e + room = 9 → trimZeros room (m * 10 ^ j) e = (m, k) := by
  intro j
  induction j with
  | zero =>
    intro room e he hroom
    rw [pow_zero, mul_one]
    cases room with
    | zero => rw [trimZeros, ← he, add_zero]
    | succ room =>
      rw [trimZeros, if_neg (hm.last (by omega)), ← he, add_zero]
  | succ j ih =>
    intro room e he hroom
    have hle := hm.le
    obtain ⟨room, rfl⟩ : ∃ r, room = r + 1 := ⟨room - 1, by omega⟩
    have hten : m * 10 ^ (j + 1) = m * 10 ^ j * 10 := by ring
    rw [trimZeros, hten, if_pos (Nat.mul_mod_left _ 10), Nat.mul_div_cancel _ (by decide)]
    exact ih room (e + 1) (by omega) (by omega)

theorem compressNumber_mul {m e : ℕ} (h : TrimmedNumber m e) :
    compressNumber (m * 10 ^ e) = packNumber m e := by
  have hpos := h.pos
  have hne : m * 10 ^ e ≠ 0 := mul_ne_zero (by omega) (by simp)
  rw [compressNumber, if_neg hne, trimZeros_mul h e 9 0 (by omega) (by omega)]

theorem packNumber_pos (m e : ℕ) : packNumber m e ≠ 0 := by
  unfold packNumber
  split <;> omega

/-- The exponent is the last digit of a packed number. -/
theorem packNumber_exponent {m e : ℕ} (h : TrimmedNumber m e) : (packNumber m e - 1) % 10 = e := by
  have hle := h.le
  unfold packNumber
  split <;> omega

theorem mantissa_packNumber {m e : ℕ} (h : TrimmedNumber m e) : mantissa (packNumber m e) = m := by
  have hpos := h.pos
  rw [mantissa, packNumber_exponent h]
  unfold packNumber
  split
  next hlt =>
    have hlast := h.last hlt
    omega
  next hge => omega

/-- **Every number is recovered.** -/
theorem decompressNumber_compressNumber (n : ℕ) : decompressNumber (compressNumber n) = n := by
  rcases Nat.eq_zero_or_pos n with rfl | hn
  · rfl
  · obtain ⟨htrimmed, -, hvalue⟩ := @trimZeros_spec 9 n 0 hn (by omega)
    rw [compressNumber, if_neg (by omega), decompressNumber, if_neg (packNumber_pos _ _),
      mantissa_packNumber htrimmed, packNumber_exponent htrimmed]
    exact hvalue.symm

theorem trimmed_mantissa (x : ℕ) : TrimmedNumber (mantissa x) ((x - 1) % 10) := by
  refine ⟨?_, by omega, ?_⟩
  · unfold mantissa
    split <;> omega
  · intro hlt
    rw [mantissa, if_pos hlt]
    omega

/-- **Every code is the code of its number.** -/
theorem compressNumber_decompressNumber (x : ℕ) : compressNumber (decompressNumber x) = x := by
  rcases Nat.eq_zero_or_pos x with rfl | hx
  · rfl
  · rw [decompressNumber, if_neg (by omega), compressNumber_mul (trimmed_mantissa x),
      packNumber, mantissa]
    split
    next hlt => omega
    next hge => omega

theorem compressNumber_le (n : ℕ) : compressNumber n ≤ 10 * n := by
  rcases Nat.eq_zero_or_pos n with rfl | hn
  · exact le_refl 0
  · obtain ⟨htrimmed, -, hvalue⟩ := @trimZeros_spec 9 n 0 hn (by omega)
    have hle : (trimZeros 9 n 0).1 ≤ n := by
      conv_rhs => rw [hvalue]
      exact Nat.le_mul_of_pos_right _ (by positivity)
    rw [compressNumber, if_neg (by omega), packNumber]
    split <;> omega

/-! ## The code computes it modulo `2 ^ 64` -/

theorem stripZeros_eq (room : ℕ) :
    ∀ (n : BitVec 64) (e : ℕ), ((stripZeros room n e).1.toNat, (stripZeros room n e).2)
      = trimZeros room n.toNat e := by
  induction room with
  | zero => exact fun n e => rfl
  | succ room ih =>
    intro n e
    have hten : (n % 10 = 0) ↔ n.toNat % 10 = 0 := by
      rw [← toNat_inj, toNat_umod]
      rfl
    have hdiv : (n / 10).toNat = n.toNat / 10 := toNat_udiv
    rw [stripZeros, trimZeros]
    by_cases hzero : n.toNat % 10 = 0
    · rw [if_pos (hten.mpr hzero), if_pos hzero, ← hdiv]
      exact ih _ _
    · rw [if_neg fun h => hzero (hten.mp h), if_neg hzero]

theorem toNat_packAmount {n : BitVec 64} {e : ℕ} (h : TrimmedNumber n.toNat e) :
    (packAmount n e).toNat = packNumber n.toNat e % 2 ^ 64 := by
  have hpos := h.pos
  unfold packAmount packNumber
  split
  next hlt =>
    have hlast := h.last hlt
    have hmod : (n % 10).toNat = n.toNat % 10 := toNat_umod
    have hdiv : (n / 10).toNat = n.toNat / 10 := toNat_udiv
    rw [← hmod] at hlast
    rw [← hmod, ← hdiv]
    bv_omega
  next hge => bv_omega

/-- `CompressAmount` is the format modulo `2 ^ 64`. -/
theorem toNat_compressAmount (n : BitVec 64) :
    (compressAmount n).toNat = compressNumber n.toNat % 2 ^ 64 := by
  rw [compressAmount, compressNumber]
  by_cases hn : n = 0
  · subst hn
    rfl
  · have hne : n.toNat ≠ 0 := fun h => hn (eq_of_toNat_eq h)
    have hstrip := stripZeros_eq 9 n 0
    obtain ⟨htrimmed, -⟩ := @trimZeros_spec 9 n.toNat 0 (by omega) (by omega)
    rw [← hstrip] at htrimmed
    rw [if_neg hn, if_neg hne, ← hstrip]
    exact toNat_packAmount htrimmed

theorem toNat_appendZeros (e : ℕ) :
    ∀ n : BitVec 64, (appendZeros e n).toNat = n.toNat * 10 ^ e % 2 ^ 64 := by
  induction e with
  | zero =>
    intro n
    rw [appendZeros, pow_zero, mul_one, mod_eq_of_lt n.isLt]
  | succ e ih =>
    intro n
    have hten : (n * 10).toNat = n.toNat * 10 % 2 ^ 64 := toNat_mul ..
    rw [appendZeros, ih, hten, mod_mul_mod]
    congr 1
    ring

/-- `DecompressAmount` is the inverse modulo `2 ^ 64`. -/
theorem toNat_decompressAmount (x : BitVec 64) :
    (decompressAmount x).toNat = decompressNumber x.toNat % 2 ^ 64 := by
  rw [decompressAmount, decompressNumber]
  by_cases hx : x = 0
  · subst hx
    rfl
  · have hne : x.toNat ≠ 0 := fun h => hx (eq_of_toNat_eq h)
    have hpred : (x - 1).toNat = x.toNat - 1 := by bv_omega
    have hexp : ((x - 1) % 10).toNat = (x.toNat - 1) % 10 := by
      rw [toNat_umod, hpred]
      rfl
    have hdiv : ((x - 1) / 10).toNat = (x.toNat - 1) / 10 := by
      rw [toNat_udiv, hpred]
      rfl
    have hmantissa : (if ((x - 1) % 10).toNat < 9
        then (x - 1) / 10 / 9 * 10 + ((x - 1) / 10 % 9 + 1)
        else (x - 1) / 10 + 1).toNat = mantissa x.toNat := by
      rw [mantissa, ← hexp]
      split
      next hsmall =>
        have hhigh : ((x - 1) / 10 / 9).toNat = (x.toNat - 1) / 10 / 9 := by
          rw [toNat_udiv, hdiv]
          rfl
        have hlow : ((x - 1) / 10 % 9).toNat = (x.toNat - 1) / 10 % 9 := by
          rw [toNat_umod, hdiv]
          rfl
        bv_omega
      next hnine => bv_omega
    rw [if_neg hx, if_neg hne, ← hmantissa, ← hexp]
    exact toNat_appendZeros _ _

/-! ## Round trips -/

theorem compressNumber_lt {n : ℕ} (h : n ≤ 2100000000000000) : compressNumber n < 2 ^ 64 := by
  have hle := compressNumber_le n
  omega

theorem decompressAmount_compressAmount {n : BitVec 64} (h : compressNumber n.toNat < 2 ^ 64) :
    decompressAmount (compressAmount n) = n := by
  apply eq_of_toNat_eq
  rw [toNat_decompressAmount, toNat_compressAmount, mod_eq_of_lt h,
    decompressNumber_compressNumber, mod_eq_of_lt n.isLt]

theorem compressAmount_decompressAmount {x : BitVec 64} (h : decompressNumber x.toNat < 2 ^ 64) :
    compressAmount (decompressAmount x) = x := by
  apply eq_of_toNat_eq
  rw [toNat_compressAmount, toNat_decompressAmount, mod_eq_of_lt h,
    compressNumber_decompressNumber, mod_eq_of_lt x.isLt]

theorem toNat_toInt_of_nonneg {a : CAmount} (h : 0 ≤ a.toInt) : a.toInt.toNat = a.toBitVec.toNat := by
  have hint : a.toInt = a.toBitVec.toInt := rfl
  rw [hint, toInt_eq_toNat_cond] at h ⊢
  split at h <;> omega

theorem toNat_le_of_moneyRange {a : CAmount} (h : moneyRange a) :
    a.toBitVec.toNat ≤ 2100000000000000 := by
  obtain ⟨hnonneg, hle⟩ := (moneyRange_iff a).mp h
  rw [← toNat_toInt_of_nonneg hnonneg]
  omega

end Binarium
