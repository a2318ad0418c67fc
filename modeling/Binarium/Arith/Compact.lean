import Binarium.Arith.BaseUint
import Mathlib.Algebra.Order.Floor.Semifield
import Mathlib.Data.Rat.Floor

set_option autoImplicit false

/-! # The compact target format

`nBits` packs a 256-bit target into 32 bits as a base-256 floating-point number: an 8-bit exponent,
a sign bit and a 23-bit mantissa, standing for `mantissa * 256^(exponent-3)`. `SetCompact` and
`GetCompact` (`arith_uint256.cpp`) convert with shifts on the words of the number.

The first section is the format itself, on numbers: `compactProduct` is what a word stands for,
`compactExponent` and `compactMantissa` are the fields of the encoding of a number, and decoding
those gives the number with its low digits dropped. The two functions of the source are then shown
to compute exactly these (`setCompact_value`, `getCompact_eq`). -/

namespace Binarium

open BaseUint Nat
open BitVec hiding and_assoc and_comm

/-! ## The format on numbers -/

/-- What a mantissa and an exponent stand for. -/
def compactProduct (mantissa exponent : ℕ) : ℚ := mantissa * 256 ^ ((exponent : ℤ) - 3)

variable (x : ℕ) (c : BitVec 32)

/-- The exponent that `x` is encoded with: one more than its number of full bytes, so that the top
    bit of the mantissa stays free for the sign. -/
def compactExponent : ℕ := if x = 0 then 0 else x.size / 8 + 1

/-- The mantissa that `x` is encoded with. -/
def compactMantissa : ℕ := x * 2 ^ 24 / 2 ^ (8 * compactExponent x)

/-- The number of low bits of `x` that its encoding drops. -/
def droppedBits : ℕ := 8 * compactExponent x - 24

theorem mul_two_pow_div_of_le {p q : ℕ} (h : p ≤ q) : x * 2 ^ p / 2 ^ q = x / 2 ^ (q - p) := by
  rw [← Nat.sub_add_cancel h, pow_add, Nat.mul_div_mul_right _ _ (Nat.two_pow_pos p),
    Nat.add_sub_cancel]

theorem mul_two_pow_div_of_ge {p q : ℕ} (h : q ≤ p) : x * 2 ^ p / 2 ^ q = x * 2 ^ (p - q) := by
  rw [← Nat.sub_add_cancel h, pow_add, ← Nat.mul_assoc, Nat.mul_div_cancel _ (Nat.two_pow_pos q),
    Nat.add_sub_cancel]

theorem floor_compactProduct (m e : ℕ) : ⌊compactProduct m e⌋₊ = m * 2 ^ (8 * e) / 2 ^ 24 := by
  have h : compactProduct m e = ((m * 2 ^ (8 * e) : ℕ) : ℚ) / ((2 ^ 24 : ℕ) : ℚ) := by
    rw [compactProduct, zpow_sub₀ (by norm_num), zpow_natCast, pow_mul]
    norm_num
    ring
  rw [h, floor_div_eq_div]

theorem compactProduct_lt_iff (m e n : ℕ) :
    compactProduct m e < (2 ^ n : ℕ) ↔ m * 2 ^ (8 * e) / 2 ^ 24 < 2 ^ n := by
  have hpos : 0 ≤ compactProduct m e :=
    mul_nonneg (cast_nonneg _) (zpow_nonneg (by norm_num) _)
  rw [← floor_compactProduct, floor_lt hpos]

theorem size_lt_eight_mul_compactExponent {x : ℕ} (hx : x ≠ 0) :
    x.size < 8 * compactExponent x ∧ 8 * compactExponent x ≤ x.size + 8 := by
  rw [compactExponent, if_neg hx]
  omega

theorem compactMantissa_lt : compactMantissa x < 2 ^ 23 := by
  unfold compactMantissa
  by_cases hx : x = 0
  · simp [hx]
  · apply Nat.div_lt_of_lt_mul
    have hsize := (size_lt_eight_mul_compactExponent hx).1
    calc x * 2 ^ 24 < 2 ^ x.size * 2 ^ 24 :=
          Nat.mul_lt_mul_of_pos_right x.lt_size_self (by norm_num)
      _ = 2 ^ (x.size + 1) * 2 ^ 23 := by ring
      _ ≤ 2 ^ (8 * compactExponent x) * 2 ^ 23 :=
          Nat.mul_le_mul_right _ (Nat.pow_le_pow_right (by norm_num) hsize)

/-- **Decoding the encoding of `x` clears its dropped bits and changes nothing else.** -/
theorem floor_compactProduct_encode :
    ⌊compactProduct (compactMantissa x) (compactExponent x)⌋₊
      = x / 2 ^ droppedBits x * 2 ^ droppedBits x := by
  rw [floor_compactProduct]
  unfold compactMantissa droppedBits
  generalize compactExponent x = e
  rcases le_total (8 * e) 24 with he | he
  · rw [Nat.sub_eq_zero_of_le he, mul_two_pow_div_of_ge _ he, Nat.mul_assoc, ← pow_add,
      Nat.sub_add_cancel he, Nat.mul_div_cancel _ (by norm_num)]
    simp
  · rw [mul_two_pow_div_of_le _ he, mul_two_pow_div_of_ge _ he]

theorem clear_low_div {x k j : ℕ} (h : k ≤ j) : x / 2 ^ k * 2 ^ k / 2 ^ j = x / 2 ^ j := by
  obtain ⟨i, rfl⟩ := Nat.exists_eq_add_of_le h
  rw [pow_add, ← Nat.div_div_eq_div_mul, ← Nat.div_div_eq_div_mul,
    Nat.mul_div_cancel _ (Nat.two_pow_pos _)]

theorem droppedBits_le : droppedBits x ≤ x.size - 16 := by
  unfold droppedBits
  by_cases hx : x = 0
  · simp [hx, compactExponent]
  · have := size_lt_eight_mul_compactExponent hx
    omega

/-- The encoding keeps the size: at least the top sixteen bits survive. -/
theorem size_clear_dropped : (x / 2 ^ droppedBits x * 2 ^ droppedBits x).size = x.size := by
  have hle : x / 2 ^ droppedBits x * 2 ^ droppedBits x ≤ x := div_mul_le_self _ _
  apply le_antisymm (size_le_size hle)
  by_cases hx : x = 0
  · simp [hx]
  · have hpos : 0 < x.size := size_pos.mpr (pos_of_ne_zero hx)
    have htop : 2 ^ (x.size - 1) ≤ x := lt_size.mp (by omega)
    have hdvd : 2 ^ droppedBits x ∣ 2 ^ (x.size - 1) :=
      pow_dvd_pow _ (by have := droppedBits_le x; omega)
    have hkeep := Nat.mul_le_mul_right (2 ^ droppedBits x)
      (Nat.div_le_div_right (c := 2 ^ droppedBits x) htop)
    rw [Nat.div_mul_cancel hdvd, ← lt_size] at hkeep
    omega

theorem compactExponent_congr {x y : ℕ} (h : x.size = y.size) :
    compactExponent x = compactExponent y := by
  have hzero : x = 0 ↔ y = 0 := by rw [← size_eq_zero, h, size_eq_zero]
  simp only [compactExponent, hzero, h]

/-- **Encoding again gives the same fields.** -/
theorem compact_encode_decode :
    compactExponent (x / 2 ^ droppedBits x * 2 ^ droppedBits x) = compactExponent x
      ∧ compactMantissa (x / 2 ^ droppedBits x * 2 ^ droppedBits x) = compactMantissa x := by
  have hexp := compactExponent_congr (size_clear_dropped x)
  refine ⟨hexp, ?_⟩
  unfold compactMantissa
  rw [hexp]
  unfold droppedBits
  generalize compactExponent x = e
  rcases le_total (8 * e) 24 with he | he
  · simp [Nat.sub_eq_zero_of_le he]
  · rw [mul_two_pow_div_of_le _ he, mul_two_pow_div_of_le _ he,
      Nat.mul_div_cancel _ (Nat.two_pow_pos _)]

/-! ## `SetCompact` and `GetCompact` -/

/-- `arith_uint256`. -/
abbrev ArithUint256 := BaseUint 8

/-- `UintToArith256`. -/
def uintToArith256 (a : BitVec 256) : ArithUint256 := fun i => (a >>> (32 * (i : ℕ))).setWidth 32

theorem value_uintToArith256 (a : BitVec 256) : (uintToArith256 a).value = a.toNat := by
  apply WordArray.value_eq_of_testBit (by decide) _ _ a.isLt
  intro i hi b hb
  have hget : (uintToArith256 a).get i = (a >>> (32 * i)).setWidth 32 := by
    simp [WordArray.get, uintToArith256, hi]
  simp [hget, testBit_toNat, hb]

/-- What `SetCompact` stores and reports. -/
structure SetCompactResult where
  value : ArithUint256
  fNegative : Bool
  fOverflow : Bool
deriving DecidableEq

variable (nCompact : BitVec 32) (a : ArithUint256) (nSize : ℕ)

/-- `arith_uint256::SetCompact`. -/
def setCompact : SetCompactResult :=
  let nSize := (nCompact >>> 24).toNat
  let mantissa := nCompact &&& 0x007fffff
  -- for a short number the word itself is cut down, and the tests below see the cut word
  let nWord := if nSize ≤ 3 then mantissa >>> (8 * (3 - nSize)) else mantissa
  let value : ArithUint256 := BaseUint.ofUInt64 (nWord.setWidth 64)
  { value := if nSize ≤ 3 then value else value.shiftLeft (8 * (nSize - 3))
    fNegative := decide (nWord ≠ 0 ∧ nCompact &&& 0x00800000 ≠ 0)
    fOverflow := decide (nWord ≠ 0 ∧ (nSize > 34 ∨ (nWord > 0xff ∧ nSize > 33)
      ∨ (nWord > 0xffff ∧ nSize > 32))) }

/-- The first half of `GetCompact`: the top three bytes of the number. -/
def topWord : BitVec 32 :=
  if nSize ≤ 3 then (a.getLow64 <<< (8 * (3 - nSize))).setWidth 32
  else (a.shiftRight (8 * (nSize - 3))).getLow64.setWidth 32

/-- The end of `GetCompact`: its two assertions, then the exponent and the sign. A failed `assert`
    is `none`. -/
def packCompact (fNegative : Bool) : Option (BitVec 32) :=
  if nCompact &&& ~~~0x007fffff = 0 ∧ nSize < 256 then
    let nCompact := nCompact ||| (BitVec.ofNat 32 nSize <<< 24)
    some (nCompact ||| if fNegative = true ∧ nCompact &&& 0x007fffff ≠ 0 then 0x00800000 else 0)
  else none

/-- `arith_uint256::GetCompact`. -/
def getCompact (fNegative : Bool) : Option (BitVec 32) :=
  let nSize := (a.bits + 7) / 8
  let nCompact := topWord a nSize
  -- the sign bit must stay free: move one more byte out of the mantissa
  if nCompact &&& 0x00800000 ≠ 0 then packCompact (nCompact >>> 8) (nSize + 1) fNegative
  else packCompact nCompact nSize fNegative

/-- The exponent byte of a compact word. -/
def exponentField : ℕ := (c >>> 24).toNat

/-- The 23 mantissa bits of a compact word. -/
def mantissaField : ℕ := c.toNat % 2 ^ 23

/-- The sign bit of a compact word. -/
def signField : Bool := c.getLsbD 23

theorem and_mask23_toNat : (c &&& 0x007fffff).toNat = c.toNat % 2 ^ 23 :=
  and_two_pow_sub_one_eq_mod _ 23

theorem and_signBit_ne_zero_iff : c &&& 0x00800000 ≠ 0 ↔ c.getLsbD 23 := by
  have hmask : (0x00800000 : BitVec 32) = twoPow 32 23 := by decide
  rw [hmask, and_twoPow]
  by_cases h : c.getLsbD 23
  · simp only [h]
    decide
  · rw [if_neg h]
    exact ⟨fun hne => absurd rfl hne, fun hbit => absurd hbit h⟩

theorem and_not_mask23_eq_zero {c : BitVec 32} (h : c.toNat < 2 ^ 23) :
    c &&& ~~~0x007fffff = 0 := by
  have hmod : c &&& 0x007fffff = c :=
    eq_of_toNat_eq (by rw [and_mask23_toNat, mod_eq_of_lt h])
  rw [← hmod, BitVec.and_assoc]
  simp

/-- The word that `SetCompact` keeps of the mantissa. -/
def shortWord : BitVec 32 :=
  if exponentField c ≤ 3 then (c &&& 0x007fffff) >>> (8 * (3 - exponentField c))
  else c &&& 0x007fffff

theorem exponentField_eq : exponentField c = c.toNat / 2 ^ 24 := by
  rw [exponentField, toNat_ushiftRight, shiftRight_eq_div_pow]

theorem shortWord_toNat :
    (shortWord c).toNat = if exponentField c ≤ 3
      then mantissaField c / 2 ^ (8 * (3 - exponentField c)) else mantissaField c := by
  unfold shortWord
  by_cases h : exponentField c ≤ 3
  · rw [if_pos h, if_pos h, toNat_ushiftRight, shiftRight_eq_div_pow, and_mask23_toNat]
    rfl
  · rw [if_neg h, if_neg h, and_mask23_toNat]
    rfl

/-- The floor of the product, in the two size regimes of the code. -/
theorem floor_compactProduct_fields :
    ⌊compactProduct (mantissaField c) (exponentField c)⌋₊ =
      if exponentField c ≤ 3 then (shortWord c).toNat
      else (shortWord c).toNat * 2 ^ (8 * (exponentField c - 3)) := by
  rw [floor_compactProduct, shortWord_toNat]
  generalize exponentField c = e
  by_cases h : e ≤ 3
  · rw [if_pos h, if_pos h, mul_two_pow_div_of_le _ (by omega), Nat.mul_sub]
  · rw [if_neg h, if_neg h, mul_two_pow_div_of_ge _ (by omega), Nat.mul_sub]

theorem setCompact_eq :
    setCompact c =
      { value := if exponentField c ≤ 3 then ofUInt64 ((shortWord c).setWidth 64)
          else (ofUInt64 ((shortWord c).setWidth 64)).shiftLeft
            (8 * (exponentField c - 3))
        fNegative := decide (shortWord c ≠ 0 ∧ c &&& 0x00800000 ≠ 0)
        fOverflow := decide (shortWord c ≠ 0 ∧ (exponentField c > 34
          ∨ (shortWord c > 0xff ∧ exponentField c > 33)
          ∨ (shortWord c > 0xffff ∧ exponentField c > 32))) } :=
  rfl

theorem shortWord_ne_zero_iff :
    shortWord c ≠ 0 ↔ ⌊compactProduct (mantissaField c) (exponentField c)⌋₊ ≠ 0 := by
  have hzero : shortWord c = 0 ↔ (shortWord c).toNat = 0 :=
    ⟨fun h => by simp [h], fun h => eq_of_toNat_eq (by simpa using h)⟩
  rw [floor_compactProduct_fields, Ne, hzero]
  by_cases h : exponentField c ≤ 3
  · simp [h]
  · simp [h]

theorem value_ofUInt64_setWidth (x : BitVec 32) :
    (ofUInt64 (x.setWidth 64) : ArithUint256).value = x.toNat := by
  have hx := x.isLt
  rw [value_ofUInt64 _ (by decide), toNat_setWidth]
  omega

theorem setCompact_value :
    (setCompact c).value.value
      = ⌊compactProduct (mantissaField c) (exponentField c)⌋₊ % 2 ^ 256 := by
  rw [setCompact_eq, floor_compactProduct_fields]
  by_cases h : exponentField c ≤ 3
  · simp only [h, if_true]
    rw [value_ofUInt64_setWidth]
    omega
  · simp [h, value_shiftLeft, value_ofUInt64_setWidth]

theorem setCompact_fNegative : (setCompact c).fNegative
      ↔ signField c ∧ ⌊compactProduct (mantissaField c) (exponentField c)⌋₊ ≠ 0 := by
  rw [setCompact_eq]
  simp only [decide_eq_true_eq]
  rw [shortWord_ne_zero_iff, and_signBit_ne_zero_iff, and_comm]
  rfl

theorem setCompact_fOverflow : (setCompact c).fOverflow
      ↔ mantissaField c ≠ 0
        ∧ ((2 ^ 256 : ℕ) : ℚ) ≤ compactProduct (mantissaField c) (exponentField c) := by
  have hfit : ((2 ^ 256 : ℕ) : ℚ) ≤ compactProduct (mantissaField c) (exponentField c)
      ↔ 2 ^ 256 ≤ ⌊compactProduct (mantissaField c) (exponentField c)⌋₊ := by
    rw [← not_lt, compactProduct_lt_iff, not_lt, floor_compactProduct]
  rw [setCompact_eq, hfit, floor_compactProduct_fields]
  simp only [decide_eq_true_eq, gt_iff_lt, lt_def, Ne, ← toNat_inj, shortWord_toNat, reduceToNat]
  have hm : mantissaField c < 2 ^ 23 := mod_lt _ (by norm_num)
  generalize mantissaField c = m at *
  generalize exponentField c = e at *
  by_cases h : e ≤ 3
  · -- a short number never overflows
    have hsmall : m / 2 ^ (8 * (3 - e)) ≤ m := div_le_self _ _
    simp only [h, if_true]
    omega
  · simp only [h, if_false]
    -- beyond exponent 34 any mantissa overflows, below 33 none does
    rcases lt_or_ge 34 e with h34 | h34
    · have hpow : 2 ^ 256 ≤ 2 ^ (8 * (e - 3)) := Nat.pow_le_pow_right (by norm_num) (by omega)
      constructor
      · rintro ⟨hne, -⟩
        exact ⟨hne, le_trans hpow (Nat.le_mul_of_pos_left _ (Nat.pos_of_ne_zero hne))⟩
      · omega
    · rcases lt_or_ge 32 e with h32 | h32
      · obtain rfl | rfl : e = 33 ∨ e = 34 := by omega
        · omega
        · omega
      · have hpow : 2 ^ (8 * (e - 3)) ≤ 2 ^ 232 := Nat.pow_le_pow_right (by norm_num) (by omega)
        have hsmall : m * 2 ^ (8 * (e - 3)) < 2 ^ 256 := by
          calc m * 2 ^ (8 * (e - 3)) ≤ m * 2 ^ 232 := mul_le_mul_left _ hpow
            _ < 2 ^ 24 * 2 ^ 232 := mul_lt_mul_of_pos_right (by omega) (by norm_num)
            _ = 2 ^ 256 := by norm_num
        omega

/-! ### Encoding -/

theorem topBytes_lt {x nSize : ℕ} (hsize : nSize = (x.size + 7) / 8) :
    x * 2 ^ 24 / 2 ^ (8 * nSize) < 2 ^ 24 := by
  apply Nat.div_lt_of_lt_mul
  simpa using x.lt_size_self.trans_le (Nat.pow_le_pow_right (by norm_num) (by omega))

theorem topWord_toNat (hsize : nSize = (a.value.size + 7) / 8) :
    (topWord a nSize).toNat = a.value * 2 ^ 24 / 2 ^ (8 * nSize) := by
  have hlt := topBytes_lt hsize
  unfold topWord
  by_cases h : nSize ≤ 3
  · rw [mul_two_pow_div_of_ge _ (by omega), show 24 - 8 * nSize = 8 * (3 - nSize) by omega] at hlt ⊢
    have hvalue := (Nat.le_mul_of_pos_right a.value (Nat.two_pow_pos (8 * (3 - nSize)))).trans_lt hlt
    rw [if_pos h, toNat_setWidth, toNat_shiftLeft, getLow64_toNat, Nat.shiftLeft_eq,
      Nat.mod_eq_of_lt (a := a.value) (by omega), Nat.mod_eq_of_lt (b := 2 ^ 64) (by omega),
      Nat.mod_eq_of_lt (by omega)]
  · rw [mul_two_pow_div_of_le _ (by omega), show 8 * nSize - 24 = 8 * (nSize - 3) by omega] at hlt ⊢
    rw [if_neg h, toNat_setWidth, getLow64_toNat, value_shiftRight,
      Nat.mod_eq_of_lt (b := 2 ^ 64) (by omega), Nat.mod_eq_of_lt (by omega)]

/-- The sign bit of the first word is in use exactly when the number fills its top byte. -/
theorem topWord_signBit (hsize : nSize = (a.value.size + 7) / 8) :
    topWord a nSize &&& 0x00800000 ≠ 0 ↔ a.value ≠ 0 ∧ a.value.size = 8 * nSize := by
  have hlt : (topWord a nSize).toNat < 2 ^ 24 := topWord_toNat a nSize hsize ▸ topBytes_lt hsize
  have hbit : (topWord a nSize).getLsbD 23 ↔ 2 ^ 23 ≤ (topWord a nSize).toNat := by
    rw [getLsbD, Nat.testBit_eq_decide_div_mod_eq, decide_eq_true_eq]
    omega
  rw [and_signBit_ne_zero_iff, hbit, topWord_toNat a nSize hsize,
    Nat.le_div_iff_mul_le (Nat.two_pow_pos _)]
  by_cases h0 : a.value = 0
  · simp [h0]
  · have hpos : 0 < a.value.size := Nat.size_pos.mpr (Nat.pos_of_ne_zero h0)
    obtain ⟨k, hk⟩ : ∃ k, 8 * nSize = k + 1 := ⟨8 * nSize - 1, by omega⟩
    have hhalf : 2 ^ 23 * 2 ^ (8 * nSize) ≤ a.value * 2 ^ 24 ↔ 2 ^ k ≤ a.value := by
      rw [hk, pow_succ]
      omega
    rw [hhalf, ← Nat.lt_size]
    omega

theorem packCompact_eq (hmant : nCompact.toNat < 2 ^ 23) (hsize : nSize < 256) :
    packCompact nCompact nSize false = some (BitVec.ofNat 32 (nSize * 2 ^ 24 + nCompact.toNat)) := by
  rw [packCompact, if_pos ⟨and_not_mask23_eq_zero hmant, hsize⟩]
  simp only [Bool.false_eq_true, false_and, if_false, Option.some.injEq]
  apply eq_of_toNat_eq
  have hexp : (BitVec.ofNat 32 nSize <<< 24).toNat = 2 ^ 24 * nSize := by
    rw [toNat_shiftLeft, toNat_ofNat, Nat.shiftLeft_eq]
    omega
  rw [toNat_or, toNat_or, hexp, toNat_ofNat, Nat.mul_comm nSize,
    Nat.mod_eq_of_lt (by omega), Nat.two_pow_add_eq_or_of_lt (by omega), Nat.or_comm nCompact.toNat]
  simp

/-- **`GetCompact` never fails an assertion and packs the exponent and mantissa of the value.** -/
theorem getCompact_eq :
    getCompact a false
      = some (BitVec.ofNat 32 (compactExponent a.value * 2 ^ 24 + compactMantissa a.value)) := by
  have hvalue : a.value.size ≤ 256 := size_le.mpr a.value_lt
  have hmantlt := compactMantissa_lt a.value
  have hsign := topWord_signBit a _ rfl
  have htop := topWord_toNat a _ rfl
  rw [getCompact, bits_eq_size]
  generalize hS : (a.value.size + 7) / 8 = nSize at *
  by_cases hs : topWord a nSize &&& 0x00800000 ≠ 0
  · obtain ⟨h0, hfull⟩ := hsign.mp hs
    have hexp : compactExponent a.value = nSize + 1 := by
      rw [compactExponent, if_neg h0]
      omega
    have hmant : (topWord a nSize >>> 8).toNat = compactMantissa a.value := by
      rw [compactMantissa, hexp, toNat_ushiftRight, htop, shiftRight_eq_div_pow,
        Nat.div_div_eq_div_mul, ← pow_add, Nat.mul_add]
    simp only [hs, ne_eq, not_false_eq_true, if_true]
    rw [packCompact_eq _ _ (by omega) (by omega), hmant, hexp]
  · have hexp : compactExponent a.value = nSize := by
      rw [compactExponent]
      by_cases h0 : a.value = 0
      · rw [if_pos h0]
        rw [h0, size_zero] at hS
        omega
      · have hnot : a.value.size ≠ 8 * nSize := fun h => hs (hsign.mpr ⟨h0, h⟩)
        rw [if_neg h0]
        omega
    have hmant : (topWord a nSize).toNat = compactMantissa a.value := by
      rw [compactMantissa, hexp, htop]
    simp only [hs, if_false]
    rw [packCompact_eq _ _ (by omega) (by omega), hmant, hexp]

/-! ## The codec -/

theorem fields_pack (m e : ℕ) (hm : m < 2 ^ 23) (he : e < 256) :
    exponentField (BitVec.ofNat 32 (e * 2 ^ 24 + m)) = e
      ∧ mantissaField (BitVec.ofNat 32 (e * 2 ^ 24 + m)) = m
      ∧ signField (BitVec.ofNat 32 (e * 2 ^ 24 + m)) = false := by
  have hlt : e * 2 ^ 24 + m < 2 ^ 32 := by omega
  have hnat : (BitVec.ofNat 32 (e * 2 ^ 24 + m)).toNat = e * 2 ^ 24 + m := by
    rw [toNat_ofNat, mod_eq_of_lt hlt]
  refine ⟨?_, ?_, ?_⟩
  · rw [exponentField_eq, hnat]
    omega
  · rw [mantissaField, hnat]
    omega
  · rw [signField, getLsbD, hnat, testBit_eq_decide_div_mod_eq, decide_eq_false_iff_not]
    omega

theorem setCompact_value_of_not_overflow {c : BitVec 32} (h : (setCompact c).fOverflow = false) :
    (setCompact c).value.value = ⌊compactProduct (mantissaField c) (exponentField c)⌋₊ := by
  have hnot := (not_congr (setCompact_fOverflow c)).mp (by simp [h])
  rw [setCompact_value]
  apply mod_eq_of_lt
  by_cases hm : mantissaField c = 0
  · simp [compactProduct, hm]
  · have hlt : compactProduct (mantissaField c) (exponentField c) < ((2 ^ 256 : ℕ) : ℚ) :=
      lt_of_not_ge fun hge => hnot ⟨hm, hge⟩
    rwa [compactProduct_lt_iff, ← floor_compactProduct] at hlt

/-- Decoding an encoded number: no flag is raised and only the dropped bits are cleared. -/
theorem setCompact_pack (hx : x < 2 ^ 256) {c : BitVec 32}
    (hc : BitVec.ofNat 32 (compactExponent x * 2 ^ 24 + compactMantissa x) = c) :
    (setCompact c).fNegative = false ∧ (setCompact c).fOverflow = false
      ∧ (setCompact c).value.value = x / 2 ^ droppedBits x * 2 ^ droppedBits x := by
  have hsize : x.size ≤ 256 := size_le.mpr hx
  have hexp : compactExponent x < 256 := by
    unfold compactExponent
    split <;> omega
  obtain ⟨he, hm, hs⟩ := hc ▸ fields_pack _ _ (compactMantissa_lt x) hexp
  have hle : x / 2 ^ droppedBits x * 2 ^ droppedBits x ≤ x := div_mul_le_self _ _
  have hover : (setCompact c).fOverflow = false := by
    rw [Bool.eq_false_iff, Ne, setCompact_fOverflow, he, hm]
    rintro ⟨-, hge⟩
    rw [← not_lt, compactProduct_lt_iff, ← floor_compactProduct, floor_compactProduct_encode] at hge
    omega
  refine ⟨?_, hover, ?_⟩
  · simp [Bool.eq_false_iff, Ne, setCompact_fNegative, hs]
  · rw [setCompact_value_of_not_overflow hover, he, hm, floor_compactProduct_encode]

/-- **The compact target codec.** Encoding a 256-bit number always succeeds; decoding the result
    raises no flag, gives a number that is not above the original, agrees with it on its top 15 bits
    and encodes to the same word. Decoding any word reports overflow exactly when the product does
    not fit, reports negative exactly when the sign bit is set and the product does not truncate
    to zero, and stores the floor of the product unless it overflows. -/
theorem compact_codec :
    (∀ x : ArithUint256, ∃ c, getCompact x false = some c
      ∧ (setCompact c).fNegative = false ∧ (setCompact c).fOverflow = false
      ∧ (setCompact c).value.value ≤ x.value
      ∧ (setCompact c).value.value / 2 ^ (x.bits - 15) = x.value / 2 ^ (x.bits - 15)
      ∧ getCompact (setCompact c).value false = some c)
    ∧ ∀ c : BitVec 32,
      ((setCompact c).fOverflow = true ↔ mantissaField c ≠ 0
        ∧ ((2 ^ 256 : ℕ) : ℚ) ≤ compactProduct (mantissaField c) (exponentField c))
      ∧ ((setCompact c).fNegative = true ↔ signField c = true
        ∧ ⌊compactProduct (mantissaField c) (exponentField c)⌋₊ ≠ 0)
      ∧ ((setCompact c).fOverflow = false →
        (setCompact c).value.value = ⌊compactProduct (mantissaField c) (exponentField c)⌋₊) := by
  refine ⟨fun x => ?_, fun c => ⟨setCompact_fOverflow c, setCompact_fNegative c,
    setCompact_value_of_not_overflow⟩⟩
  obtain ⟨hneg, hover, hvalue⟩ := setCompact_pack x.value x.value_lt rfl
  refine ⟨_, getCompact_eq x, hneg, hover, ?_, ?_, ?_⟩
  · rw [hvalue]
    exact div_mul_le_self _ _
  · have hdrop := droppedBits_le x.value
    rw [hvalue, bits_eq_size]
    exact clear_low_div (by omega)
  · obtain ⟨hexp, hmant⟩ := compact_encode_decode x.value
    rw [getCompact_eq, hvalue, hexp, hmant]

/-- The sign bit with a nonzero mantissa is not enough for a negative report: the mantissa `0x3456`
    of this word is shifted out entirely. -/
theorem setCompact_sign_of_truncated_mantissa :
    ¬ ∀ c : BitVec 32, (setCompact c).fNegative = true
      ↔ signField c = true ∧ mantissaField c ≠ 0 := by
  intro h
  have hneg := (h 0x01803456).mpr ⟨by decide, by decide⟩
  exact absurd hneg (by decide)

end Binarium
