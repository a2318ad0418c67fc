import Binarium.Lib.Words

set_option autoImplicit false

/-! # `base_uint`: the unsigned big integers of `arith_uint256.cpp`

`base_uint<BITS>` keeps `WIDTH = BITS/32` words `pn[0..WIDTH-1]`, least significant first. The
operators work in place on `pn`, one word at a time; here each loop is the fold over its index range
with the array as the state. `BITS` stays a parameter (the template argument), in words.

The last section says what each operator computes on the values: a left shift multiplies modulo
`2^BITS`, a right shift divides, and `bits` is the size of the value in bits. -/

namespace Binarium

open BitVec Nat WordArray List

variable {width : ℕ}

/-- `base_uint<32*width>`. -/
abbrev BaseUint (width : ℕ) := WordArray 32 width

namespace BaseUint

/-! ## The operators -/

/-- `base_uint(uint64_t b)` and `operator=(uint64_t b)`. -/
def ofUInt64 (b : BitVec 64) : BaseUint width :=
  ((WordArray.zero 32 width).set 0 (b.truncate 32)).set 1 ((b >>> 32).truncate 32)

variable (a : BaseUint width)

/-- One round of the loop of `operator<<=`: word `i` of the old value goes to the words `i+k` and
    `i+k+1`. -/
def shiftLeftStep (k shift : ℕ) (pn : BaseUint width) (i : ℕ) : BaseUint width :=
  let pn := if i + k + 1 < width ∧ shift ≠ 0 then
      pn.set (i + k + 1) (pn.get (i + k + 1) ||| (a.get i >>> (32 - shift))) else pn
  if i + k < width then pn.set (i + k) (pn.get (i + k) ||| (a.get i <<< shift)) else pn

/-- `operator<<=`. -/
def shiftLeft (shift : ℕ) : BaseUint width :=
  (List.range width).foldl (shiftLeftStep a (shift / 32) (shift % 32)) (WordArray.zero 32 width)

/-- One round of the loop of `operator>>=`: word `i` of the old value goes to the words `i-k` and
    `i-k-1`. -/
def shiftRightStep (k shift : ℕ) (pn : BaseUint width) (i : ℕ) : BaseUint width :=
  let pn := if k + 1 ≤ i ∧ shift ≠ 0 then
      pn.set (i - k - 1) (pn.get (i - k - 1) ||| (a.get i <<< (32 - shift))) else pn
  if k ≤ i then pn.set (i - k) (pn.get (i - k) ||| (a.get i >>> shift)) else pn

/-- `operator>>=`. -/
def shiftRight (shift : ℕ) : BaseUint width :=
  (List.range width).foldl (shiftRightStep a (shift / 32) (shift % 32)) (WordArray.zero 32 width)

/-- The inner loop of `bits()`: the highest set bit of a nonzero word, scanned from `bits` down to
    `1`; bit `0` is the fall-through. -/
def wordBits (x : BitVec 32) : ℕ → ℕ
  | 0 => 1
  | b + 1 => if x &&& (1#32 <<< (b + 1)) ≠ 0 then b + 2 else wordBits x b

/-- The outer loop of `bits()`, over the words below `pos`. -/
def bitsBelow (a : BaseUint width) : ℕ → ℕ
  | 0 => 0
  | pos + 1 => if a.get pos ≠ 0 then 32 * pos + wordBits (a.get pos) 31 else bitsBelow a pos

/-- `bits()`: the position of the highest bit set plus one, or zero if the value is zero. -/
def bits : ℕ := bitsBelow a width

/-- `GetLow64()`. -/
def getLow64 : BitVec 64 :=
  (a.get 0).setWidth 64 ||| ((a.get 1).setWidth 64 <<< 32)

/-! ## One word of a shifted array -/

/-- What a guarded `|=` of a word does. -/
theorem get_orIf {c : Prop} [Decidable c] (pn : BaseUint width) {i : ℕ} (x : BitVec 32) (j : ℕ)
    (hi : c → i < width) :
    (if c then pn.set i (pn.get i ||| x) else pn).get j
      = pn.get j ||| if c ∧ j = i then x else 0 := by
  by_cases hc : c
  · rw [if_pos hc, get_set _ _ _ _ (hi hc)]
    by_cases hj : j = i <;> simp [hc, hj]
  · simp [hc]

/-- The state of the left-shift loop after `m` rounds: each result word has received its two
    contributions from the words below `m`. -/
theorem shiftLeft_loop_get (k shift m j : ℕ) (hj : j < width) :
    ((range m).foldl (shiftLeftStep a k shift) (WordArray.zero 32 width)).get j =
      (if k + 1 ≤ j ∧ j - (k + 1) < m ∧ shift ≠ 0 then a.get (j - (k + 1)) >>> (32 - shift) else 0)
        ||| (if k ≤ j ∧ j - k < m then a.get (j - k) <<< shift else 0) := by
  induction m with
  | zero => simp
  | succ m ih =>
    rw [range_succ, foldl_append, foldl_cons, foldl_nil, shiftLeftStep,
      get_orIf _ _ _ id, get_orIf _ _ _ And.left, ih]
    -- round `m` adds word `m` to exactly one of the two contributions
    grind

/-- The state of the right-shift loop after `m` rounds. -/
theorem shiftRight_loop_get (k shift m j : ℕ) (hm : m ≤ width) :
    ((range m).foldl (shiftRightStep a k shift) (WordArray.zero 32 width)).get j =
      (if j + k + 1 < m ∧ shift ≠ 0 then a.get (j + k + 1) <<< (32 - shift) else 0)
        ||| (if j + k < m then a.get (j + k) >>> shift else 0) := by
  induction m with
  | zero => simp
  | succ m ih =>
    rw [range_succ, foldl_append, foldl_cons, foldl_nil, shiftRightStep,
      get_orIf _ _ _ (by omega), get_orIf _ _ _ (by omega), ih (by omega)]
    grind

/-! ## What the operators compute -/

theorem getLsbD_ite (c : Prop) [Decidable c] (x : BitVec 32) (b : ℕ) :
    (if c then x else 0).getLsbD b = (decide c && x.getLsbD b) := by
  by_cases h : c <;> simp [h]

/-- **A left shift multiplies, modulo the width.** -/
theorem value_shiftLeft (shift : ℕ) :
    (shiftLeft a shift).value = a.value * 2 ^ shift % 2 ^ (32 * width) := by
  apply value_eq_of_testBit (by decide) _ _ (Nat.mod_lt _ (Nat.two_pow_pos _))
  intro j hj b hb
  have hshift : shift = 32 * (shift / 32) + shift % 32 := (div_add_mod shift 32).symm
  rw [testBit_mod_two_pow, testBit_mul_two_pow, shiftLeft, shiftLeft_loop_get _ _ _ _ _ hj,
    getLsbD_or, getLsbD_ite, getLsbD_ite, getLsbD_ushiftRight, getLsbD_shiftLeft]
  have hr : shift % 32 < 32 := mod_lt _ (by decide)
  generalize shift / 32 = k at *
  generalize shift % 32 = r at *
  -- bit `b` of word `j` comes from word `j-k` when `r ≤ b`, else from word `j-k-1`
  by_cases hrb : r ≤ b
  · have hlow := a.value_testBit_word (j - k) (b - r) (by omega)
    grind
  · have hlow := a.value_testBit_word (j - (k + 1)) (32 - r + b) (by omega)
    grind

/-- **A right shift divides.** -/
theorem value_shiftRight (shift : ℕ) : (shiftRight a shift).value = a.value / 2 ^ shift := by
  apply value_eq_of_testBit (by decide) _ _
    (lt_of_le_of_lt (div_le_self _ _) a.value_lt)
  intro j hj b hb
  have hshift : shift = 32 * (shift / 32) + shift % 32 := (div_add_mod shift 32).symm
  rw [← shiftRight_eq_div_pow, testBit_shiftRight, shiftRight,
    shiftRight_loop_get _ _ _ _ _ le_rfl, getLsbD_or, getLsbD_ite, getLsbD_ite,
    getLsbD_ushiftRight, getLsbD_shiftLeft]
  have hr : shift % 32 < 32 := mod_lt _ (by decide)
  generalize shift / 32 = k at *
  generalize shift % 32 = r at *
  subst hshift
  -- bit `b` of word `j` comes from word `j+k` when `r + b < 32`, else from word `j+k+1`
  by_cases hrb : r + b < 32
  · have e : 32 * k + r + (32 * j + b) = 32 * (j + k) + (r + b) := by ring
    have hout := @get_of_le _ _ a (j + k)
    rw [e, value_testBit_word _ _ _ hrb]
    grind
  · have e : 32 * k + r + (32 * j + b) = 32 * (j + k + 1) + (b - (32 - r)) := by omega
    have hlow : (a.get (j + k)).getLsbD (r + b) = false := getLsbD_of_ge _ _ (by omega)
    have hout := @get_of_le _ _ a (j + k + 1)
    rw [e, value_testBit_word _ _ _ (by omega), hlow]
    grind

theorem wordBits_eq_size (x : BitVec 32) (hx : x ≠ 0) (b : ℕ) (hb : b < 32)
    (hlt : x.toNat < 2 ^ (b + 1)) : wordBits x b = x.toNat.size := by
  have hpos : x.toNat ≠ 0 := fun h => hx (eq_of_toNat_eq (by simpa using h))
  induction b with
  | zero =>
    have hone : x.toNat = 1 := by omega
    rw [wordBits, hone]
    rfl
  | succ b ih =>
    have hquot : x.toNat / 2 ^ (b + 1) < 2 := Nat.div_lt_of_lt_mul (by rwa [← pow_succ])
    have hmask : x &&& (1#32 <<< (b + 1)) ≠ 0 ↔ 2 ^ (b + 1) ≤ x.toNat := by
      rw [← Nat.one_le_div_iff (Nat.two_pow_pos _), ← twoPow_eq, and_twoPow, getLsbD,
        testBit_eq_decide_div_mod_eq, Nat.mod_eq_of_lt hquot]
      have hne : twoPow 32 (b + 1) ≠ 0 := fun h => by
        have hbit := congrArg (fun y => y.getLsbD (b + 1)) h
        simp [hb] at hbit
      split_ifs with h
      · simp_all
      · simp only [decide_eq_true_eq] at h
        exact iff_of_false (absurd rfl) (by omega)
    rw [wordBits]
    split_ifs with hbit
    · have h1 := size_le.mpr hlt
      have h2 := lt_size.mpr (hmask.mp hbit)
      omega
    · exact ih (by omega) (not_le.mp fun hle => hbit (hmask.mpr hle))

theorem size_div_two_pow (x k : ℕ) : (x / 2 ^ k).size = x.size - k :=
  eq_of_forall_ge_iff fun n => by
    rw [size_le, Nat.div_lt_iff_lt_mul (Nat.two_pow_pos k), ← pow_add, ← size_le,
      Nat.sub_le_iff_le_add]

theorem bitsBelow_eq_size (pos : ℕ) (hlt : a.value < 2 ^ (32 * pos)) :
    bitsBelow a pos = a.value.size := by
  induction pos with
  | zero =>
    have hzero : a.value = 0 := by simpa using hlt
    rw [bitsBelow, hzero]
    rfl
  | succ pos ih =>
    have hquot : a.value / 2 ^ (32 * pos) < 2 ^ 32 := by
      apply Nat.div_lt_of_lt_mul
      rwa [← pow_add]
    have hword := a.value_div_mod_word pos
    rw [Nat.mod_eq_of_lt hquot] at hword
    rw [bitsBelow]
    by_cases h0 : a.get pos = 0
    · rw [if_neg (by simpa using h0)]
      apply ih
      rw [h0] at hword
      exact (Nat.div_eq_zero_iff_lt (Nat.two_pow_pos _)).mp (by simpa using hword)
    · rw [if_pos h0, wordBits_eq_size _ h0 31 (by decide) (a.get pos).isLt]
      have hpos : 0 < (a.get pos).toNat.size :=
        Nat.size_pos.mpr (Nat.pos_of_ne_zero fun h => h0 (eq_of_toNat_eq (by simpa using h)))
      rw [← hword, size_div_two_pow] at hpos ⊢
      omega

/-- **`bits` is the size of the value in bits.** -/
theorem bits_eq_size : bits a = a.value.size :=
  bitsBelow_eq_size a width a.value_lt

theorem getLow64_toNat : (getLow64 a).toNat = a.value % 2 ^ 64 := by
  have h0 := a.value_div_mod_word 0
  have h1 := a.value_div_mod_word 1
  have hlow : (a.get 0).toNat < 2 ^ 32 := (a.get 0).isLt
  have hsum : (getLow64 a).toNat = 2 ^ 32 * (a.get 1).toNat + (a.get 0).toNat := by
    rw [Nat.two_pow_add_eq_or_of_lt hlow, getLow64, Nat.or_comm]
    simp only [toNat_or, toNat_setWidth, toNat_shiftLeft, Nat.shiftLeft_eq]
    congr 1 <;> omega
  omega

theorem value_ofUInt64 (b : BitVec 64) (hw : 2 ≤ width) :
    (ofUInt64 b : BaseUint width).value = b.toNat := by
  have hlt : b.toNat < 2 ^ (32 * width) :=
    lt_of_lt_of_le b.isLt (Nat.pow_le_pow_right (by decide) (by omega))
  apply value_eq_of_testBit (by decide) _ _ hlt
  intro i hi c hc
  rw [ofUInt64, get_set _ _ _ _ (by omega), get_set _ _ _ _ (by omega),
    testBit_toNat]
  by_cases h1 : i = 1
  · subst h1
    simp [hc]
  · by_cases h0 : i = 0
    · subst h0
      simp [hc]
    · have hge : 64 ≤ 32 * i + c := by omega
      simp [h0, h1, getLsbD_of_ge _ _ hge]

end BaseUint

end Binarium
