import Binarium.Arith.BaseUint
import Binarium.Lib.Digits

set_option autoImplicit false

/-! # The arithmetic operators of `base_uint` (`arith_uint256.h`, `arith_uint256.cpp`)

Addition and the multiplication by a word run a 64-bit accumulator over the words: the low half of it is
stored, the high half is carried on (`storeDigit`). Subtraction adds the two's complement. Division
shifts the divisor up to the dividend and subtracts it bit by bit on the way down; it is the only
operator that throws.

For each operator there is one theorem that says what it computes on the values. The products and
sums are taken modulo `2^BITS`: the source has no overflow check, so a caller that must not wrap has
to bound its operands. -/

namespace Binarium

open List BitVec Nat WordArray

variable {width : ℕ}

namespace BaseUint

/-! ## The operators -/

/-- The end of a round of a carry loop: `pn[k] = n & 0xffffffff; carry = n >> 32`. -/
def storeDigit (pn : BaseUint width) (k : ℕ) (n : BitVec 64) : BaseUint width × BitVec 64 :=
  (pn.set k ((n &&& 0xffffffff).setWidth 32), n >>> 32)

variable (a b : BaseUint width)

/-- One round of the loop of `operator+=`, on the words and the carry. -/
def addStep (s : BaseUint width × BitVec 64) (i : ℕ) : BaseUint width × BitVec 64 :=
  storeDigit s.1 i (s.2 + (s.1.get i).setWidth 64 + (b.get i).setWidth 64)

/-- `operator+=(const base_uint& b)`. -/
def add : BaseUint width :=
  ((List.range width).foldl (addStep b) (a, 0)).1

/-- `operator~`. -/
def not : BaseUint width := a.complement

/-- The loop of `operator++` at word `i`, with the given number of words from there on. -/
def incrementFrom (pn : BaseUint width) (i : ℕ) : ℕ → BaseUint width
  | 0 => pn
  | words + 1 =>
    let pn := pn.set i (pn.get i + 1)
    if pn.get i = 0 then incrementFrom pn (i + 1) words else pn

/-- `operator++`. -/
def increment : BaseUint width := incrementFrom a 0 width

/-- The unary `operator-`. -/
def neg : BaseUint width := increment (not a)

/-- `operator-=(const base_uint& b)`. -/
def sub : BaseUint width := add a (neg b)

/-- One round of the loop of `operator*=(uint32_t b32)`. -/
def mul32Step (b32 : BitVec 32) (s : BaseUint width × BitVec 64) (i : ℕ) :
    BaseUint width × BitVec 64 :=
  storeDigit s.1 i (s.2 + b32.setWidth 64 * (s.1.get i).setWidth 64)

/-- `operator*=(uint32_t b32)`. -/
def mul32 (b32 : BitVec 32) : BaseUint width :=
  ((List.range width).foldl (mul32Step b32) (a, 0)).1

/-- The loop of `CompareTo`, over the words below `pos`. -/
def compareBelow (a b : BaseUint width) : ℕ → ℤ
  | 0 => 0
  | pos + 1 =>
    if a.get pos < b.get pos then -1
    else if a.get pos > b.get pos then 1
    else compareBelow a b pos

/-- `CompareTo`. -/
def compareTo : ℤ := compareBelow a b width

/-- `operator>`. -/
def gt : Bool := decide (compareTo a b > 0)

/-- `operator>=`. -/
def ge : Bool := decide (compareTo a b ≥ 0)

/-- `EqualTo(uint64_t b)`. -/
def equalTo (b : BitVec 64) : Bool :=
  (List.range width).all (fun i => decide (i < 2 ∨ a.get i = 0))
    && decide (a.get 1 = (b >>> 32).truncate 32) && decide (a.get 0 = b.truncate 32)

/-- The state of the loop of `operator/=`: the rest of the dividend, the shifted divisor and the
    quotient so far. -/
structure DivideState (width : ℕ) where
  num : BaseUint width
  div : BaseUint width
  pn : BaseUint width

/-- One round of the loop of `operator/=`, at bit `shift` of the quotient. -/
def divideStep (s : DivideState width) (shift : ℕ) : DivideState width :=
  if s.num.ge s.div then
    { num := s.num.sub s.div
      div := s.div.shiftRight 1
      pn := s.pn.set (shift / 32) (s.pn.get (shift / 32) ||| (1#32 <<< (shift % 32))) }
  else { s with div := s.div.shiftRight 1 }

/-- The loop of `operator/=` with the given number of rounds to go, the last one at bit `0`. -/
def divideRounds (s : DivideState width) : ℕ → DivideState width
  | 0 => s
  | rounds + 1 => divideRounds (divideStep s rounds) rounds

/-- `operator/=(const base_uint& b)`; `none` is the `uint_error` "Division by zero". -/
def divide : Option (BaseUint width) :=
  if b.bits = 0 then none
  else if b.bits > a.bits then some (WordArray.zero 32 width)
  else
    let shift := a.bits - b.bits
    some (divideRounds ⟨a, b.shiftLeft shift, WordArray.zero 32 width⟩ (shift + 1)).pn

/-! ## Carry loops -/

section

variable (pn : BaseUint width) (k : ℕ) (n : BitVec 64)

/-- **What a round of a carry loop conserves.** The accumulator goes to digit `k` and the carry. -/
theorem storeDigit_value (hk : k < width) :
    (storeDigit pn k n).1.value + (storeDigit pn k n).2.toNat * 2 ^ (32 * (k + 1))
        + (pn.get k).toNat * 2 ^ (32 * k)
      = pn.value + n.toNat * 2 ^ (32 * k) := by
  have hlow : ((n &&& 0xffffffff).setWidth 32).toNat = n.toNat % 2 ^ 32 := by
    have hmask : (n &&& 0xffffffff).toNat = n.toNat % 2 ^ 32 := by
      exact and_two_pow_sub_one_eq_mod _ 32
    rw [toNat_setWidth, hmask, mod_mod]
  have hhigh : (n >>> 32).toNat = n.toNat / 2 ^ 32 := by
    simp [shiftRight_eq_div_pow]
  have hset := pn.value_set k ((n &&& 0xffffffff).setWidth 32) hk
  have hsplit : n.toNat % 2 ^ 32 + 2 ^ 32 * (n.toNat / 2 ^ 32) = n.toNat := mod_add_div _ _
  rw [hlow] at hset
  rw [storeDigit, hhigh, Nat.mul_add, Nat.mul_one, pow_add]
  linear_combination hset + 2 ^ (32 * k) * hsplit

theorem storeDigit_carry_lt : (storeDigit pn k n).2.toNat < 2 ^ 32 := by
  rw [storeDigit, toNat_ushiftRight, shiftRight_eq_div_pow]
  omega

theorem storeDigit_get (hk : k < width) {i : ℕ}
    (hi : i ≠ k) : (storeDigit pn k n).1.get i = pn.get i := by
  rw [storeDigit, get_set _ _ _ _ hk, if_neg hi]

end

theorem toNat_widen (x : BitVec 32) : (x.setWidth 64).toNat = x.toNat := by
  rw [toNat_setWidth, mod_eq_of_lt (by omega)]

/-- A 64-bit accumulator takes a product of words and a word without overflow. -/
theorem mul_add_lt {x y c : ℕ} (hx : x < 2 ^ 32) (hy : y < 2 ^ 32) (hc : c < 2 ^ 32) :
    c + x * y < 2 ^ 64 := by
  have hxy : x * y ≤ (2 ^ 32 - 1) * (2 ^ 32 - 1) := Nat.mul_le_mul (by omega) (by omega)
  omega

/-- The first rounds of a carry loop, by what they make of a word and the carry. -/
def carryRounds (f : ℕ → BitVec 32 → BitVec 64 → BitVec 64) (m : ℕ) : BaseUint width × BitVec 64 :=
  (range m).foldl (fun s i => storeDigit s.1 i (f i (s.1.get i) s.2)) (a, 0)

section

variable {f : ℕ → BitVec 32 → BitVec 64 → BitVec 64} {t : ℕ → ℕ} (hzero : t 0 = 0)
  (hround : ∀ m, ∀ carry : BitVec 64, carry.toNat < 2 ^ 32 →
    (f m (a.get m) carry).toNat * 2 ^ (32 * m) + t m
      = carry.toNat * 2 ^ (32 * m) + t (m + 1))
include hzero hround

/-- **A carry loop.** It puts the total in the place of the words it went over, and leaves the others
    as they are. -/
theorem carryRounds_spec (m : ℕ) (hm : m ≤ width) :
    (carryRounds a f m).1.value + (carryRounds a f m).2.toNat * 2 ^ (32 * m)
        + a.value % 2 ^ (32 * m) = a.value + t m
      ∧ (carryRounds a f m).2.toNat < 2 ^ 32
      ∧ ∀ i, m ≤ i → (carryRounds a f m).1.get i = a.get i := by
  induction m with
  | zero => simp [carryRounds, hzero, mod_one]
  | succ m ih =>
    obtain ⟨hvalue, hcarry, hrest⟩ := ih (by omega)
    rw [carryRounds, range_succ, foldl_append, foldl_cons, foldl_nil, ← carryRounds]
    generalize carryRounds a f m = s at hvalue hcarry hrest
    have hstore := storeDigit_value s.1 m (f m (a.get m) s.2) (by omega)
    have hadd := hround m s.2 hcarry
    rw [hrest m le_rfl] at hstore ⊢
    refine ⟨by rw [value_mod_succ]; omega, storeDigit_carry_lt _ _ _, fun i hi => ?_⟩
    rw [storeDigit_get _ _ _ (by omega) (by omega), hrest i (by omega)]

theorem value_carryRounds : (carryRounds a f width).1.value = t width % 2 ^ (32 * width) := by
  obtain ⟨hvalue, -⟩ := carryRounds_spec a hzero hround width le_rfl
  rw [value_mod_width, Nat.add_comm, Nat.add_left_cancel_iff] at hvalue
  rw [← hvalue, add_mul_mod_self_right, value_mod_width]

end

/-! ## Addition and subtraction -/

/-- **Addition, modulo the width.** -/
theorem value_add : (add a b).value = (a.value + b.value) % 2 ^ (32 * width) := by
  have h := a.value_carryRounds (f := fun i x carry => carry + x.setWidth 64 + (b.get i).setWidth 64)
    (t := fun m => a.value % 2 ^ (32 * m) + b.value % 2 ^ (32 * m)) (by simp [mod_one]) (by
      intro m carry hcarry
      rw [toNat_add, toNat_add, toNat_widen, toNat_widen, mod_add_mod, mod_eq_of_lt (by omega),
        value_mod_succ, value_mod_succ]
      ring)
  rwa [value_mod_width, value_mod_width] at h

theorem value_add_of_lt (h : a.value + b.value < 2 ^ (32 * width)) :
    (add a b).value = a.value + b.value := by
  rw [value_add, mod_eq_of_lt h]

theorem value_not : (not a).value = 2 ^ (32 * width) - 1 - a.value := by
  have := a.value_complement
  unfold not
  omega

/-- The loop of `operator++` adds one at word `i`. -/
theorem incrementFrom_value (pn : BaseUint width) (i words : ℕ) (hi : i + words = width) :
    (incrementFrom pn i words).value ≡ pn.value + 2 ^ (32 * i) [MOD 2 ^ (32 * width)] := by
  induction words generalizing pn i with
  | zero =>
    obtain rfl : i = width := by omega
    simp [incrementFrom]
  | succ words ih =>
    have hlt : i < width := by omega
    have hset := pn.value_set i (pn.get i + 1) hlt
    have hget : (pn.set i (pn.get i + 1)).get i = pn.get i + 1 := by
      rw [get_set _ _ _ _ hlt, if_pos rfl]
    have hsucc : (pn.get i + 1).toNat = ((pn.get i).toNat + 1) % 2 ^ 32 := rfl
    rw [incrementFrom]
    simp only [hget]
    split_ifs with hzero
    · -- the word was full: it becomes zero and the next one is incremented
      have h0 : (pn.get i + 1).toNat = 0 := by rw [hzero]; rfl
      have hfull : (pn.get i).toNat + 1 = 2 ^ 32 := by omega
      have hvalue : (pn.set i (pn.get i + 1)).value + 2 ^ (32 * (i + 1)) = pn.value + 2 ^ (32 * i) := by
        rw [Nat.mul_add, Nat.mul_one, pow_add, ← hfull]
        rw [h0] at hset
        linear_combination hset
      rw [← hvalue]
      exact ih _ _ (by omega)
    · have hne : (pn.get i).toNat + 1 ≠ 2 ^ 32 := fun hfull =>
        hzero (eq_of_toNat_eq (by rw [hsucc, hfull]; rfl))
      rw [hsucc, Nat.mod_eq_of_lt (by omega)] at hset
      exact congrArg (· % _) (by linear_combination hset)

/-- **Subtraction, when nothing is borrowed from above the width.** -/
theorem value_sub_of_le (h : b.value ≤ a.value) : (sub a b).value = a.value - b.value := by
  have hinc : (neg b).value ≡ (not b).value + 2 ^ (32 * 0) [MOD 2 ^ (32 * width)] :=
    incrementFrom_value (not b) 0 width (by omega)
  have hnot := b.value_complement
  have ha := a.value_lt
  have hneg : a.value + (neg b).value ≡ a.value - b.value [MOD 2 ^ (32 * width)] := by
    calc a.value + (neg b).value
        ≡ a.value + ((not b).value + 2 ^ (32 * 0)) [MOD 2 ^ (32 * width)] := hinc.add_left _
      _ = (a.value - b.value) + 2 ^ (32 * width) := by
          simp only [not]
          omega
      _ ≡ a.value - b.value [MOD 2 ^ (32 * width)] := by simp
  rw [sub, value_add, hneg, mod_eq_of_lt (by omega)]

/-! ## Multiplication -/

/-- **Multiplication by a word, modulo the width.** -/
theorem value_mul32 (b32 : BitVec 32) :
    (mul32 a b32).value = a.value * b32.toNat % 2 ^ (32 * width) := by
  have h := a.value_carryRounds (f := fun _ x carry => carry + b32.setWidth 64 * x.setWidth 64)
    (t := fun m => a.value % 2 ^ (32 * m) * b32.toNat) (by simp [mod_one]) (by
      intro m carry hcarry
      have hbound := mul_add_lt b32.isLt (a.get m).isLt hcarry
      rw [toNat_add, toNat_mul, toNat_widen, toNat_widen, add_mod_mod, mod_eq_of_lt hbound,
        value_mod_succ]
      ring)
  rwa [value_mod_width] at h

theorem value_mul32_of_lt (b32 : BitVec 32) (h : a.value * b32.toNat < 2 ^ (32 * width)) :
    (mul32 a b32).value = a.value * b32.toNat := by
  rw [value_mul32, mod_eq_of_lt h]

/-! ## Comparison -/

/-- The loop of `CompareTo` compares the words below `pos`. -/
theorem compareBelow_eq (pos : ℕ) :
    compareBelow a b pos =
      if a.value % 2 ^ (32 * pos) < b.value % 2 ^ (32 * pos) then -1
      else if b.value % 2 ^ (32 * pos) < a.value % 2 ^ (32 * pos) then 1 else 0 := by
  induction pos with
  | zero => simp [compareBelow, mod_one]
  | succ pos ih =>
    have ha : a.value % 2 ^ (32 * pos) < 2 ^ (32 * pos) := Nat.mod_lt _ (Nat.two_pow_pos _)
    have hb : b.value % 2 ^ (32 * pos) < 2 ^ (32 * pos) := Nat.mod_lt _ (Nat.two_pow_pos _)
    rw [compareBelow, ih, value_mod_succ, value_mod_succ]
    simp only [lt_def, gt_iff_lt]
    generalize 2 ^ (32 * pos) = base at *
    generalize (a.get pos).toNat = d at *
    generalize (b.get pos).toNat = e at *
    -- a larger digit outweighs everything below it
    rcases Nat.lt_trichotomy d e with hde | rfl | hde
    · have hstep : (d + 1) * base ≤ e * base := mul_le_mul_right _ hde
      rw [Nat.add_mul, Nat.one_mul] at hstep
      rw [if_pos hde, if_pos (by omega)]
    · simp
    · have hstep : (e + 1) * base ≤ d * base := mul_le_mul_right _ hde
      rw [Nat.add_mul, Nat.one_mul] at hstep
      rw [if_neg (by omega), if_pos hde, if_neg (by omega), if_pos (by omega)]

theorem compareTo_eq :
    compareTo a b = if a.value < b.value then -1 else if b.value < a.value then 1 else 0 := by
  simp [compareTo, compareBelow_eq, value_mod_width]

theorem gt_iff : gt a b ↔ b.value < a.value := by
  rw [gt, compareTo_eq, decide_eq_true_eq]
  split_ifs <;> omega

theorem ge_iff : ge a b ↔ b.value ≤ a.value := by
  rw [ge, compareTo_eq, decide_eq_true_eq]
  split_ifs <;> omega

theorem equalTo_iff (b : BitVec 64) (hw : 2 ≤ width) : equalTo a b ↔ a.value = b.toNat := by
  rw [← value_ofUInt64 b hw]
  have hget : ∀ i, (ofUInt64 b : BaseUint width).get i
      = if i = 1 then (b >>> 32).truncate 32 else if i = 0 then b.truncate 32 else 0 := by
    intro i
    rw [ofUInt64, get_set _ _ _ _ (by omega), get_set _ _ _ _ (by omega),
      get_zero]
  simp only [equalTo, Bool.and_eq_true, all_eq_true, mem_range, decide_eq_true_eq]
  constructor
  · rintro ⟨⟨hhigh, h1⟩, h0⟩
    congr 1
    apply WordArray.ext_get
    intro i hi
    rw [hget]
    split_ifs with hi1 hi0
    · rw [hi1, h1]
    · rw [hi0, h0]
    · exact (hhigh i hi).resolve_left (by omega)
  · intro h
    have heq : a = ofUInt64 b := ext_value h
    simp only [heq, hget]
    refine ⟨⟨fun i _ => (lt_or_ge i 2).imp id fun hge => ?_, by simp⟩, by simp⟩
    rw [if_neg (by omega), if_neg (by omega)]

/-! ## Division -/

/-- The state of the division of `N` by `D` with `rounds` rounds to go: what is subtracted and what
    is left make up `N`, and what is left is below twice the divisor of the next round. -/
structure Dividing (N D rounds : ℕ) (s : DivideState width) : Prop where
  total : s.num.value + D * s.pn.value = N
  rest_lt : s.num.value < D * 2 ^ rounds
  clear : 2 ^ rounds ∣ s.pn.value
  divisor : ∀ k, rounds = k + 1 → s.div.value = D * 2 ^ k

theorem Dividing.step {N D rounds : ℕ} {s : DivideState width} (h : Dividing N D (rounds + 1) s)
    (hrounds : rounds < 32 * width) : Dividing N D rounds (divideStep s rounds) := by
  have hdiv : s.div.value = D * 2 ^ rounds := h.divisor rounds rfl
  have hrest := h.rest_lt
  rw [pow_succ, ← Nat.mul_assoc, Nat.mul_two] at hrest
  have hhalf : ∀ k, rounds = k + 1 → (s.div.shiftRight 1).value = D * 2 ^ k := by
    rintro k rfl
    rw [value_shiftRight, hdiv, pow_succ, ← mul_assoc, pow_one, Nat.mul_div_cancel _ (by decide)]
  have hlow : 2 ^ rounds ∣ s.pn.value := dvd_trans (pow_dvd_pow 2 (le_succ _)) h.clear
  have hge := s.num.ge_iff s.div
  rw [hdiv] at hge
  unfold divideStep
  split_ifs with hbit
  · -- the bit is set: the divisor is taken off the rest
    have hsub : (s.num.sub s.div).value = s.num.value - D * 2 ^ rounds := by
      rw [value_sub_of_le _ _ (hdiv ▸ hge.mp hbit), hdiv]
    have hset := s.pn.value_set_bit rounds (by decide) hrounds h.clear
    have htotal := h.total
    replace hge := hge.mp hbit
    refine ⟨?_, by rw [hsub]; omega, by rw [hset]; exact dvd_add hlow dvd_rfl, hhalf⟩
    rw [hsub, hset, Nat.mul_add]
    omega
  · exact ⟨h.total, not_le.mp fun hle => hbit (hge.mpr hle), hlow, hhalf⟩

theorem Dividing.rounds {N D rounds : ℕ} {s : DivideState width} (h : Dividing N D rounds s)
    (hrounds : rounds ≤ 32 * width) : Dividing N D 0 (divideRounds s rounds) := by
  induction rounds generalizing s with
  | zero => exact h
  | succ rounds ih => exact ih (h.step hrounds) (by omega)

/-- **Division.** With a nonzero divisor it returns the quotient. -/
theorem divide_value (hb : b.value ≠ 0) :
    ∃ q, divide a b = some q ∧ q.value = a.value / b.value := by
  have hbits : b.bits ≠ 0 := by rwa [bits_eq_size, Ne, size_eq_zero]
  have ha := a.bits_eq_size
  have hb' := b.bits_eq_size
  have hsize : a.value.size ≤ 32 * width := size_le.mpr a.value_lt
  have htop : 2 ^ (b.bits - 1) ≤ b.value := lt_size.mp (by omega)
  have hlt : a.value < 2 ^ a.bits := ha ▸ lt_size_self _
  rw [divide, if_neg hbits]
  split
  · next hshort =>
      have hless : a.value < b.value :=
        (hlt.trans_le (Nat.pow_le_pow_right (by decide) (by omega))).trans_le htop
      exact ⟨_, rfl, by rw [value_zero, div_eq_of_lt hless]⟩
  · next hlong =>
      refine ⟨_, rfl, ?_⟩
      have hshift : (b.shiftLeft (a.bits - b.bits)).value = b.value * 2 ^ (a.bits - b.bits) := by
        rw [value_shiftLeft]
        apply mod_eq_of_lt
        calc b.value * 2 ^ (a.bits - b.bits)
            < 2 ^ b.bits * 2 ^ (a.bits - b.bits) := by
              simp [hb', lt_size_self _]
          _ = 2 ^ a.bits := by rw [← pow_add, Nat.add_sub_cancel' (by omega)]
          _ ≤ 2 ^ (32 * width) := Nat.pow_le_pow_right (by decide) (by omega)
      have hstart : Dividing a.value b.value (a.bits - b.bits + 1)
          ⟨a, b.shiftLeft (a.bits - b.bits), zero 32 width⟩ := by
        refine ⟨by simp [value_zero], ?_, by simp [value_zero], ?_⟩
        · calc a.value < 2 ^ a.bits := hlt
            _ = 2 ^ (b.bits - 1) * 2 ^ (a.bits - b.bits + 1) := by
                rw [← pow_add]
                congr 1
                omega
            _ ≤ b.value * 2 ^ (a.bits - b.bits + 1) := mul_le_mul_right _ htop
        · intro k hk
          rw [hshift, Nat.succ.inj hk]
      have hend := hstart.rounds (by omega)
      have hrest := hend.rest_lt
      rw [pow_zero, mul_one] at hrest
      rw [← hend.total, add_mul_div_left _ _ (pos_of_ne_zero hb), div_eq_of_lt hrest, zero_add]

end BaseUint

end Binarium
