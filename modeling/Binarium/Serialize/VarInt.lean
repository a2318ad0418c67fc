import Mathlib.Tactic.Ring
import Binarium.Lib.OffsetBase

set_option autoImplicit false

/-! # Variable-length integers (`serialize.h`)

`WriteVarInt` and `ReadVarInt` for an unsigned integer type of `w` bits. The comment in the source
promises that every integer has exactly one encoding. Over numbers that is so: the loops are those of
`OffsetBase`. `ReadVarInt` works in the integer type, though, and does not stop when its accumulator
wraps around: it returns the encoded number modulo `2 ^ w` (`readVarInt_eq`). So the bytes of every
number that is `n` modulo `2 ^ w` are read as `n`, and only one of them is what `WriteVarInt` writes. -/

namespace Binarium

open OffsetBase BitVec Nat List

variable {w : ℕ}

/-! ## The loops -/

/-- The loop of `GetSizeOfVarInt`. Its argument loses seven bits in each round. -/
def sizeLoop : ℕ → BitVec w → ℕ
  | 0, _ => 0
  | rounds + 1, n => if n ≤ 0x7F then 1 else sizeLoop rounds ((n >>> 7) - 1) + 1

/-- `GetSizeOfVarInt`. -/
def getSizeOfVarInt (n : BitVec w) : ℕ := sizeLoop w n

/-- The loop of `WriteVarInt`; `room` is what is left of the buffer `tmp`, which is written from its end
    and sent in the order it has here. `none` is a write behind the buffer. -/
def writeLoop : ℕ → List (BitVec 8) → BitVec w → Option (List (BitVec 8))
  | 0, _, _ => none
  | room + 1, tmp, n =>
    let tmp := ((n &&& 0x7F).setWidth 8 ||| if tmp.isEmpty then 0x00 else 0x80) :: tmp
    if n ≤ 0x7F then some tmp else writeLoop room tmp ((n >>> 7) - 1)

/-- `WriteVarInt`. -/
def writeVarInt (n : BitVec w) : Option (List (BitVec 8)) := writeLoop ((w + 6) / 7) [] n

/-- The loop of `ReadVarInt`; `none` is the exception at the end of the stream. -/
def readLoop (n : BitVec w) : List (BitVec 8) → Option (BitVec w × List (BitVec 8))
  | [] => none
  | chData :: rest =>
    let n := (n <<< 7) ||| (chData &&& 0x7F).setWidth w
    if chData &&& 0x80 != 0 then readLoop (n + 1) rest else some (n, rest)

/-- `ReadVarInt`, with what it leaves of the stream. -/
def readVarInt (w : ℕ) (bytes : List (BitVec 8)) : Option (BitVec w × List (BitVec 8)) :=
  readLoop (0 : BitVec w) bytes

/-- The number that bytes encode, as the comment in the source has it. -/
def encodedNumber : List (BitVec 8) → ℕ
  | [] => 0
  | [a] => a.toNat % 128
  | a :: rest => 128 ^ rest.length * (a.toNat % 128 + 1) + encodedNumber rest

/-! ## The operations as arithmetic -/

theorem toNat_small (hw : 8 ≤ w) {c : ℕ} (hc : c < 256) : (BitVec.ofNat w c).toNat = c := by
  have hpow : 2 ^ 8 ≤ 2 ^ w := Nat.pow_le_pow_right (by decide) hw
  exact mod_eq_of_lt (lt_of_lt_of_le hc hpow)

theorem le_digit_iff (hw : 8 ≤ w) (n : BitVec w) : n ≤ 0x7F ↔ n.toNat < 128 := by
  have hmask : (0x7F : BitVec w).toNat = 127 := toNat_small hw (by decide)
  rw [le_def, hmask]
  omega

variable {n : BitVec w} {bytes : List (BitVec 8)}

theorem toNat_shift_sub (hw : 8 ≤ w) (h : 128 ≤ n.toNat) :
    ((n >>> 7) - 1).toNat = n.toNat / 128 - 1 := by
  have hone : (1 : BitVec w).toNat = 1 := toNat_small hw (by decide)
  have hshift : (n >>> 7).toNat = n.toNat / 128 := by
    simp [shiftRight_eq_div_pow]
  rw [toNat_sub_of_le, hshift, hone]
  rw [le_def, hshift, hone]
  omega

theorem digit_eq (hw : 8 ≤ w) (n : BitVec w) (last : Bool) :
    ((n &&& 0x7F).setWidth 8 ||| if last then 0x00 else 0x80)
      = digit (n.toNat % 128) (!last) := by
  have hmask : (0x7F : BitVec w).toNat = 2 ^ 7 - 1 := toNat_small hw (by decide)
  have hlow : ((n &&& 0x7F).setWidth 8).toNat = n.toNat % 128 := by
    rw [toNat_setWidth, toNat_and, hmask, and_two_pow_sub_one_eq_mod]
    omega
  have hmod : n.toNat % 128 < 2 ^ 7 := mod_lt _ (by decide)
  apply eq_of_toNat_eq
  rw [toNat_digit hmod, toNat_or, hlow]
  cases last with
  | true => simp
  | false =>
    show n.toNat % 128 ||| 2 ^ 7 * 1 = n.toNat % 128 + 128
    rw [Nat.or_comm, ← Nat.two_pow_add_eq_or_of_lt hmod]
    omega

/-- A digit is shifted in modulo `2 ^ w`. -/
theorem shiftLeft_or_digit (hw : 8 ≤ w) (m : ℕ) (ch : BitVec 8) :
    (BitVec.ofNat w m <<< 7) ||| (ch &&& 0x7F).setWidth w
      = BitVec.ofNat w (m * 128 + ch.toNat % 128) := by
  have hpow : 2 ^ w = 2 ^ 7 * 2 ^ (w - 7) := by
    rw [← pow_add]
    congr 1
    omega
  have hlarge : 2 ^ 8 ≤ 2 ^ w := Nat.pow_le_pow_right (by decide) hw
  have hdigit : ch.toNat % 128 < 2 ^ 7 := mod_lt _ (by decide)
  have hlow : ((ch &&& 0x7F).setWidth w).toNat = ch.toNat % 128 := by
    have hmask : (0x7F : BitVec 8).toNat = 2 ^ 7 - 1 := rfl
    rw [toNat_setWidth, toNat_and, hmask, and_two_pow_sub_one_eq_mod]
    exact mod_eq_of_lt (by omega)
  have hhigh : (BitVec.ofNat w m <<< 7).toNat = 2 ^ 7 * (m % 2 ^ (w - 7)) := by
    rw [toNat_shiftLeft, toNat_ofNat, Nat.shiftLeft_eq, Nat.mod_mul_mod, Nat.mul_comm,
      hpow, mul_mod_mul_left]
  apply eq_of_toNat_eq
  rw [toNat_or, hhigh, hlow, ← two_pow_add_eq_or_of_lt hdigit, toNat_ofNat, hpow, mod_mul]
  have hmod : (m * 128 + ch.toNat % 128) % 2 ^ 7 = ch.toNat % 128 := by omega
  have hdiv : (m * 128 + ch.toNat % 128) / 2 ^ 7 = m := by omega
  rw [hmod, hdiv, add_comm]

theorem continued_iff (ch : BitVec 8) : (ch &&& 0x80 != 0) = decide (128 ≤ ch.toNat) := by
  revert ch
  decide +kernel

/-! ## Writing -/

section

variable (hw : 8 ≤ w)

include hw

/-- The buffer is large enough, and gets the digits of the number. -/
theorem writeLoop_eq (room : ℕ) :
    ∀ (tmp : List (BitVec 8)) (n : BitVec w), 0 < room → n.toNat < 2 ^ (7 * room) →
      writeLoop room tmp n = some (encodeOnto n.toNat tmp) := by
  induction room with
  | zero => simp
  | succ room ih =>
    intro tmp n _ hlt
    rw [writeLoop, digit_eq hw]
    by_cases hn : n ≤ 0x7F
    · have hsmall := (le_digit_iff hw n).mp hn
      rw [if_pos hn, encodeOnto_of_lt hsmall, mod_eq_of_lt hsmall]
    · have hlarge : 128 ≤ n.toNat := Nat.le_of_not_lt fun h => hn ((le_digit_iff hw n).mpr h)
      have hrest := toNat_shift_sub hw hlarge
      have hpow : 2 ^ (7 * (room + 1)) = 2 ^ (7 * room) * 128 := by
        rw [Nat.mul_add, Nat.pow_add]
      have hroom : 0 < room := by
        rcases Nat.eq_zero_or_pos room with rfl | hpos
        · omega
        · exact hpos
      rw [if_neg hn, ih _ _ hroom (by omega), hrest, encodeOnto_of_le hlarge]

theorem writeVarInt_eq (n : BitVec w) : writeVarInt n = some (OffsetBase.encode n.toNat) := by
  refine writeLoop_eq hw _ [] n (by omega) (lt_of_lt_of_le n.isLt ?_)
  exact Nat.pow_le_pow_right (by decide) (by omega)

theorem sizeLoop_eq (rounds : ℕ) :
    ∀ (tmp : List (BitVec 8)) (n : BitVec w), 0 < rounds → n.toNat < 2 ^ rounds →
      (encodeOnto n.toNat tmp).length = sizeLoop rounds n + tmp.length := by
  induction rounds with
  | zero => simp
  | succ rounds ih =>
    intro tmp n _ hlt
    rw [sizeLoop]
    by_cases hn : n ≤ 0x7F
    · rw [if_pos hn, encodeOnto_of_lt ((le_digit_iff hw n).mp hn), length_cons, add_comm]
    · have hlarge : 128 ≤ n.toNat := Nat.le_of_not_lt fun h => hn ((le_digit_iff hw n).mpr h)
      have hrest := toNat_shift_sub hw hlarge
      have hrounds : 0 < rounds := by
        rcases Nat.eq_zero_or_pos rounds with rfl | hpos
        · omega
        · exact hpos
      rw [if_neg hn, encodeOnto_of_le hlarge, ← hrest, ih _ _ hrounds (by omega),
        length_cons]
      omega

theorem length_encode (n : BitVec w) : (OffsetBase.encode n.toNat).length = getSizeOfVarInt n :=
  sizeLoop_eq hw w [] n (by omega) n.isLt

/-! ## Reading -/

theorem readLoop_eq (bytes : List (BitVec 8)) :
    ∀ m : ℕ, readLoop (BitVec.ofNat w m) bytes
      = (decodeFrom m bytes).map fun found => (BitVec.ofNat w found.1, found.2) := by
  induction bytes with
  | nil => exact fun m => rfl
  | cons ch rest ih =>
    intro m
    rw [readLoop, decodeFrom, shiftLeft_or_digit hw, continued_iff]
    by_cases hch : 128 ≤ ch.toNat
    · rw [if_pos (decide_eq_true hch), if_pos hch, ← ih, ofNat_add _ 1]
      rfl
    · rw [if_neg (by simpa using hch), if_neg hch]
      rfl

/-- **`ReadVarInt` returns the encoded number modulo `2 ^ w`.** -/
theorem readVarInt_eq (bytes : List (BitVec 8)) :
    readVarInt w bytes
      = (decodeFrom 0 bytes).map fun found => (BitVec.ofNat w found.1, found.2) :=
  readLoop_eq hw bytes 0

theorem readVarInt_some {rest : List (BitVec 8)} (h : readVarInt w bytes = some (n, rest)) :
    ∃ v, bytes = OffsetBase.encode v ++ rest ∧ n = BitVec.ofNat w v := by
  rw [readVarInt_eq hw] at h
  obtain ⟨⟨v, left⟩, hdecode, hfound⟩ := Option.map_eq_some_iff.mp h
  obtain ⟨rfl, rfl⟩ := Prod.mk.inj hfound
  exact ⟨v, eq_encode_of_decodeFrom hdecode, rfl⟩

theorem readVarInt_encode (v : ℕ) (rest : List (BitVec 8)) :
    readVarInt w (OffsetBase.encode v ++ rest) = some (BitVec.ofNat w v, rest) := by
  rw [readVarInt_eq hw, decodeFrom_encode]
  rfl

theorem readVarInt_encode_toNat (n : BitVec w) (rest : List (BitVec 8)) :
    readVarInt w (OffsetBase.encode n.toNat ++ rest) = some (n, rest) := by
  simp [readVarInt_encode hw]

end

/-! ## The documented number -/

theorem encodedNumber_cons (a : BitVec 8) {rest : List (BitVec 8)} (h : rest ≠ []) :
    encodedNumber (a :: rest)
      = 128 ^ rest.length * (a.toNat % 128 + 1) + encodedNumber rest := by
  cases rest with
  | nil => exact absurd rfl h
  | cons b rest => rfl

theorem decodeFrom_eq_encodedNumber (bytes : List (BitVec 8)) :
    ∀ {m v : ℕ}, decodeFrom m bytes = some (v, []) →
      v = m * 128 ^ bytes.length + encodedNumber bytes := by
  induction bytes with
  | nil => simp [decodeFrom]
  | cons ch rest ih =>
    intro m v h
    rw [decodeFrom] at h
    split at h
    next hch =>
      have hrest : rest ≠ [] := by
        rintro rfl
        simp [decodeFrom] at h
      rw [ih h, encodedNumber_cons ch hrest, length_cons]
      ring
    next hch =>
      obtain ⟨rfl, rfl⟩ := Prod.mk.inj (Option.some.inj h)
      simp [encodedNumber]

theorem encodedNumber_encode (v : ℕ) : encodedNumber (OffsetBase.encode v) = v := by
  have hdecode : decodeFrom 0 (OffsetBase.encode v) = some (v, []) := by
    rw [← append_nil (OffsetBase.encode v), decodeFrom_encode]
  have hvalue := decodeFrom_eq_encodedNumber _ hdecode
  omega

/-! ## One encoding per number, many per value -/

/-- What was read is what would be written, unless the accumulator wrapped around. -/
theorem writeVarInt_of_readVarInt (hw : 8 ≤ w) (h : readVarInt w bytes = some (n, [])) :
    writeVarInt n = some bytes ↔ encodedNumber bytes < 2 ^ w := by
  obtain ⟨v, hbytes, rfl⟩ := readVarInt_some hw h
  rw [append_nil] at hbytes
  subst hbytes
  rw [encodedNumber_encode, writeVarInt_eq hw, toNat_ofNat]
  constructor
  · intro hwrite
    have hvalue := congrArg encodedNumber (Option.some.inj hwrite)
    rw [encodedNumber_encode, encodedNumber_encode] at hvalue
    omega
  · intro hlt
    rw [mod_eq_of_lt hlt]

/-- Adding `2 ^ w` to the number changes the bytes and not the value. -/
theorem exists_other_bytes (hw : 8 ≤ w) (h : readVarInt w bytes = some (n, [])) :
    ∃ other, other ≠ bytes ∧ readVarInt w other = some (n, []) := by
  obtain ⟨v, hbytes, rfl⟩ := readVarInt_some hw h
  rw [append_nil] at hbytes
  subst hbytes
  refine ⟨OffsetBase.encode (v + 2 ^ w), ?_, ?_⟩
  · intro heq
    have hvalue := congrArg encodedNumber heq
    rw [encodedNumber_encode, encodedNumber_encode] at hvalue
    have hpos := Nat.two_pow_pos w
    omega
  · rw [← append_nil (OffsetBase.encode _), readVarInt_encode hw]
    have hmod : BitVec.ofNat w (v + 2 ^ w) = BitVec.ofNat w v := by
      apply eq_of_toNat_eq
      simp
    rw [hmod]

/-- **Variable-length integers.** Writing a value stays within its buffer, takes as many bytes as
    `GetSizeOfVarInt` says, and is inverted by reading. Bytes that are accepted are the encoding of the
    value they give exactly when the number they stand for fits in the type, and they are never the
    only bytes with that value. -/
theorem varInt_oneToOne_iff (hw : 8 ≤ w) :
    (∀ (n : BitVec w) (rest : List (BitVec 8)), ∃ bytes, writeVarInt n = some bytes ∧
      bytes.length = getSizeOfVarInt n ∧ readVarInt w (bytes ++ rest) = some (n, rest)) ∧
    ∀ (bytes : List (BitVec 8)) (n : BitVec w), readVarInt w bytes = some (n, []) →
      (writeVarInt n = some bytes ↔ encodedNumber bytes < 2 ^ w) ∧
        ∃ other, other ≠ bytes ∧ readVarInt w other = some (n, []) := by
  refine ⟨fun n rest => ⟨OffsetBase.encode n.toNat, writeVarInt_eq hw n, length_encode hw n, ?_⟩, ?_⟩
  · exact readVarInt_encode_toNat hw n rest
  · exact fun bytes n h => ⟨writeVarInt_of_readVarInt hw h, exists_other_bytes hw h⟩

/-- The encoding of `65535` that the source lists, for a type of 16 bits. -/
theorem varInt_oneToOne_iff_short :
    readVarInt 16 [0x82, 0xFE, 0x7F] = some (0xFFFF, []) ∧
      (writeVarInt (0xFFFF : BitVec 16) = some [0x82, 0xFE, 0x7F]
        ↔ encodedNumber [0x82, 0xFE, 0x7F] < 2 ^ 16) :=
  ⟨by decide, ((varInt_oneToOne_iff (by decide)).2 [0x82, 0xFE, 0x7F] 0xFFFF (by decide)).1⟩

/-- The encoding of `2 ^ 32` that the source lists is read as an `unsigned int` zero, which is written
    as one byte. -/
theorem readVarInt_wraps :
    encodedNumber [0x8E, 0xFE, 0xFE, 0xFF, 0x00] = 2 ^ 32 ∧
      readVarInt 32 [0x8E, 0xFE, 0xFE, 0xFF, 0x00] = some (0, []) ∧
      readVarInt 32 [0x00] = some (0, []) ∧ writeVarInt (0 : BitVec 32) = some [0x00] := by
  decide

end Binarium
