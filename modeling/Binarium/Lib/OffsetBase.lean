import Mathlib.Data.Nat.Notation
import Mathlib.Tactic.Common

set_option autoImplicit false

/-! # Numbers in base 128 with an offset

Numbers as bytes of seven bits each, most significant first, where every byte but the last has its high
bit set. One is subtracted from all digits but the last, so a number has no second spelling with
leading zeros: numbers and terminated byte strings are in one-to-one correspondence
(`decodeFrom_encode`, `eq_encode_of_decodeFrom`).

Encoding puts the last digit first and works towards the front, so it is stated with the bytes that are
already there. -/

namespace OffsetBase

open Nat

/-- The byte of a digit. -/
def digit (d : ℕ) (continued : Bool) : BitVec 8 := BitVec.ofNat 8 (if continued then d + 128 else d)

/-- Put the digits of `n` in front of `tmp`. They are continued if something follows. -/
def encodeOnto (n : ℕ) (tmp : List (BitVec 8)) : List (BitVec 8) :=
  if n < 128 then digit n (!tmp.isEmpty) :: tmp
  else encodeOnto (n / 128 - 1) (digit (n % 128) (!tmp.isEmpty) :: tmp)
termination_by n
decreasing_by omega

/-- The bytes of a number. -/
def encode (n : ℕ) : List (BitVec 8) := encodeOnto n []

/-- Read a number, after digits of value `n`; also what is left of the bytes. -/
def decodeFrom (n : ℕ) : List (BitVec 8) → Option (ℕ × List (BitVec 8))
  | [] => none
  | ch :: rest =>
    if 128 ≤ ch.toNat then decodeFrom (n * 128 + ch.toNat % 128 + 1) rest
    else some (n * 128 + ch.toNat % 128, rest)

theorem toNat_digit {d : ℕ} (h : d < 128) (continued : Bool) :
    (digit d continued).toNat = if continued then d + 128 else d := by
  cases continued <;> exact mod_eq_of_lt (by simp; omega)

theorem decodeFrom_continued {d : ℕ} (h : d < 128) (n : ℕ) (rest : List (BitVec 8)) :
    decodeFrom n (digit d true :: rest) = decodeFrom (n * 128 + d + 1) rest := by
  have hbyte : (digit d true).toNat = d + 128 := toNat_digit h true
  simp [decodeFrom, hbyte, add_mod_right, mod_eq_of_lt h]

theorem decodeFrom_last {d : ℕ} (h : d < 128) (n : ℕ) (rest : List (BitVec 8)) :
    decodeFrom n (digit d false :: rest) = some (n * 128 + d, rest) := by
  have hbyte : (digit d false).toNat = d := toNat_digit h false
  rw [decodeFrom, hbyte, if_neg (by omega), mod_eq_of_lt h]

theorem encodeOnto_of_lt {n : ℕ} (h : n < 128) (tmp : List (BitVec 8)) :
    encodeOnto n tmp = digit n (!tmp.isEmpty) :: tmp := by
  rw [encodeOnto, if_pos h]

theorem encodeOnto_of_le {n : ℕ} (h : 128 ≤ n) (tmp : List (BitVec 8)) :
    encodeOnto n tmp = encodeOnto (n / 128 - 1) (digit (n % 128) (!tmp.isEmpty) :: tmp) := by
  rw [encodeOnto, if_neg (by omega)]

/-- The last digit of a number goes in front. -/
theorem encodeOnto_mul_add {d : ℕ} (h : d < 128) (n : ℕ) (tmp : List (BitVec 8)) :
    encodeOnto (n * 128 + d) tmp = if n = 0 then digit d (!tmp.isEmpty) :: tmp
      else encodeOnto (n - 1) (digit d (!tmp.isEmpty) :: tmp) := by
  split_ifs with hn
  · rw [hn, Nat.zero_mul, Nat.zero_add, encodeOnto_of_lt h]
  · have hmod : (n * 128 + d) % 128 = d := by omega
    have hdiv : (n * 128 + d) / 128 - 1 = n - 1 := by omega
    rw [encodeOnto_of_le (by omega), hmod, hdiv]

/-- Digits in front of others count one more. -/
theorem decodeFrom_encodeOnto (n : ℕ) (tmp rest : List (BitVec 8)) (htmp : tmp ≠ []) :
    decodeFrom 0 (encodeOnto n tmp ++ rest) = decodeFrom (n + 1) (tmp ++ rest) := by
  have hcontinued : (!tmp.isEmpty) := by simpa using htmp
  induction n using Nat.strongRecOn generalizing tmp with
  | ind n ih =>
    rcases Nat.lt_or_ge n 128 with hlt | hge
    · simp [encodeOnto_of_lt hlt, hcontinued, List.cons_append, decodeFrom_continued hlt]
    · rw [encodeOnto_of_le hge, hcontinued, ih _ (by omega) _ (by simp) (by simp),
        List.cons_append, decodeFrom_continued (Nat.mod_lt _ (by omega))]
      congr 1
      omega

/-- **Decoding inverts encoding**, whatever follows. -/
theorem decodeFrom_encode (n : ℕ) (rest : List (BitVec 8)) :
    decodeFrom 0 (encode n ++ rest) = some (n, rest) := by
  unfold encode
  rcases Nat.lt_or_ge n 128 with hlt | hge
  · rw [encodeOnto_of_lt hlt]
    simp [decodeFrom_last hlt]
  · rw [encodeOnto_of_le hge, decodeFrom_encodeOnto _ _ _ (by simp)]
    show decodeFrom _ (digit (n % 128) false :: rest) = _
    rw [decodeFrom_last (Nat.mod_lt _ (by omega))]
    congr 2
    omega

theorem digit_of_toNat (ch : BitVec 8) : digit (ch.toNat % 128) (decide (128 ≤ ch.toNat)) = ch := by
  apply BitVec.eq_of_toNat_eq
  rw [toNat_digit (mod_lt _ (by omega))]
  by_cases hch : 128 ≤ ch.toNat
  · simp only [hch, decide_true, if_true]
    omega
  · simp only [hch, decide_false, Bool.false_eq_true, if_false]
    omega

/-- **Encoding inverts decoding**: what was read is the encoding of the result. If digits of value
    `n + 1` came before, then the bytes read are the ones after `n`. -/
theorem encode_of_decodeFrom {bytes rest : List (BitVec 8)} {v : ℕ} :
    ∀ {n : ℕ}, decodeFrom n bytes = some (v, rest) →
      ∃ read, read ≠ [] ∧ bytes = read ++ rest
        ∧ encode v = if n = 0 then read else encodeOnto (n - 1) read := by
  induction bytes with
  | nil =>
    simp [decodeFrom]
  | cons ch bytes ih =>
    intro n h
    have hdigit := digit_of_toNat ch
    have hlt : ch.toNat % 128 < 128 := Nat.mod_lt _ (by omega)
    rw [decodeFrom] at h
    split at h
    · next hch =>
        obtain ⟨read, hne, rfl, hencode⟩ := ih h
        have hcontinued : (!read.isEmpty) = decide (128 ≤ ch.toNat) := by simpa [hch] using hne
        refine ⟨ch :: read, by simp, rfl, ?_⟩
        rw [hencode, if_neg (by omega), Nat.add_sub_cancel, encodeOnto_mul_add hlt, hcontinued, hdigit]
    · next hch =>
        cases h
        rw [decide_eq_false hch] at hdigit
        exact ⟨[ch], by simp, rfl, by rw [encode, encodeOnto_mul_add hlt]; simp [hdigit]⟩

theorem eq_encode_of_decodeFrom {bytes rest : List (BitVec 8)} {v : ℕ}
    (h : decodeFrom 0 bytes = some (v, rest)) : bytes = encode v ++ rest := by
  obtain ⟨read, -, rfl, hencode⟩ := encode_of_decodeFrom h
  simp [hencode]

end OffsetBase
