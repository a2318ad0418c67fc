import Binarium.Script.Interpreter
import Mathlib.Data.List.GetD

set_option autoImplicit false

/-! # Strict DER signatures (`script/interpreter.cpp`)

`IsValidSignatureEncoding` finds the second integer of a signature with the length byte of the first
one. Each index that it reads is inside of the string when the checks before it have passed, and what
passes all of them is just the encoding that the comment of the function describes. -/

namespace Binarium

open List

/-- The checks of an integer, with reads that may fail. -/
def readValidInteger (sig : Valtype) (start len : ℕ) : Option Bool :=
  if len = 0 then some false
  else do
    let first ← sig[start]?
    if first &&& 0x80 ≠ 0 then some false
    else if len > 1 ∧ first = 0 then
      let second ← sig[start + 1]?
      some (decide (second &&& 0x80 ≠ 0))
    else some true

/-- `IsValidSignatureEncoding` with reads that may fail; `none` is a read behind the end. -/
def readValidSignatureEncoding (sig : Valtype) : Option Bool :=
  if sig.length < 9 then some false
  else if sig.length > 73 then some false
  else do
    if (← sig[0]?) ≠ 0x30 then some false
    else if (← sig[1]?).toNat ≠ sig.length - 3 then some false
    else
      let lenR := (← sig[3]?).toNat
      if 5 + lenR ≥ sig.length then some false
      else
        let lenS := (← sig[5 + lenR]?).toNat
        if lenR + lenS + 7 ≠ sig.length then some false
        else if (← sig[2]?) ≠ 0x02 then some false
        else if !(← readValidInteger sig 4 lenR) then some false
        else if (← sig[lenR + 4]?) ≠ 0x02 then some false
        else readValidInteger sig (lenR + 6) lenS

/-- The bytes of a number that is not negative, the most significant one first and no more than are
    needed. -/
def IsShortestNonneg : Valtype → Prop
  | [] => False
  | [first] => first &&& 0x80 = 0
  | first :: second :: _ => first &&& 0x80 = 0 ∧ ¬ (first = 0 ∧ second &&& 0x80 = 0)

variable {sig : Valtype}

theorem getElem?_eq_getD {i : ℕ} (h : i < sig.length) : sig[i]? = some (sig.getD i 0) := by
  rw [getD_eq_getElem _ _ h, getElem?_eq_getElem h]

theorem readValidInteger_eq {start len : ℕ} (h : start + len < sig.length) :
    readValidInteger sig start len = some (isValidInteger sig start len) := by
  unfold readValidInteger isValidInteger
  split_ifs with hlen
  · simp [hlen]
  · rw [getElem?_eq_getD (by omega), getElem?_eq_getD (by omega)]
    simp only [Option.bind_eq_bind, Option.bind_some]
    by_cases hone : 1 < len <;> split_ifs <;> simp_all

theorem readValidSignatureEncoding_eq (sig : Valtype) :
    readValidSignatureEncoding sig = some (isValidSignatureEncoding sig) := by
  unfold readValidSignatureEncoding isValidSignatureEncoding
  by_cases hmin : sig.length < 9
  · rw [if_pos hmin, if_pos hmin]
  rw [if_neg hmin, if_neg hmin]
  dsimp only
  split_ifs with hmax h0 h1 hlenR hlenS
  · rfl
  all_goals
    rw [getElem?_eq_getD (i := 0) (by omega), getElem?_eq_getD (i := 1) (by omega),
      getElem?_eq_getD (i := 2) (by omega), getElem?_eq_getD (i := 3) (by omega)]
    simp only [Option.bind_eq_bind, Option.bind_some]
  · rw [if_pos h0]
  · rw [if_neg h0, if_pos h1]
  · rw [if_neg h0, if_neg h1, if_pos hlenR]
  · rw [if_neg h0, if_neg h1, if_neg hlenR, getElem?_eq_getD (by omega), Option.bind_some, if_pos hlenS]
  · rw [if_neg h0, if_neg h1, if_neg hlenR, getElem?_eq_getD (by omega), Option.bind_some, if_neg hlenS,
      readValidInteger_eq (by omega), getElem?_eq_getD (by omega), readValidInteger_eq (by omega)]
    simp only [Option.bind_some]
    split_ifs <;> simp_all

theorem isValidInteger_iff {front R back : Valtype} :
    isValidInteger (front ++ R ++ back) front.length R.length = true ↔ IsShortestNonneg R := by
  have hget : ∀ i, (front ++ R ++ back).getD (front.length + i) 0 = (R ++ back).getD i 0 := by
    intro i
    rw [append_assoc, getD_append_right _ _ _ _ (by omega), Nat.add_sub_cancel_left]
  have hfirst := hget 0
  rw [Nat.add_zero] at hfirst
  rw [isValidInteger, hfirst, hget 1]
  rcases R with _ | ⟨first, _ | ⟨second, rest⟩⟩ <;> simp [IsShortestNonneg, imp_iff_not_or]

theorem isValidSignatureEncoding_eq_true_iff : isValidSignatureEncoding sig = true ↔
    9 ≤ sig.length ∧ sig.length ≤ 73 ∧ sig.getD 0 0 = 0x30 ∧ (sig.getD 1 0).toNat = sig.length - 3
      ∧ (sig.getD 3 0).toNat + (sig.getD (5 + (sig.getD 3 0).toNat) 0).toNat + 7 = sig.length
      ∧ sig.getD 2 0 = 0x02 ∧ isValidInteger sig 4 (sig.getD 3 0).toNat = true
      ∧ sig.getD ((sig.getD 3 0).toNat + 4) 0 = 0x02 ∧ isValidInteger sig ((sig.getD 3 0).toNat + 6)
        (sig.getD (5 + (sig.getD 3 0).toNat) 0).toNat = true := by
  simp only [isValidSignatureEncoding, Bool.if_false_left, Bool.and_eq_true, decide_eq_true_eq,
    Bool.not_eq_true', decide_eq_false_iff_not, not_lt, not_not, and_assoc]
  constructor
  · rintro ⟨hmin, hmax, h0, h1, -, hlength, h⟩
    exact ⟨hmin, hmax, h0, h1, hlength, h⟩
  · rintro ⟨hmin, hmax, h0, h1, hlength, h⟩
    exact ⟨hmin, hmax, h0, h1, by omega, hlength, h⟩

/-- The bytes behind the first integer. -/
theorem getD_behind (a b c r : BitVec 8) (R back : Valtype) (i : ℕ) :
    getD (a :: b :: c :: r :: (R ++ back)) (R.length + i + 4) 0 = back.getD i 0 := by
  rw [getD_cons_succ, getD_cons_succ, getD_cons_succ, getD_cons_succ,
    getD_append_right _ _ _ _ (by omega), Nat.add_sub_cancel_left]

theorem exists_cut (h : isValidSignatureEncoding sig = true) :
    ∃ a b c r x y z R S, sig = a :: b :: c :: r :: (R ++ x :: y :: (S ++ [z]))
      ∧ r.toNat = length R ∧ y.toNat = length S := by
  obtain ⟨hmin, -, -, -, hlength, -⟩ := isValidSignatureEncoding_eq_true_iff.mp h
  rcases sig with _ | ⟨a, _ | ⟨b, _ | ⟨c, _ | ⟨r, rest⟩⟩⟩⟩
  · simp at hmin
  · simp at hmin
  · simp at hmin
  · simp at hmin
  · have hlong : r.toNat + (getD (a :: b :: c :: r :: rest) (5 + r.toNat) 0).toNat + 7
      = rest.length + 4 := hlength
    obtain ⟨R, back, rfl, hr⟩ : ∃ R back, rest = R ++ back ∧ R.length = r.toNat :=
      ⟨_, _, (take_append_drop r.toNat rest).symm, by rw [length_take]; omega⟩
    rw [← hr, Nat.add_comm 5, getD_behind a b c r R back 1, length_append] at hlong
    rcases back with _ | ⟨x, _ | ⟨y, tail⟩⟩
    · simp at hlong
    · simp at hlong
    · have hy : y.toNat + 1 = tail.length := by
        simp at hlong
        omega
      have hne : tail ≠ [] := ne_nil_of_length_eq_add_one hy.symm
      refine ⟨a, b, c, r, x, y, tail.getLast hne, R, tail.dropLast, ?_, hr.symm, ?_⟩
      · rw [dropLast_append_getLast]
      · rw [length_dropLast, ← hy, Nat.add_sub_cancel]

/-- The checks of a string that is cut where its length bytes say. -/
theorem isValidSignatureEncoding_cut {a b c r x y z : BitVec 8} {R S : Valtype}
    (hr : r.toNat = R.length) (hy : y.toNat = S.length) :
    isValidSignatureEncoding (a :: b :: c :: r :: (R ++ x :: y :: (S ++ [z]))) = true ↔
      9 ≤ R.length + S.length + 7 ∧ R.length + S.length + 7 ≤ 73 ∧ a = 0x30
        ∧ b.toNat = R.length + S.length + 4 ∧ c = 0x02 ∧ IsShortestNonneg R ∧ x = 0x02
        ∧ IsShortestNonneg S := by
  let sig := a :: b :: c :: r :: (R ++ x :: y :: (S ++ [z]))
  have hR : isValidInteger sig 4 R.length = true ↔ IsShortestNonneg R :=
    @isValidInteger_iff [a, b, c, r] _ _
  have hS : isValidInteger sig (R.length + 6) S.length = true ↔ IsShortestNonneg S := by
    simpa [sig] using @isValidInteger_iff (a :: b :: c :: r :: (R ++ [x, y])) S [z]
  have hx : sig.getD (R.length + 4) 0 = x := getD_behind a b c r R _ 0
  have hlenS : sig.getD (5 + R.length) 0 = y := by
    rw [Nat.add_comm]
    exact getD_behind a b c r R _ 1
  have hlength : sig.length = R.length + S.length + 7 := by
    simp [sig]
    omega
  have h3 : (sig.getD 3 0).toNat = R.length := hr
  show isValidSignatureEncoding sig = true ↔ _
  rw [isValidSignatureEncoding_eq_true_iff, h3, hlenS, hy, hlength, hx, hR, hS]
  simp [sig]

/-- **Strict DER.** No read is behind the end, and the strings that pass are a sequence of two integers
    and the hash type. -/
theorem isValidSignatureEncoding_iff (sig : Valtype) :
    readValidSignatureEncoding sig = some (isValidSignatureEncoding sig)
      ∧ (isValidSignatureEncoding sig = true ↔ 9 ≤ sig.length ∧ sig.length ≤ 73
        ∧ ∃ (total lenR lenS hashType : BitVec 8) (R S : Valtype),
          sig = 0x30 :: total :: 0x02 :: lenR :: (R ++ 0x02 :: lenS :: (S ++ [hashType]))
          ∧ total.toNat = R.length + S.length + 4 ∧ lenR.toNat = R.length ∧ lenS.toNat = S.length
          ∧ IsShortestNonneg R ∧ IsShortestNonneg S) := by
  refine ⟨readValidSignatureEncoding_eq sig, fun h => ?_, ?_⟩
  · obtain ⟨hmin, hmax, -⟩ := isValidSignatureEncoding_eq_true_iff.mp h
    obtain ⟨a, b, c, r, x, y, z, R, S, rfl, hr, hy⟩ := exists_cut h
    obtain ⟨-, -, rfl, hb, rfl, hR, rfl, hS⟩ := (isValidSignatureEncoding_cut hr hy).mp h
    exact ⟨hmin, hmax, b, r, y, z, R, S, rfl, hb, hr, hy, hR, hS⟩
  · rintro ⟨hmin, hmax, total, lenR, lenS, hashType, R, S, rfl, htotal, hr, hy, hR, hS⟩
    simp at hmin hmax
    exact (isValidSignatureEncoding_cut hr hy).mpr
      ⟨by omega, by omega, rfl, htotal, rfl, hR, rfl, hS⟩

end Binarium
