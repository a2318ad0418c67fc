import Binarium.Pow.Salsa20

set_option autoImplicit false

/-! # Streebog's message handling (`crypto/hashing/streebog/table/stribog.c`)

`hash_X` takes the message as a pointer and a length **in bits**. It consumes 512-bit blocks from
the end of the message (stage 2) and then one padded block with what is left (stage 3). The
compression function `g_N` is a parameter: nothing here depends on what it computes.

`streebogBlocks` lists the blocks that a call hands to `g_N`. `hashX_congr` says that the digest
depends on the message through that list only, so the list is what a call absorbs. A call with
length 512 absorbs all 64 bytes of a block; a call with length 64 absorbs 8 of them. -/

namespace Binarium

/-- `AddModulo512`: big-endian addition, byte 63 first. -/
def addModulo512 (a b : Block512) : Block512 :=
  ((List.range 64).reverse.foldl
    (fun (ct : Block512 × ℕ) i =>
      let t := (a.get i).toNat + (b.get i).toNat + ct.2 / 256
      (ct.1.set i (BitVec.ofNat 8 t), t))
    (WordArray.zero 8 64, 0)).1

/-- The variables of `hash_X`: the bit counter `N`, the chaining value and the checksum. -/
structure StreebogState where
  N : Block512
  hash : Block512
  Sigma : Block512

/-- The constant 512 as a block, and a length below `2^16`. -/
def lengthBlock (len : ℕ) : Block512 :=
  ((WordArray.zero 8 64).set 63 (BitVec.ofNat 8 len)).set 62 (BitVec.ofNat 8 (len / 256))

/-- `(len & 0x7) == 0` as a number. -/
def wholeBytes (len : ℕ) : ℕ := if len % 8 = 0 then 1 else 0

/-- The block of stage 2: `memcpy(m, message + len/8 - 63 - ((len & 0x7) == 0), 64)`. -/
def fullBlock (message : ℕ → BitVec 8) (len : ℕ) : Block512 :=
  fun i => message (len / 8 - 63 - wholeBytes len + i)

/-- The block of stage 3: the last `len < 512` bits, right-aligned, below a single one bit. -/
def paddedBlock (message : ℕ → BitVec 8) (len : ℕ) : Block512 :=
  let start := 63 - len / 8 + wholeBytes len
  let m : Block512 := fun i =>
    if start ≤ i ∧ i < start + (len / 8 + 1 - wholeBytes len) then message (i - start) else 0
  m.set (63 - len / 8) (m.get (63 - len / 8) ||| (1#8 <<< (len % 8)))

section Compression

variable (gN : Block512 → Block512 → Block512 → Block512)

/-- One block: compress, count its bits, add it to the checksum. -/
def streebogAbsorb (s : StreebogState) (m : Block512) (bits : ℕ) : StreebogState :=
  { N := addModulo512 s.N (lengthBlock bits)
    hash := gN s.N s.hash m
    Sigma := addModulo512 s.Sigma m }

/-- Stage 2, `while (len >= 512)`; `k` is the number of rounds left. -/
def streebogStage2 (message : ℕ → BitVec 8) : ℕ → ℕ → StreebogState → StreebogState
  | 0, _, s => s
  | k + 1, len, s =>
    streebogStage2 message k (len - 512) (streebogAbsorb gN s (fullBlock message len) 512)

/-- `hash_X`. -/
def hashX (IV : Block512) (message : ℕ → BitVec 8) (length : ℕ) : Block512 :=
  let zero := WordArray.zero 8 64
  let s := streebogStage2 gN message (length / 512) length ⟨zero, IV, zero⟩
  let s := streebogAbsorb gN s (paddedBlock message (length % 512)) (length % 512)
  gN zero (gN zero s.hash s.N) s.Sigma

/-- `hash_512`. -/
def hash512 (message : ℕ → BitVec 8) (length : ℕ) : Block512 :=
  hashX gN (WordArray.zero 8 64) message length

/-! ## What a call absorbs -/

/-- The blocks stage 2 takes from the message. -/
def fullBlocks (message : ℕ → BitVec 8) : ℕ → ℕ → List Block512
  | 0, _ => []
  | k + 1, len => fullBlock message len :: fullBlocks message k (len - 512)

/-- The blocks a call hands to the compression function. -/
def streebogBlocks (message : ℕ → BitVec 8) (length : ℕ) : List Block512 :=
  fullBlocks message (length / 512) length ++ [paddedBlock message (length % 512)]

theorem streebogStage2_eq_foldl (message : ℕ → BitVec 8) (k len : ℕ) (s : StreebogState) :
    streebogStage2 gN message k len s
      = (fullBlocks message k len).foldl (streebogAbsorb gN · · 512) s := by
  induction k generalizing len s with
  | zero => rfl
  | succ k ih => exact ih _ _

/-- The digest depends on the message only through the blocks. -/
theorem hashX_congr {IV : Block512} {message message' : ℕ → BitVec 8} {length : ℕ}
    (h : streebogBlocks message length = streebogBlocks message' length) :
    hashX gN IV message length = hashX gN IV message' length := by
  obtain ⟨hfull, hlast⟩ := List.append_inj' h rfl
  rw [hashX, hashX, streebogStage2_eq_foldl, streebogStage2_eq_foldl, hfull,
    List.singleton_inj.mp hlast]

end Compression

theorem streebogBlocks_512 (message message' : ℕ → BitVec 8) :
    streebogBlocks message 512 = streebogBlocks message' 512
      ↔ ∀ i < 64, message i = message' i := by
  have hfull : ∀ m : ℕ → BitVec 8, streebogBlocks m 512
      = [(fun i => m i : Block512), paddedBlock m 0] := by
    intro m
    have hblock : fullBlock m 512 = (fun i => m i : Block512) := by
      funext i
      simp [fullBlock, wholeBytes]
    simp [streebogBlocks, fullBlocks, hblock]
  have hpad : ∀ m m' : ℕ → BitVec 8, paddedBlock m 0 = paddedBlock m' 0 := by
    intro m m'
    have hnone : ∀ i : Fin 64, ¬ (64 ≤ (i : ℕ)) := fun i => Nat.not_le.mpr i.isLt
    simp [paddedBlock, wholeBytes, hnone]
  rw [hfull, hfull, hpad message message']
  simp only [List.cons.injEq, and_true]
  constructor
  · intro h i hi
    exact congrFun h ⟨i, hi⟩
  · intro h
    funext i
    exact h i i.isLt

/-- A length of 64 absorbs the first 8 bytes and no other. -/
theorem streebogBlocks_64 (message message' : ℕ → BitVec 8) :
    streebogBlocks message 64 = streebogBlocks message' 64 ↔ ∀ i < 8, message i = message' i := by
  have hpad : ∀ m : ℕ → BitVec 8, streebogBlocks m 64
      = [WordArray.set (w := 8) (n := 64) (fun i => if 56 ≤ (i : ℕ) then m (i - 56) else 0) 55 1] := by
    intro m
    simp [streebogBlocks, fullBlocks, paddedBlock, wholeBytes, WordArray.get]
  rw [hpad, hpad]
  simp only [List.cons.injEq, and_true]
  constructor
  · intro h i hi
    have hget := congrArg (fun a => WordArray.get a (56 + i)) h
    rw [WordArray.get_set _ _ _ _ (by decide), WordArray.get_set _ _ _ _ (by decide),
      if_neg (by omega), if_neg (by omega)] at hget
    have hlt : 56 + i < 64 := by omega
    simpa [WordArray.get, hlt] using hget
  · intro h
    congr 1
    funext i
    by_cases hi : 56 ≤ (i : ℕ)
    · simpa [hi] using h _ (by omega)
    · simp [hi]

end Binarium
