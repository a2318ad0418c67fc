import Binarium.Lib.Words
import Mathlib.Tactic.IntervalCases

set_option autoImplicit false

/-! # Buffers: copying, masking and little-endian words

The memory operations that byte-level code is written with, over the word arrays of
`Binarium.Lib.Words`: reading a part of a buffer (`slice`), copying into a part of it (`blit`), and
XOR-ing two buffers of one length (`xor`). XOR with a fixed buffer is an involution, which is what
makes a stream cipher decrypt, and also what makes it vanish when a ciphertext is XOR-ed back into
its plaintext (`xor_xor_cancel`).

The last section is little-endian access. A cipher that XORs 32-bit words computes the same bytes
as one that XORs byte by byte (`bytesLE_xor`). -/

namespace WordArray

variable {w n m : ℕ}

/-! ## Copying -/

variable (a b : WordArray w n)

/-- The `m` words of `a` from `off` on. -/
def slice (off m : ℕ) : WordArray w m := fun i => a.get (off + i)

/-- Copy `b` into `a` at `off`. -/
def blit (off : ℕ) (b : WordArray w m) : WordArray w n :=
  fun i => if off ≤ i ∧ i < off + m then b.get (i - off) else a i

/-- The first `m` words of `a`, as a list. -/
def toListN (m : ℕ) : List (BitVec w) := (List.range m).map a.get

theorem get_slice (off m i : ℕ) (hi : i < m) : (a.slice off m).get i = a.get (off + i) := by
  simp [get, slice, hi]

section

variable (off : ℕ) (b : WordArray w m)

theorem get_blit (i : ℕ) (hi : i < n) :
    (a.blit off b).get i = if off ≤ i ∧ i < off + m then b.get (i - off) else a.get i := by
  simp [get, blit, hi]

/-- Reading back what was copied. -/
theorem slice_blit (h : off + m ≤ n) : (a.blit off b).slice off m = b := by
  apply ext_get
  intro i hi
  rw [get_slice _ _ _ _ hi, get_blit _ _ _ _ (by omega), if_pos (by omega), Nat.add_sub_cancel_left]

/-- A copy leaves everything outside its range alone. -/
theorem slice_blit_of_disjoint (off' m' : ℕ) (hn : off' + m' ≤ n)
    (hdisj : off' + m' ≤ off ∨ off + m ≤ off') :
    (a.blit off b).slice off' m' = a.slice off' m' := by
  apply ext_get
  intro i hi
  rw [get_slice _ _ _ _ hi, get_slice _ _ _ _ hi, get_blit _ _ _ _ (by omega), if_neg (by omega)]

end

theorem toListN_eq_iff (m : ℕ) : a.toListN m = b.toListN m ↔ ∀ i < m, a.get i = b.get i := by
  unfold toListN
  simp

theorem toListN_inj : a.toListN n = b.toListN n ↔ a = b := by
  rw [toListN_eq_iff]
  exact ⟨ext_get, fun h i _ => by rw [h]⟩

/-! ## Masking -/

/-- Word by word XOR. -/
def xor : WordArray w n := fun i => a i ^^^ b i

/-- **A mask XOR-ed in twice is gone.** -/
@[simp] theorem xor_xor_cancel : xor a (xor a b) = b := by
  funext i
  show a i ^^^ (a i ^^^ b i) = b i
  rw [← BitVec.xor_assoc, BitVec.xor_self, BitVec.zero_xor]

/-! ## Little-endian words -/

/-- The little-endian 32-bit word at `off`. -/
def wordLE (a : WordArray 8 n) (off : ℕ) : BitVec 32 :=
  (a.get off).setWidth 32 ||| (a.get (off + 1)).setWidth 32 <<< 8
    ||| (a.get (off + 2)).setWidth 32 <<< 16 ||| (a.get (off + 3)).setWidth 32 <<< 24

/-- The little-endian 64-bit word at `off`. -/
def word64LE (a : WordArray 8 n) (off : ℕ) : BitVec 64 :=
  (wordLE a off).setWidth 64 ||| (wordLE a (off + 4)).setWidth 64 <<< 32

/-- The bytes of an array of 32-bit words, each word least significant byte first. -/
def bytesLE (x : WordArray 32 n) : WordArray 8 (4 * n) :=
  fun i => (x.get (i / 4) >>> (8 * ((i : ℕ) % 4))).setWidth 8

/-- The bytes of one word. -/
theorem wordLE_byte (a : WordArray 8 n) (off : ℕ) {r : ℕ} (hr : r < 4) :
    (wordLE a off >>> (8 * r)).setWidth 8 = a.get (off + r) := by
  unfold wordLE
  interval_cases r <;> ext j hj <;> simp [BitVec.getLsbD_eq_getElem, hj] <;> grind

/-- **XOR on little-endian words is XOR on bytes.** -/
theorem bytesLE_xor (x : WordArray 32 n) (a : WordArray 8 (4 * n)) :
    bytesLE (fun i : Fin n => x i ^^^ wordLE a (4 * i)) = xor a (bytesLE x) := by
  funext i
  have hlt : (i : ℕ) / 4 < n := Nat.div_lt_of_lt_mul i.isLt
  have hbyte := wordLE_byte a (4 * (i / 4)) (Nat.mod_lt i four_pos)
  rw [Nat.div_add_mod] at hbyte
  simp [bytesLE, xor, get, hlt, BitVec.ushiftRight_xor_distrib, hbyte, BitVec.xor_comm]

end WordArray
