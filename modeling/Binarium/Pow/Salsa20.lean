import Binarium.Lib.Bytes

set_option autoImplicit false

/-! # Salsa20 as the block hash uses it (`crypto/encryption/salsa20/salsa20.c`)

The context is the sixteen input words. `ECRYPT_keysetup` and `ECRYPT_ivsetup` fill them from a key
and a nonce, and one call `ECRYPT_encrypt_blocks(ctx, plaintext, ciphertext, 1)` encrypts one block
of 64 bytes and advances the block counter in words 8 and 9.

The result of the file is `ecryptEncryptBlock_eq`: the ciphertext is the plaintext XOR a keystream
block that depends on the context alone. -/

namespace Binarium

/-- `ECRYPT_ctx`. -/
abbrev EcryptCtx := WordArray 32 16

/-- One block of 64 bytes. -/
abbrev Block512 := WordArray 8 64

/-- The characters of `sigma`, `"expand 32-byte k"`, as the four words the key setup reads. -/
def sigma : Fin 4 → BitVec 32 := ![0x61707865, 0x3320646e, 0x79622d32, 0x6b206574]

/-- `ECRYPT_keysetup` for the 256-bit keys the caller asks for. -/
def ecryptKeysetup (x : EcryptCtx) {n : ℕ} (k : WordArray 8 n) : EcryptCtx :=
  let x := (((x.set 1 (k.wordLE 0)).set 2 (k.wordLE 4)).set 3 (k.wordLE 8)).set 4 (k.wordLE 12)
  let x := (((x.set 11 (k.wordLE 16)).set 12 (k.wordLE 20)).set 13 (k.wordLE 24)).set 14
    (k.wordLE 28)
  (((x.set 0 (sigma 0)).set 5 (sigma 1)).set 10 (sigma 2)).set 15 (sigma 3)

/-- `ECRYPT_ivsetup`. -/
def ecryptIvsetup (x : EcryptCtx) {n : ℕ} (iv : WordArray 8 n) : EcryptCtx :=
  (((x.set 6 (iv.wordLE 0)).set 7 (iv.wordLE 4)).set 8 0).set 9 0

/-- The assignments of one double round, `x[t] ^= ROTATE(x[a] + x[b], c)`, as `(t, a, b, c)`. -/
def doubleRoundSteps : List (ℕ × ℕ × ℕ × ℕ) :=
  [(4, 0, 12, 7), (8, 4, 0, 9), (12, 8, 4, 13), (0, 12, 8, 18),
   (9, 5, 1, 7), (13, 9, 5, 9), (1, 13, 9, 13), (5, 1, 13, 18),
   (14, 10, 6, 7), (2, 14, 10, 9), (6, 2, 14, 13), (10, 6, 2, 18),
   (3, 15, 11, 7), (7, 3, 15, 9), (11, 7, 3, 13), (15, 11, 7, 18),
   (1, 0, 3, 7), (2, 1, 0, 9), (3, 2, 1, 13), (0, 3, 2, 18),
   (6, 5, 4, 7), (7, 6, 5, 9), (4, 7, 6, 13), (5, 4, 7, 18),
   (11, 10, 9, 7), (8, 11, 10, 9), (9, 8, 11, 13), (10, 9, 8, 18),
   (12, 15, 14, 7), (13, 12, 15, 9), (14, 13, 12, 13), (15, 14, 13, 18)]

def roundStep (x : EcryptCtx) (step : ℕ × ℕ × ℕ × ℕ) : EcryptCtx :=
  let (t, a, b, c) := step
  x.set t (x.get t ^^^ (x.get a + x.get b).rotateLeft c)

def doubleRound (x : EcryptCtx) : EcryptCtx := doubleRoundSteps.foldl roundStep x

/-- The words of one keystream block: ten double rounds, then the input added back. -/
def salsaWords (input : EcryptCtx) : EcryptCtx :=
  fun i => (doubleRound^[10] input) i + input i

/-- The counter in words 8 and 9 after one block. -/
def bumpCounter (input : EcryptCtx) : EcryptCtx :=
  let j8 := input.get 8 + 1
  (input.set 8 j8).set 9 (if j8 = 0 then input.get 9 + 1 else input.get 9)

/-- `ECRYPT_encrypt_blocks(ctx, m, c, 1)`: the new context and the ciphertext. -/
def ecryptEncryptBlock (ctx : EcryptCtx) (m : Block512) : EcryptCtx × Block512 :=
  (bumpCounter ctx, WordArray.bytesLE (fun i : Fin 16 => salsaWords ctx i ^^^ m.wordLE (4 * i)))

/-- The keystream block a context stands for. -/
def keystream (ctx : EcryptCtx) : Block512 := WordArray.bytesLE (salsaWords ctx)

theorem ecryptEncryptBlock_eq (ctx : EcryptCtx) (m : Block512) :
    ecryptEncryptBlock ctx m = (bumpCounter ctx, m.xor (keystream ctx)) :=
  congrArg (bumpCounter ctx, ·) (WordArray.bytesLE_xor (salsaWords ctx) m)

end Binarium
