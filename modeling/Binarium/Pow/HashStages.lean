import Binarium.Pow.Streebog

set_option autoImplicit false

/-! # The stages of the proof-of-work hash (`hash.h`)

The hash is a chain of 64-byte stages. `HashGenerator_Init` fills two tables of stage functions, one
of hash functions and one of encryption functions, and the generators call them by index. All the
stage functions have the same signature (data, data size, key, result), but they do not agree on the
unit of the size: the `sph_*` functions and Whirlpool count bytes, Streebog counts bits.

The primitives themselves are parameters (`Primitives`). What is modelled is the code around them:
the tables, the wrappers, and the generator `HashX11_Generator` as the list of its calls on the
array `hash[11]`. `absorbed` is what a call makes its primitive read, and `intermediateHash_congr`
says that the result of the call depends on nothing else. -/

namespace Binarium

open WordArray

/-! ## The tables -/

/-- The hash functions whose size argument counts bytes. -/
inductive ByteHash where
  | blake | bmw | groestl | jh | keccak | skein | luffa | cubehash | shavite | simd | echo
  | whirlpool
deriving DecidableEq

/-- The functions of `aIntermediateHashFunctions`. -/
inductive HashFunction where
  | bytes (h : ByteHash)
  | streebog
deriving DecidableEq

/-- The functions of `aIntermediateEncryptionFunctions`. -/
inductive EncryptionFunction where
  | kuznechik | threeFish | camellia
deriving DecidableEq

-- The sizes of the two tables and of the array of hashes: numerals are indices into them.
instance neZeroHashFunctions : NeZero 14 := ⟨by decide⟩

instance neZeroEncryptionFunctions : NeZero 3 := ⟨by decide⟩

instance neZeroHashes : NeZero 11 := ⟨by decide⟩

/-- `aIntermediateHashFunctions`, as `HashGenerator_Init` fills it. -/
def aIntermediateHashFunctions : Fin 14 → HashFunction :=
  ![.bytes .blake, .bytes .bmw, .bytes .groestl, .bytes .jh, .bytes .keccak, .bytes .skein,
    .bytes .luffa, .bytes .cubehash, .bytes .shavite, .bytes .simd, .bytes .echo, .streebog,
    .bytes .whirlpool, .streebog]

/-- `aIntermediateEncryptionFunctions`, as `HashGenerator_Init` fills it. -/
def aIntermediateEncryptionFunctions : Fin 3 → EncryptionFunction :=
  ![.kuznechik, .threeFish, .camellia]

/-- The cryptographic primitives behind the stages. `encryptBlockWithGost15` gets the whole buffer
    and two offsets: its round keys are read through a pointer that may overlap the block. -/
structure Primitives where
  digest : ByteHash → List (BitVec 8) → Block512
  gN : Block512 → Block512 → Block512 → Block512
  encryptBlockWithGost15 : {n : ℕ} → WordArray 8 n → (roundKeys block : ℕ) → WordArray 8 n
  threefishEncrypt : (key : Block512) → (tweak : WordArray 8 16) → (text : Block512) → Block512
  camelliaEncrypt : (key : WordArray 8 32) → (block : WordArray 8 16) → WordArray 8 16

variable (P : Primitives)

/-! ## Hash stages -/

/-- The `IntermediateHashFunction_*` wrappers: the size is passed on as it is. -/
def intermediateHash (f : HashFunction) {n : ℕ} (data : WordArray 8 n) (iDataSize : ℕ) : Block512 :=
  match f with
  | .bytes h => P.digest h (data.toListN iDataSize)
  | .streebog => hash512 P.gN data.get iDataSize

/-- What a stage feeds to its primitive: the byte string, or Streebog's message blocks. -/
def absorbed (f : HashFunction) {n : ℕ} (data : WordArray 8 n) (iDataSize : ℕ) :
    List (List (BitVec 8)) :=
  match f with
  | .bytes _ => [data.toListN iDataSize]
  | .streebog => (streebogBlocks data.get iDataSize).map (·.toListN 64)

theorem absorbed_streebog_eq_iff {n : ℕ} (data data' : WordArray 8 n) (size : ℕ) :
    absorbed .streebog data size = absorbed .streebog data' size
      ↔ streebogBlocks data.get size = streebogBlocks data'.get size := by
  have hinj : Function.Injective (fun b : Block512 => b.toListN 64) :=
    fun a b h => (toListN_inj a b).mp h
  exact (List.map_injective_iff.mpr hinj).eq_iff

theorem intermediateHash_congr {f : HashFunction} {n : ℕ} {data data' : WordArray 8 n} {size : ℕ}
    (h : absorbed f data size = absorbed f data' size) :
    intermediateHash P f data size = intermediateHash P f data' size := by
  cases f with
  | bytes g => exact congrArg (P.digest g) (List.singleton_inj.mp h)
  | streebog => exact hashX_congr P.gN ((absorbed_streebog_eq_iff _ _ _).mp h)

theorem absorbed_bytes_inj (g : ByteHash) (h h' : Block512) :
    absorbed (.bytes g) h 64 = absorbed (.bytes g) h' 64 ↔ h = h' := by
  simp [absorbed, List.cons.injEq, and_true, toListN_inj h h']

theorem absorbed_streebog_512_inj (h h' : Block512) :
    absorbed .streebog h (64 * 8) = absorbed .streebog h' (64 * 8) ↔ h = h' := by
  rw [absorbed_streebog_eq_iff, streebogBlocks_512]
  exact ⟨ext_get, fun e i _ => by rw [e]⟩

/-- Streebog called with size 64 absorbs eight bytes. -/
theorem absorbed_streebog_64_iff (h h' : Block512) :
    absorbed .streebog h 64 = absorbed .streebog h' 64 ↔ ∀ i < 8, h.get i = h'.get i := by
  rw [absorbed_streebog_eq_iff, streebogBlocks_64]

/-! ## Encryption stages and the array of hashes -/

/-- `uint512 hash[11]`, in one piece. -/
abbrev HashArea := WordArray 8 (11 * 64)

variable (area : HashArea)

/-- `hash[i]`. -/
def HashArea.hash (i : Fin 11) : Block512 := area.slice (64 * i) 64

/-- Write `hash[i]`. -/
def HashArea.setHash (i : Fin 11) (h : Block512) : HashArea :=
  area.blit (64 * i) h

/-- The `IntermediateEncryptionFunction_*` wrappers on elements of the array. Kuznechik encrypts the
    four 16-byte blocks of the result in place, with key and data alternating as round keys;
    Camellia replaces the first 16 bytes of the result only. -/
def intermediateEncryption (f : EncryptionFunction) (area : HashArea) (data key result : Fin 11) :
    HashArea :=
  match f with
  | .kuznechik =>
    let area := P.encryptBlockWithGost15 area (64 * key) (64 * result)
    let area := P.encryptBlockWithGost15 area (64 * data) (64 * result + 16)
    let area := P.encryptBlockWithGost15 area (64 * key) (64 * result + 32)
    P.encryptBlockWithGost15 area (64 * data) (64 * result + 48)
  | .threeFish =>
    area.setHash result
      (P.threefishEncrypt (area.hash key) (WordArray.zero 8 16) (area.hash data))
  | .camellia =>
    area.blit (64 * result)
      (P.camelliaEncrypt (area.slice (64 * key) 32) (area.slice (64 * data) 16))

/-! ## `HashX11` and `HashX11_Generator` -/

/-- `trim256`. -/
def trim256 (h : Block512) : WordArray 8 32 := h.slice 0 32

/-- `HashX11`: the eleven hashes of X11, in order. -/
def hashX11 {n : ℕ} (header : WordArray 8 n) : WordArray 8 32 :=
  trim256 ([ByteHash.bmw, .groestl, .skein, .jh, .keccak, .luffa, .cubehash, .shavite, .simd,
    .echo].foldl (fun h g => P.digest g (h.toListN 64)) (P.digest .blake (header.toListN n)))

/-- A statement of `HashX11_Generator`: a call through one of the tables, or a `memcpy`. -/
inductive StageStep where
  | hash (selector : Fin 14) (size : ℕ) (data result : Fin 11)
  | encrypt (selector : Fin 3) (data key result : Fin 11)
  | copy (source target : Fin 11)
deriving DecidableEq

def execStep : StageStep → HashArea
  | .hash selector size data result =>
    area.setHash result
      (intermediateHash P (aIntermediateHashFunctions selector) (area.hash data) size)
  | .encrypt selector data key result =>
    intermediateEncryption P (aIntermediateEncryptionFunctions selector) area data key result
  | .copy source target => area.setHash target (area.hash source)

/-- The body of `HashX11_Generator` after its first call. The call of selector 13 also gets a key,
    `pSwiFFTKey`, which the function in that slot ignores. -/
def hashX11GeneratorBody : List StageStep :=
  [.hash 1 64 0 1, .hash 2 64 1 2, .hash 5 64 2 3, .hash 11 (64 * 8) 3 4, .hash 12 64 4 5,
   .hash 13 64 5 6, .hash 7 64 6 7, .encrypt 0 0 3 7, .hash 8 64 7 8, .copy 8 7,
   .encrypt 1 7 4 8, .hash 9 64 8 9, .copy 9 8, .encrypt 2 8 5 9, .hash 10 64 9 10]

/-- `HashX11_Generator`. -/
def hashX11Generator {n : ℕ} (header : WordArray 8 n) : WordArray 8 32 :=
  let first := intermediateHash P (aIntermediateHashFunctions 0) header n
  let area := HashArea.setHash (WordArray.zero 8 (11 * 64)) 0 first
  trim256 ((hashX11GeneratorBody.foldl (execStep P) area).hash 10)

/-! ## What the stages read -/

/-- **Which stages of `HashX11_Generator` see a difference.** A hash stage absorbs different bytes
    for two different 64-byte hashes, except the stage with selector 13, which does so only when
    they differ in the first eight bytes. -/
theorem hashX11Generator_stage_absorbs (selector : Fin 14) (size : ℕ) (data result : Fin 11)
    (hstage : StageStep.hash selector size data result ∈ hashX11GeneratorBody) (h h' : Block512)
    (hne : h ≠ h') :
    absorbed (aIntermediateHashFunctions selector) h size
        ≠ absorbed (aIntermediateHashFunctions selector) h' size
      ↔ (selector ≠ 13 ∨ ∃ i < 8, h.get i ≠ h'.get i) := by
  -- the three kinds of calls in the body
  have hbytes : ∀ (s : Fin 14) (g : ByteHash), aIntermediateHashFunctions s = .bytes g → s ≠ 13 →
      (absorbed (aIntermediateHashFunctions s) h 64 ≠ absorbed (aIntermediateHashFunctions s) h' 64
        ↔ (s ≠ 13 ∨ ∃ i < 8, h.get i ≠ h'.get i)) := by
    intro s g hs h13
    simp [hs, absorbed_bytes_inj, hne, h13]
  simp only [hashX11GeneratorBody, List.mem_cons, reduceCtorEq,
    List.not_mem_nil, or_false, false_or] at hstage
  rcases hstage with hs | hs | hs | hs | hs | hs | hs | hs | hs | hs <;>
    obtain ⟨rfl, rfl, -, -⟩ := hs
  · exact hbytes 1 _ rfl (by decide)
  · exact hbytes 2 _ rfl (by decide)
  · exact hbytes 5 _ rfl (by decide)
  · have h11 : aIntermediateHashFunctions 11 = .streebog := rfl
    rw [h11, Ne, absorbed_streebog_512_inj]
    simp [hne]
  · exact hbytes 12 _ rfl (by decide)
  · have h13 : aIntermediateHashFunctions 13 = .streebog := rfl
    simp [h13, absorbed_streebog_64_iff]
  · exact hbytes 7 _ rfl (by decide)
  · exact hbytes 8 _ rfl (by decide)
  · exact hbytes 9 _ rfl (by decide)
  · exact hbytes 10 _ rfl (by decide)

/-- Two hashes that differ in byte 20 are told apart by the second stage. -/
theorem hashX11Generator_stage_absorbs_bmw :
    absorbed (aIntermediateHashFunctions 1) (WordArray.zero 8 64) 64
      ≠ absorbed (aIntermediateHashFunctions 1) ((WordArray.zero 8 64).set 20 1) 64 :=
  (hashX11Generator_stage_absorbs 1 64 0 1 (by decide) _ _
    (fun h => absurd (congrFun h 20) (by decide))).mpr (Or.inl (by decide))

/-- The stage with selector 13 does not see byte 8 of the hash it is given. -/
theorem hashX11Generator_drops_bytes :
    ¬ ∀ (selector : Fin 14) (size : ℕ) (data result : Fin 11),
      StageStep.hash selector size data result ∈ hashX11GeneratorBody →
      ∀ h h' : Block512, h ≠ h' → absorbed (aIntermediateHashFunctions selector) h size
        ≠ absorbed (aIntermediateHashFunctions selector) h' size := by
  intro hall
  refine hall 13 64 5 6 (by decide) (zero 8 64) ((zero 8 64).set 8 1)
    (fun h => absurd (congrFun h 8) (by decide)) ?_
  decide

end Binarium
