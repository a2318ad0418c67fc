import Binarium.ChainParams
import Binarium.Pow.HashStages

set_option autoImplicit false

/-! # The hash of a block header (`primitives/block.cpp`)

`CBlockHeader::GetHash` picks one of two algorithms by the time since the genesis block: X11 for the
first 3528000 seconds, `GetHash_SHA256AndX11` afterwards. The second is a chain of stages with three
selected ones (two hash functions and an encryption function, chosen from `nBits` and the week), and
with a memory-hard part in the middle: a loop that encrypts half of a 1024-bit state into a 32 KiB
buffer with Salsa20, and a loop that folds the buffer back in.

The results are about the decisions in this code: the choice of algorithm, the choice of the stages,
where the write loop writes and what it keeps of its state, and what the hash then depends on. -/

namespace Binarium

open WordArray

/-! ## Headers and the choice of algorithm -/

/-- `CBlockHeader`. -/
structure CBlockHeader where
  nVersion : BitVec 32
  hashPrevBlock : Uint256
  hashMerkleRoot : Uint256
  nTime : BitVec 32
  nBits : BitVec 32
  nNonce : BitVec 32
deriving DecidableEq

/-- The 80 bytes from `nVersion` to the end of `nNonce`, in memory order. -/
def CBlockHeader.bytes (header : CBlockHeader) : WordArray 8 80 :=
  let all := header.nNonce ++ header.nBits ++ header.nTime ++ header.hashMerkleRoot
    ++ header.hashPrevBlock ++ header.nVersion
  fun i => (all >>> (8 * (i : ℕ))).setWidth 8

/-- `iTimeFromGenesisBlock`, a `uint32_t` difference. -/
def iTimeFromGenesisBlock (net : Network) (header : CBlockHeader) : BitVec 32 :=
  header.nTime - genesisTime net

/-- `iAlgorithmSelector`: 0 is `GetHash_X11`, 1 is `GetHash_SHA256AndX11`. -/
def iAlgorithmSelector (net : Network) (header : CBlockHeader) : Fin 2 :=
  if iTimeFromGenesisBlock net header < 3528000 then 0 else 1

theorem iAlgorithmSelector_eq_zero_iff (net : Network) (header : CBlockHeader) :
    iAlgorithmSelector net header = 0 ↔ (header.nTime - genesisTime net).toNat < 3528000 := by
  have hlt : header.nTime - genesisTime net < 3528000
      ↔ (header.nTime - genesisTime net).toNat < 3528000 := BitVec.lt_def
  unfold iAlgorithmSelector iTimeFromGenesisBlock
  by_cases h : header.nTime - genesisTime net < 3528000
  · rw [if_pos h]
    exact ⟨fun _ => hlt.mp h, fun _ => rfl⟩
  · rw [if_neg h]
    exact ⟨fun h1 => absurd h1 (by decide), fun hl => absurd (hlt.mpr hl) h⟩

theorem genesisTime_le (net : Network) : (genesisTime net).toNat ≤ 1516957202 := by
  cases net <;> decide

/-- **When the algorithm follows the time.** X11 is chosen exactly for the times before genesis plus
    3528000 seconds if and only if the header is not older than the genesis block; from there on
    the choice is monotone in the time. -/
theorem iAlgorithmSelector_spec (net : Network) (header : CBlockHeader) :
    ((iAlgorithmSelector net header = 0 ↔ header.nTime.toNat < (genesisTime net).toNat + 3528000)
      ↔ (genesisTime net).toNat ≤ header.nTime.toNat)
    ∧ ((genesisTime net).toNat ≤ header.nTime.toNat → ∀ later : CBlockHeader,
      header.nTime.toNat ≤ later.nTime.toNat →
        iAlgorithmSelector net header ≤ iAlgorithmSelector net later) := by
  have hgenesis := genesisTime_le net
  have hsel : ∀ h : CBlockHeader,
      (iAlgorithmSelector net h = 0 ↔ h.nTime.toNat < (genesisTime net).toNat + 3528000)
        ↔ (genesisTime net).toNat ≤ h.nTime.toNat := by
    intro h
    rw [iAlgorithmSelector_eq_zero_iff, BitVec.toNat_sub]
    omega
  refine ⟨hsel header, fun hle later hlater => ?_⟩
  by_cases h0 : iAlgorithmSelector net later = 0
  · -- the later header is still within the first period, so the earlier one is too
    have hlt := ((hsel later).mpr (le_trans hle hlater)).mp h0
    have heq : iAlgorithmSelector net header = 0 :=
      ((hsel header).mpr hle).mpr (lt_of_le_of_lt hlater hlt)
    omega
  · have h1 : iAlgorithmSelector net later = 1 := by omega
    omega

/-- A header one second older than the genesis block gets the new algorithm. -/
theorem iAlgorithmSelector_before_genesis :
    ¬ ∀ (net : Network) (header : CBlockHeader), iAlgorithmSelector net header = 0
      ↔ header.nTime.toNat < (genesisTime net).toNat + 3528000 := by
  intro h
  have hsel := (h .main ⟨1, 0, 0, 1516957199, 0x1e0ffff0, 0⟩).mpr (by decide)
  exact absurd hsel (by decide)

/-! ## The choice of the stages -/

/-- `I_ALGORITHM_RECONFIGURATION_TIME_PERIOD_IN_SECONDS`. -/
def reconfigurationPeriod : ℕ := 604800

/-- `iWeekNumber`: the start of the current week, in seconds since the genesis block. -/
def iWeekNumber (iTimeFromGenesis : BitVec 32) : ℕ :=
  iTimeFromGenesis.toNat / reconfigurationPeriod * reconfigurationPeriod

/-- The three selected stages: first hash, encryption, second hash. -/
structure SelectedStages where
  firstHash : HashFunction
  encryption : EncryptionFunction
  secondHash : HashFunction
deriving DecidableEq

/-- The three values of `iIndex` in `GetHash_SHA256AndX11`, looked up in the tables. -/
def selectedStages (nBits iTimeFromGenesis : BitVec 32) : SelectedStages :=
  let seed := iWeekNumber iTimeFromGenesis + nBits.toNat
  { firstHash := aIntermediateHashFunctions (Fin.ofNat 14 seed)
    encryption := aIntermediateEncryptionFunctions (Fin.ofNat 3 seed)
    secondHash := aIntermediateHashFunctions (Fin.ofNat 14 (seed + 10)) }

/-- A multiple of the week length is a multiple of both table sizes, so the week drops out. -/
theorem selectedStages_eq (nBits iTimeFromGenesis : BitVec 32) :
    selectedStages nBits iTimeFromGenesis =
      { firstHash := aIntermediateHashFunctions (Fin.ofNat 14 nBits.toNat)
        encryption := aIntermediateEncryptionFunctions (Fin.ofNat 3 nBits.toNat)
        secondHash := aIntermediateHashFunctions (Fin.ofNat 14 (nBits.toNat + 10)) } := by
  unfold selectedStages iWeekNumber reconfigurationPeriod
  generalize iTimeFromGenesis.toNat / 604800 = week
  have h14 : ∀ k, Fin.ofNat 14 (week * 604800 + k) = Fin.ofNat 14 k := by
    intro k
    apply Fin.ext
    simp only [Fin.ofNat]
    omega
  have h3 : ∀ k, Fin.ofNat 3 (week * 604800 + k) = Fin.ofNat 3 k := by
    intro k
    apply Fin.ext
    simp only [Fin.ofNat]
    omega
  simp only [Nat.add_assoc, h14, h3]

/-- **The selected stages never change with the week.** For every `nBits` and every time there is no
    later week in which one of the three stages differs. -/
theorem selectedStages_no_weekly_change (nBits iTimeFromGenesis : BitVec 32) :
    ¬ ∃ later : BitVec 32, iWeekNumber iTimeFromGenesis < iWeekNumber later
      ∧ selectedStages nBits later ≠ selectedStages nBits iTimeFromGenesis := by
  rintro ⟨later, -, hne⟩
  exact hne (by rw [selectedStages_eq, selectedStages_eq])

/-- The promise that the stages change with the week fails at the switch itself. -/
theorem selectedStages_weekly_change_fails :
    ¬ ∀ nBits iTimeFromGenesis : BitVec 32, 3528000 ≤ iTimeFromGenesis.toNat →
      ∃ later : BitVec 32, iWeekNumber iTimeFromGenesis < iWeekNumber later
        ∧ selectedStages nBits later ≠ selectedStages nBits iTimeFromGenesis := by
  intro h
  obtain ⟨later, -, hne⟩ := h 0x1e0ffff0 3528000#32 (by decide)
  exact hne (by rw [selectedStages_eq, selectedStages_eq])

/-! ## The memory-hard part -/

/-- `uint1024`. -/
abbrev Block1024 := WordArray 8 128

/-- `aMemoryArea`, `I_AMOUNT_OF_BYTES_FOR_MEMORY_HARD_FUNCTION` bytes. -/
abbrev MemoryArea := WordArray 8 (32 * 1024)

/-- `GetUint64IndexFrom512BitsKey`. -/
def getUint64IndexFrom512BitsKey {n : ℕ} (key : WordArray 8 n) (pos : ℕ) : BitVec 64 :=
  (List.range 8).foldl (fun acc k => acc ^^^ key.word64LE (pos + 8 * k)) 0

/-- `uint1024::XOROperator(offset, data)`, 64 bytes; XOR by 64-bit words is XOR by bytes. -/
def xorOperator (combined : Block1024) (offset : ℕ) (data : Block512) : Block1024 :=
  combined.blit offset ((combined.slice offset 64).xor data)

/-- `iWriteIndex` in round `i`. `I_AMOUNT_OF_BYTES_FOR_MEMORY_HARD_FUNCTION` is the unparenthesised
    text `32 * 1024`, so the first remainder is modulo 32 and the product follows it. -/
def iWriteIndex (combined : Block1024) (i : ℕ) : ℕ :=
  ((getUint64IndexFrom512BitsKey combined 64).toNat % 32 * 1024 + i * 3571 % 2 ^ 32)
    % (32 * 1024 - 8 * 64)

theorem iWriteIndex_lt (combined : Block1024) (i : ℕ) :
    iWriteIndex combined i + 64 ≤ 32 * 1024 := by
  unfold iWriteIndex
  omega

/-- The variables of the write loop. -/
structure AmplifyState where
  ctx : EcryptCtx
  memory : MemoryArea
  combined : Block1024

/-- One round of the write loop: encrypt the upper half of the state into memory, then XOR the
    ciphertext just written back into it. -/
def amplifyStep (s : AmplifyState) (i : ℕ) : AmplifyState :=
  let index := iWriteIndex s.combined i
  let (ctx, ciphertext) := ecryptEncryptBlock s.ctx (s.combined.slice 64 64)
  let memory := s.memory.blit index ciphertext
  { ctx := ctx
    memory := memory
    combined := xorOperator s.combined 64 (memory.slice index 64) }

/-- The write loop, `rounds` times. -/
def amplify (rounds : ℕ) (s : AmplifyState) : AmplifyState :=
  (List.range rounds).foldl amplifyStep s

/-- The second loop: XOR the whole buffer, block by block, into the upper half of the state. -/
def foldMemory (memory : MemoryArea) (combined : Block1024) : Block1024 :=
  (List.range (32 * 1024 / 64)).foldl
    (fun c i => xorOperator c 64 (memory.slice (i * 64) 64)) combined

/-- A state that is zero but for the first byte of its upper half. -/
def stateOfByte (k : ℕ) : Block1024 := (zero 8 128).set 64 (BitVec.ofNat 8 k)

/-- **Where the write of a round starts.** The 64 bytes of every write are inside the area, and so are
    those that the second loop reads. But in each round there are only 32 places: the multiples of
    1024, moved by the number of the round. -/
theorem iWriteIndex_eq_iff (i o : ℕ) :
    (∀ combined, iWriteIndex combined i + 64 ≤ 32 * 1024)
      ∧ (∀ j < 32 * 1024 / 64, j * 64 + 64 ≤ 32 * 1024)
      ∧ ((∃ combined, iWriteIndex combined i = o)
        ↔ ∃ k < 32, (k * 1024 + i * 3571 % 2 ^ 32) % (32 * 1024 - 8 * 64) = o) := by
  refine ⟨fun combined => iWriteIndex_lt combined i, fun j hj => by omega, ?_, ?_⟩
  · rintro ⟨combined, rfl⟩
    exact ⟨_, Nat.mod_lt _ (by decide), rfl⟩
  · rintro ⟨k, hk, rfl⟩
    have hbyte : ∀ k < 32, (getUint64IndexFrom512BitsKey (stateOfByte k) 64).toNat % 32 = k := by
      decide +kernel
    exact ⟨stateOfByte k, by rw [iWriteIndex, hbyte k hk]⟩

/-- No state makes the first round write at offset 1. -/
theorem iWriteIndex_misses : ¬ ∀ i < 32 * 1024 / 64 / 2, ∀ o < 32 * 1024 - 512,
    ∃ combined, iWriteIndex combined i = o := by
  intro hall
  obtain ⟨combined, hindex⟩ := hall 0 (by decide) 1 (by decide)
  unfold iWriteIndex at hindex
  omega

/-! ### The write loop for arbitrary keystreams -/

/-- The state of the write loop without the cipher. -/
abbrev KeyedState := MemoryArea × Block1024

/-- One round with a given keystream block. -/
def keyedStep (ks : ℕ → Block512) (s : KeyedState) (i : ℕ) : KeyedState :=
  let index := iWriteIndex s.2 i
  let memory := s.1.blit index ((s.2.slice 64 64).xor (ks i))
  (memory, xorOperator s.2 64 (memory.slice index 64))

/-- The write loop when round `i` uses the keystream block `ks i`. -/
def keyedAmplify (ks : ℕ → Block512) (rounds : ℕ) (s : KeyedState) : KeyedState :=
  (List.range rounds).foldl (keyedStep ks) s

/-- The loop of the code is the keyed one, with the keystream of its cipher. -/
theorem amplify_eq_keyedAmplify (rounds : ℕ) (s : AmplifyState) :
    (amplify rounds s).ctx = bumpCounter^[rounds] s.ctx
      ∧ ((amplify rounds s).memory, (amplify rounds s).combined)
        = keyedAmplify (fun i => keystream (bumpCounter^[i] s.ctx)) rounds
          (s.memory, s.combined) := by
  induction rounds with
  | zero => exact ⟨rfl, rfl⟩
  | succ n ih =>
    unfold amplify keyedAmplify at *
    rw [List.range_succ, List.foldl_append, List.foldl_append, ← ih.2,
      Function.iterate_succ_apply', ← ih.1]
    simp [amplifyStep, keyedStep, ecryptEncryptBlock_eq, ih.1]

theorem slice_xorOperator (combined : Block1024) (data : Block512) :
    (xorOperator combined 64 data).slice 64 64 = (combined.slice 64 64).xor data :=
  slice_blit _ _ _ (by decide)

theorem slice_low_xorOperator (combined : Block1024) (data : Block512) :
    (xorOperator combined 64 data).slice 0 64 = combined.slice 0 64 :=
  slice_blit_of_disjoint _ _ _ _ _ (by decide) (by decide)

/-- One round replaces the upper half by the keystream block: plaintext and ciphertext cancel. -/
theorem keyedStep_slice (ks : ℕ → Block512) (s : KeyedState) (i : ℕ) :
    (keyedStep ks s i).2.slice 64 64 = ks i ∧ (keyedStep ks s i).2.slice 0 64 = s.2.slice 0 64 := by
  have hread : (s.1.blit (iWriteIndex s.2 i) ((s.2.slice 64 64).xor (ks i))).slice
      (iWriteIndex s.2 i) 64 = (s.2.slice 64 64).xor (ks i) :=
    slice_blit _ _ _ (iWriteIndex_lt _ _)
  simp only [keyedStep, hread]
  exact ⟨by rw [slice_xorOperator, xor_xor_cancel], slice_low_xorOperator _ _⟩

/-- A `uint1024` from its halves. -/
def joinHalves (lower upper : Block512) : Block1024 :=
  ((WordArray.zero 8 128).blit 0 lower).blit 64 upper

theorem slice_joinHalves (lower upper : Block512) :
    (joinHalves lower upper).slice 0 64 = lower ∧ (joinHalves lower upper).slice 64 64 = upper := by
  refine ⟨?_, slice_blit _ _ _ (by decide)⟩
  rw [joinHalves, slice_blit_of_disjoint _ _ _ _ _ (by decide) (by decide)]
  exact slice_blit _ _ _ (by decide)

theorem ext_halves {a b : Block1024} (hlow : a.slice 0 64 = b.slice 0 64)
    (hhigh : a.slice 64 64 = b.slice 64 64) : a = b := by
  apply ext_get
  intro i hi
  by_cases h : i < 64
  · have hget := congrArg (fun c => WordArray.get c i) hlow
    simpa [get_slice _ _ _ _ h] using hget
  · have hlt : i - 64 < 64 := by omega
    have hsum : 64 + (i - 64) = i := by omega
    have hget := congrArg (fun c => WordArray.get c (i - 64)) hhigh
    simpa [get_slice _ _ _ _ hlt, hsum] using hget

/-- After at least one round nothing of the incoming upper half is left in the state. -/
theorem keyedAmplify_slices (ks : ℕ → Block512) (n : ℕ) (s : KeyedState) :
    (keyedAmplify ks (n + 1) s).2.slice 64 64 = ks n
      ∧ (keyedAmplify ks (n + 1) s).2.slice 0 64 = s.2.slice 0 64 := by
  induction n with
  | zero => exact keyedStep_slice ks s 0
  | succ n ih =>
    obtain ⟨hhigh, hlow⟩ := keyedStep_slice ks (keyedAmplify ks (n + 1) s) (n + 1)
    have hunfold : keyedAmplify ks (n + 1 + 1) s
        = keyedStep ks (keyedAmplify ks (n + 1) s) (n + 1) := by
      unfold keyedAmplify
      rw [List.range_succ, List.foldl_append, List.foldl_cons, List.foldl_nil]
    rw [hunfold]
    exact ⟨hhigh, hlow.trans ih.2⟩

/-- **What the write loop leaves in the state.** From the first round on the lower half is the one it
    had, and the upper half, whatever it was, is the keystream block of the last round. -/
theorem combined_amplify (n : ℕ) (s : AmplifyState) :
    (amplify (n + 1) s).combined
      = joinHalves (s.combined.slice 0 64) (keystream (bumpCounter^[n] s.ctx)) := by
  have hkeyed := congrArg Prod.snd (amplify_eq_keyedAmplify (n + 1) s).2
  obtain ⟨hhigh, hlow⟩ := keyedAmplify_slices (fun i => keystream (bumpCounter^[i] s.ctx)) n
    (s.memory, s.combined)
  rw [← hkeyed] at hhigh hlow
  obtain ⟨hlow', hhigh'⟩ := slice_joinHalves (s.combined.slice 0 64)
    (keystream (bumpCounter^[n] s.ctx))
  exact ext_halves (hlow.trans hlow'.symm) (hhigh.trans hhigh'.symm)

/-- **The write loop keeps the incoming hash only if it does not run.** Whatever keystream blocks the
    rounds use, the map from the incoming 64 bytes to the state after the loop is injective exactly
    for zero rounds. -/
theorem keyedAmplify_injective_iff (ks : ℕ → Block512) (memory : MemoryArea) (lower : Block512)
    (rounds : ℕ) :
    Function.Injective (fun h : Block512 =>
        (keyedAmplify ks rounds (memory, joinHalves lower h)).2)
      ↔ rounds = 0 := by
  constructor
  · intro hinj
    cases rounds with
    | zero => rfl
    | succ n =>
      -- two different hashes leave the loop in the same state
      have hsame : (keyedAmplify ks (n + 1) (memory, joinHalves lower (zero 8 64))).2
          = (keyedAmplify ks (n + 1)
            (memory, joinHalves lower ((zero 8 64).set 0 1))).2 := by
        obtain ⟨hhigh, hlow⟩ :=
          keyedAmplify_slices ks n (memory, joinHalves lower (zero 8 64))
        obtain ⟨hhigh', hlow'⟩ :=
          keyedAmplify_slices ks n (memory, joinHalves lower ((zero 8 64).set 0 1))
        apply ext_halves
        · rw [hlow, hlow', (slice_joinHalves _ _).1, (slice_joinHalves _ _).1]
        · rw [hhigh, hhigh']
      have hbyte := congrFun (hinj hsame) 0
      exact absurd hbyte (by decide)
  · rintro rfl h h' heq
    have hhigh := congrArg (fun c : Block1024 => c.slice 64 64) heq
    simpa [keyedAmplify, (slice_joinHalves _ _).2] using hhigh

/-- The 256 rounds of the code, with the all-zero keystream, merge two states. -/
theorem keyedAmplify_not_injective :
    ¬ ∀ (ks : ℕ → Block512) (memory : MemoryArea) (lower : Block512) (rounds : ℕ),
      Function.Injective (fun h : Block512 =>
        (keyedAmplify ks rounds (memory, joinHalves lower h)).2) := by
  intro h
  have hinj := h (fun _ => zero 8 64) (zero 8 _) (zero 8 64) 256
  have hsame : zero 8 64 = (zero 8 64).set 0 1 := by
    apply hinj
    apply ext_halves
    · simp [(keyedAmplify_slices _ 255 _).2, (slice_joinHalves _ _).1]
    · simp [(keyedAmplify_slices _ 255 _).1]
  exact absurd (congrFun hsame 0) (by decide)

/-! ## `GetHash` -/

section GetHash

variable (P : Primitives)

/-- `CBlockHeader::GetHash_SHA256AndX11`. -/
def getHashSHA256AndX11 (header : CBlockHeader) (iTimeFromGenesis : BitVec 32) : WordArray 8 32 :=
  let stages := selectedStages header.nBits iTimeFromGenesis
  let stage := fun (f : HashFunction) (data : Block512) => intermediateHash P f data 64
  let table := aIntermediateHashFunctions
  let hash0 := intermediateHash P (table 0) header.bytes 80
  let additional := stage (table 1) hash0
  let hash1 := stage stages.firstHash additional
  let hash2 := stage (table 2) hash1
  let upper := stage (table 5) hash2
  let combined := joinHalves (stage (table 3) upper) upper
  let ctx := ecryptIvsetup (ecryptKeysetup (WordArray.zero 32 16) hash1) hash2
  let s := amplify (32 * 1024 / 64 / 2) ⟨ctx, WordArray.zero 8 (32 * 1024), combined⟩
  let combined := foldMemory s.memory s.combined
  let hash5 := intermediateHash P (table 4) combined 128
  let hash6 := stage (table 6) hash5
  let hash7 := stage (table 7) hash6
  -- `hash[6]` is overwritten with `hash[7]` before the encryption stage
  let area : HashArea := WordArray.zero 8 (11 * 64)
  let area := (((area.setHash 0 hash0).setHash 1 hash1).setHash 2 hash2).setHash 5 hash5
  let area := (area.setHash 6 hash7).setHash 7 hash7
  let area := intermediateEncryption P stages.encryption area 6 0 7
  let hash8 := stage (table 8) (area.hash 7)
  let additional := stage (table 9) hash8
  let hash9 := stage stages.secondHash additional
  trim256 (stage (table 10) hash9)

/-- `CBlockHeader::GetHash`, with `aHashFunctions` as the constructor fills it. -/
def getHash (net : Network) (header : CBlockHeader) : Uint256 :=
  let hash := if iAlgorithmSelector net header = 0 then hashX11 P header.bytes
    else getHashSHA256AndX11 P header (iTimeFromGenesisBlock net header)
  BitVec.ofNat 256 hash.value

/-- The time since genesis, of which only the week is used, has no effect on the hash. -/
theorem getHashSHA256AndX11_time (header : CBlockHeader) (t t' : BitVec 32) :
    getHashSHA256AndX11 P header t = getHashSHA256AndX11 P header t' := by
  have hstages : selectedStages header.nBits t = selectedStages header.nBits t' :=
    (selectedStages_eq header.nBits t).trans (selectedStages_eq header.nBits t').symm
  unfold getHashSHA256AndX11
  rw [hstages]

/-- **What a block hash depends on.** The network has its say in the choice of the algorithm only,
    and whichever is chosen, the hash is the first half of an Echo hash of 64 bytes. -/
theorem getHash_spec (net : Network) (header : CBlockHeader) :
    (∀ net', iAlgorithmSelector net header = iAlgorithmSelector net' header →
        getHash P net header = getHash P net' header)
      ∧ ∃ last : Block512, getHash P net header
          = BitVec.ofNat 256 (trim256 (P.digest .echo (last.toListN 64))).value := by
  constructor
  · intro net' halgorithm
    unfold getHash
    rw [halgorithm, getHashSHA256AndX11_time P header _ (iTimeFromGenesisBlock net' header)]
  · unfold getHash
    by_cases hx11 : iAlgorithmSelector net header = 0
    · exact ⟨_, by rw [if_pos hx11]; rfl⟩
    · exact ⟨_, by rw [if_neg hx11]; rfl⟩

end GetHash

end Binarium
