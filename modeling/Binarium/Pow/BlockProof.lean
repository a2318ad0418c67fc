import Binarium.Arith.Compact
import Binarium.Arith.Operators
import Binarium.ChainParams

set_option autoImplicit false

/-! # Proof of work and chain work (`pow.cpp`, `AddToBlockIndex`)

`CheckProofOfWork` accepts a header whose hash is at most the target in its `nBits`. `GetBlockProof`
turns that target into the expected number of hashes, `2^256 / (target + 1)`, without a 257-bit
number: it is `~target / (target + 1) + 1`. The work of a chain is the sum over its blocks, kept in
256 bits without an overflow check.

A target that raises no flag is below `2^256 - 1`, so the division never throws
(`getBlockProof_spec`), and the work of a chain of checked headers grows with every block as long as
the sum fits (`chainWork_strictMono`). -/

namespace Binarium

open BaseUint Nat

/-! ## The model -/

/-- What `CheckProofOfWork` reads of a header. -/
structure WorkHeader where
  hash : Uint256
  nBits : BitVec 32
deriving DecidableEq

/-- `CheckProofOfWork`. -/
def checkProofOfWork (header : WorkHeader) (params : ConsensusParams) : Bool :=
  let bnTarget := setCompact header.nBits
  if bnTarget.fNegative || bnTarget.value.equalTo 0 || bnTarget.fOverflow
      || bnTarget.value.gt (uintToArith256 params.powLimit) then
    -- nBits below minimum work
    false
  else if (uintToArith256 header.hash).gt bnTarget.value then
    -- hash doesn't match nBits
    false
  else true

/-- The number `b` as an operand of an `arith_uint256` operator. -/
def arithOf (b : ℕ) : ArithUint256 := BaseUint.ofUInt64 (BitVec.ofNat 64 b)

variable (headers : List WorkHeader) (nBits : BitVec 32)

/-- `GetBlockProof`; `none` is the exception of the division. -/
def getBlockProof : Option ArithUint256 :=
  let bnTarget := setCompact nBits
  if bnTarget.fNegative || bnTarget.fOverflow || bnTarget.value.equalTo 0 then some (arithOf 0)
  else (bnTarget.value.not.divide (bnTarget.value.add (arithOf 1))).map fun q => q.add (arithOf 1)

/-- `nChainWork` after `AddToBlockIndex` for each of the headers in turn, the genesis block first. -/
def chainWork : Option ArithUint256 :=
  headers.foldlM (fun work header =>
    (getBlockProof header.nBits).map fun proof => work.add proof) (arithOf 0)

/-! ## The work of a block -/

theorem value_arithOf {b : ℕ} (h : b < 2 ^ 64) : (arithOf b).value = b := by
  rw [arithOf, value_ofUInt64 _ (by decide), BitVec.toNat_ofNat, mod_eq_of_lt h]

/-- The target that `nBits` stands for, as a number. -/
def targetOf : ℕ := (setCompact nBits).value.value

/-- `nBits` that decode to a target one can mine for: no flag and not zero. -/
def Minable : Prop :=
  (setCompact nBits).fNegative = false ∧ (setCompact nBits).fOverflow = false
    ∧ targetOf nBits ≠ 0

/-- What `GetBlockProof` is meant to be. -/
def expectedHashes (target : ℕ) : ℕ := 2 ^ 256 / (target + 1)

/-- A target without overflow leaves room for one more: its mantissa has 23 bits. -/
theorem targetOf_lt {nBits : BitVec 32} (h : (setCompact nBits).fOverflow = false) :
    targetOf nBits + 1 < 2 ^ 256 := by
  have hlt : targetOf nBits < 2 ^ 256 := (setCompact nBits).value.value_lt
  have hvalue := setCompact_value_of_not_overflow h
  rw [floor_compactProduct_fields] at hvalue
  change targetOf nBits = _ at hvalue
  split_ifs at hvalue
  · omega
  · -- a long number is even
    obtain ⟨k, hk⟩ : ∃ k, 8 * (exponentField nBits - 3) = k + 1 :=
      ⟨8 * (exponentField nBits - 3) - 1, by omega⟩
    have heven : targetOf nBits % 2 = 0 := by
      rw [hvalue, hk, pow_succ, ← mul_assoc, mul_mod_left]
    omega

theorem isZero_iff : (setCompact nBits).value.equalTo 0 ↔ targetOf nBits = 0 :=
  equalTo_iff _ _ (by decide)

theorem minable_iff :
    ((setCompact nBits).fNegative || (setCompact nBits).fOverflow
      || (setCompact nBits).value.equalTo 0) = false ↔ Minable nBits := by
  simp only [Minable, Ne, ← isZero_iff, Bool.or_eq_false_iff, and_assoc, Bool.not_eq_true]

/-- The identity of the comment in `GetBlockProof`. -/
theorem expectedHashes_eq {target : ℕ} (h : target < 2 ^ 256) :
    expectedHashes target = (2 ^ 256 - 1 - target) / (target + 1) + 1 := by
  have hsplit : 2 ^ 256 = (2 ^ 256 - 1 - target) + (target + 1) := by omega
  rw [expectedHashes, hsplit, add_div_right _ (succ_pos _)]
  congr 2
  omega

/-- **`GetBlockProof` never throws.** It is zero for `nBits` that are no target, else the number of
    expected hashes. -/
theorem getBlockProof_spec :
    ∃ w, getBlockProof nBits = some w
      ∧ (¬ Minable nBits → w.value = 0)
      ∧ (Minable nBits → w.value = expectedHashes (targetOf nBits)) := by
  unfold getBlockProof
  simp only
  by_cases hmin : Minable nBits
  · have hroom := targetOf_lt hmin.2.1
    have hnext : ((setCompact nBits).value.add (arithOf 1)).value = targetOf nBits + 1 := by
      rw [value_add_of_lt, value_arithOf (by decide)]
      · rfl
      · rwa [value_arithOf (by decide)]
    obtain ⟨q, hq, hvalue⟩ := divide_value (setCompact nBits).value.not
      ((setCompact nBits).value.add (arithOf 1)) (by omega)
    rw [hnext, value_not] at hvalue
    have hproof : q.value + 1 = expectedHashes (targetOf nBits) := by
      rw [expectedHashes_eq (by omega), hvalue]
      rfl
    have hfit : q.value + 1 < 2 ^ (32 * 8) := by
      have hpos : targetOf nBits ≠ 0 := hmin.2.2
      rw [hproof]
      exact lt_of_le_of_lt (div_le_div_left (by omega : 2 ≤ targetOf nBits + 1) (by decide))
        (by norm_num)
    rw [(minable_iff nBits).mpr hmin, hq]
    refine ⟨_, rfl, fun hno => absurd hmin hno, fun _ => ?_⟩
    rw [value_add_of_lt _ _ (by rwa [value_arithOf (by decide)]),
      value_arithOf (by decide), hproof]
  · have hflag := (not_congr (minable_iff nBits)).mpr hmin
    rw [Bool.not_eq_false] at hflag
    rw [hflag]
    exact ⟨_, rfl, fun _ => value_arithOf (by decide), fun h => absurd h hmin⟩

theorem expectedHashes_pos {target : ℕ} (h : target < 2 ^ 256) : 1 ≤ expectedHashes target := by
  simp [expectedHashes_eq h]

theorem expectedHashes_antitone {s t : ℕ} (h : s ≤ t) : expectedHashes t ≤ expectedHashes s :=
  div_le_div_left (by omega) (by omega)

/-! ## The work of a chain -/

theorem minable_of_checkProofOfWork {header : WorkHeader} {params : ConsensusParams}
    (h : checkProofOfWork header params) : Minable header.nBits := by
  unfold checkProofOfWork at h
  simp only at h
  split_ifs at h with hrange hhash
  rw [Bool.not_eq_true, Bool.or_eq_false_iff, Bool.or_eq_false_iff, Bool.or_eq_false_iff] at hrange
  obtain ⟨⟨⟨hneg, hzero⟩, hover⟩, -⟩ := hrange
  refine ⟨hneg, hover, fun h0 => ?_⟩
  rw [(isZero_iff _).mpr h0] at hzero
  simp at hzero

/-- The exact sum of the work of some headers. -/
def totalWork : ℕ :=
  (headers.map fun header => expectedHashes (targetOf header.nBits)).sum

theorem totalWork_append (xs ys : List WorkHeader) :
    totalWork (xs ++ ys) = totalWork xs + totalWork ys := by
  simp [totalWork]

theorem chainWork_eq (hmin : ∀ header ∈ headers, Minable header.nBits)
    (hfit : totalWork headers < 2 ^ 256) :
    ∃ w, chainWork headers = some w ∧ w.value = totalWork headers := by
  induction headers using List.reverseRecOn with
  | nil => exact ⟨arithOf 0, rfl, value_arithOf (by decide)⟩
  | append_singleton headers header ih =>
    have hsum : totalWork (headers ++ [header])
        = totalWork headers + expectedHashes (targetOf header.nBits) := by
      simp [totalWork]
    rw [hsum] at hfit ⊢
    obtain ⟨w, hw, hvalue⟩ := ih (fun x hx => hmin x (by simp [hx])) (by omega)
    obtain ⟨p, hp, -, hproof⟩ := getBlockProof_spec header.nBits
    have hpvalue := hproof (hmin header (by simp))
    refine ⟨w.add p, ?_, ?_⟩
    · unfold chainWork at hw ⊢
      simp [hw, hp]
    · rw [value_add_of_lt, hvalue, hpvalue]
      omega

theorem totalWork_take_lt {headers : List WorkHeader} {j k : ℕ} (hjk : j < k)
    (hk : k ≤ headers.length) :
    totalWork (headers.take j) < totalWork (headers.take k) := by
  have hlt : j < headers.length := by omega
  have hstep : totalWork (headers.take (j + 1))
      = totalWork (headers.take j) + expectedHashes (targetOf (headers.get ⟨j, hlt⟩).nBits) := by
    rw [List.take_succ_eq_append_getElem hlt, totalWork_append]
    simp [totalWork]
  have hpos : 1 ≤ expectedHashes (targetOf (headers.get ⟨j, hlt⟩).nBits) :=
    expectedHashes_pos (setCompact _).value.value_lt
  have hmono : totalWork (headers.take (j + 1)) ≤ totalWork (headers.take k) := by
    obtain ⟨i, rfl⟩ := Nat.exists_eq_add_of_le hjk
    rw [List.take_add (i := j + 1), totalWork_append]
    exact Nat.le_add_right _ _
  omega

/-- **Block work.** `GetBlockProof` returns for every `nBits`: zero when they decode to a negative,
    overflowing or zero target, else `2^256 / (target + 1)`, which is at least one and antitone in the
    target. Along a chain of headers that pass `CheckProofOfWork` and whose total work is below
    `2^256`, the chain work is strictly increasing. -/
theorem chainWork_strictMono (params : ConsensusParams) :
    (∀ nBits, ∃ w, getBlockProof nBits = some w
      ∧ (¬ Minable nBits → w.value = 0)
      ∧ (Minable nBits → w.value = 2 ^ 256 / (targetOf nBits + 1) ∧ 1 ≤ w.value))
    ∧ (∀ nBits nBits' w w', Minable nBits → Minable nBits' → targetOf nBits ≤ targetOf nBits' →
      getBlockProof nBits = some w → getBlockProof nBits' = some w' → w'.value ≤ w.value)
    ∧ ∀ headers : List WorkHeader, (∀ header ∈ headers, checkProofOfWork header params = true) →
      totalWork headers < 2 ^ 256 →
      ∃ work : ℕ → ArithUint256,
        (∀ k ≤ headers.length, chainWork (headers.take k) = some (work k))
        ∧ ∀ j k, j < k → k ≤ headers.length → (work j).value < (work k).value := by
  refine ⟨fun nBits => ?_, ?_, ?_⟩
  · obtain ⟨w, hw, hzero, hproof⟩ := getBlockProof_spec nBits
    refine ⟨w, hw, hzero, fun hmin => ⟨hproof hmin, ?_⟩⟩
    rw [hproof hmin]
    exact expectedHashes_pos (setCompact nBits).value.value_lt
  · intro nBits nBits' w w' hmin hmin' hle hw hw'
    obtain ⟨v, hv, -, hproof⟩ := getBlockProof_spec nBits
    obtain ⟨v', hv', -, hproof'⟩ := getBlockProof_spec nBits'
    obtain rfl := Option.some.inj (hw.symm.trans hv)
    obtain rfl := Option.some.inj (hw'.symm.trans hv')
    rw [hproof hmin, hproof' hmin']
    exact expectedHashes_antitone hle
  · intro headers hchecked hfit
    have hmin : ∀ header ∈ headers, Minable header.nBits :=
      fun header h => minable_of_checkProofOfWork (hchecked header h)
    have hwork : ∀ k, ∃ w, chainWork (headers.take k) = some w
        ∧ w.value = totalWork (headers.take k) := by
      intro k
      apply chainWork_eq _ (fun header h => hmin header (List.mem_of_mem_take h))
      refine lt_of_le_of_lt ?_ hfit
      conv_rhs => rw [← List.take_append_drop k headers]
      rw [totalWork_append]
      simp
    choose work heq hvalue using hwork
    refine ⟨work, fun k _ => heq k, fun j k hjk hk => ?_⟩
    simp [hvalue, totalWork_take_lt hjk hk]

/-- A header of the regression test network at its lowest difficulty. -/
def easyHeader : WorkHeader := ⟨0, 0x207fffff⟩

theorem chainWork_strictMono_easy :
    ∃ work : ℕ → ArithUint256, chainWork [easyHeader, easyHeader] = some (work 2)
      ∧ (work 0).value < (work 1).value ∧ (work 1).value < (work 2).value := by
  have hchecked : ∀ header ∈ [easyHeader, easyHeader],
      checkProofOfWork header (consensusParams .regtest) := by decide +kernel
  have hfit : totalWork [easyHeader, easyHeader] < 2 ^ 256 := by decide +kernel
  obtain ⟨work, heq, hmono⟩ :=
    (chainWork_strictMono (consensusParams .regtest)).2.2 _ hchecked hfit
  exact ⟨work, heq 2 le_rfl, hmono 0 1 (by decide) (by decide), hmono 1 2 (by decide) le_rfl⟩

end Binarium
