import Binarium.Pow.BlockProof

set_option autoImplicit false

/-! # The next required difficulty (`pow.cpp`)

`GetNextWorkRequired` picks one of three rules by the height of the last block: the rule of Bitcoin
(a retarget every 576 blocks, with the minimum-difficulty exception of the test networks),
Kimoto's gravity well, or dark gravity wave, which takes a weighted mean of the last 24 targets and
scales it by the time they took.

All of them multiply a 256-bit target by a number of seconds, and `arith_uint256` does not detect an
overflow. The model therefore keeps, next to each result, the operands of every multiplication that
was made (`Product`); a product wraps when its exact value does not fit 256 bits.

Kimoto's rule decides with `double`s when to stop reading back. Only that decision is left open: it
is the parameter `eventHorizon`. -/

namespace Binarium

open BaseUint Nat Option

/-! ## The model -/

/-- What `pow.cpp` reads of a `CBlockIndex` besides its links and height. -/
structure IndexEntry where
  nTime : BitVec 32
  nBits : BitVec 32
deriving DecidableEq

/-- `pindexLast` with everything that `pprev` leads to, `pindexLast` first. `NULL` is the empty
    chain, and the height of the first block of `pindex :: prev` is the length of `prev`. -/
abbrev IndexChain := List IndexEntry

/-- `GetBlockTime()`. -/
def IndexEntry.getBlockTime (pindex : IndexEntry) : ℤ := pindex.nTime.toNat

/-- `arith_uint256().SetCompact(pindex->nBits)`. -/
def IndexEntry.target (pindex : IndexEntry) : ArithUint256 := (setCompact pindex.nBits).value

/-- The operands of a multiplication `bn *= b`. -/
structure Product where
  bn : ArithUint256
  b : BitVec 32

/-- The product as a number, without wrapping. -/
def Product.exact (p : Product) : ℕ := p.bn.value * p.b.toNat

/-- A target under computation and the multiplications made so far. -/
structure Targeting where
  bnNew : ArithUint256
  products : List Product

/-- `if (n < lo) n = lo; if (n > hi) n = hi;` -/
def limitTimespan (nActualTimespan lo hi : ℤ) : ℤ :=
  let n := if nActualTimespan < lo then lo else nActualTimespan
  if n > hi then hi else n

/-- `bnNew *= nActualTimespan; bnNew /= nTargetTimespan;` and the cap by the proof-of-work limit. The
    `int64_t` factor is converted to `uint32_t`, which is the operand type of the closest
    `operator*=`. -/
def retarget (s : Targeting) (nActualTimespan : ℤ) (nTargetTimespan : ℕ) (powLimit : Uint256) :
    Option Targeting :=
  let b := BitVec.ofInt 32 nActualTimespan
  ((s.bnNew.mul32 b).divide (arithOf nTargetTimespan)).map fun bnNew =>
    { bnNew := if bnNew.gt (uintToArith256 powLimit) then uintToArith256 powLimit else bnNew
      products := s.products ++ [⟨s.bnNew, b⟩] }

/-- The result of a retarget rule. -/
structure WorkRequired where
  nBits : BitVec 32
  products : List Product

/-- `return bnNew.GetCompact();` -/
def encode (s : Targeting) : Option WorkRequired :=
  (getCompact s.bnNew false).map fun nBits => ⟨nBits, s.products⟩

variable (chain : IndexChain) (params : ConsensusParams)

/-- `return UintToArith256(params.powLimit).GetCompact();` -/
def proofOfWorkLimit : Option WorkRequired :=
  encode ⟨uintToArith256 params.powLimit, []⟩

/-! ### Dark gravity wave -/

/-- `nPastBlocks`. -/
def nPastBlocks : ℕ := 24

/-- The body of the averaging loop of `DarkGravityWave`. -/
def averageRound (nCountBlocks : ℕ) (s : Targeting) (pindex : IndexEntry) : Option Targeting :=
  if nCountBlocks = 1 then some { s with bnNew := pindex.target }
  else
    let b := BitVec.ofNat 32 nCountBlocks
    (((s.bnNew.mul32 b).add pindex.target).divide (arithOf (nCountBlocks + 1))).map fun avg =>
      { bnNew := avg, products := s.products ++ [⟨s.bnNew, b⟩] }

/-- The averaging loop of `DarkGravityWave` from `nCountBlocks` on, with `rounds` more rounds after
    this one. It also returns the last block read; `none` is a failed assertion. -/
def averageLoop : ℕ → ℕ → Targeting → IndexChain → Option (Targeting × IndexEntry)
  | _, _, _, [] => none
  | 0, nCountBlocks, s, pindex :: _ =>
    (averageRound nCountBlocks s pindex).map fun s => (s, pindex)
  | rounds + 1, nCountBlocks, s, pindex :: prev =>
    (averageRound nCountBlocks s pindex).bind fun s =>
      averageLoop rounds (nCountBlocks + 1) s prev

/-- `DarkGravityWave` up to the encoding of the new target, for a long enough chain. -/
def darkGravityTarget : Option Targeting :=
  match chain with
  | [] => none
  | pindexLast :: _ =>
    (averageLoop (nPastBlocks - 1) 1 ⟨arithOf 0, []⟩ chain).bind fun got =>
      let nTargetTimespan := nPastBlocks * params.nPowTargetSpacing
      let nActualTimespan := limitTimespan (pindexLast.getBlockTime - got.2.getBlockTime)
        (nTargetTimespan / 3 : ℕ) (nTargetTimespan * 3 : ℕ)
      retarget got.1 nActualTimespan nTargetTimespan params.powLimit

/-- `DarkGravityWave`. -/
def darkGravityWave : Option WorkRequired :=
  -- at least `nPastBlocks + 1` blocks, otherwise the limit
  if chain.length ≤ nPastBlocks then proofOfWorkLimit params
  else (darkGravityTarget chain params).bind encode

/-! ### Kimoto's gravity well -/

/-- `PastBlocksMin`, from `nPowTargetTimespan * 0.025`. -/
def pastBlocksMin : ℕ :=
  params.nPowTargetTimespan / 40 / params.nPowTargetSpacing

/-- `PastBlocksMax`. -/
def pastBlocksMax : ℕ :=
  params.nPowTargetTimespan * 7 / params.nPowTargetSpacing

/-- The state of the loop of `KimotoGravityWell`. -/
structure KimotoState where
  pastDifficultyAverage : ArithUint256
  pastRateActualSeconds : ℤ
  pastRateTargetSeconds : ℕ

/-- The running mean of `KimotoGravityWell` at round `i`. -/
def kimotoAverage (i : ℕ) (prev target : ArithUint256) : Option ArithUint256 :=
  if i > 1 then
    if target.ge prev then ((target.sub prev).divide (arithOf i)).map fun q => q.add prev
    else ((prev.sub target).divide (arithOf i)).map fun q => prev.sub q
  else some target

/-- The loop of `KimotoGravityWell` from round `i` on. The `double` comparison with the event horizon
    is a function of the number of blocks and the two time spans. -/
def kimotoLoop (eventHorizon : ℕ → ℤ → ℕ → Bool) (params : ConsensusParams) (lastTime : ℤ) :
    ℕ → KimotoState → IndexChain → Option KimotoState
  | _, s, [] => some s
  | i, s, blockReading :: prev =>
    if prev.length = 0 then some s
    else if pastBlocksMax params > 0 ∧ i > pastBlocksMax params then some s
    else
      (kimotoAverage i s.pastDifficultyAverage blockReading.target).bind fun avg =>
        let actual := lastTime - blockReading.getBlockTime
        let s : KimotoState := ⟨avg, if actual < 0 then 0 else actual,
          params.nPowTargetSpacing * i⟩
        if i ≥ pastBlocksMin params
            ∧ eventHorizon i s.pastRateActualSeconds s.pastRateTargetSeconds = true then some s
        else kimotoLoop eventHorizon params lastTime (i + 1) s prev

/-- The scaling at the end of `KimotoGravityWell`. -/
def kimotoScale (s : KimotoState) (powLimit : Uint256) : Option Targeting :=
  if s.pastRateActualSeconds ≠ 0 ∧ s.pastRateTargetSeconds ≠ 0 then
    retarget ⟨s.pastDifficultyAverage, []⟩ s.pastRateActualSeconds s.pastRateTargetSeconds powLimit
  else
    some ⟨if s.pastDifficultyAverage.gt (uintToArith256 powLimit) then uintToArith256 powLimit
      else s.pastDifficultyAverage, []⟩

/-- `KimotoGravityWell`. -/
def kimotoGravityWell (eventHorizon : ℕ → ℤ → ℕ → Bool) (chain : IndexChain)
    (params : ConsensusParams) : Option WorkRequired :=
  match chain with
  | [] => proofOfWorkLimit params
  | blockLastSolved :: prev =>
    if prev.length = 0 ∨ prev.length < pastBlocksMin params then proofOfWorkLimit params
    else
      (kimotoLoop eventHorizon params blockLastSolved.getBlockTime 1 ⟨arithOf 0, 0, 0⟩ chain).bind
        fun s => (kimotoScale s params.powLimit).bind encode

/-! ### The rule of Bitcoin -/

/-- `CalculateNextWorkRequired`. -/
def calculateNextWorkRequired (pindexLast : IndexEntry) (nFirstBlockTime : ℤ)
    (params : ConsensusParams) : Option WorkRequired :=
  if params.fPowNoRetargeting then some ⟨pindexLast.nBits, []⟩
  else
    let nActualTimespan := limitTimespan (pindexLast.getBlockTime - nFirstBlockTime)
      (params.nPowTargetTimespan / 4 : ℕ) (params.nPowTargetTimespan * 4 : ℕ)
    (retarget ⟨pindexLast.target, []⟩ nActualTimespan params.nPowTargetTimespan
      params.powLimit).bind encode

/-- The loop that looks for the last block without the special minimum difficulty. -/
def lastRegularBits (params : ConsensusParams) (nProofOfWorkLimit : BitVec 32) :
    IndexEntry → IndexChain → BitVec 32
  | pindex, [] => pindex.nBits
  | pindex, pprev :: prev =>
    if (prev.length + 1) % params.difficultyAdjustmentInterval ≠ 0
        ∧ pindex.nBits = nProofOfWorkLimit then
      lastRegularBits params nProofOfWorkLimit pprev prev
    else pindex.nBits

/-- `GetNextWorkRequiredBTC` for a block with time `nTime`. -/
def getNextWorkRequiredBTC (nTime : BitVec 32) (params : ConsensusParams) : Option WorkRequired :=
  match chain with
  | [] => proofOfWorkLimit params
  | pindexLast :: prev =>
    if (prev.length + 1) % params.difficultyAdjustmentInterval ≠ 0 then
      if params.fPowAllowMinDifficultyBlocks then
        if (nTime.toNat : ℤ) > pindexLast.getBlockTime + (params.nPowTargetSpacing * 2 : ℕ) then
          proofOfWorkLimit params
        else
          (proofOfWorkLimit params).map fun limit =>
            ⟨lastRegularBits params limit.nBits pindexLast prev, []⟩
      else some ⟨pindexLast.nBits, []⟩
    else
      -- `GetAncestor(nHeightFirst)`, with its two assertions
      (chain[params.difficultyAdjustmentInterval - 1]?).bind fun pindexFirst =>
        calculateNextWorkRequired pindexLast pindexFirst.getBlockTime params

/-- `GetNextWorkRequired`; `none` is a null pointer, a failed assertion or an exception. -/
def getNextWorkRequired (eventHorizon : ℕ → ℤ → ℕ → Bool) (chain : IndexChain)
    (nTime : BitVec 32) (params : ConsensusParams) : Option WorkRequired :=
  match chain with
  | [] => none
  | _ :: prev =>
    if prev.length + 1 ≥ params.nPowDGWHeight then darkGravityWave chain params
    else if prev.length + 1 ≥ params.nPowKGWHeight then
      kimotoGravityWell eventHorizon chain params
    else getNextWorkRequiredBTC chain nTime params

/-! ## The steps -/

theorem limitTimespan_range (n : ℤ) {lo hi : ℤ} (h : lo ≤ hi) :
    lo ≤ limitTimespan n lo hi ∧ limitTimespan n lo hi ≤ hi := by
  unfold limitTimespan
  simp only
  split_ifs <;> omega

theorem toNat_ofInt_of_range {n : ℤ} (h0 : 0 ≤ n) (h32 : n < 2 ^ 32) :
    (BitVec.ofInt 32 n).toNat = n.toNat := by
  rw [BitVec.toNat_ofInt]
  omega

/-- **One retarget.** It never throws; with a product that fits, the target is scaled and capped. -/
theorem retarget_spec (s : Targeting) (nActualTimespan : ℤ) (nTargetTimespan : ℕ)
    (powLimit : Uint256) (h0 : nTargetTimespan ≠ 0) (h64 : nTargetTimespan < 2 ^ 64) :
    ∃ s', retarget s nActualTimespan nTargetTimespan powLimit = some s'
      ∧ s'.products = s.products ++ [⟨s.bnNew, BitVec.ofInt 32 nActualTimespan⟩]
      ∧ s'.bnNew.value = min (s.bnNew.value * (BitVec.ofInt 32 nActualTimespan).toNat % 2 ^ 256
          / nTargetTimespan) powLimit.toNat := by
  obtain ⟨q, hq, hvalue⟩ := divide_value
    (s.bnNew.mul32 (BitVec.ofInt 32 nActualTimespan)) (arithOf nTargetTimespan)
    (by rwa [value_arithOf h64])
  rw [value_arithOf h64, value_mul32] at hvalue
  simp only [retarget, hq, map_some]
  refine ⟨_, rfl, rfl, ?_⟩
  by_cases hgt : q.gt (uintToArith256 powLimit)
  · rw [if_pos hgt, value_uintToArith256]
    rw [gt_iff, value_uintToArith256] at hgt
    rw [← hvalue, min_eq_right hgt.le]
  · rw [if_neg hgt]
    rw [gt_iff, value_uintToArith256, not_lt] at hgt
    rw [← hvalue, min_eq_left hgt]

/-- Encoding never fails; the result decodes without a flag to at most the target. -/
theorem encode_spec (s : Targeting) :
    ∃ nBits, encode s = some ⟨nBits, s.products⟩
      ∧ (setCompact nBits).fNegative = false ∧ (setCompact nBits).fOverflow = false
      ∧ targetOf nBits ≤ s.bnNew.value := by
  obtain ⟨hneg, hover, hvalue⟩ := setCompact_pack s.bnNew.value s.bnNew.value_lt rfl
  refine ⟨_, by rw [encode, getCompact_eq, map_some], hneg, hover, ?_⟩
  rw [targetOf, hvalue]
  exact div_mul_le_self _ _

/-! ## The average of the past targets -/

theorem weightedMean_bounds {lo hi a t : ℕ} (n : ℕ) (ha : lo ≤ a ∧ a ≤ hi)
    (ht : lo ≤ t ∧ t ≤ hi) : lo ≤ (a * n + t) / (n + 1) ∧ (a * n + t) / (n + 1) ≤ hi := by
  have hlo : lo * n ≤ a * n := mul_le_mul_right _ ha.1
  have hhi : a * n ≤ hi * n := mul_le_mul_right _ ha.2
  constructor
  · rw [le_div_iff_mul_le (succ_pos _), mul_succ]
    omega
  · apply Nat.div_le_of_le_mul
    rw [Nat.add_mul, Nat.one_mul, Nat.mul_comm n]
    omega

/-- A target between two bounds, with no product wrapped on the way to it. -/
structure Targeting.Within (lo hi : ℕ) (s : Targeting) : Prop where
  lower : lo ≤ s.bnNew.value
  upper : s.bnNew.value ≤ hi
  exact : ∀ p ∈ s.products, p.exact < 2 ^ 256

/-- One round keeps the average between the bounds of the targets. In the first round there is no
    average yet. -/
theorem averageRound_within {lo hi n : ℕ} {s : Targeting} {pindex : IndexEntry}
    (hn32 : n + 1 < 2 ^ 32) (hfit : hi * (n + 1) < 2 ^ 256)
    (hs : if n = 1 then s.products = [] else s.Within lo hi)
    (ht : lo ≤ pindex.target.value ∧ pindex.target.value ≤ hi) :
    ∃ s', averageRound n s pindex = some s' ∧ s'.Within lo hi := by
  unfold averageRound
  by_cases h1 : n = 1
  · rw [if_pos h1] at hs ⊢
    exact ⟨_, rfl, ht.1, ht.2, by simp [hs]⟩
  · rw [if_neg h1] at hs ⊢
    have hb : (BitVec.ofNat 32 n).toNat = n := by
      rw [BitVec.toNat_ofNat, mod_eq_of_lt (by omega)]
    have hprod : s.bnNew.value * n + pindex.target.value < 2 ^ 256 := by
      have hle : s.bnNew.value * n ≤ hi * n := mul_le_mul_right _ hs.upper
      rw [mul_add, mul_one] at hfit
      omega
    have hmul : (s.bnNew.mul32 (BitVec.ofNat 32 n)).value = s.bnNew.value * n := by
      rw [value_mul32_of_lt, hb]
      rw [hb]
      exact lt_of_le_of_lt (le_add_right _ _) hprod
    have hsum : ((s.bnNew.mul32 (BitVec.ofNat 32 n)).add pindex.target).value
        = s.bnNew.value * n + pindex.target.value := by
      rw [value_add_of_lt, hmul]
      rw [hmul]
      exact hprod
    obtain ⟨avg, havg, hvalue⟩ := divide_value
      ((s.bnNew.mul32 (BitVec.ofNat 32 n)).add pindex.target) (arithOf (n + 1))
      (by rw [value_arithOf (by omega)]; omega)
    rw [hsum, value_arithOf (by omega)] at hvalue
    obtain ⟨hlo, hhi⟩ := weightedMean_bounds n ⟨hs.lower, hs.upper⟩ ht
    simp only [havg]
    refine ⟨_, rfl, hvalue ▸ hlo, hvalue ▸ hhi, ?_⟩
    intro p hp
    rcases List.mem_append.mp hp with hold | hnew
    · exact hs.exact p hold
    · rw [List.mem_singleton.mp hnew, Product.exact, hb]
      exact lt_of_le_of_lt (le_add_right _ _) hprod

theorem averageLoop_within {lo hi : ℕ} (rounds n : ℕ) (s : Targeting) (chain : IndexChain)
    (hn : n ≠ 0) (hn32 : n + rounds + 1 < 2 ^ 32) (hfit : hi * (n + rounds + 1) < 2 ^ 256)
    (hlong : rounds < chain.length) (hs : if n = 1 then s.products = [] else s.Within lo hi)
    (ht : ∀ pindex ∈ chain.take (rounds + 1), lo ≤ pindex.target.value ∧ pindex.target.value ≤ hi) :
    ∃ s' pindex, averageLoop rounds n s chain = some (s', pindex) ∧ s'.Within lo hi := by
  induction rounds generalizing n s chain with
  | zero =>
    cases chain with
    | nil => simp at hlong
    | cons pindex prev =>
      obtain ⟨s', hround, hwithin⟩ :=
        averageRound_within (by omega) (by simpa using hfit) hs (ht pindex (by simp))
      exact ⟨s', pindex, by rw [averageLoop, hround, map_some], hwithin⟩
  | succ rounds ih =>
    cases chain with
    | nil => simp at hlong
    | cons pindex prev =>
      have hfit' : hi * (n + 1) < 2 ^ 256 :=
        lt_of_le_of_lt (mul_le_mul_left _ (by omega)) hfit
      obtain ⟨s', hround, hwithin⟩ :=
        averageRound_within (by omega) hfit' hs (ht pindex (by simp))
      obtain ⟨s'', last, hloop, hwithin'⟩ := ih (n + 1) s' prev (by omega) (by omega)
        (by rwa [show n + 1 + rounds + 1 = n + (rounds + 1) + 1 by omega])
        (by simpa using hlong) (by rw [if_neg (by omega)]; exact hwithin)
        (fun p hp => ht p (by simp [hp]))
      exact ⟨s'', last, by rw [averageLoop, hround, bind_some, hloop], hwithin'⟩

/-! ## Dark gravity wave -/

/-- The targets that `DarkGravityWave` reads. -/
def pastTargets : List ℕ :=
  (chain.take nPastBlocks).map fun pindex => pindex.target.value

theorem nPowTargetSpacing_eq (net : Network) : (consensusParams net).nPowTargetSpacing = 150 := by
  cases net <;> rfl

section

variable (lo hi : ℕ) (chain : IndexChain) (params : ConsensusParams)
  (hspacing : params.nPowTargetSpacing = 150) (hlong : nPastBlocks < chain.length)

include hspacing hlong

/-- **The new target.** The past targets are between two bounds and the products fit: then the new
    target is the average, scaled by a factor between one third and three, and capped. -/
theorem darkGravityTarget_spec (hfit : hi * 25 < 2 ^ 256)
    (ht : ∀ t ∈ pastTargets chain, lo ≤ t ∧ t ≤ hi) :
    ∃ s : Targeting, ∃ n : ℕ, s.Within lo hi ∧ 1200 ≤ n ∧ n ≤ 10800
      ∧ ∃ s', darkGravityTarget chain params = some s'
        ∧ s'.products = s.products ++ [⟨s.bnNew, BitVec.ofNat 32 n⟩]
        ∧ s'.bnNew.value = min (s.bnNew.value * n % 2 ^ 256 / 3600) params.powLimit.toNat := by
  cases chain with
  | nil => exact absurd hlong (by decide)
  | cons pindexLast prev =>
    have hread : ∀ pindex ∈ (pindexLast :: prev).take (nPastBlocks - 1 + 1),
        lo ≤ pindex.target.value ∧ pindex.target.value ≤ hi :=
      fun pindex h => ht _ (List.mem_map_of_mem h)
    obtain ⟨s, last, hloop, hwithin⟩ := averageLoop_within (nPastBlocks - 1) 1 ⟨arithOf 0, []⟩
      (pindexLast :: prev) (by decide) (by decide) hfit
      (lt_of_le_of_lt (by decide) hlong) (by rw [if_pos rfl]) hread
    have hspan : nPastBlocks * params.nPowTargetSpacing = 3600 := by rw [hspacing]; rfl
    have hrange := limitTimespan_range (pindexLast.getBlockTime - last.getBlockTime)
      (by decide : ((3600 / 3 : ℕ) : ℤ) ≤ ((3600 * 3 : ℕ) : ℤ))
    generalize hN : limitTimespan (pindexLast.getBlockTime - last.getBlockTime)
      ((3600 / 3 : ℕ) : ℤ) ((3600 * 3 : ℕ) : ℤ) = n at hrange
    obtain ⟨m, rfl⟩ := Int.eq_ofNat_of_zero_le (by omega : 0 ≤ n)
    have hb : BitVec.ofInt 32 (m : ℤ) = BitVec.ofNat 32 m := BitVec.ofInt_natCast _ _
    have hm : (BitVec.ofNat 32 m).toNat = m := by
      rw [BitVec.toNat_ofNat, mod_eq_of_lt (by omega)]
    obtain ⟨s', hretarget, hproducts, hvalue⟩ :=
      retarget_spec s m 3600 params.powLimit (by decide) (by decide)
    rw [hb, hm] at hvalue
    refine ⟨s, m, hwithin, by omega, by omega, s', ?_, hproducts, hvalue⟩
    rw [darkGravityTarget, hloop, bind_some]
    simp only [hspan, hN, hretarget]

/-- With targets of at most `2^236` no product wraps. -/
theorem darkGravityTarget_exact (hsmall : hi ≤ 2 ^ 236) (ht : ∀ t ∈ pastTargets chain, lo ≤ t ∧ t ≤ hi) :
    ∃ avg n : ℕ, lo ≤ avg ∧ avg ≤ hi ∧ 1200 ≤ n ∧ n ≤ 10800
      ∧ ∃ s, darkGravityTarget chain params = some s ∧ (∀ p ∈ s.products, p.exact < 2 ^ 256)
        ∧ s.bnNew.value = min (avg * n / 3600) params.powLimit.toNat := by
  obtain ⟨avg, n, hwithin, hn, hn', s, hs, hproducts, hvalue⟩ :=
    darkGravityTarget_spec lo hi chain params hspacing hlong (by omega) ht
  have hprod : avg.bnNew.value * n < 2 ^ 256 :=
    lt_of_le_of_lt (Nat.mul_le_mul (le_trans hwithin.upper hsmall) hn') (by norm_num)
  rw [Nat.mod_eq_of_lt hprod] at hvalue
  refine ⟨_, n, hwithin.lower, hwithin.upper, hn, hn', s, hs, ?_, hvalue⟩
  intro p hp
  rw [hproducts] at hp
  rcases List.mem_append.mp hp with hold | hnew
  · exact hwithin.exact p hold
  · have hn32 : (BitVec.ofNat 32 n).toNat = n := by
      rw [BitVec.toNat_ofNat, Nat.mod_eq_of_lt (by omega)]
    rwa [List.mem_singleton.mp hnew, Product.exact, hn32]

end

theorem darkGravityWave_eq {chain : IndexChain} {params : ConsensusParams} {s : Targeting}
    (hlong : nPastBlocks < chain.length) (h : darkGravityTarget chain params = some s) :
    darkGravityWave chain params = encode s := by
  rw [darkGravityWave, if_neg (by omega), h, bind_some]

/-- **The bounds of dark gravity wave.** Over a chain of more than 24 blocks whose last 24 targets
    are between one and a limit of at most `2^236`, whatever the block times are: the new target is at
    least a third of the smallest and at most three times the largest of them and not above the
    limit, no product wraps, and the returned `nBits` decode without a flag to at most the limit. -/
theorem darkGravityWave_bounds (net : Network) (powLimit : Uint256) (chain : IndexChain)
    (lo hi : ℕ) (hlimit : powLimit.toNat ≤ 2 ^ 236) (hlong : 24 < chain.length)
    (htargets : ∀ t ∈ pastTargets chain, 1 ≤ t ∧ t ≤ powLimit.toNat)
    (hlo : IsLeast {t | t ∈ pastTargets chain} lo)
    (hhi : IsGreatest {t | t ∈ pastTargets chain} hi) :
    ∃ s r, darkGravityTarget chain { consensusParams net with powLimit := powLimit } = some s
      ∧ darkGravityWave chain { consensusParams net with powLimit := powLimit } = some r
      ∧ lo / 3 ≤ s.bnNew.value ∧ s.bnNew.value ≤ 3 * hi ∧ s.bnNew.value ≤ powLimit.toNat
      ∧ r.products = s.products ∧ (∀ p ∈ s.products, p.exact < 2 ^ 256)
      ∧ (setCompact r.nBits).fNegative = false ∧ (setCompact r.nBits).fOverflow = false
      ∧ targetOf r.nBits ≤ powLimit.toNat := by
  have hle : hi ≤ powLimit.toNat := (htargets hi hhi.1).2
  have hlohi : lo ≤ hi := hlo.2 hhi.1
  obtain ⟨avg, n, havg, havg', hn, hn', s, hs, hexact, hvalue⟩ :=
    darkGravityTarget_exact lo hi chain { consensusParams net with powLimit := powLimit }
      (nPowTargetSpacing_eq net) hlong (le_trans hle hlimit) (fun t h => ⟨hlo.2 h, hhi.2 h⟩)
  obtain ⟨nBits, hencode, hneg, hover, hdecode⟩ := encode_spec s
  have hcap : s.bnNew.value ≤ powLimit.toNat := hvalue ▸ min_le_right _ _
  refine ⟨s, ⟨nBits, s.products⟩, hs, (darkGravityWave_eq hlong hs).trans hencode, ?_, ?_, hcap,
    rfl, hexact, hneg, hover, le_trans hdecode hcap⟩
  · rw [hvalue, le_min_iff]
    refine ⟨?_, le_trans (div_le_self _ _) (le_trans hlohi hle)⟩
    calc lo / 3 = lo * 1200 / (3 * 1200) := (Nat.mul_div_mul_right _ _ (by decide)).symm
      _ ≤ avg * n / 3600 := Nat.div_le_div_right (Nat.mul_le_mul havg hn)
  · rw [hvalue]
    refine le_trans (min_le_left _ _) (Nat.div_le_of_le_mul ?_)
    calc avg * n ≤ hi * 10800 := Nat.mul_le_mul havg' hn'
      _ = 3600 * (3 * hi) := by ring

/-- A chain of 25 blocks of the main network's first difficulty, all at time zero. -/
def flatChain : IndexChain := List.replicate 25 ⟨0, 0x1e0ffff0⟩

theorem darkGravityWave_bounds_flatChain :
    ∃ r, darkGravityWave flatChain (consensusParams .main) = some r
      ∧ targetOf r.nBits ≤ (consensusParams .main).powLimit.toNat := by
  have htargets : pastTargets flatChain = List.replicate 24 (targetOf 0x1e0ffff0) := rfl
  have hmem : ∀ t, t ∈ pastTargets flatChain ↔ t = targetOf 0x1e0ffff0 := by
    simp [htargets]
  have hbound : 1 ≤ targetOf 0x1e0ffff0
      ∧ targetOf 0x1e0ffff0 ≤ (consensusParams .main).powLimit.toNat := by decide +kernel
  obtain ⟨s, r, -, hr, -, -, -, -, -, -, -, hle⟩ := darkGravityWave_bounds .main
    (consensusParams .main).powLimit flatChain (targetOf 0x1e0ffff0) (targetOf 0x1e0ffff0)
    (by decide) (by decide) (fun t h => (hmem t).mp h ▸ hbound)
    ⟨(hmem _).mpr rfl, fun t h => ((hmem t).mp h).ge⟩
    ⟨(hmem _).mpr rfl, fun t h => ((hmem t).mp h).le⟩
  exact ⟨r, hr, hle⟩

end Binarium
