import Binarium.Pow.Retarget

set_option autoImplicit false

/-! # Retarget arithmetic on the shipped networks

Which multiplications of `GetNextWorkRequired` can wrap depends on the network: the limits of the
main and test networks leave 20 bits of room, the limit of the regression test network leaves one.
And `fPowNoRetargeting` is read in one place only, in `CalculateNextWorkRequired`, so the flag has no
effect on the minimum-difficulty exception, on Kimoto's rule and on dark gravity wave.

`getNextWorkRequired_wrapFree_iff` says exactly at which heights the products fit and at which
heights a network with that flag keeps the difficulty of the previous block. -/

namespace Binarium

open List Option Nat BaseUint

/-! ## The other rules -/

/-- The rule of Bitcoin never throws above its first interval and makes at most one product, which
    fits when the targets and the timespan are small. -/
theorem calculateNextWorkRequired_spec (pindexLast : IndexEntry) (nFirstBlockTime : ℤ)
    (params : ConsensusParams) (hspan : params.nPowTargetTimespan = 86400)
    (hretarget : params.fPowNoRetargeting = false) (hsmall : pindexLast.target.value ≤ 2 ^ 236) :
    ∃ r, calculateNextWorkRequired pindexLast nFirstBlockTime params = some r
      ∧ ∀ p ∈ r.products, p.exact < 2 ^ 256 := by
  have hrange := limitTimespan_range (pindexLast.getBlockTime - nFirstBlockTime)
    (by decide : ((86400 / 4 : ℕ) : ℤ) ≤ ((86400 * 4 : ℕ) : ℤ))
  rw [calculateNextWorkRequired, hretarget, hspan]
  simp only
  generalize limitTimespan (pindexLast.getBlockTime - nFirstBlockTime)
    ((86400 / 4 : ℕ) : ℤ) ((86400 * 4 : ℕ) : ℤ) = n at hrange ⊢
  obtain ⟨s, hs, hproducts, -⟩ :=
    retarget_spec ⟨pindexLast.target, []⟩ n 86400 params.powLimit (by decide) (by decide)
  obtain ⟨nBits, hencode, -⟩ := encode_spec s
  rw [hs, bind_some, hencode]
  refine ⟨_, rfl, ?_⟩
  intro p hp
  have hmem : p ∈ s.products := hp
  rw [hproducts, nil_append] at hmem
  rw [mem_singleton.mp hmem, Product.exact, toNat_ofInt_of_range (by omega) (by omega)]
  calc pindexLast.target.value * n.toNat ≤ 2 ^ 236 * 345600 :=
        Nat.mul_le_mul hsmall (by omega)
    _ < 2 ^ 256 := by norm_num

theorem proofOfWorkLimit_spec (params : ConsensusParams) :
    ∃ nBits, proofOfWorkLimit params = some ⟨nBits, []⟩ := by
  obtain ⟨nBits, hencode, -⟩ := encode_spec ⟨uintToArith256 params.powLimit, []⟩
  exact ⟨nBits, hencode⟩

theorem kimotoAverage_zero {i : ℕ} {prev target : ArithUint256} (hi : i ≠ 0) (hi64 : i < 2 ^ 64)
    (hprev : prev.value = 0) (htarget : target.value = 0) :
    ∃ avg, kimotoAverage i prev target = some avg ∧ avg.value = 0 := by
  unfold kimotoAverage
  split_ifs with h1 hge
  · obtain ⟨q, hq, hvalue⟩ := divide_value (target.sub prev) (arithOf i)
      (by rwa [value_arithOf hi64])
    rw [value_sub_of_le _ _ (by omega), hprev, htarget, Nat.zero_sub, Nat.zero_div]
      at hvalue
    refine ⟨_, by rw [hq, map_some], ?_⟩
    rw [value_add_of_lt _ _ (by rw [hvalue, hprev]; norm_num), hvalue, hprev]
  · rw [ge_iff] at hge
    omega
  · exact ⟨target, rfl, htarget⟩

variable (eventHorizon : ℕ → ℤ → ℕ → Bool)

theorem kimotoLoop_zero (params : ConsensusParams) (hmax : pastBlocksMax params = 4032) (i : ℕ)
    (hi : i ≠ 0) (s : KimotoState)
    (hs : s.pastDifficultyAverage.value = 0 ∧ s.pastRateActualSeconds = 0) (chain : IndexChain)
    (hchain : ∀ pindex ∈ chain, pindex.target.value = 0 ∧ pindex.nTime = 0) :
    ∃ s', kimotoLoop eventHorizon params 0 i s chain = some s'
      ∧ s'.pastDifficultyAverage.value = 0 ∧ s'.pastRateActualSeconds = 0 := by
  induction chain generalizing i s with
  | nil => exact ⟨s, rfl, hs⟩
  | cons blockReading prev ih =>
    obtain ⟨htarget, htime⟩ := hchain blockReading (by simp)
    rw [kimotoLoop]
    split_ifs
    · exact ⟨s, rfl, hs⟩
    · exact ⟨s, rfl, hs⟩
    · obtain ⟨avg, havg, hzero⟩ := kimotoAverage_zero hi (by omega) hs.1 htarget
      have hactual : (0 : ℤ) - blockReading.getBlockTime = 0 := by
        simp [IndexEntry.getBlockTime, htime]
      rw [havg, bind_some]
      simp only [hactual, lt_irrefl, if_false]
      split_ifs
      · exact ⟨_, rfl, hzero, rfl⟩
      · exact ih (i + 1) (by omega) _ ⟨hzero, rfl⟩ (fun p hp => hchain p (by simp [hp]))

/-! ## All rules together -/

/-- The heights at which Kimoto's rule decides. -/
def usesKimoto (params : ConsensusParams) (nHeight : ℕ) : Prop :=
  params.nPowKGWHeight ≤ nHeight + 1 ∧ nHeight + 1 < params.nPowDGWHeight

/-- The chains of a network up to a block at `nHeight`: all targets within its limit. -/
structure ChainAt (params : ConsensusParams) (nHeight : ℕ) (chain : IndexChain) : Prop where
  length_eq : chain.length = nHeight + 1
  target_le : ∀ pindex ∈ chain, pindex.target.value ≤ params.powLimit.toNat

variable {chain : IndexChain} {nHeight : ℕ} {params : ConsensusParams}

theorem mem_pastTargets {t : ℕ} (h : t ∈ pastTargets chain) :
    ∃ pindex ∈ chain, pindex.target.value = t := by
  obtain ⟨pindex, hmem, rfl⟩ := mem_map.mp h
  exact ⟨pindex, mem_of_mem_take hmem, rfl⟩

theorem darkGravityWave_wrapFree (hchain : ChainAt params nHeight chain)
    (hspacing : params.nPowTargetSpacing = 150) (hsmall : params.powLimit.toNat ≤ 2 ^ 236) :
    ∃ r, darkGravityWave chain params = some r ∧ ∀ p ∈ r.products, p.exact < 2 ^ 256 := by
  by_cases hlong : nPastBlocks < chain.length
  · have ht : ∀ t ∈ pastTargets chain, 0 ≤ t ∧ t ≤ params.powLimit.toNat := by
      intro t h
      obtain ⟨pindex, hmem, rfl⟩ := mem_pastTargets h
      exact ⟨zero_le _, hchain.target_le pindex hmem⟩
    obtain ⟨-, -, -, -, -, -, s, hs, hexact, -⟩ :=
      darkGravityTarget_exact 0 _ chain params hspacing hlong hsmall ht
    obtain ⟨nBits, hencode, -⟩ := encode_spec s
    exact ⟨_, (darkGravityWave_eq hlong hs).trans hencode, hexact⟩
  · obtain ⟨nBits, hlimit⟩ := proofOfWorkLimit_spec params
    rw [darkGravityWave, if_pos (by omega), hlimit]
    simp

/-- The rule of Bitcoin makes no product that wraps, if it may not retarget or the limit is small. -/
theorem getNextWorkRequiredBTC_wrapFree (hchain : ChainAt params nHeight chain) (nTime : BitVec 32)
    (hspan : params.nPowTargetTimespan = 86400) (hspacing : params.nPowTargetSpacing = 150)
    (hsmall : params.fPowNoRetargeting ∨ params.powLimit.toNat ≤ 2 ^ 236) :
    ∃ r, getNextWorkRequiredBTC chain nTime params = some r
      ∧ ∀ p ∈ r.products, p.exact < 2 ^ 256 := by
  obtain ⟨limitBits, hlimit⟩ := proofOfWorkLimit_spec params
  cases chain with
  | nil =>
    simp [getNextWorkRequiredBTC, hlimit]
  | cons pindexLast prev =>
    rw [getNextWorkRequiredBTC]
    split_ifs with hinterval
    · simp [hlimit]
    · simp [hlimit]
    · simp
    · have hdiv : params.difficultyAdjustmentInterval = 576 := by
        rw [ConsensusParams.difficultyAdjustmentInterval, hspan, hspacing]
      rw [hdiv] at hinterval ⊢
      have hfirst : 575 < (pindexLast :: prev).length := by
        rw [length_cons]
        omega
      rw [getElem?_eq_getElem hfirst, bind_some]
      by_cases hno : params.fPowNoRetargeting
      · rw [calculateNextWorkRequired, if_pos hno]
        simp
      · exact calculateNextWorkRequired_spec _ _ _ hspan (by simpa using hno)
          (le_trans (hchain.target_le _ (by simp)) (hsmall.resolve_left hno))

/-! ## Chains that go wrong -/

/-- A chain of equal blocks. -/
def constantChain (nHeight : ℕ) (nBits : BitVec 32) : IndexChain :=
  List.replicate (nHeight + 1) ⟨0, nBits⟩

theorem constantChain_chainAt {nBits : BitVec 32} (nHeight : ℕ)
    (h : targetOf nBits ≤ params.powLimit.toNat) :
    ChainAt params nHeight (constantChain nHeight nBits) := by
  refine ⟨length_replicate, fun pindex hmem => ?_⟩
  rwa [eq_of_mem_replicate hmem]

theorem pastTargets_constantChain {nBits : BitVec 32} {t : ℕ}
    (h : t ∈ pastTargets (constantChain nHeight nBits)) :
    targetOf nBits ≤ t ∧ t ≤ targetOf nBits := by
  obtain ⟨pindex, hmem, rfl⟩ := mem_pastTargets h
  rw [eq_of_mem_replicate hmem]
  exact ⟨le_rfl, le_rfl⟩

theorem targetOf_0x1f7fffff : targetOf 0x1f7fffff = 8388607 * 2 ^ 224 := by decide +kernel

/-- On the regression test network, with all blocks at this difficulty, the product with the
    timespan wraps, and the required difficulty changes. -/
theorem darkGravityWave_wraps (h : 24 ≤ nHeight) :
    ∃ r, darkGravityWave (constantChain nHeight 0x1f7fffff) (consensusParams .regtest) = some r
      ∧ (∃ p ∈ r.products, 2 ^ 256 ≤ p.exact) ∧ r.nBits ≠ 0x1f7fffff := by
  have hlong : nPastBlocks < (constantChain nHeight 0x1f7fffff).length := by
    rw [constantChain, length_replicate, nPastBlocks]
    omega
  obtain ⟨avg, n, hwithin, hn, hn', s, hs, hproducts, hvalue⟩ :=
    darkGravityTarget_spec (targetOf 0x1f7fffff) (targetOf 0x1f7fffff)
      (constantChain nHeight 0x1f7fffff) (consensusParams .regtest) rfl hlong
      (by rw [targetOf_0x1f7fffff]; norm_num) (fun t ht => pastTargets_constantChain ht)
  have havg : avg.bnNew.value = targetOf 0x1f7fffff := le_antisymm hwithin.upper hwithin.lower
  obtain ⟨nBits, hencode, -, -, hdecode⟩ := encode_spec s
  refine ⟨_, (darkGravityWave_eq hlong hs).trans hencode, ⟨⟨avg.bnNew, BitVec.ofNat 32 n⟩, ?_, ?_⟩,
    ?_⟩
  · rw [hproducts]
    exact mem_append_right _ (mem_singleton_self _)
  · rw [Product.exact, havg, targetOf_0x1f7fffff, BitVec.toNat_ofNat, mod_eq_of_lt (by omega)]
    calc 2 ^ 256 ≤ 8388607 * 2 ^ 224 * 1200 := by norm_num
      _ ≤ 8388607 * 2 ^ 224 * n := mul_le_mul_left _ hn
  · -- the wrapped product is below `2^256`, so the new target is far below the old one
    rintro rfl
    rw [hvalue, targetOf_0x1f7fffff] at hdecode
    omega

theorem targetOf_0x01000001 : targetOf 0x01000001 = 0 := by decide +kernel

theorem constantChain_cons (nHeight : ℕ) (nBits : BitVec 32) :
    constantChain nHeight nBits = ⟨0, nBits⟩ :: List.replicate nHeight ⟨0, nBits⟩ :=
  replicate_succ

/-- Kimoto's rule over zero targets, all at time zero: nothing is scaled. -/
theorem kimotoGravityWell_zero (hmax : pastBlocksMax params = 4032) (h0 : nHeight ≠ 0)
    (hmin : pastBlocksMin params ≤ nHeight) :
    kimotoGravityWell eventHorizon (constantChain nHeight 0x01000001) params = some ⟨0, []⟩ := by
  obtain ⟨s, hloop, hzero, hactual⟩ := kimotoLoop_zero eventHorizon params hmax
    1 (by decide) ⟨arithOf 0, 0, 0⟩ ⟨value_arithOf (by decide), rfl⟩
    (constantChain nHeight 0x01000001) (fun pindex hmem => by
      rw [eq_of_mem_replicate hmem]
      exact ⟨targetOf_0x01000001, rfl⟩)
  have hno : ¬ (s.pastRateActualSeconds ≠ 0 ∧ s.pastRateTargetSeconds ≠ 0) :=
    fun hne => hne.1 hactual
  have hgt : ¬ s.pastDifficultyAverage.gt (uintToArith256 params.powLimit) := by
    rw [gt_iff, hzero]
    exact not_lt_zero _
  have hscale : kimotoScale s params.powLimit = some ⟨s.pastDifficultyAverage, []⟩ := by
    rw [kimotoScale, if_neg hno, if_neg hgt]
  have hencode : encode ⟨s.pastDifficultyAverage, []⟩ = some ⟨0, []⟩ := by
    rw [encode, getCompact_eq, hzero]
    rfl
  have htime : (⟨0, 0x01000001⟩ : IndexEntry).getBlockTime = 0 := rfl
  have hshort : ¬ (nHeight = 0 ∨ nHeight < pastBlocksMin params) := by omega
  rw [constantChain_cons, kimotoGravityWell, ← constantChain_cons]
  simp only [length_replicate]
  rw [if_neg hshort, htime, hloop, bind_some, hscale, bind_some, hencode]

theorem getNextWorkRequiredBTC_late (nBits : BitVec 32) (h : (nHeight + 1) % 576 ≠ 0) :
    getNextWorkRequiredBTC (constantChain nHeight nBits) 301 (consensusParams .regtest)
      = some ⟨0x207fffff, []⟩ := by
  have hinterval : (nHeight + 1) % (consensusParams .regtest).difficultyAdjustmentInterval ≠ 0 := h
  have hlate : (((301 : BitVec 32).toNat : ℕ) : ℤ) > (⟨0, nBits⟩ : IndexEntry).getBlockTime
      + ((consensusParams .regtest).nPowTargetSpacing * 2 : ℕ) := by
    show (301 : ℤ) > 0 + 300
    decide
  have hbits : getCompact (uintToArith256 (consensusParams .regtest).powLimit) false
      = some 0x207fffff := by decide +kernel
  have hmin : (consensusParams .regtest).fPowAllowMinDifficultyBlocks := rfl
  rw [constantChain_cons, getNextWorkRequiredBTC]
  simp only [length_replicate]
  rw [if_pos hinterval, if_pos hmin, if_pos hlate, proofOfWorkLimit, encode, hbits, map_some]

/-- Outside of the retarget heights of the rule of Bitcoin every rule of the regression test network
    asks for other bits over some chain of equal blocks: dark gravity wave where its product wraps,
    the other two over zero targets in a non-canonical encoding. -/
theorem getNextWorkRequired_changes (h : ¬ ((nHeight + 1) % 576 = 0 ∧ nHeight + 1 < 15200)) :
    ∃ nBits, targetOf nBits ≤ (consensusParams .regtest).powLimit.toNat
      ∧ ∃ r, getNextWorkRequired eventHorizon (constantChain nHeight nBits) 301
        (consensusParams .regtest) = some r ∧ r.nBits ≠ nBits := by
  have hdgwHeight : (consensusParams .regtest).nPowDGWHeight = 34140 := rfl
  have hkgwHeight : (consensusParams .regtest).nPowKGWHeight = 15200 := rfl
  simp only [constantChain_cons, getNextWorkRequired, length_replicate]
  split_ifs
  · obtain ⟨r, hr, -, hne⟩ := darkGravityWave_wraps (by omega : 24 ≤ nHeight)
    exact ⟨_, by decide +kernel, r, hr, hne⟩
  · have hmin : pastBlocksMin (consensusParams .regtest) ≤ nHeight := by
      have h14 : pastBlocksMin (consensusParams .regtest) = 14 := rfl
      omega
    exact ⟨0x01000001, by decide +kernel, _,
      kimotoGravityWell_zero eventHorizon rfl (by omega) hmin, by decide⟩
  · exact ⟨0x01000001, by decide +kernel, _,
      getNextWorkRequiredBTC_late _ (fun h0 => h ⟨h0, by omega⟩), by decide⟩

/-! ## Exactly when the arithmetic is right -/

theorem powLimit_small {net : Network} (h : net ≠ .regtest) :
    (consensusParams net).powLimit.toNat ≤ 2 ^ 236 := by
  cases net with
  | main | test => decide
  | regtest => exact absurd rfl h

theorem nPowTargetTimespan_eq (net : Network) :
    (consensusParams net).nPowTargetTimespan = 86400 := by
  cases net <;> rfl

theorem getNextWorkRequired_wrapFree {net : Network}
    (h : net ≠ .regtest ∨ nHeight + 1 < (consensusParams net).nPowDGWHeight) (nTime : BitVec 32)
    (hchain : ChainAt (consensusParams net) nHeight chain)
    (hinteger : ¬ usesKimoto (consensusParams net) nHeight) :
    ∃ r, getNextWorkRequired eventHorizon chain nTime (consensusParams net) = some r
      ∧ ∀ p ∈ r.products, p.exact < 2 ^ 256 := by
  cases chain with
  | nil => exact absurd hchain.length_eq (by simp)
  | cons pindexLast prev =>
    have hprev : prev.length = nHeight := succ.inj hchain.length_eq
    rw [getNextWorkRequired, hprev]
    split_ifs with hdgw hkgw
    · exact darkGravityWave_wrapFree hchain (nPowTargetSpacing_eq net)
        (powLimit_small (h.resolve_right (by omega)))
    · exact absurd ⟨hkgw, by omega⟩ hinteger
    · refine getNextWorkRequiredBTC_wrapFree hchain nTime (nPowTargetTimespan_eq net)
        (nPowTargetSpacing_eq net) ?_
      by_cases hnet : net = .regtest
      · subst hnet
        exact .inl rfl
      · exact .inr (powLimit_small hnet)

/-- At a retarget height of the rule of Bitcoin the flag is honoured. -/
theorem getNextWorkRequired_noRetargeting (hflag : params.fPowNoRetargeting)
    (horder : params.nPowKGWHeight ≤ params.nPowDGWHeight) {pindexLast : IndexEntry}
    {prev : IndexChain} (nTime : BitVec 32)
    (hinterval : (prev.length + 1) % params.difficultyAdjustmentInterval = 0)
    (hearly : prev.length + 1 < params.nPowKGWHeight) :
    getNextWorkRequired eventHorizon (pindexLast :: prev) nTime params
      = some ⟨pindexLast.nBits, []⟩ := by
  have hle : params.difficultyAdjustmentInterval ≤ prev.length + 1 :=
    le_of_dvd (succ_pos _) (dvd_of_mod_eq_zero hinterval)
  have hfirst : params.difficultyAdjustmentInterval - 1 < (pindexLast :: prev).length := by
    rw [length_cons]
    omega
  rw [getNextWorkRequired, if_neg (by omega), if_neg (by omega), getNextWorkRequiredBTC,
    if_neg (by simpa using hinterval), getElem?_eq_getElem hfirst, bind_some,
    calculateNextWorkRequired, if_pos hflag]

/-- **Retarget arithmetic on the shipped networks.** The products of the integer rules fit 256 bits,
    over all chains up to a height, exactly if the network is not the regression test network or the
    height is before dark gravity wave. On a network with the no-retargeting flag the required bits
    are those of the previous block, over all chains up to a height, exactly if this is a retarget
    height of the rule of Bitcoin before Kimoto's rule starts. -/
theorem getNextWorkRequired_wrapFree_iff (eventHorizon : ℕ → ℤ → ℕ → Bool) (net : Network)
    (nHeight : ℕ) :
    ((∀ chain nTime, ChainAt (consensusParams net) nHeight chain →
        ¬ usesKimoto (consensusParams net) nHeight →
        ∃ r, getNextWorkRequired eventHorizon chain nTime (consensusParams net) = some r
          ∧ ∀ p ∈ r.products, p.exact < 2 ^ 256)
      ↔ net ≠ .regtest ∨ nHeight + 1 < (consensusParams net).nPowDGWHeight)
    ∧ ((consensusParams net).fPowNoRetargeting = true →
      ((∀ pindexLast prev nTime, ChainAt (consensusParams net) nHeight (pindexLast :: prev) →
          ∃ r, getNextWorkRequired eventHorizon (pindexLast :: prev) nTime (consensusParams net)
            = some r ∧ r.nBits = pindexLast.nBits)
        ↔ (nHeight + 1) % 576 = 0 ∧ nHeight + 1 < (consensusParams net).nPowKGWHeight)) := by
  refine ⟨⟨fun hall => ?_, fun h chain nTime => getNextWorkRequired_wrapFree eventHorizon h nTime⟩,
    fun hflag => ?_⟩
  · -- on the regression test network dark gravity wave has a chain whose product wraps
    by_contra hno
    rw [not_or, not_not, not_lt] at hno
    obtain ⟨rfl, hdgw⟩ := hno
    have hdgw' : 34140 ≤ nHeight + 1 := hdgw
    have hchain : ChainAt (consensusParams .regtest) nHeight (constantChain nHeight 0x1f7fffff) :=
      constantChain_chainAt nHeight (by decide +kernel)
    obtain ⟨r, hr, ⟨p, hp, hwrap⟩, -⟩ := darkGravityWave_wraps (by omega : 24 ≤ nHeight)
    obtain ⟨r', hr', hexact⟩ := hall _ 0 hchain (fun hkimoto => by
      have := hkimoto.2
      omega)
    rw [constantChain_cons, getNextWorkRequired, length_replicate, if_pos hdgw,
      ← constantChain_cons, hr, Option.some.injEq] at hr'
    subst hr'
    exact absurd (hexact p hp) (by omega)
  · have hnet : net = .regtest := by
      cases net with
      | main | test => exact absurd hflag (by decide)
      | regtest => rfl
    subst hnet
    constructor
    · intro hall
      by_contra hno
      obtain ⟨nBits, hle, r, hr, hne⟩ := getNextWorkRequired_changes eventHorizon hno
      have hchain := constantChain_chainAt nHeight hle
      rw [constantChain_cons] at hr hchain
      obtain ⟨r', hr', heq⟩ := hall _ _ 301 hchain
      rw [hr, Option.some.injEq] at hr'
      subst hr'
      exact hne heq
    · rintro ⟨hinterval, hearly⟩ pindexLast prev nTime hchain
      have hprev : prev.length = nHeight := succ.inj hchain.length_eq
      refine ⟨_, getNextWorkRequired_noRetargeting eventHorizon hflag (by decide) nTime ?_ ?_, rfl⟩
      · rwa [hprev]
      · rwa [hprev]

/-- On the regression test network, at height 34140 and with all blocks at the difficulty
    `0x1f7fffff`, dark gravity wave makes a product above `2^256` and asks for other bits, although
    the network does not retarget. -/
theorem getNextWorkRequired_wraps_on_regtest :
    ∃ r, getNextWorkRequired (fun _ _ _ => false) (constantChain 34139 0x1f7fffff) 0
        (consensusParams .regtest) = some r
      ∧ (consensusParams .regtest).fPowNoRetargeting = true
      ∧ ChainAt (consensusParams .regtest) 34139 (constantChain 34139 0x1f7fffff)
      ∧ (∃ p ∈ r.products, 2 ^ 256 ≤ p.exact) ∧ r.nBits ≠ 0x1f7fffff := by
  obtain ⟨r, hr, hwrap, hne⟩ := darkGravityWave_wraps (by decide : 24 ≤ 34139)
  refine ⟨r, ?_, rfl, constantChain_chainAt _ (by decide +kernel), hwrap, hne⟩
  rw [constantChain_cons, getNextWorkRequired, length_replicate, if_pos (by decide),
    ← constantChain_cons, hr]

end Binarium
