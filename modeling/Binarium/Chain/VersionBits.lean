import Binarium.ChainParams
import Binarium.Lib.Median
import Mathlib.Algebra.Ring.Int.Defs

set_option autoImplicit false

/-! # Version bits (`versionbits.h`, `versionbits.cpp`)

A rule change goes through the states of BIP 9, one step at the end of every period. `GetStateFor`
computes the state of a block by walking back, period by period, to one that is in the cache, and then
forward again. It also stops at a period whose median time is before the start: there the state is
DEFINED, because the median time past of the earlier blocks is no later.

A pointer into the block index is a block with its ancestors; the empty list is the null pointer. -/

namespace Binarium.VersionBits

open List Function

/-! ## The block index -/

/-- What is read of a block. -/
structure VersionedBlock where
  hash : Uint256
  nVersion : BitVec 32
  nTime : BitVec 32
deriving DecidableEq

/-- A block and its ancestors, down to the genesis block. -/
abbrev IndexPtr := List VersionedBlock

variable (net : Network) (pindex : IndexPtr)

/-- `nHeight`. -/
def height : ℤ := pindex.length - 1

/-- `CBlockIndex::GetAncestor`. -/
def getAncestor (height' : ℤ) : IndexPtr :=
  if height' > height pindex ∨ height' < 0 then [] else pindex.drop (height pindex - height').toNat

/-- `GetBlockTime()` of the blocks. -/
def blockTimes : List ℤ := pindex.map fun block => (block.nTime.toNat : ℤ)

/-- `CBlockIndex::GetMedianTimePast`. -/
def getMedianTimePast : ℤ := Median.median ((blockTimes pindex).take 11)

/-! ## Threshold conditions -/

/-- `ThresholdState`. -/
inductive ThresholdState where
  | defined | started | lockedIn | active | failed
deriving DecidableEq

/-- `AbstractThresholdConditionChecker`: the virtual functions, for given parameters. -/
structure Checker where
  condition : IndexPtr → Bool
  beginTime : ℤ
  endTime : ℤ
  period : ℕ
  threshold : ℕ

/-- `ThresholdConditionCache`. -/
abbrev Cache := IndexPtr → Option ThresholdState

/-- The counting loop: so many blocks from `pindexCount` on. `none` is an access by the null pointer. -/
def countLoop (condition : IndexPtr → Bool) : ℕ → IndexPtr → ℕ → Option ℕ
  | 0, _, count => some count
  | _ + 1, [], _ => none
  | n + 1, block :: pprev, count =>
    countLoop condition n pprev (if condition (block :: pprev) then count + 1 else count)

open Nat

/-- The `switch` over the state of the period that ends with `pindexPrev`. -/
def stateNext (checker : Checker) (state : ThresholdState) (pindexPrev : IndexPtr) :
    Option ThresholdState :=
  match state with
  | .defined =>
    if getMedianTimePast pindexPrev ≥ checker.endTime then some .failed
    else if getMedianTimePast pindexPrev ≥ checker.beginTime then some .started
    else some .defined
  | .started =>
    if getMedianTimePast pindexPrev ≥ checker.endTime then some .failed
    else (countLoop checker.condition checker.period pindexPrev 0).map fun count =>
      if count ≥ checker.threshold then .lockedIn else .started
  | .lockedIn => some .active
  | .failed => some .failed
  | .active => some .active

/-- The walk back, for at most so many rounds: the cache, the block whose state is known, and
    `vToCompute` with its last element first. `none` means that more rounds are needed. -/
def walkBack (checker : Checker) : ℕ → Cache → IndexPtr → List IndexPtr →
    Option (Cache × IndexPtr × List IndexPtr)
  | 0, _, _, _ => none
  | rounds + 1, cache, pindexPrev, vToCompute =>
    if (cache pindexPrev).isSome then some (cache, pindexPrev, vToCompute)
    else if pindexPrev = [] then
      some (Function.update cache [] (some .defined), pindexPrev, vToCompute)
    else if getMedianTimePast pindexPrev < checker.beginTime then
      some (Function.update cache pindexPrev (some .defined), pindexPrev, vToCompute)
    else
      walkBack checker rounds cache (getAncestor pindexPrev (height pindexPrev - checker.period))
        (pindexPrev :: vToCompute)

/-- The walk forward. -/
def walkForward (checker : Checker) : List IndexPtr → Cache → ThresholdState →
    Option (Cache × ThresholdState)
  | [], cache, state => some (cache, state)
  | pindexPrev :: vToCompute, cache, state =>
    (stateNext checker state pindexPrev).bind fun state =>
      walkForward checker vToCompute (Function.update cache pindexPrev (some state)) state

/-- The last block of the last full period. -/
def periodEnd (checker : Checker) (pindexPrev : IndexPtr) : IndexPtr :=
  if pindexPrev = [] then []
  else getAncestor pindexPrev (height pindexPrev - (height pindexPrev + 1) % checker.period)

/-- `AbstractThresholdConditionChecker::GetStateFor`, with the cache it leaves. Every round of the walk
    back goes to an earlier block. -/
def getStateFor (checker : Checker) (cache : Cache) (pindexPrev : IndexPtr) :
    Option (Cache × ThresholdState) := do
  let pindexPrev := periodEnd checker pindexPrev
  let (cache, pindexPrev, vToCompute) ← walkBack checker (pindexPrev.length + 1) cache pindexPrev []
  -- The assertion that the state is known.
  let state ← cache pindexPrev
  walkForward checker vToCompute cache state

/-- Queries that share a cache, one after the other. -/
def runQueries (checker : Checker) : Cache → List IndexPtr → Option (List ThresholdState)
  | _, [] => some []
  | cache, query :: queries => do
    let (cache, state) ← getStateFor checker cache query
    let states ← runQueries checker cache queries
    some (state :: states)

/-! ## The definition without a cache

From DEFINED at the genesis block on, one transition at the end of every period. -/

/-- The transition at the end of a period. -/
def transition (checker : Checker) (state : ThresholdState) (last : IndexPtr) : ThresholdState :=
  let signalling := (List.range checker.period).countP fun i => checker.condition (last.drop i)
  match state with
  | .defined =>
    if checker.endTime ≤ getMedianTimePast last then .failed
    else if checker.beginTime ≤ getMedianTimePast last then .started
    else .defined
  | .started =>
    if checker.endTime ≤ getMedianTimePast last then .failed
    else if checker.threshold ≤ signalling then .lockedIn
    else .started
  | .lockedIn => .active
  | .failed => .failed
  | .active => .active

/-- The state after so many periods, the last of which ends with the block. -/
def stateAfter (checker : Checker) : ℕ → IndexPtr → ThresholdState
  | 0, _ => .defined
  | periods + 1, last =>
    transition checker (stateAfter checker periods (last.drop checker.period)) last

/-- The state of the block on top of the given one. -/
def thresholdState (checker : Checker) (pindexPrev : IndexPtr) : ThresholdState :=
  stateAfter checker (pindexPrev.length / checker.period)
    (pindexPrev.drop (pindexPrev.length % checker.period))

/-- The states that may follow. -/
def ThresholdState.precedes : ThresholdState → ThresholdState → Bool
  | .defined, _ => true
  | .started, state => state != .defined
  | .lockedIn, state => state == .lockedIn || state == .active
  | .active, state => state == .active
  | .failed, state => state == .failed

/-- A period is not empty, and the start is not after the timeout. -/
structure Checker.Valid (checker : Checker) : Prop where
  period_pos : 0 < checker.period
  begin_le_end : checker.beginTime ≤ checker.endTime

/-- The time of every block exceeds the median time past of its parent. -/
def TimesOk : Prop :=
  ∀ block pprev, block :: pprev <:+ pindex → pprev ≠ [] →
    getMedianTimePast pprev < (block.nTime.toNat : ℤ)

/-! ## Pieces of the code -/

theorem countLoop_eq (condition : IndexPtr → Bool) (n : ℕ) :
    ∀ (pindex : IndexPtr) (count : ℕ), n ≤ pindex.length →
      countLoop condition n pindex count
        = some (count + (List.range n).countP fun i => condition (pindex.drop i)) := by
  induction n with
  | zero => exact fun _ _ _ => rfl
  | succ n ih =>
    rintro (_ | ⟨block, pprev⟩) count hle
    · simp at hle
    · rw [countLoop, ih _ _ (le_of_succ_le_succ hle), range_succ_eq_map, countP_cons, countP_map]
      simp only [comp_def, drop_succ_cons, drop_zero]
      congr 1
      split <;> omega

theorem stateNext_eq (checker : Checker) (state : ThresholdState) {last : IndexPtr}
    (h : checker.period ≤ last.length) :
    stateNext checker state last = some (transition checker state last) := by
  unfold stateNext transition
  cases state with
  | started =>
    dsimp only
    rw [countLoop_eq _ _ _ _ h, Nat.zero_add, Option.map_some, ← apply_ite some]
  | defined => rw [← apply_ite some, ← apply_ite some]
  | _ => rfl

theorem getAncestor_sub (n : ℕ) : getAncestor pindex (height pindex - n) = pindex.drop n := by
  unfold getAncestor height
  split
  next h => rw [drop_of_length_le (by omega)]
  next h =>
    simp

theorem periodEnd_eq (checker : Checker) (pindexPrev : IndexPtr) :
    periodEnd checker pindexPrev = pindexPrev.drop (pindexPrev.length % checker.period) := by
  unfold periodEnd
  split
  next h => rw [h, drop_nil]
  next h =>
    have hmod : (height pindexPrev + 1) % (checker.period : ℤ)
        = ((pindexPrev.length % checker.period : ℕ) : ℤ) := by simp [height]
    rw [hmod, getAncestor_sub]

/-! ## Median times do not fall -/

theorem TimesOk.of_suffix {a p : IndexPtr} (h : TimesOk p) (hsuffix : a <:+ p) : TimesOk a :=
  fun block pprev hblock => h block pprev (hblock.trans hsuffix)

theorem timesOk_cons {block : VersionedBlock} {pprev : IndexPtr}
    (hblock : pprev ≠ [] → getMedianTimePast pprev < (block.nTime.toNat : ℤ)) (h : TimesOk pprev) :
    TimesOk (block :: pprev) := by
  intro block' pprev' hsuffix hne
  rcases suffix_cons_iff.mp hsuffix with heq | hbelow
  · cases heq
    exact hblock hne
  · exact h block' pprev' hbelow hne

theorem getMedianTimePast_le_cons {block : VersionedBlock} {pprev : IndexPtr}
    (h : TimesOk (block :: pprev)) (hpprev : pprev ≠ []) :
    getMedianTimePast pprev ≤ getMedianTimePast (block :: pprev) :=
  Median.median_take_le (by decide) (by simpa [blockTimes] using hpprev)
    (h block pprev (suffix_refl _) hpprev)

/-- **The median time past of an ancestor** is not later. -/
theorem getMedianTimePast_le {a p : IndexPtr} (hsuffix : a <:+ p) (ha : a ≠ []) (h : TimesOk p) :
    getMedianTimePast a ≤ getMedianTimePast p := by
  obtain ⟨above, rfl⟩ := hsuffix
  induction above with
  | nil => exact le_refl _
  | cons block above ih =>
    have hpprev : above ++ a ≠ [] := append_ne_nil_of_right_ne_nil _ ha
    exact le_trans (ih (h.of_suffix (suffix_cons ..))) (getMedianTimePast_le_cons h hpprev)

/-! ## The definition, block by block -/

section Periods

variable {checker : Checker} (hvalid : checker.Valid)
include hvalid

theorem thresholdState_periodEnd (pindexPrev : IndexPtr) :
    thresholdState checker (pindexPrev.drop (pindexPrev.length % checker.period))
      = thresholdState checker pindexPrev := by
  have hmul : pindexPrev.length - pindexPrev.length % checker.period
      = checker.period * (pindexPrev.length / checker.period) := by
    have hdiv := Nat.div_add_mod pindexPrev.length checker.period
    omega
  rw [thresholdState, length_drop, hmul, Nat.mul_div_cancel_left _ hvalid.period_pos,
    Nat.mul_mod_right, drop_zero]
  rfl

theorem thresholdState_of_dvd {last : IndexPtr} (hne : last ≠ [])
    (hlast : last.length % checker.period = 0) :
    checker.period ≤ last.length ∧
      thresholdState checker last
        = transition checker (thresholdState checker (last.drop checker.period)) last := by
  have hpos := hvalid.period_pos
  obtain ⟨_ | j, hk⟩ := Nat.dvd_of_mod_eq_zero hlast
  · exact absurd (length_eq_zero_iff.mp hk) hne
  · have hstep : checker.period * (j + 1) = checker.period * j + checker.period := Nat.mul_succ ..
    have hbefore : (last.drop checker.period).length = checker.period * j := by
      rw [length_drop, hk]
      omega
    refine ⟨by omega, ?_⟩
    rw [thresholdState, thresholdState, hlast, hbefore, Nat.mul_mod_right, hk,
      Nat.mul_div_cancel_left _ hpos, Nat.mul_div_cancel_left _ hpos, drop_zero, drop_zero,
      stateAfter]

/-- **The cut-off.** Before the start the state is DEFINED. -/
theorem thresholdState_of_lt (periods : ℕ) :
    ∀ {last : IndexPtr}, last.length = checker.period * periods → TimesOk last →
      (last ≠ [] → getMedianTimePast last < checker.beginTime) →
      thresholdState checker last = .defined := by
  have hpos := hvalid.period_pos
  induction periods with
  | zero =>
    intro last hlength _ _
    simp [length_eq_zero_iff.mp hlength, thresholdState, stateAfter]
  | succ periods ih =>
    intro last hlength htimes hbefore
    have hstep : checker.period * (periods + 1) = checker.period * periods + checker.period :=
      mul_succ ..
    have hne : last ≠ [] := ne_nil_of_length_pos (by omega)
    have hlt := hbefore hne
    have hle := hvalid.begin_le_end
    obtain ⟨-, htransition⟩ := thresholdState_of_dvd hvalid hne (by rw [hlength, mul_mod_right])
    have hsuffix := drop_suffix checker.period last
    have hprevious := ih (by rw [length_drop, hlength]; omega) (htimes.of_suffix hsuffix)
      (fun hdrop => lt_of_le_of_lt (getMedianTimePast_le hsuffix hdrop htimes) hlt)
    rw [htransition, hprevious, transition, if_neg (by omega), if_neg (by omega)]

end Periods

/-! ## The cache -/

/-- Everything in the cache is right. -/
def CacheOk (checker : Checker) (cache : Cache) : Prop :=
  ∀ pindex state, cache pindex = some state → state = thresholdState checker pindex

theorem CacheOk.update {checker : Checker} {cache : Cache} (h : CacheOk checker cache)
    {pindex : IndexPtr} {state : ThresholdState} (hstate : state = thresholdState checker pindex) :
    CacheOk checker (update cache pindex (some state)) := by
  intro pindex' state' hfound
  by_cases heq : pindex' = pindex
  · subst heq
    rw [update_self] at hfound
    rw [← Option.some.inj hfound, hstate]
  · exact h pindex' state' (by rwa [update_of_ne heq] at hfound)

/-- The part of `GetStateFor` after the first block is chosen. -/
def compute (checker : Checker) (rounds : ℕ) (cache : Cache) (pindexPrev : IndexPtr)
    (vToCompute : List IndexPtr) : Option (Cache × ThresholdState) :=
  (walkBack checker rounds cache pindexPrev vToCompute).bind fun walked =>
    (walked.1 walked.2.1).bind fun state => walkForward checker walked.2.2 walked.1 state

section

variable {checker : Checker} (hvalid : checker.Valid)

include hvalid

/-- **The two walks**: whatever is in the cache, the walk forward takes up what is left to compute with
    the state of the block, and with a cache that is right. -/
theorem compute_eq (rounds : ℕ) :
    ∀ {cache : Cache} {last : IndexPtr} (vToCompute : List IndexPtr), CacheOk checker cache →
      TimesOk last → last.length % checker.period = 0 → last.length < rounds →
      ∃ cache', CacheOk checker cache' ∧
        compute checker rounds cache last vToCompute
          = walkForward checker vToCompute cache' (thresholdState checker last) := by
  induction rounds with
  | zero => simp
  | succ rounds ih =>
    intro cache last vToCompute hcache htimes hlast hrounds
    obtain ⟨periods, hperiods⟩ := dvd_of_mod_eq_zero hlast
    have hdefined := thresholdState_of_lt hvalid periods hperiods htimes
    rw [compute, walkBack]
    split_ifs with hknown hnull hbefore
    · obtain ⟨state, hstate⟩ := Option.isSome_iff_exists.mp hknown
      exact ⟨cache, hcache, by simp [hstate, hcache last state hstate]⟩
    · exact ⟨_, hcache.update (hdefined (absurd hnull)).symm, by
        rw [hdefined (absurd hnull), hnull]; simp⟩
    · exact ⟨_, hcache.update (hdefined fun _ => hbefore).symm, by simp [hdefined fun _ => hbefore]⟩
    · have hpos := hvalid.period_pos
      obtain ⟨hle, htransition⟩ := thresholdState_of_dvd hvalid hnull hlast
      have hdrop : (last.drop checker.period).length % checker.period = 0 := by
        rwa [length_drop, ← mod_eq_sub_mod hle]
      obtain ⟨cache', hcache', hcompute⟩ := ih (last :: vToCompute) hcache
        (htimes.of_suffix (drop_suffix checker.period last)) hdrop
        (by rw [length_drop]; omega)
      refine ⟨_, hcache'.update htransition.symm, ?_⟩
      rw [getAncestor_sub]
      rw [compute] at hcompute
      rw [hcompute, walkForward, stateNext_eq checker _ hle, Option.bind_some, ← htransition]

/-- **One query** on a cache that is right. -/
theorem getStateFor_eq {cache : Cache}
    (hcache : CacheOk checker cache) {query : IndexPtr} (htimes : TimesOk query) :
    ∃ cache', CacheOk checker cache' ∧
      getStateFor checker cache query = some (cache', thresholdState checker query) := by
  have hlast : (query.drop (query.length % checker.period)).length % checker.period = 0 := by
    rw [length_drop, ← div_mul_self_eq_mod_sub_self, mul_mod_left]
  obtain ⟨cache', hcache', hcompute⟩ := compute_eq hvalid _ [] hcache
    (htimes.of_suffix (drop_suffix _ query)) hlast (lt_succ_self _)
  refine ⟨cache', hcache', ?_⟩
  rw [thresholdState_periodEnd hvalid] at hcompute
  rwa [getStateFor, periodEnd_eq]

/-- **Any queries**, from any cache that is right. -/
theorem runQueries_eq (queries : List IndexPtr) :
    ∀ {cache : Cache}, CacheOk checker cache → (∀ query ∈ queries, TimesOk query) →
      runQueries checker cache queries = some (queries.map (thresholdState checker)) := by
  induction queries with
  | nil => exact fun _ _ => rfl
  | cons query queries ih =>
    intro cache hcache htimes
    rw [forall_mem_cons] at htimes
    obtain ⟨cache', hcache', hstate⟩ := getStateFor_eq hvalid hcache htimes.1
    simp [runQueries, hstate, ih hcache' htimes.2]

end

/-! ## States move forward -/

theorem ThresholdState.precedes_refl (s : ThresholdState) : s.precedes s := by
  cases s <;> rfl

theorem ThresholdState.precedes_trans {a b c : ThresholdState} (hab : a.precedes b)
    (hbc : b.precedes c) : a.precedes c := by
  revert hab hbc
  cases a <;> cases b <;> cases c <;> decide

theorem precedes_transition (checker : Checker) (state : ThresholdState) (last : IndexPtr) :
    state.precedes (transition checker state last) := by
  unfold transition
  cases state with
  | started =>
    dsimp only
    split_ifs <;> rfl
  | _ => rfl

/-- **One block more.** -/
theorem precedes_cons {checker : Checker} (hvalid : checker.Valid) (block : VersionedBlock)
    (pprev : IndexPtr) :
    (thresholdState checker pprev).precedes (thresholdState checker (block :: pprev)) := by
  have hpos := hvalid.period_pos
  have hdiv := Nat.div_add_mod pprev.length checker.period
  have hmod := Nat.mod_lt pprev.length hpos
  by_cases hend : pprev.length % checker.period + 1 = checker.period
  · -- The block ends a period.
    have hlast : (block :: pprev).length % checker.period = 0 := by
      rw [length_cons, ← Nat.mod_add_mod, hend, Nat.mod_self]
    obtain ⟨-, htransition⟩ := thresholdState_of_dvd hvalid (cons_ne_nil block pprev) hlast
    have hdrop : (block :: pprev).drop checker.period
        = pprev.drop (pprev.length % checker.period) := by
      rw [← hend, drop_succ_cons, hend]
    rw [htransition, hdrop, thresholdState_periodEnd hvalid]
    exact precedes_transition checker _ _
  · -- It is in the same period.
    have hlength : (block :: pprev).length
        = checker.period * (pprev.length / checker.period)
          + (pprev.length % checker.period + 1) := by
      rw [length_cons]
      omega
    have hlt : pprev.length % checker.period + 1 < checker.period := by omega
    rw [thresholdState.eq_1 _ (block :: pprev), hlength, Nat.mul_add_div hpos, Nat.div_eq_of_lt hlt,
      Nat.add_zero, Nat.mul_add_mod, Nat.mod_eq_of_lt hlt, drop_succ_cons]
    exact ThresholdState.precedes_refl _

/-- **Along a chain.** -/
theorem precedes_of_suffix {checker : Checker} (hvalid : checker.Valid) {a p : IndexPtr}
    (hsuffix : a <:+ p) : (thresholdState checker a).precedes (thresholdState checker p) := by
  obtain ⟨above, rfl⟩ := hsuffix
  induction above with
  | nil => exact ThresholdState.precedes_refl _
  | cons block above ih => exact ThresholdState.precedes_trans ih (precedes_cons hvalid block _)

/-! ## The checkers of the program -/

/-- `Consensus::DeploymentPos`. -/
inductive DeploymentPos where
  | testdummy | csv | dip0001
deriving DecidableEq

/-- `BIP9Deployment`; 0 where the parameters leave the window and the threshold out. -/
structure BIP9Deployment where
  bit : ℕ
  nStartTime : ℤ
  nTimeout : ℤ
  nWindowSize : ℕ
  nThreshold : ℕ

/-- `vDeployments` of the networks. -/
def deployment : Network → DeploymentPos → BIP9Deployment
  | .main, .testdummy => ⟨28, 1199145601, 1230767999, 0, 0⟩
  | .main, .csv => ⟨0, 1486252800, 1517788800, 0, 0⟩
  | .main, .dip0001 => ⟨1, 1508025600, 1539561600, 4032, 3226⟩
  | .test, .testdummy => ⟨28, 1199145601, 1230767999, 0, 0⟩
  | .test, .csv => ⟨0, 1506556800, 1538092800, 0, 0⟩
  | .test, .dip0001 => ⟨1, 1505692800, 1537228800, 100, 50⟩
  | .regtest, .testdummy => ⟨28, 0, 999999999999, 0, 0⟩
  | .regtest, .csv => ⟨0, 0, 999999999999, 0, 0⟩
  | .regtest, .dip0001 => ⟨1, 0, 999999999999, 0, 0⟩

/-- `nMinerConfirmationWindow`. -/
def nMinerConfirmationWindow : Network → ℕ
  | .main => 2016
  | .test => 2016
  | .regtest => 144

/-- `nRuleChangeActivationThreshold`. -/
def nRuleChangeActivationThreshold : Network → ℕ
  | .main => 1916
  | .test => 1512
  | .regtest => 108

def VERSIONBITS_TOP_BITS : BitVec 32 := 0x20000000

def VERSIONBITS_TOP_MASK : BitVec 32 := 0xE0000000

/-- `VersionBitsConditionChecker::Mask`. -/
def versionBitsMask (pos : DeploymentPos) : BitVec 32 :=
  1 <<< (deployment net pos).bit

/-- `VersionBitsConditionChecker`. -/
def versionBitsChecker (pos : DeploymentPos) : Checker where
  condition pindex := (pindex.head?.map VersionedBlock.nVersion).any fun nVersion =>
    nVersion &&& VERSIONBITS_TOP_MASK == VERSIONBITS_TOP_BITS
      && nVersion &&& versionBitsMask net pos != 0
  beginTime := (deployment net pos).nStartTime
  endTime := (deployment net pos).nTimeout
  period := if (deployment net pos).nWindowSize ≠ 0 then (deployment net pos).nWindowSize
    else nMinerConfirmationWindow net
  threshold := if (deployment net pos).nThreshold ≠ 0 then (deployment net pos).nThreshold
    else nRuleChangeActivationThreshold net

/-- `ComputeBlockVersion` with `fAssumeMasternodeIsUpgraded`; the states it asks for are those of the
    definition. -/
def computeBlockVersion (pindexPrev : IndexPtr) : BitVec 32 :=
  [DeploymentPos.testdummy, .csv, .dip0001].foldl (fun nVersion pos =>
    let state := thresholdState (versionBitsChecker net pos) pindexPrev
    if state = .lockedIn ∨ state = .started then nVersion ||| versionBitsMask net pos else nVersion)
    VERSIONBITS_TOP_BITS

/-- `WarningBitsConditionChecker`. -/
def warningBitsChecker (bit : ℕ) : Checker where
  condition pindex := (pindex.head?.map VersionedBlock.nVersion).any fun nVersion =>
    nVersion &&& VERSIONBITS_TOP_MASK == VERSIONBITS_TOP_BITS && (nVersion >>> bit) &&& 1 != 0
      && (computeBlockVersion net pindex.tail >>> bit) &&& 1 == 0
  beginTime := 0
  endTime := 2 ^ 63 - 1
  period := nMinerConfirmationWindow net
  threshold := nRuleChangeActivationThreshold net

theorem versionBitsChecker_valid (pos : DeploymentPos) : (versionBitsChecker net pos).Valid := by
  constructor <;> cases net <;> cases pos <;> decide

theorem warningBitsChecker_valid (bit : ℕ) : (warningBitsChecker net bit).Valid := by
  constructor
  · cases net <;> exact Nat.lt_of_sub_eq_succ rfl
  · show (0 : ℤ) ≤ 2 ^ 63 - 1
    decide

/-- **The cache changes no answer.** The checkers of the program have a period and a start that is not
    after the timeout. For every such checker, any number of queries that share a cache are answered as
    the definition says, period by period from DEFINED at the genesis block, on every chain whose block
    times exceed the median time past of the parent. Along every chain the states move forward, and
    ACTIVE and FAILED are final. -/
theorem getStateFor_memoFree :
    (∀ net pos, (versionBitsChecker net pos).Valid) ∧
    (∀ net bit, (warningBitsChecker net bit).Valid) ∧
    ∀ checker : Checker, checker.Valid →
      (∀ queries : List IndexPtr, (∀ query ∈ queries, TimesOk query) →
        runQueries checker (fun _ => none) queries
          = some (queries.map (thresholdState checker))) ∧
      ∀ a p : IndexPtr, a <:+ p →
        (thresholdState checker a).precedes (thresholdState checker p) = true := by
  refine ⟨versionBitsChecker_valid, warningBitsChecker_valid, fun checker hvalid => ⟨?_, ?_⟩⟩
  · exact fun queries htimes => runQueries_eq hvalid queries (by simp [CacheOk]) htimes
  · exact fun a p hsuffix => precedes_of_suffix hvalid hsuffix

/-- Periods of two blocks, one of which has to signal. -/
def shortChecker (beginTime endTime : ℤ) : Checker :=
  ⟨fun pindex => pindex.head?.any fun block => block.nVersion != 0, beginTime, endTime, 2, 1⟩

/-- Seven blocks, the fifth of which signals. -/
def signallingChain : IndexPtr :=
  [⟨7, 0, 700⟩, ⟨6, 0, 600⟩, ⟨5, 1, 500⟩, ⟨4, 0, 400⟩, ⟨3, 0, 300⟩, ⟨2, 0, 200⟩, ⟨1, 0, 100⟩]

theorem timesOk_signallingChain : TimesOk signallingChain := by
  have hnil : TimesOk [] := fun _ _ hsuffix => absurd (suffix_nil.mp hsuffix) (by simp)
  exact timesOk_cons (by decide) (timesOk_cons (by decide) (timesOk_cons (by decide)
    (timesOk_cons (by decide) (timesOk_cons (by decide) (timesOk_cons (by decide)
      (timesOk_cons (by decide) hnil))))))

/-- The tip is asked for first, then blocks further back. -/
theorem getStateFor_memoFree_signalling :
    [signallingChain, signallingChain.drop 2, signallingChain.drop 4].map
        (thresholdState (shortChecker 150 900)) = [.lockedIn, .started, .started] ∧
      runQueries (shortChecker 150 900) (fun _ => none)
        [signallingChain, signallingChain.drop 2, signallingChain.drop 4]
          = some [.lockedIn, .started, .started] := by
  have hstates : [signallingChain, signallingChain.drop 2, signallingChain.drop 4].map
      (thresholdState (shortChecker 150 900)) = [.lockedIn, .started, .started] := by decide
  refine ⟨hstates, ?_⟩
  refine (getStateFor_memoFree.2.2 (shortChecker 150 900) ⟨by decide, by decide⟩).1 _ ?_
  simp only [forall_mem_cons]
  exact ⟨timesOk_signallingChain, timesOk_signallingChain.of_suffix (drop_suffix 2 _),
    timesOk_signallingChain.of_suffix (drop_suffix 4 _), by simp⟩

-- The cut-off takes a start that is not after the timeout: here the definition fails the deployment.
example : (getStateFor (shortChecker 900 150) (fun _ => none) signallingChain).map Prod.snd
    = some .defined ∧ thresholdState (shortChecker 900 150) signallingChain = .failed := by decide

end Binarium.VersionBits
