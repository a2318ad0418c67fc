import Binarium.Mempool.Accept

set_option autoImplicit false

/-! # Relative lock times and their cached values (`validation.cpp`, `txmempool.cpp`, `chain.h`)

`CheckSequenceLocks` computes the height and the time that the relative lock times of a transaction
demand, and with them the highest block that has one of the locked inputs. An entry of the pool keeps
the three as its `LockPoints`: as long as that block is in the active chain, `removeForReorg` takes the
cached values instead of computing them again.

The values of a confirmed input depend only on blocks below its own, so they stay what they were
(`checkSequenceLocks_cached`). An input that is itself in the pool is taken to be confirmed in the next
block: its values depend on the tip, which the cached block says nothing about. The comment in
`CheckSequenceLocks` excludes lock times that are not zero, but a lock time of zero is enough
(`cachedLockPoints_agree_iff`). -/

namespace Binarium

open List Option

/-! ## Blocks of a chain -/

/-- What is read of a block: its hash and `GetBlockTime()`. -/
structure ChainBlock where
  hash : Option Uint256
  blockTime : ℤ
deriving DecidableEq

/-- A pointer into the block index: a block and its ancestors, down to the genesis block. The active
    chain is the pointer to its tip. -/
abbrev BlockPtr := List ChainBlock

/-- `nHeight`. -/
def blockHeight (pindex : BlockPtr) : ℤ := pindex.length - 1

/-- `CBlockIndex::GetAncestor`; `none` is the null pointer. -/
def getAncestor (pindex : BlockPtr) (height : ℤ) : Option BlockPtr :=
  if height > blockHeight pindex ∨ height < 0 then none
  else some (pindex.drop (pindex.length - 1 - height.toNat))

/-- `CChain::Contains`. -/
def chainContains (chain pindex : BlockPtr) : Bool :=
  decide (getAncestor chain (blockHeight pindex) = some pindex)

/-- `CBlockIndex::GetMedianTimePast`. -/
def getMedianTimePast (pindex : BlockPtr) : ℤ :=
  let pmedian := ((pindex.take 11).map ChainBlock.blockTime).insertionSort (· ≤ ·)
  pmedian.getD (pmedian.length / 2) 0

/-! ## Lock times -/

/-- `CTxIn::SEQUENCE_LOCKTIME_DISABLE_FLAG` is set. -/
def CTxIn.lockDisabled (txin : CTxIn) : Bool := txin.nSequence &&& 0x80000000 != 0

/-- `CTxIn::SEQUENCE_LOCKTIME_TYPE_FLAG` is set. -/
def CTxIn.lockIsTime (txin : CTxIn) : Bool := txin.nSequence &&& 0x00400000 != 0

/-- `txin.nSequence & CTxIn::SEQUENCE_LOCKTIME_MASK`. -/
def CTxIn.lockValue (txin : CTxIn) : ℤ := (txin.nSequence &&& 0x0000ffff).toNat

/-- `LOCKTIME_VERIFY_SEQUENCE`. -/
def LOCKTIME_VERIFY_SEQUENCE : BitVec 32 := 1

/-- `fEnforceBIP68`. -/
def fEnforceBIP68 (tx : CTransaction) (flags : BitVec 32) : Bool :=
  decide (tx.nVersion.toNat ≥ 2) && flags &&& LOCKTIME_VERIFY_SEQUENCE != 0

/-- The loop of `CalculateSequenceLocks` for one input: the two minima and what is left in
    `prevHeights`. -/
def lockInput (block : BlockPtr) (txin : CTxIn) (nCoinHeight : ℤ) (minima : ℤ × ℤ) :
    Option ((ℤ × ℤ) × ℤ) :=
  if txin.lockDisabled then some (minima, 0)
  else if txin.lockIsTime then
    (getAncestor block (max (nCoinHeight - 1) 0)).map fun pindex =>
      ((minima.1, max minima.2 (getMedianTimePast pindex + txin.lockValue * 2 ^ 9 - 1)), nCoinHeight)
  else some ((max minima.1 (nCoinHeight + txin.lockValue - 1), minima.2), nCoinHeight)

/-- The loop of `CalculateSequenceLocks`; `none` is the null pointer that is followed. -/
def lockInputs (block : BlockPtr) : List (CTxIn × ℤ) → ℤ × ℤ → Option ((ℤ × ℤ) × List ℤ)
  | [], minima => some (minima, [])
  | (txin, nCoinHeight) :: rest, minima => do
    let one ← lockInput block txin nCoinHeight minima
    let more ← lockInputs block rest one.1
    some (more.1, one.2 :: more.2)

/-- `CalculateSequenceLocks`, with the heights it leaves. -/
def calculateSequenceLocks (tx : CTransaction) (flags : BitVec 32) (prevHeights : List ℤ)
    (block : BlockPtr) : Option ((ℤ × ℤ) × List ℤ) :=
  if fEnforceBIP68 tx flags then lockInputs block (tx.vin.zip prevHeights) (-1, -1)
  else some ((-1, -1), prevHeights)

/-- `EvaluateSequenceLocks`, for a block with a predecessor. -/
def evaluateSequenceLocks (block : BlockPtr) (lockPair : ℤ × ℤ) : Bool :=
  !(decide (lockPair.1 ≥ blockHeight block) || decide (lockPair.2 ≥ getMedianTimePast block.tail))

/-- `LockPoints`. -/
structure LockPoints where
  height : ℤ := 0
  time : ℤ := 0
  maxInputBlock : Option BlockPtr := none
deriving DecidableEq

/-- `TestLockPointValidity`. -/
def testLockPointValidity (lp : LockPoints) (chainActive : BlockPtr) : Bool :=
  match lp.maxInputBlock with
  | none => true
  | some pindex => chainContains chainActive pindex

/-- `CBlockIndex index` of `CheckSequenceLocks`: a block on top of the tip. -/
def indexOnTop (chainActive : BlockPtr) : BlockPtr := ⟨none, 0⟩ :: chainActive

/-- The heights of the coins that a transaction spends, if there are such coins. `getCoin` is
    `viewMemPool.GetCoin`, as `poolCoin`. -/
def coinHeights (getCoin : COutPoint → Option Coin) (tx : CTransaction) : Option (List (BitVec 31)) :=
  tx.vin.mapM fun txin => (getCoin txin.prevout).map Coin.nHeight

/-- An element of `prevheights`: a coin of the pool is taken to be confirmed in the next block. -/
def prevHeight (chainActive : BlockPtr) (nHeight : BitVec 31) : ℤ :=
  if nHeight = MEMPOOL_HEIGHT then blockHeight chainActive + 1 else nHeight.toNat

/-- The maximum of the heights that are not those of coins of the pool. -/
def maxInputHeight (chainActive : BlockPtr) (heights : List ℤ) : ℤ :=
  (heights.filter fun height => decide (height ≠ blockHeight chainActive + 1)).foldl max 0

/-- `CheckSequenceLocks`, with the lock points as it leaves them. -/
def checkSequenceLocks (getCoin : COutPoint → Option Coin) (chainActive : BlockPtr)
    (tx : CTransaction) (flags : BitVec 32) (lp : LockPoints) (useExistingLockPoints : Bool) :
    Option (Bool × LockPoints) :=
  if useExistingLockPoints then
    some (evaluateSequenceLocks (indexOnTop chainActive) (lp.height, lp.time), lp)
  else
    match coinHeights getCoin tx with
    | none => some (false, lp)
    | some heights => do
      let locks ← calculateSequenceLocks tx flags (heights.map (prevHeight chainActive))
        (indexOnTop chainActive)
      some (evaluateSequenceLocks (indexOnTop chainActive) locks.1,
        { height := locks.1.1, time := locks.1.2,
          maxInputBlock := getAncestor chainActive (maxInputHeight chainActive locks.2) })

/-! ## Blocks come and go -/

/-- A node as far as an entry of its pool depends on it. -/
structure EntryState where
  chainActive : BlockPtr
  getCoin : COutPoint → Option Coin
  lp : LockPoints
  /-- the chain and the coins for which the lock points were computed -/
  lpChain : BlockPtr
  lpCoin : COutPoint → Option Coin

/-- The coins are those of the pool and of the chain. -/
def CoinsOf (getCoin : COutPoint → Option Coin) (chainActive : BlockPtr) : Prop :=
  ∀ outpoint coin, getCoin outpoint = some coin →
    coin.nHeight = MEMPOOL_HEIGHT ∨ (coin.nHeight.toNat : ℤ) ≤ blockHeight chainActive

/-- A block is connected or disconnected, with any effect on the coins. -/
inductive BlockStep : EntryState → EntryState → Prop where
  | connect (s : EntryState) (block : ChainBlock) (getCoin : COutPoint → Option Coin)
      (hcoins : CoinsOf getCoin (block :: s.chainActive)) :
      BlockStep s { s with chainActive := block :: s.chainActive, getCoin }
  | disconnect (s : EntryState) (block : ChainBlock) (rest : BlockPtr)
      (getCoin : COutPoint → Option Coin) (hchain : s.chainActive = block :: rest)
      (hrest : rest ≠ []) (hcoins : CoinsOf getCoin rest) :
      BlockStep s { s with chainActive := rest, getCoin }

/-- What `removeForReorg` does with the entry: `none` if it is removed, for its lock times or because it
    is not final or spends an immature coin (`otherwise`). -/
def removeForReorg (tx : CTransaction) (flags : BitVec 32) (otherwise : Bool) (s : EntryState) :
    Option EntryState :=
  let validLP := testLockPointValidity s.lp s.chainActive
  match checkSequenceLocks s.getCoin s.chainActive tx flags s.lp validLP with
  | some (true, lp) =>
    if otherwise then none
    else if validLP then some s
    else some { s with lp, lpChain := s.chainActive, lpCoin := s.getCoin }
  | _ => none

/-- The states of an entry, from its acceptance on. -/
inductive InPool (tx : CTransaction) (flags : BitVec 32) : EntryState → Prop where
  | accept (chainActive : BlockPtr) (getCoin : COutPoint → Option Coin) (lp : LockPoints)
      (hchain : chainActive ≠ []) (hcoins : CoinsOf getCoin chainActive)
      (hcheck : checkSequenceLocks getCoin chainActive tx flags {} false = some (true, lp)) :
      InPool tx flags ⟨chainActive, getCoin, lp, chainActive, getCoin⟩
  | block (s s' : EntryState) (h : InPool tx flags s) (hstep : BlockStep s s') : InPool tx flags s'
  | reorg (s s' : EntryState) (otherwise : Bool) (h : InPool tx flags s)
      (hs' : removeForReorg tx flags otherwise s = some s') : InPool tx flags s'

/-! ## Ancestors -/

variable {B C chainActive block chain : BlockPtr} {heights : List (BitVec 31)} {minima : ℤ × ℤ}
  {locks : (ℤ × ℤ) × List ℤ} {flags : BitVec 32} {tx : CTransaction}
  {getCoin : COutPoint → Option Coin} {s : EntryState}

theorem getAncestor_of_suffix (h : B <:+ C) {height : ℤ} (h0 : 0 ≤ height)
    (hle : height ≤ blockHeight B) : getAncestor C height = getAncestor B height := by
  obtain ⟨t, rfl⟩ := h
  unfold getAncestor blockHeight at *
  rw [length_append, if_neg (by push_cast; omega), if_neg (by omega)]
  have hdrop : t.length + B.length - 1 - height.toNat
      = t.length + (B.length - 1 - height.toNat) := by omega
  simp [hdrop]

theorem getAncestor_self (hB : B ≠ []) : getAncestor B (blockHeight B) = some B := by
  have hpos := length_pos_iff.mpr hB
  rw [getAncestor, blockHeight, if_neg (by omega)]
  simp

theorem suffix_of_getAncestor {height : ℤ} (h : getAncestor C height = some B) :
    B <:+ C ∧ blockHeight B = height := by
  unfold getAncestor at h
  split_ifs at h with hrange
  cases h
  refine ⟨drop_suffix _ _, ?_⟩
  unfold blockHeight at hrange ⊢
  rw [length_drop]
  omega

theorem exists_getAncestor {height : ℤ} (h0 : 0 ≤ height) (hle : height ≤ blockHeight C) :
    ∃ B, getAncestor C height = some B :=
  ⟨_, if_neg (by omega)⟩

theorem suffix_of_chainContains (h : chainContains C B) : B <:+ C :=
  (suffix_of_getAncestor (of_decide_eq_true h)).1

theorem chainContains_of_suffix (hB : B ≠ []) (h : B <:+ C) : chainContains C B := by
  have hpos := length_pos_iff.mpr hB
  rw [chainContains, getAncestor_of_suffix h (by unfold blockHeight; omega) le_rfl,
    getAncestor_self hB, decide_eq_true rfl]

/-! ## The highest input -/

/-- The heights that count for `maxInputBlock`: those of inputs with a lock time, if lock times are
    enforced. -/
def lockedHeights (tx : CTransaction) (flags : BitVec 32) (heights : List (BitVec 31)) :
    List (BitVec 31) :=
  if fEnforceBIP68 tx flags then
    (tx.vin.zip heights).map fun input => if input.1.lockDisabled then 0 else input.2
  else heights

/-- The highest of the heights of confirmed coins. -/
def maxConfirmed (heights : List (BitVec 31)) : ℤ :=
  ((heights.filter fun nHeight => decide (nHeight ≠ MEMPOOL_HEIGHT)).map
    fun nHeight => (nHeight.toNat : ℤ)).foldl max 0

/-- The heights are those of coins of the pool and of blocks up to a height. -/
def HeightsUpTo (b : ℤ) (heights : List (BitVec 31)) : Prop :=
  ∀ nHeight ∈ heights, nHeight = MEMPOOL_HEIGHT ∨ (nHeight.toNat : ℤ) ≤ b

theorem le_foldl_max (l : List ℤ) (a : ℤ) : a ≤ l.foldl max a ∧ ∀ x ∈ l, x ≤ l.foldl max a := by
  induction l generalizing a with
  | nil => exact ⟨le_rfl, by simp⟩
  | cons y rest ih => grind

theorem foldl_max_le {l : List ℤ} {a b : ℤ} (ha : a ≤ b) (hl : ∀ x ∈ l, x ≤ b) :
    l.foldl max a ≤ b := by
  induction l generalizing a with
  | nil => exact ha
  | cons y rest ih => exact ih (max_le ha (forall_mem_cons.mp hl).1) (forall_mem_cons.mp hl).2

theorem maxConfirmed_nonneg (heights : List (BitVec 31)) : 0 ≤ maxConfirmed heights :=
  (le_foldl_max _ 0).1

theorem le_maxConfirmed {nHeight : BitVec 31} (hmem : nHeight ∈ heights)
    (hne : nHeight ≠ MEMPOOL_HEIGHT) : (nHeight.toNat : ℤ) ≤ maxConfirmed heights :=
  (le_foldl_max _ 0).2 _ (mem_map_of_mem (mem_filter.mpr ⟨hmem, decide_eq_true hne⟩))

theorem maxConfirmed_le {b : ℤ} (hb : 0 ≤ b) (h : HeightsUpTo b heights) : maxConfirmed heights ≤ b := by
  refine foldl_max_le hb ?_
  intro x hx
  obtain ⟨nHeight, hmem, rfl⟩ := mem_map.mp hx
  obtain ⟨hmem, hne⟩ := mem_filter.mp hmem
  exact (h nHeight hmem).resolve_left (of_decide_eq_true hne)

/-- The coins of the pool are told from the others by their height, if the others are in the chain. -/
theorem maxInputHeight_eq (h : HeightsUpTo (blockHeight chainActive) heights) :
    maxInputHeight chainActive (heights.map (prevHeight chainActive)) = maxConfirmed heights := by
  unfold maxInputHeight maxConfirmed
  congr 1
  induction heights with
  | nil => rfl
  | cons nHeight rest ih =>
    have hsplit := forall_mem_cons.mp h
    have hrest := ih hsplit.2
    grind [prevHeight]

/-! ## The computation -/

theorem lockInput_height {txin : CTxIn} {nCoinHeight : ℤ} {one : (ℤ × ℤ) × ℤ}
    (h : lockInput block txin nCoinHeight minima = some one) :
    one.2 = if txin.lockDisabled then 0 else nCoinHeight := by
  unfold lockInput at h
  split_ifs at h ⊢ <;> simp at h <;> grind

theorem prevHeight_zero (chainActive : BlockPtr) : prevHeight chainActive 0 = 0 := by
  rfl

theorem lockInputs_heights {vin : List CTxIn}
    (h : lockInputs block (vin.zip (heights.map (prevHeight chainActive))) minima = some locks) :
    locks.2 = ((vin.zip heights).map
      fun input => if input.1.lockDisabled then 0 else input.2).map (prevHeight chainActive) := by
  induction vin generalizing heights minima locks with
  | nil => cases h; rfl
  | cons txin vin ih =>
    cases heights with
    | nil => cases h; rfl
    | cons nHeight heights =>
      simp only [map_cons, zip_cons_cons, lockInputs, bind_eq_bind, bind_eq_some_iff] at h ⊢
      obtain ⟨one, hone, more, hmore, ⟨⟩⟩ := h
      rw [ih hmore, lockInput_height hone]
      grind [prevHeight_zero]

theorem calculateSequenceLocks_heights
    (h : calculateSequenceLocks tx flags (heights.map (prevHeight chainActive)) block = some locks) :
    locks.2 = (lockedHeights tx flags heights).map (prevHeight chainActive) := by
  grind [calculateSequenceLocks, lockedHeights, → lockInputs_heights]

theorem lockInputs_congr {block' chainActive' : BlockPtr} {vin : List CTxIn}
    (h : ∀ input ∈ vin.zip heights, input.1.lockDisabled = false → input.2 ≠ MEMPOOL_HEIGHT ∧
      getAncestor block (max ((input.2.toNat : ℤ) - 1) 0) = getAncestor block' (max ((input.2.toNat
      : ℤ) - 1) 0)) :
    lockInputs block (vin.zip (heights.map (prevHeight chainActive))) minima
      = lockInputs block' (vin.zip (heights.map (prevHeight chainActive'))) minima := by
  induction vin generalizing heights minima with
  | nil => rfl
  | cons txin vin ih =>
    cases heights with
    | nil => rfl
    | cons nHeight heights =>
      rw [zip_cons_cons, forall_mem_cons] at h
      have hone : lockInput block txin (prevHeight chainActive nHeight) minima
          = lockInput block' txin (prevHeight chainActive' nHeight) minima := by
        unfold lockInput
        cases hdis : txin.lockDisabled with
        | true => rfl
        | false =>
          obtain ⟨hconf, hanc⟩ := h.1 hdis
          simp [prevHeight, hconf, hanc]
      simp [map_cons, zip_cons_cons, lockInputs, hone, ih h.2]

theorem lockInputs_ge {inputs : List (CTxIn × ℤ)} (h : lockInputs block inputs minima = some locks) :
    minima.1 ≤ locks.1.1 ∧ minima.2 ≤ locks.1.2 ∧
      ∀ input ∈ inputs, ∃ old one, lockInput block input.1 input.2 old = some one
        ∧ one.1.1 ≤ locks.1.1 ∧ one.1.2 ≤ locks.1.2 := by
  induction inputs generalizing minima locks with
  | nil => grind [lockInputs]
  | cons input rest ih =>
    simp only [lockInputs, bind_eq_bind, bind_eq_some_iff] at h
    obtain ⟨one, hone, more, hmore, ⟨⟩⟩ := h
    have hgrow : minima.1 ≤ one.1.1 ∧ minima.2 ≤ one.1.2 := by
      unfold lockInput at hone
      split_ifs at hone <;> simp at hone <;> grind
    grind

/-! ## Stored lock points -/

/-- What `CheckSequenceLocks` computes, for coins that are there. -/
theorem checkSequenceLocks_true {lp lp' : LockPoints}
    (h : checkSequenceLocks getCoin chainActive tx flags lp false = some (true, lp')) :
    ∃ heights locks, coinHeights getCoin tx = some heights
      ∧ calculateSequenceLocks tx flags (heights.map (prevHeight chainActive))
          (indexOnTop chainActive) = some locks
      ∧ evaluateSequenceLocks (indexOnTop chainActive) locks.1
      ∧ lp' = ⟨locks.1.1, locks.1.2,
          getAncestor chainActive (maxInputHeight chainActive locks.2)⟩ := by
  rw [checkSequenceLocks, if_neg Bool.false_ne_true] at h
  cases hheights : coinHeights getCoin tx with
  | none => simp [hheights] at h
  | some heights =>
    rw [hheights] at h
    obtain ⟨locks, hlocks, h⟩ := bind_eq_some_iff.mp h
    grind

theorem forall₂_of_mapM {α β : Type} {f : α → Option β} {l : List α} {l' : List β}
    (h : l.mapM f = some l') : Forall₂ (fun x y => f x = some y) l l' := by
  induction l generalizing l' with
  | nil => cases h; exact .nil
  | cons x rest ih =>
    simp only [mapM_cons, bind_eq_bind, bind_eq_some_iff] at h
    obtain ⟨y, hy, ys, hys, ⟨⟩⟩ := h
    exact .cons hy (ih hys)

/-- An input with an enforced lock time is a coin of the pool. -/
def UnconfirmedLock (tx : CTransaction) (flags : BitVec 32) (getCoin : COutPoint → Option Coin) :
    Prop :=
  fEnforceBIP68 tx flags = true ∧ ∃ txin ∈ tx.vin, txin.lockDisabled = false
    ∧ ∃ coin, getCoin txin.prevout = some coin ∧ coin.nHeight = MEMPOOL_HEIGHT

theorem coinHeights_le (hcoins : CoinsOf getCoin chainActive)
    (h : coinHeights getCoin tx = some heights) : HeightsUpTo (blockHeight chainActive) heights := by
  intro nHeight hmem
  obtain ⟨hlength, hzip⟩ := forall₂_iff_zip.mp (forall₂_of_mapM h)
  rw [← map_snd_zip hlength.ge] at hmem
  obtain ⟨input, hinput, rfl⟩ := mem_map.mp hmem
  obtain ⟨coin, hcoin, hheight⟩ := map_eq_some_iff.mp (hzip hinput)
  exact hheight ▸ hcoins _ coin hcoin

theorem not_mempool_of_not_unconfirmedLock (hlock : ¬ UnconfirmedLock tx flags getCoin)
    (henforce : fEnforceBIP68 tx flags) (h : coinHeights getCoin tx = some heights) :
    ∀ input ∈ tx.vin.zip heights, input.1.lockDisabled = false → input.2 ≠ MEMPOOL_HEIGHT := by
  intro input hinput hdis hpool
  obtain ⟨coin, hcoin, hheight⟩ := map_eq_some_iff.mp
    ((forall₂_iff_zip.mp (forall₂_of_mapM h)).2 hinput)
  exact hlock ⟨henforce, input.1, (of_mem_zip hinput).1, hdis, coin, hcoin, hheight.trans hpool⟩

theorem mem_lockedHeights (henforce : fEnforceBIP68 tx flags) {input : CTxIn × BitVec 31}
    (hinput : input ∈ tx.vin.zip heights) (hdis : input.1.lockDisabled = false) :
    input.2 ∈ lockedHeights tx flags heights := by
  rw [lockedHeights, if_pos henforce]
  exact mem_map.mpr ⟨input, hinput, by simp [hdis]⟩

theorem lockedHeights_le (tx : CTransaction) (flags : BitVec 32) {b : ℤ} (hb : 0 ≤ b)
    (h : HeightsUpTo b heights) : HeightsUpTo b (lockedHeights tx flags heights) := by
  intro nHeight hmem
  unfold lockedHeights at hmem
  split_ifs at hmem
  · obtain ⟨input, hinput, rfl⟩ := mem_map.mp hmem
    split
    · exact Or.inr hb
    · exact h input.2 (of_mem_zip hinput).2
  · exact h nHeight hmem

theorem blockHeight_nonneg (h : chainActive ≠ []) : 0 ≤ blockHeight chainActive := by
  have hpos := length_pos_iff.mpr h
  unfold blockHeight
  omega

theorem blockHeight_le_of_suffix (h : B <:+ C) : blockHeight B ≤ blockHeight C := by
  have hle := h.length_le
  unfold blockHeight
  omega

theorem suffix_indexOnTop (h : B <:+ C) : B <:+ indexOnTop C :=
  h.trans (suffix_cons _ C)

/-- The block that is stored is the one of the highest locked input. -/
theorem maxInputBlock_of_stored (hchain : chainActive ≠ []) (hcoins : CoinsOf getCoin chainActive)
    (hheights : coinHeights getCoin tx = some heights)
    (hlocks : calculateSequenceLocks tx flags (heights.map (prevHeight chainActive)) (indexOnTop
      chainActive) = some locks) :
    ∃ B, getAncestor chainActive (maxInputHeight chainActive locks.2) = some B
      ∧ B <:+ chainActive ∧ blockHeight B = maxConfirmed (lockedHeights tx flags heights) := by
  have h0 := blockHeight_nonneg hchain
  have hle := lockedHeights_le tx flags h0 (coinHeights_le hcoins hheights)
  rw [calculateSequenceLocks_heights hlocks, maxInputHeight_eq hle]
  obtain ⟨B, hB⟩ := exists_getAncestor (maxConfirmed_nonneg _) (maxConfirmed_le h0 hle)
  obtain ⟨hsuffix, hheight⟩ := suffix_of_getAncestor hB
  exact ⟨B, hB, hsuffix, hheight⟩

/-- **Lock points of confirmed inputs stay what they are** while the block of the highest of them is in
    the chain: computing them again gives the same points and the same verdict. -/
theorem checkSequenceLocks_cached {chain' : BlockPtr} {getCoin' : COutPoint → Option Coin}
    {lp lp0 : LockPoints} (hchain : chain ≠ []) (hcoins : CoinsOf getCoin chain)
    (hstored : checkSequenceLocks getCoin chain tx flags lp0 false = some (true, lp))
    (hlock : ¬ UnconfirmedLock tx flags getCoin)
    (hsame : coinHeights getCoin' tx = coinHeights getCoin tx)
    (hvalid : testLockPointValidity lp chain') :
    checkSequenceLocks getCoin' chain' tx flags lp false
      = checkSequenceLocks getCoin' chain' tx flags lp true := by
  obtain ⟨heights, locks, hheights, hlocks, -, rfl⟩ := checkSequenceLocks_true hstored
  obtain ⟨B, hB, hsuffix, hheight⟩ := maxInputBlock_of_stored hchain hcoins hheights hlocks
  have hsuffix' : B <:+ chain' := by
    rw [testLockPointValidity, hB] at hvalid
    exact suffix_of_chainContains hvalid
  have hB0 : 0 ≤ blockHeight B := hheight ▸ maxConfirmed_nonneg _
  -- the minima are the same, since the ancestors that are read are below `B`
  have hlocks' : ∃ locks', calculateSequenceLocks tx flags (heights.map (prevHeight chain'))
      (indexOnTop chain') = some locks' ∧ locks'.1 = locks.1 := by
    unfold calculateSequenceLocks at hlocks ⊢
    split_ifs at hlocks ⊢ with henforce
    · refine ⟨locks, ?_, rfl⟩
      rw [← hlocks]
      refine lockInputs_congr ?_
      intro input hinput hdis
      have hconf := not_mempool_of_not_unconfirmedLock hlock henforce hheights input hinput hdis
      have hle := le_maxConfirmed (mem_lockedHeights henforce hinput hdis) hconf
      have hmax : max ((input.2.toNat : ℤ) - 1) 0 ≤ blockHeight B := by omega
      refine ⟨hconf, ?_⟩
      rw [getAncestor_of_suffix (suffix_indexOnTop hsuffix') (le_max_right _ _) hmax,
        getAncestor_of_suffix (suffix_indexOnTop hsuffix) (le_max_right _ _) hmax]
    · exact ⟨_, rfl, by grind⟩
  obtain ⟨locks', hlocks', hminima⟩ := hlocks'
  have hle : HeightsUpTo (blockHeight chain') (lockedHeights tx flags heights) := by
    have hconf := fun nHeight => @le_maxConfirmed (lockedHeights tx flags heights) nHeight
    have hB' := blockHeight_le_of_suffix hsuffix'
    grind [HeightsUpTo]
  have hblock : getAncestor chain' (maxInputHeight chain' locks'.2) = some B := by
    rw [calculateSequenceLocks_heights hlocks', maxInputHeight_eq hle, ← hheight,
      getAncestor_of_suffix hsuffix' hB0 le_rfl]
    exact getAncestor_self (by rintro rfl; exact absurd hB0 (by decide))
  rw [checkSequenceLocks, checkSequenceLocks, if_neg Bool.false_ne_true, if_pos rfl, hsame, hheights]
  simp only [hlocks', bind_eq_bind, bind_some, hminima, hblock, hB]

/-! ## Runs -/

/-- What is known of an entry at any time: its lock points were computed when they were met, for a
    chain from the same genesis block. -/
structure Stored (tx : CTransaction) (flags : BitVec 32) (s : EntryState) : Prop where
  chain_ne : s.chainActive ≠ []
  coins : CoinsOf s.getCoin s.chainActive
  lpChain_ne : s.lpChain ≠ []
  lpCoins : CoinsOf s.lpCoin s.lpChain
  genesis : s.chainActive.getLast? = s.lpChain.getLast?
  check : ∃ lp, checkSequenceLocks s.lpCoin s.lpChain tx flags lp false = some (true, s.lp)

theorem Stored.blockStep {s' : EntryState} (h : Stored tx flags s) (hstep : BlockStep s s') :
    Stored tx flags s' := by
  cases hstep with
  | connect block getCoin hcoins =>
    exact { h with
      chain_ne := by simp, coins := hcoins
      genesis := (getLast?_cons_of_ne_nil h.chain_ne).trans h.genesis }
  | disconnect block rest getCoin hchain hrest hcoins =>
    refine { h with chain_ne := hrest, coins := hcoins, genesis := ?_ }
    rw [← h.genesis, hchain]
    exact (getLast?_cons_of_ne_nil hrest).symm

theorem Stored.removeForReorg {otherwise : Bool} {s' : EntryState} (h : Stored tx flags s)
    (hs' : removeForReorg tx flags otherwise s = some s') : Stored tx flags s' := by
  unfold Binarium.removeForReorg at hs'
  dsimp only at hs'
  split at hs'
  · next lp hcheck =>
      split_ifs at hs' with _ hvalid <;> cases hs'
      · exact h
      · exact ⟨h.chain_ne, h.coins, h.chain_ne, h.coins, rfl, s.lp,
          by rwa [Bool.eq_false_iff.mpr hvalid] at hcheck⟩
  · simp at hs'

/-- **The lock points of an entry in the pool were computed when they were met.** -/
theorem InPool.stored (h : InPool tx flags s) : Stored tx flags s := by
  induction h with
  | accept chainActive getCoin lp hchain hcoins hcheck =>
    exact ⟨hchain, hcoins, hchain, hcoins, rfl, {}, hcheck⟩
  | block s s' _ hstep ih => exact ih.blockStep hstep
  | reorg s s' otherwise _ hs' ih => exact ih.removeForReorg hs'

/-! ## Reaching another chain -/

theorem reach_genesis {g : ChainBlock} (hg : chain.getLast? = some g) :
    ∀ s : EntryState, s.chainActive = chain →
      ∃ s', Relation.ReflTransGen BlockStep s s' ∧ s'.chainActive = [g] := by
  induction chain with
  | nil => simp at hg
  | cons block rest ih =>
    intro s hs
    rcases eq_or_ne rest [] with rfl | hrest
    · cases hg
      exact ⟨s, .refl, hs⟩
    · rw [getLast?_cons_of_ne_nil hrest] at hg
      have hstep := BlockStep.disconnect s block rest (fun _ => none) hs hrest (by simp [CoinsOf])
      obtain ⟨s', hreach, hs'⟩ := ih hg { s with chainActive := rest, getCoin := fun _ => none } rfl
      exact ⟨s', hreach.head hstep, hs'⟩

theorem reach_chain {g : ChainBlock} (hs : s.chainActive = [g]) (hg : chain.getLast? = some g) :
    ∃ s', Relation.ReflTransGen BlockStep s s' ∧ s'.chainActive = chain := by
  induction chain with
  | nil => simp at hg
  | cons block rest ih =>
    rcases eq_or_ne rest [] with rfl | hrest
    · cases hg
      exact ⟨s, .refl, hs⟩
    · rw [getLast?_cons_of_ne_nil hrest] at hg
      obtain ⟨s', hreach, rfl⟩ := ih hg
      exact ⟨_, hreach.tail (.connect s' block (fun _ => none) (by simp [CoinsOf])), rfl⟩

theorem reach_of_genesis {block : ChainBlock} {rest : BlockPtr} (hne : s.chainActive ≠ [])
    (hg : s.chainActive.getLast? = rest.getLast?) (hcoins : CoinsOf getCoin (block :: rest)) :
    ∃ s', Relation.ReflTransGen BlockStep s s' ∧ s'.chainActive = block :: rest
      ∧ s'.getCoin = getCoin := by
  obtain ⟨g, hlast⟩ := isSome_iff_exists.mp (getLast?_isSome.mpr hne)
  obtain ⟨s1, hreach1, hs1⟩ := reach_genesis hlast s rfl
  obtain ⟨s2, hreach2, rfl⟩ := reach_chain hs1 (hg.symm.trans hlast)
  exact ⟨_, (hreach1.trans hreach2).tail (.connect s2 block getCoin hcoins), rfl, rfl⟩

/-! ## Inputs in the pool -/

/-- A block at the time after the median time of a chain. -/
def laterBlock (chain : BlockPtr) : ChainBlock := ⟨some 0, getMedianTimePast chain + 1⟩

/-- Eleven such blocks on top of the chain. -/
def laterChain (chain : BlockPtr) : BlockPtr :=
  laterBlock chain :: (List.replicate 10 (laterBlock chain) ++ chain)

theorem laterChain_eq (chain : BlockPtr) :
    laterChain chain = List.replicate 11 (laterBlock chain) ++ chain := rfl

theorem getMedianTimePast_laterChain (chain : BlockPtr) :
    getMedianTimePast (laterChain chain) = getMedianTimePast chain + 1 := by
  show (((replicate (min 11 11) (getMedianTimePast chain + 1)).insertionSort (· ≤ ·)).getD
    (((replicate (min 11 11) (getMedianTimePast chain + 1)).insertionSort (· ≤ ·)).length / 2) 0)
      = _
  simp

theorem blockHeight_laterChain (chain : BlockPtr) :
    blockHeight (laterChain chain) = blockHeight chain + 11 := by
  rw [laterChain_eq]
  grind [blockHeight]

theorem suffix_laterChain (chain : BlockPtr) : chain <:+ laterChain chain :=
  laterChain_eq chain ▸ suffix_append _ _

/-- The lock of a coin of the pool, even of value zero, is met by the next block at the earliest. -/
theorem lock_of_mempool (hchain : chain ≠ []) {txin : CTxIn} {old : ℤ × ℤ} {one : (ℤ × ℤ) × ℤ}
    (hdis : txin.lockDisabled = false)
    (h : lockInput (indexOnTop chain) txin (blockHeight chain + 1) old = some one) :
    blockHeight chain ≤ one.1.1 ∨ getMedianTimePast chain - 1 ≤ one.1.2 := by
  have h0 := blockHeight_nonneg hchain
  have hvalue : 0 ≤ txin.lockValue := Int.natCast_nonneg _
  rw [lockInput, hdis, if_neg Bool.false_ne_true, add_sub_cancel_right, max_eq_left h0,
    getAncestor_of_suffix (suffix_indexOnTop suffix_rfl) h0 le_rfl, getAncestor_self hchain] at h
  split_ifs at h <;> simp at h <;> grind

/-- What is computed for a coin of the pool depends on the tip. -/
theorem checkSequenceLocks_laterChain_ne {lp lp0 : LockPoints}
    (hstored : checkSequenceLocks getCoin chain tx flags lp0 false = some (true, lp))
    (hlock : UnconfirmedLock tx flags getCoin) :
    checkSequenceLocks getCoin (laterChain chain) tx flags lp false
      ≠ checkSequenceLocks getCoin (laterChain chain) tx flags lp true := by
  intro hagree
  obtain ⟨heights, locks, hheights, hlocks, hmet, rfl⟩ := checkSequenceLocks_true hstored
  obtain ⟨henforce, txin, hmem, hdis, coin, hcoin, hpool⟩ := hlock
  obtain ⟨hlength, hzip⟩ := forall₂_iff_zip.mp (forall₂_of_mapM hheights)
  rw [← map_fst_zip hlength.le] at hmem
  obtain ⟨⟨txin, nHeight⟩, hinput, rfl⟩ := mem_map.mp hmem
  have hheight : nHeight = MEMPOOL_HEIGHT := by
    have hsome := hzip hinput
    rw [hcoin, map_some, hpool] at hsome
    exact (Option.some.inj hsome).symm
  rw [checkSequenceLocks, checkSequenceLocks, if_neg Bool.false_ne_true, if_pos rfl, hheights] at hagree
  obtain ⟨locks', hlocks', hsame⟩ := bind_eq_some_iff.mp hagree
  have hpoints := congrArg Prod.snd (Option.some.inj hsame)
  have hminima : locks'.1.1 = locks.1.1 ∧ locks'.1.2 = locks.1.2 :=
    ⟨congrArg LockPoints.height hpoints, congrArg LockPoints.time hpoints⟩
  -- the input's lock on the later chain is above what was met on the earlier one
  rw [calculateSequenceLocks, if_pos henforce] at hlocks'
  have hlater : laterChain chain ≠ [] := by simp [laterChain]
  have hinput' : (txin, blockHeight (laterChain chain) + 1)
      ∈ tx.vin.zip (heights.map (prevHeight (laterChain chain))) := by
    have hmap := mem_map_of_mem (f := Prod.map id (prevHeight (laterChain chain))) hinput
    rwa [← zip_map_right, Prod.map_apply, id, prevHeight, if_pos hheight] at hmap
  obtain ⟨old, one, hone, hone1, hone2⟩ := (lockInputs_ge hlocks').2.2 _ hinput'
  simp only [evaluateSequenceLocks, Bool.not_eq_true', Bool.or_eq_false_iff,
    decide_eq_false_iff_not] at hmet
  have hmedian := getMedianTimePast_laterChain chain
  have htop : blockHeight (indexOnTop chain) = blockHeight chain + 1 := by
    simp [blockHeight, indexOnTop]
  have hlaterHeight := blockHeight_laterChain chain
  have htail : getMedianTimePast (indexOnTop chain).tail = getMedianTimePast chain := rfl
  rcases lock_of_mempool hlater hdis hone with hbig | hbig
  · exact hmet.1 (by omega)
  · exact hmet.2 (by omega)

/-- **Cached lock points agree with new ones exactly if no lock is on a coin of the pool.** For every
    entry in the pool: whatever blocks are connected and disconnected, while the cached points are
    valid and the inputs have the heights they had, `CheckSequenceLocks` gives the same verdict and
    the same points with the cached points as without them, if and only if none of the inputs with an
    enforced lock time was itself in the pool when the points were computed. -/
theorem cachedLockPoints_agree_iff (tx : CTransaction) (flags : BitVec 32) (s : EntryState)
    (h : InPool tx flags s) :
    (∀ s', Relation.ReflTransGen BlockStep s s' →
      coinHeights s'.getCoin tx = coinHeights s.lpCoin tx →
      testLockPointValidity s.lp s'.chainActive = true →
      checkSequenceLocks s'.getCoin s'.chainActive tx flags s.lp false
        = checkSequenceLocks s'.getCoin s'.chainActive tx flags s.lp true)
    ↔ ¬ UnconfirmedLock tx flags s.lpCoin := by
  have hstored := h.stored
  obtain ⟨lp0, hcheck⟩ := hstored.check
  constructor
  · intro hagree hlock
    have hle : blockHeight s.lpChain ≤ blockHeight (laterChain s.lpChain) := by
      simp [blockHeight_laterChain]
    have hcoins : CoinsOf s.lpCoin (laterChain s.lpChain) := fun outpoint coin hcoin =>
      (hstored.lpCoins outpoint coin hcoin).imp_right (le_trans · hle)
    have hgenesis : s.chainActive.getLast?
        = (replicate 10 (laterBlock s.lpChain) ++ s.lpChain).getLast? := by
      rw [hstored.genesis, getLast?_append_of_ne_nil _ hstored.lpChain_ne]
    obtain ⟨s', hreach, hchain', hcoin'⟩ := reach_of_genesis hstored.chain_ne hgenesis hcoins
    have hvalid : testLockPointValidity s.lp s'.chainActive := by
      obtain ⟨heights, locks, hheights, hlocks, -, hlp⟩ := checkSequenceLocks_true hcheck
      obtain ⟨B, hB, hsuffix, hheight⟩ :=
        maxInputBlock_of_stored hstored.lpChain_ne hstored.lpCoins hheights hlocks
      have hBne : B ≠ [] := by
        rintro rfl
        exact absurd (hheight ▸ maxConfirmed_nonneg _ : 0 ≤ blockHeight []) (by decide)
      rw [testLockPointValidity, hlp, hB, hchain']
      exact chainContains_of_suffix hBne (hsuffix.trans (suffix_laterChain s.lpChain))
    have heq := hagree s' hreach (by rw [hcoin']) hvalid
    rw [hchain', hcoin'] at heq
    exact checkSequenceLocks_laterChain_ne hcheck hlock heq
  · intro hlock s' _ hsame hvalid
    exact checkSequenceLocks_cached hstored.lpChain_ne hstored.lpCoins hcheck hlock hsame hvalid

/-! ## A child of a transaction in the pool -/

/-- A genesis block at time 10. -/
def genesisBlock : ChainBlock := ⟨some 1, 10⟩

/-- A block on top of it, at time 30. -/
def lateBlock : ChainBlock := ⟨some 2, 30⟩

/-- Another one, at time 12. -/
def earlyBlock : ChainBlock := ⟨some 3, 12⟩

/-- A transaction that spends an output of the transaction 7 with a relative lock time of zero. -/
def zeroLockTx : CTransaction where
  hash := 9
  nVersion := 2
  vin := [⟨⟨7, 0⟩, [], 0x00400000⟩]
  vout := []
  nLockTime := 0

/-- The coins if the outputs of transaction 7 have the given height. -/
def coinsAt (nHeight : BitVec 31) (outpoint : COutPoint) : Option Coin :=
  if outpoint.hash = 7 then some ⟨⟨1000, []⟩, false, nHeight⟩ else none

theorem nHeight_of_coinsAt {nHeight : BitVec 31} {outpoint : COutPoint} {coin : Coin}
    (h : coinsAt nHeight outpoint = some coin) : coin.nHeight = nHeight := by
  grind [coinsAt]

theorem coinsOf_mempool (chainActive : BlockPtr) : CoinsOf (coinsAt MEMPOOL_HEIGHT) chainActive :=
  fun _ _ hcoin => Or.inl (nHeight_of_coinsAt hcoin)

theorem coinsOf_genesis : CoinsOf (coinsAt 0) [lateBlock, genesisBlock] := by
  intro _ coin hcoin
  rw [nHeight_of_coinsAt hcoin]
  decide

/-- The entry of the child, with the block at time 30 as the tip. -/
def childEntry (nHeight : BitVec 31) (time : ℤ) : EntryState where
  chainActive := [lateBlock, genesisBlock]
  getCoin := coinsAt nHeight
  lp := { height := -1, time, maxInputBlock := some [genesisBlock] }
  lpChain := [lateBlock, genesisBlock]
  lpCoin := coinsAt nHeight

theorem inPool_childEntry : InPool zeroLockTx 3 (childEntry MEMPOOL_HEIGHT 29) :=
  .accept _ _ _ (by decide) (coinsOf_mempool _) (by decide +kernel)

/-- The spent output is in the genesis block: its lock is that of the genesis block for good. -/
theorem confirmedChild_agrees :
    ¬ UnconfirmedLock zeroLockTx 3 (coinsAt 0)
      ∧ ∀ s', Relation.ReflTransGen BlockStep (childEntry 0 9) s' →
        coinHeights s'.getCoin zeroLockTx = coinHeights (coinsAt 0) zeroLockTx →
        testLockPointValidity (childEntry 0 9).lp s'.chainActive = true →
        checkSequenceLocks s'.getCoin s'.chainActive zeroLockTx 3 (childEntry 0 9).lp false
          = checkSequenceLocks s'.getCoin s'.chainActive zeroLockTx 3 (childEntry 0 9).lp true := by
  have hconf : ¬ UnconfirmedLock zeroLockTx 3 (coinsAt 0) := by
    rintro ⟨-, txin, -, -, coin, hcoin, hpool⟩
    exact absurd ((nHeight_of_coinsAt hcoin).symm.trans hpool) (by decide)
  have hin : InPool zeroLockTx 3 (childEntry 0 9) :=
    .accept _ _ _ (by decide) coinsOf_genesis (by decide +kernel)
  exact ⟨hconf, (cachedLockPoints_agree_iff zeroLockTx 3 (childEntry 0 9) hin).mpr hconf⟩

/-- The spent output is in the pool. When the tip is replaced by a block of the same height with an
    earlier time, the cached points are valid and not met, while new points are met. -/
theorem mempoolChild_disagrees : ∃ s s', InPool zeroLockTx 3 s
    ∧ Relation.ReflTransGen BlockStep s s'
    ∧ blockHeight s'.chainActive = blockHeight s.lpChain
    ∧ coinHeights s'.getCoin zeroLockTx = coinHeights s.lpCoin zeroLockTx
    ∧ testLockPointValidity s.lp s'.chainActive = true
    ∧ checkSequenceLocks s'.getCoin s'.chainActive zeroLockTx 3 s.lp true = some (false, s.lp)
    ∧ checkSequenceLocks s'.getCoin s'.chainActive zeroLockTx 3 s.lp false
        = some (true, { height := -1, time := 11, maxInputBlock := some [genesisBlock] }) := by
  have hdisconnect := BlockStep.disconnect (childEntry MEMPOOL_HEIGHT 29) lateBlock [genesisBlock]
    (coinsAt MEMPOOL_HEIGHT) rfl (by simp) (coinsOf_mempool _)
  have hconnect := BlockStep.connect
    { childEntry MEMPOOL_HEIGHT 29 with chainActive := [genesisBlock] } earlyBlock
    (coinsAt MEMPOOL_HEIGHT) (coinsOf_mempool _)
  refine ⟨childEntry MEMPOOL_HEIGHT 29, _, inPool_childEntry,
    (Relation.ReflTransGen.single hdisconnect).tail hconnect, rfl, rfl, ?_⟩
  decide +kernel

end Binarium
