import Binarium.ChainParams
import Binarium.Lib.MerkleTree
import Mathlib.Data.Nat.Bitwise
import Mathlib.Data.Nat.Factorization.Basic

set_option autoImplicit false

/-! # The merkle root (`consensus/merkle.cpp`)

`MerkleComputation` reads the leaves once and keeps one hash for every level: `inner[j]` is the hash of
`2 ^ j` leaves that are still to be paired, and is in use when bit `j` of the number of leaves is set.
A new leaf is paired with `inner[0]`, the result with `inner[1]`, and so on up to the first level that is
not in use (`climb`). In the end a sweep over the levels pairs what is left, and nodes without a
neighbour with themselves. On the way the function collects the branch of one position and notes
whether it has paired two equal hashes.

The number of leaves is a `uint32_t`, and so is `1 << level`. Above `2 ^ 31` leaves a shift by 32 and a
read of `inner[32]` follow: the model has no result then, and otherwise computes the root of the tree
(`merkleComputation_spec`, `merkleComputation_eq_none`). -/

namespace Binarium

open MerkleTree List

section Model

/-! ## The code -/

/-- The double hash of two hashes, `CHash256` over their 64 bytes. -/
abbrev PairHash := Uint256 → Uint256 → Uint256

variable (hash256 : PairHash)

/-- What changes while a hash climbs through the levels: `level`, `h`, `matchh`, `mutated` and
    `*pbranch`, which is `none` for a null pointer. -/
structure Climb where
  level : ℕ
  h : Uint256
  matchh : Bool
  mutated : Bool
  pbranch : Option (List Uint256)

/-- The part of a round that is about the branch. -/
def Climb.matchStep (c : Climb) (left : Uint256) (matchlevel : ℤ) : Climb :=
  match c.pbranch with
  | none => c
  | some branch =>
    if c.matchh then { c with pbranch := some (branch ++ [left]) }
    else if matchlevel = c.level then { c with pbranch := some (branch ++ [c.h]), matchh := true }
    else c

/-- The loop that pairs `h` with `inner[level]` as long as bit `level` of `count` is zero, while there
    are levels. Only the first of its two copies in the source compares the hashes. -/
def climb (inner : List Uint256) (matchlevel : ℤ) (count : ℕ) (compare : Bool) :
    ℕ → Climb → Option Climb
  | 0, _ => none
  | levels + 1, c =>
    if count.testBit c.level then some c
    else
      match inner[c.level]? with
      | none => none
      | some left =>
        let c := c.matchStep left matchlevel
        climb inner matchlevel count compare levels
          { c with
            level := c.level + 1
            h := hash256 left c.h
            mutated := c.mutated || (compare && decide (left = c.h)) }

/-- The variables of `MerkleComputation` between two leaves. -/
structure MerkleState where
  count : ℕ
  inner : List Uint256
  matchlevel : ℤ
  mutated : Bool
  pbranch : Option (List Uint256)

/-- The body of the loop over the leaves. -/
def addLeaf (branchpos : ℕ) (st : MerkleState) (leaf : Uint256) : Option MerkleState :=
  let matchh := decide (st.count = branchpos)
  let count := (st.count + 1) % 2 ^ 32
  (climb hash256 st.inner st.matchlevel count true 32 ⟨0, leaf, matchh, st.mutated, st.pbranch⟩).map
    fun c =>
      { count := count
        inner := st.inner.set c.level c.h
        matchlevel := if c.matchh then c.level else st.matchlevel
        mutated := c.mutated
        pbranch := c.pbranch }

/-- The first level whose bit of `count` is set, from `level` on. -/
def skipLevels (count : ℕ) : ℕ → ℕ → Option ℕ
  | 0, _ => none
  | levels + 1, level => if count.testBit level then some level else skipLevels count levels (level + 1)

/-- The final sweep. A round ends at a greater level, so 32 rounds are enough. -/
def sweep (inner : List Uint256) (matchlevel : ℤ) : ℕ → ℕ → Climb → Option Climb
  | 0, _, _ => none
  | rounds + 1, count, c =>
    if count = 2 ^ c.level then some c
    else
      let pbranch := if c.matchh then c.pbranch.map (fun branch => branch ++ [c.h]) else c.pbranch
      let count' := (count + 2 ^ c.level) % 2 ^ 32
      match climb hash256 inner matchlevel count' false (31 - c.level)
        { c with level := c.level + 1, h := hash256 c.h c.h, pbranch := pbranch } with
      | none => none
      | some c => sweep inner matchlevel rounds count' c

/-- What `MerkleComputation` returns through its pointers. -/
structure MerkleResult where
  root : Uint256
  mutated : Bool
  pbranch : Option (List Uint256)

/-- The sweep after all leaves. -/
def finish (st : MerkleState) : Option MerkleResult := do
  let level ← skipLevels st.count 32 0
  let h ← st.inner[level]?
  let c ← sweep hash256 st.inner st.matchlevel 32 st.count
    ⟨level, h, decide (st.matchlevel = level), st.mutated, st.pbranch⟩
  some ⟨c.h, c.mutated, c.pbranch⟩

/-- The variables before the first leaf; `withBranch` says that `pbranch` is not null. -/
def MerkleState.init (withBranch : Bool) : MerkleState :=
  ⟨0, List.replicate 32 0, -1, false, if withBranch then some [] else none⟩

/-- `MerkleComputation`. -/
def merkleComputation (leaves : List Uint256) (branchpos : ℕ) (withBranch : Bool) :
    Option MerkleResult :=
  if leaves.isEmpty then some ⟨0, false, if withBranch then some [] else none⟩
  else do
    let st ← leaves.foldlM (addLeaf hash256 branchpos) (MerkleState.init withBranch)
    finish hash256 st

/-- `ComputeMerkleRoot`: the root, and `*mutated`. The position is `-1`. -/
def computeMerkleRoot (leaves : List Uint256) : Option (Uint256 × Bool) :=
  (merkleComputation hash256 leaves (2 ^ 32 - 1) false).map fun r => (r.root, r.mutated)

/-- `ComputeMerkleBranch`. -/
def computeMerkleBranch (leaves : List Uint256) (position : ℕ) : Option (List Uint256) :=
  (merkleComputation hash256 leaves position true).bind fun r => r.pbranch

/-- `ComputeMerkleRootFromBranch`. -/
def computeMerkleRootFromBranch (leaf : Uint256) : List Uint256 → ℕ → Uint256
  | [], _ => leaf
  | it :: rest, nIndex =>
    computeMerkleRootFromBranch (if nIndex.testBit 0 then hash256 it leaf else hash256 leaf it) rest
      (nIndex / 2)

end Model

open Nat

/-! ## One climb -/

variable {count w j : ℕ} {inner : List Uint256} {matchlevel : ℤ} {c : Climb} {st : MerkleState}

/-- What is to be computed: the tree of the leaves and, if it is asked for, the branch of a position. -/
structure MerkleTask where
  hash256 : PairHash
  l : List Uint256
  branchpos : ℕ
  withBranch : Bool

section Climbing

variable (t : MerkleTask)

/-- The branch that has been collected: nothing is asked for, or `h` is over the position and the branch
    is complete up to its level, or the position is still to come or below another `inner` hash. -/
def Collects (matchlevel : ℤ) (pbranch₀ : Option (List Uint256)) (c : Climb) (w : ℕ) : Prop :=
  t.withBranch = false
    ∨ (c.matchh = true ∧ t.branchpos / 2 ^ c.level + 1 = w
        ∧ c.pbranch = some (branch t.hash256 t.l t.branchpos c.level))
    ∨ (c.matchh = false ∧ c.pbranch = pbranch₀
        ∧ (matchlevel = -1 ∧ w ≤ t.branchpos / 2 ^ c.level ∨ (c.level : ℤ) ≤ matchlevel))

/-- `h` is the last of `w` nodes of a level. -/
def Climbing (matchlevel : ℤ) (pbranch₀ : Option (List Uint256)) (c : Climb) (w : ℕ) : Prop :=
  c.h = node t.hash256 t.l c.level (w - 1) ∧ Collects t matchlevel pbranch₀ c w

/-- What a climb finds at a level where there are `w` nodes, the last of which is `h`: if `w` is even,
    `inner` holds the last but one. -/
structure Slot (inner : List Uint256) (matchlevel : ℤ) (pbranch₀ : Option (List Uint256))
    (j w : ℕ) : Prop where
  inner_eq : w % 2 = 0 → inner[j]? = some (node t.hash256 t.l j (w - 2))
  in_tree : w % 2 = 0 → w - 1 < width t.l.length j
  matched : matchlevel = j → t.withBranch = false
    ∨ (w % 2 = 0 ∧ t.branchpos / 2 ^ j + 2 = w ∧ pbranch₀ = some (branch t.hash256 t.l t.branchpos j))

variable {t}

section

variable (c : Climb) (left : Uint256) (matchlevel : ℤ)

@[simp] theorem Climb.matchStep_level : (c.matchStep left matchlevel).level = c.level := by
  grind [Climb.matchStep]

@[simp] theorem Climb.matchStep_h : (c.matchStep left matchlevel).h = c.h := by
  grind [Climb.matchStep]

@[simp] theorem Climb.matchStep_mutated : (c.matchStep left matchlevel).mutated = c.mutated := by
  grind [Climb.matchStep]

end

variable {pbranch₀ : Option (List Uint256)}

/-- One round of a climb adds the sibling of the node over the position. -/
theorem Collects.matchStep {v : ℕ} (hv : 0 < v)
    (hslot : Slot t inner matchlevel pbranch₀ c.level (2 * v))
    (hc : Climbing t matchlevel pbranch₀ c (2 * v)) (h : Uint256) (mutated : Bool) :
    let c' := c.matchStep (node t.hash256 t.l c.level (2 * v - 2)) matchlevel
    Collects t matchlevel pbranch₀
      { c' with level := c.level + 1, h := h, mutated := mutated } v := by
  obtain ⟨hnode, hcollects⟩ := hc
  have hdiv : t.branchpos / 2 ^ (c.level + 1) = t.branchpos / 2 ^ c.level / 2 := by
    rw [pow_succ, Nat.div_div_eq_div_mul]
  have hin := hslot.in_tree (by omega)
  have hmatched := hslot.matched
  rcases hcollects with hnone | ⟨hmatch, hpos, hsome⟩ | ⟨hmatch, hsame, hlevel⟩
  · exact .inl hnone
  · -- the position is under `h`, and its sibling is the hash from `inner`
    right; left
    have hodd : t.branchpos / 2 ^ c.level % 2 = 1 := by omega
    have hleft : t.branchpos / 2 ^ c.level - 1 = 2 * v - 2 := by omega
    simp only [Climb.matchStep, hsome, hmatch, if_true, branch_succ, sibling, hodd, hleft]
    exact ⟨trivial, by omega, trivial⟩
  · by_cases hhere : matchlevel = c.level
    · -- the position is under the hash from `inner`, and its sibling is `h`
      grind [Collects, Climb.matchStep, branch_succ, sibling]
    · grind [Collects, Climb.matchStep]

/-- The pairs of equal neighbours that end at leaf `count` and are at level `L` or above. -/
def RepeatsAt (t : MerkleTask) (L count : ℕ) : Prop :=
  ∃ j pos, L ≤ j ∧ (pos + 1) * 2 ^ (j + 1) = count
    ∧ node t.hash256 t.l j (2 * pos) = node t.hash256 t.l j (2 * pos + 1)

theorem not_repeatsAt_of_odd {L : ℕ} (hw : w % 2 = 1) : ¬ RepeatsAt t L (w * 2 ^ L) := by
  rintro ⟨j, pos, hj, heq, -⟩
  obtain ⟨k, rfl⟩ := Nat.exists_eq_add_of_le hj
  have hcancel : (pos + 1) * 2 ^ k * 2 = w := by
    apply Nat.eq_of_mul_eq_mul_right (Nat.two_pow_pos L)
    rw [← heq]
    ring
  omega

theorem repeatsAt_even_iff {L v : ℕ} (hv : 0 < v) :
    RepeatsAt t L (2 * v * 2 ^ L) ↔
      node t.hash256 t.l L (2 * v - 2) = node t.hash256 t.l L (2 * v - 1)
        ∨ RepeatsAt t (L + 1) (2 * v * 2 ^ L) := by
  constructor
  · rintro ⟨j, pos, hj, heq, hnodes⟩
    rcases hj.eq_or_lt with rfl | hlt
    · have hpos : pos + 1 = v := by
        apply Nat.eq_of_mul_eq_mul_right (Nat.two_pow_pos (L + 1))
        rw [heq]
        ring
      grind
    · exact .inr ⟨j, pos, hlt, heq, hnodes⟩
  · rintro (hnodes | ⟨j, pos, hj, heq, hnodes⟩)
    · refine ⟨L, v - 1, le_rfl, ?_, ?_⟩
      · rw [Nat.sub_add_cancel hv]
        ring
      · grind
    · exact ⟨j, pos, by omega, heq, hnodes⟩

theorem testBit_mul_two_pow_self (w L : ℕ) : (w * 2 ^ L).testBit L = decide (w % 2 = 1) := by
  simp [testBit_eq_decide_div_mod_eq]

/-- **A climb ends at the lowest set bit of `count`, with the last node of that level.** -/
theorem climb_spec (compare : Bool) (hcount : count < 2 ^ 32) (levels : ℕ) : ∀ {c : Climb} {w : ℕ},
    c.level + levels = 32 → count = w * 2 ^ c.level → 0 < w →
    (∀ j w, c.level ≤ j → count = w * 2 ^ j →
      Slot t inner matchlevel pbranch₀ j w) →
    Climbing t matchlevel pbranch₀ c w →
    ∃ c' w', climb t.hash256 inner matchlevel count compare levels c = some c'
      ∧ c.level ≤ c'.level ∧ c'.level < 32 ∧ count = w' * 2 ^ c'.level ∧ w' % 2 = 1
      ∧ Climbing t matchlevel pbranch₀ c' w'
      ∧ (c'.mutated ↔ c.mutated
          ∨ (compare ∧ RepeatsAt t c.level count)) := by
  induction levels with
  | zero =>
    intro c w hlevel hw hpos
    rw [show c.level = 32 by omega] at hw
    omega
  | succ levels ih =>
    intro c w hlevel hw hpos hslots hc
    by_cases hodd : w % 2 = 1
    · refine ⟨c, w, ?_, le_rfl, by omega, hw, hodd, hc, ?_⟩
      · rw [climb, hw, testBit_mul_two_pow_self, if_pos (decide_eq_true hodd)]
      · simp [hw, not_repeatsAt_of_odd hodd]
    · -- `w` is even: one round pairs the last two nodes of the level
      obtain ⟨v, rfl⟩ : ∃ v, w = 2 * v := ⟨w / 2, by omega⟩
      have hslot := hslots c.level (2 * v) le_rfl hw
      have hin := hslot.in_tree (by omega)
      have hnode : t.hash256 (node t.hash256 t.l c.level (2 * v - 2)) c.h
          = node t.hash256 t.l (c.level + 1) (v - 1) := by
        have hleft : 2 * (v - 1) = 2 * v - 2 := by omega
        have hright : 2 * v - 2 + 1 = 2 * v - 1 := by omega
        rw [node_succ, right, hleft, hright, if_pos hin, hc.1]
      have hcollects := Collects.matchStep (by omega) hslot hc
        (t.hash256 (node t.hash256 t.l c.level (2 * v - 2)) c.h)
        (c.mutated || (compare && decide (node t.hash256 t.l c.level (2 * v - 2) = c.h)))
      obtain ⟨c', w', hclimb, hle, hlt, hw', hodd', hc', hmutated⟩ :=
        ih (c := _) (w := v) (by show c.level + 1 + levels = 32; omega)
          (by show count = v * 2 ^ (c.level + 1); rw [hw, pow_succ]; ring) (by omega)
          (fun j w hj => hslots j w (le_of_succ_le hj)) ⟨hnode, hcollects⟩
      refine ⟨c', w', ?_, le_of_succ_le hle, hlt, hw', hodd', hc', ?_⟩
      · simpa [climb, hw, testBit_mul_two_pow_self, hslot.inner_eq (by omega)] using hclimb
      · rw [hmutated, hw, repeatsAt_even_iff (by omega), hc.1]
        simp only [Bool.or_eq_true, Bool.and_eq_true, decide_eq_true_eq, and_or_left, or_assoc]

theorem climb_zero (hash256 : PairHash) (inner : List Uint256) (matchlevel : ℤ) (compare : Bool)
    (levels : ℕ) :
    ∀ c : Climb, climb hash256 inner matchlevel 0 compare levels c = none := by
  induction levels with
  | zero => exact fun _ => rfl
  | succ levels ih =>
    intro c
    rw [climb, zero_testBit, if_neg Bool.false_ne_true]
    cases inner[c.level]? with
    | none => rfl
    | some left => exact ih _

/-- At an odd level that is not over the position, the position is to come or further up. -/
theorem Collects.of_odd (hodd : w % 2 = 1)
    (hslot : Slot t inner matchlevel pbranch₀ c.level w)
    (hc : Collects t matchlevel pbranch₀ c w) : t.withBranch = false
      ∨ (c.matchh ∧ t.branchpos / 2 ^ c.level + 1 = w
          ∧ c.pbranch = some (branch t.hash256 t.l t.branchpos c.level))
      ∨ (c.matchh = false ∧ c.pbranch = pbranch₀
          ∧ (matchlevel = -1 ∧ w ≤ t.branchpos / 2 ^ c.level ∨ (c.level : ℤ) < matchlevel)) := by
  have hmatched := hslot.matched
  grind [Collects]

end Climbing

/-! ## The leaves -/

section Leaves

variable {t : MerkleTask}

/-- The state after `c` leaves of `l`. -/
structure Processed (t : MerkleTask) (st : MerkleState) (c : ℕ) : Prop where
  count_eq : st.count = c
  length_inner : st.inner.length = 32
  inner_eq : ∀ j < 32, c / 2 ^ j % 2 = 1 → st.inner[j]? = some (node t.hash256 t.l j (c / 2 ^ j - 1))
  mutated_iff : st.mutated = true ↔ ∃ j pos, (pos + 1) * 2 ^ (j + 1) ≤ c
    ∧ node t.hash256 t.l j (2 * pos) = node t.hash256 t.l j (2 * pos + 1)
  collects : t.withBranch = false ∨ (st.matchlevel = -1 ∧ c ≤ t.branchpos ∧ st.pbranch = some [])
    ∨ ∃ m : ℕ, st.matchlevel = m ∧ c / 2 ^ m % 2 = 1 ∧ t.branchpos / 2 ^ m + 1 = c / 2 ^ m
        ∧ st.pbranch = some (branch t.hash256 t.l t.branchpos m)

theorem processed_init : Processed t (MerkleState.init t.withBranch) 0 where
  count_eq := rfl
  length_inner := length_replicate
  inner_eq := by simp
  mutated_iff := by
    refine ⟨by simp [MerkleState.init], ?_⟩
    simp
  collects := by
    cases hbranch : t.withBranch with
    | false => exact .inl rfl
    | true => exact .inr (.inl ⟨rfl, zero_le _, rfl⟩)

/-- What a climb finds in the state, at a level where the new node is the last of `w`. -/
theorem Processed.slot {c : ℕ} (hst : Processed t st c) (hj : j < 32)
    (hw : c / 2 ^ j + 1 = w) (hin : w - 1 < width t.l.length j) :
    Slot t st.inner st.matchlevel st.pbranch j w where
  inner_eq := by
    intro heven
    rw [hst.inner_eq j hj (by omega)]
    congr 2
    omega
  in_tree := fun _ => hin
  matched := by
    intro hlevel
    rcases hst.collects with hnone | ⟨hminus, -⟩ | ⟨m, hm, hbit, hpos, hbranch⟩
    · exact .inl hnone
    · omega
    · obtain rfl : m = j := by omega
      exact .inr ⟨by omega, by omega, hbranch⟩

theorem div_succ_of_mul_eq {c : ℕ} (h : c + 1 = w * 2 ^ j) : c / 2 ^ j + 1 = w := by
  have hdvd : 2 ^ j ∣ c + 1 := ⟨w, by rw [h, mul_comm]⟩
  have hdiv : (c + 1) / 2 ^ j = w := by rw [h, Nat.mul_div_cancel _ (Nat.two_pow_pos j)]
  rwa [Nat.succ_div_of_dvd hdvd] at hdiv

/-- Above its lowest set bit, a number has the bits of its predecessor. -/
theorem div_succ_eq_of_lt {c k : ℕ} (h : c + 1 = w * 2 ^ j) (hw : w % 2 = 1) (hk : j < k) :
    (c + 1) / 2 ^ k = c / 2 ^ k := by
  apply Nat.succ_div_of_not_dvd
  rintro ⟨q, hq⟩
  obtain ⟨d, rfl⟩ := Nat.exists_eq_add_of_lt hk
  have hcancel : w = 2 ^ d * q * 2 := by
    apply Nat.eq_of_mul_eq_mul_right (Nat.two_pow_pos j)
    rw [← h, hq]
    ring
  omega

theorem even_div_of_lt {c k : ℕ} (h : c = w * 2 ^ j) (hk : k < j) : c / 2 ^ k % 2 = 0 := by
  obtain ⟨d, rfl⟩ := Nat.exists_eq_add_of_lt hk
  have hsplit : w * 2 ^ (k + d + 1) = w * 2 ^ d * 2 * 2 ^ k := by ring
  rw [h, hsplit, Nat.mul_div_cancel _ (Nat.two_pow_pos k)]
  omega

/-- **A leaf is added to the tree of the leaves before it.** -/
theorem addLeaf_spec {c : ℕ} {leaf : Uint256} (hst : Processed t st c)
    (hc : c + 1 < 2 ^ 32) (hleaf : t.l[c]? = some leaf) :
    ∃ st', addLeaf t.hash256 t.branchpos st leaf = some st'
      ∧ Processed t st' (c + 1) := by
  obtain ⟨hlt, -⟩ := List.getElem?_eq_some_iff.mp hleaf
  have hslots : ∀ j w, 0 ≤ j → c + 1 = w * 2 ^ j →
      Slot t st.inner st.matchlevel st.pbranch j w := by
    intro j w _ hw
    have hwpos : 0 < w := Nat.pos_of_ne_zero (by rintro rfl; omega)
    have hj : j < 32 := by
      refine (Nat.pow_lt_pow_iff_right (by norm_num : 1 < 2)).mp (lt_of_le_of_lt ?_ hc)
      rw [hw]
      exact Nat.le_mul_of_pos_left _ hwpos
    refine hst.slot hj (div_succ_of_mul_eq hw) (lt_width_iff.mpr ?_)
    have hstep : (w - 1) * 2 ^ j < w * 2 ^ j :=
      Nat.mul_lt_mul_of_pos_right (by omega) (Nat.two_pow_pos j)
    omega
  have hstart : Climbing t st.matchlevel st.pbranch
      ⟨0, leaf, decide (c = t.branchpos), st.mutated, st.pbranch⟩ (c + 1) := by
    constructor
    · simp [node, hleaf]
    · rcases hst.collects with hnone | ⟨hminus, hle, hsome⟩ | ⟨m, hm, -, hpos, -⟩
      · exact .inl hnone
      · by_cases hhere : c = t.branchpos
        · exact .inr (.inl ⟨by simp [hhere], by simp [hhere], by simp [hsome, branch]⟩)
        · refine .inr (.inr ⟨by simp [hhere], rfl, .inl ⟨hminus, ?_⟩⟩)
          simp only [pow_zero, Nat.div_one]
          omega
      · refine .inr (.inr ⟨?_, rfl, .inr (by simp [hm])⟩)
        rw [decide_eq_false_iff_not]
        rintro rfl
        omega
  obtain ⟨c', w', hclimb, -, hlevel, hw', hodd, hc', hmutated⟩ :=
    climb_spec true hc 32 rfl (by simp) (Nat.succ_pos c) hslots hstart
  have hdiv : (c + 1) / 2 ^ c'.level = w' := by
    rw [hw', Nat.mul_div_cancel _ (Nat.two_pow_pos _)]
  refine ⟨_, by rw [addLeaf, hst.count_eq, Nat.mod_eq_of_lt hc, hclimb]; rfl, rfl, ?_, ?_, ?_, ?_⟩
  · rw [length_set, hst.length_inner]
  · intro j hj hbit
    rcases lt_trichotomy j c'.level with hbelow | rfl | habove
    · exact absurd (even_div_of_lt hw' hbelow) (by omega)
    · rw [getElem?_set_self (by rw [hst.length_inner]; exact hj), hdiv, hc'.1]
    · rw [getElem?_set_ne (by omega), div_succ_eq_of_lt hw' hodd habove] at *
      exact hst.inner_eq j hj hbit
  · rw [hmutated, hst.mutated_iff]
    simp only [true_and, RepeatsAt, Nat.zero_le]
    constructor
    · rintro (⟨j, pos, hle, hsame⟩ | ⟨j, pos, heq, hsame⟩)
      · exact ⟨j, pos, by omega, hsame⟩
      · exact ⟨j, pos, by omega, hsame⟩
    · rintro ⟨j, pos, hle, hsame⟩
      rcases hle.eq_or_lt with heq | hless
      · exact .inr ⟨j, pos, heq, hsame⟩
      · exact .inl ⟨j, pos, by omega, hsame⟩
  · rcases hc'.2.of_odd hodd (hslots _ _ (Nat.zero_le _) hw') with
      hnone | ⟨hmatch, hpos, hsome⟩ | ⟨hmatch, hsame, hnew⟩
    · exact .inl hnone
    · exact .inr (.inr ⟨c'.level, by simp [hmatch], by omega, by omega, hsome⟩)
    · simp only [hmatch, Bool.false_eq_true, if_false]
      rw [hsame]
      rcases hst.collects with hnone | ⟨hminus, -, hsome⟩ | ⟨m, hm, hbit, hpos, hsome⟩
      · exact .inl hnone
      · refine .inr (.inl ⟨hminus, ?_, hsome⟩)
        have hle : w' ≤ t.branchpos / 2 ^ c'.level := by omega
        rw [hw']
        exact (Nat.le_div_iff_mul_le (Nat.two_pow_pos _)).mp hle
      · have habove : c'.level < m := by omega
        rw [← div_succ_eq_of_lt hw' hodd habove] at hbit hpos
        exact .inr (.inr ⟨m, hm, hbit, hpos, hsome⟩)

variable (t)

/-- **The state after the first leaves**, as long as their number is a `uint32_t`. -/
theorem foldlM_addLeaf_spec (c : ℕ) : c ≤ t.l.length → c < 2 ^ 32 →
    ∃ st, (t.l.take c).foldlM (addLeaf t.hash256 t.branchpos) (MerkleState.init t.withBranch) = some st
      ∧ Processed t st c := by
  induction c with
  | zero => exact fun _ _ => ⟨_, rfl, processed_init⟩
  | succ c ih =>
    intro hlen hc
    obtain ⟨st, hfold, hst⟩ := ih (by omega) (by omega)
    have hleaf : t.l[c]? = some t.l[c] := getElem?_eq_getElem (by omega)
    obtain ⟨st', hadd, hst'⟩ := addLeaf_spec hst hc hleaf
    refine ⟨st', ?_, hst'⟩
    rw [take_add_one, hleaf, foldlM_append, hfold]
    simp [hadd]

/-- With `2 ^ 32` leaves the count is zero. -/
theorem foldlM_addLeaf_eq_none (hlen : 2 ^ 32 ≤ t.l.length) :
    t.l.foldlM (addLeaf t.hash256 t.branchpos) (MerkleState.init t.withBranch) = none := by
  obtain ⟨st, hfold, hst⟩ := foldlM_addLeaf_spec t (2 ^ 32 - 1) (by omega) (by norm_num)
  have hlast : 2 ^ 32 - 1 < t.l.length := by omega
  rw [← take_append_drop (2 ^ 32 - 1) t.l, drop_eq_getElem_cons hlast, foldlM_append, hfold]
  have hadd : addLeaf t.hash256 t.branchpos st t.l[2 ^ 32 - 1] = none := by
    rw [addLeaf, hst.count_eq]
    simp only [reducePow, reduceSub, reduceAdd, reduceMod, climb_zero, Option.map_none]
  simp only [Option.bind_eq_bind, Option.bind_some, foldlM_cons, hadd, Option.bind_none]

end Leaves

/-! ## The sweep -/

section Sweep

variable {t : MerkleTask}

theorem skipLevels_spec {level : ℕ} (hodd : w % 2 = 1) (levels : ℕ) : ∀ {k : ℕ},
    k ≤ level → level < k + levels → skipLevels (w * 2 ^ level) levels k = some level := by
  induction levels with
  | zero => exact fun hle hlt => absurd hlt (by omega)
  | succ levels ih =>
    intro k hle hlt
    rw [skipLevels]
    rcases hle.eq_or_lt with rfl | hless
    · rw [testBit_mul_two_pow_self, if_pos (decide_eq_true hodd)]
    · simp [testBit_eq_decide_div_mod_eq, even_div_of_lt rfl hless, ih hless (by omega)]

/-- The number of nodes of a level, from the range of leaves that it ends in. -/
theorem width_eq_of_range {n h : ℕ} (hlo : (w - 1) * 2 ^ h < n) (hhi : n ≤ w * 2 ^ h) :
    width n h = w := by
  have h1 := lt_width_iff.mpr hlo
  have h2 : ¬ w < width n h := fun hlt => absurd (lt_width_iff.mp hlt) (by omega)
  omega

/-- The sweep is at the last of `w` nodes of a level, an odd number. -/
structure Sweeping (t : MerkleTask) (st : MerkleState) (count : ℕ) (c : Climb) (w : ℕ) : Prop where
  width_eq : width t.l.length c.level = w
  odd : w % 2 = 1
  level_lt : c.level < 32
  level_le : c.level ≤ height t.l.length
  not_dvd : ¬ 2 ^ (c.level + 1) ∣ t.l.length
  count_eq : count = w * 2 ^ c.level % 2 ^ 32
  h_eq : c.h = node t.hash256 t.l c.level (w - 1)
  collects : t.withBranch = false
    ∨ (c.matchh = true ∧ t.branchpos / 2 ^ c.level + 1 = w
        ∧ c.pbranch = some (branch t.hash256 t.l t.branchpos c.level))
    ∨ (c.matchh = false ∧ c.pbranch = st.pbranch ∧ (c.level : ℤ) < st.matchlevel)

/-- A climb of the sweep ends above leaves that a level does not fill. -/
theorem sweep_range {n L w₁ : ℕ} (hL : width n L = w₁) (hndvd : ¬ 2 ^ L ∣ n) (hle : L ≤ j)
    (hw : w₁ * 2 ^ L = w * 2 ^ j) : (w - 1) * 2 ^ j < n ∧ n < w * 2 ^ j := by
  have hn : 0 < n := Nat.pos_of_ne_zero (by rintro rfl; exact hndvd (Nat.dvd_zero _))
  have hlo : (w₁ - 1) * 2 ^ L < n := lt_width_iff.mp (by have := zero_lt_width (h := L) hn; omega)
  have hhi : n ≤ w₁ * 2 ^ L := by
    rw [← not_lt, ← lt_width_iff]
    omega
  have hne : n ≠ w₁ * 2 ^ L := fun heq => hndvd ⟨w₁, by rw [heq, mul_comm]⟩
  have hpow : 2 ^ L ≤ 2 ^ j := Nat.pow_le_pow_right (by norm_num) hle
  rw [Nat.sub_mul] at hlo ⊢
  omega

/-- A climb of the sweep does not go beyond the root. -/
theorem level_le_height {n L w₁ M : ℕ} (hL : 2 ≤ w₁) (hlo : (w₁ - 1) * 2 ^ (L + 1) < n)
    (hle : L + 1 ≤ M) (hw : w₁ * 2 ^ (L + 1) = w * 2 ^ M) : M ≤ height n := by
  have hpos : 0 < w := Nat.pos_of_ne_zero fun h0 => by
    rw [h0, Nat.zero_mul] at hw
    exact absurd hw (Nat.mul_ne_zero (by omega) (Nat.two_pow_pos _).ne')
  have hM : 2 ^ M ≤ w * 2 ^ M := Nat.le_mul_of_pos_left _ hpos
  obtain ⟨d, rfl⟩ := Nat.exists_eq_add_of_le hle
  rw [Nat.sub_mul, one_mul] at hlo
  cases d with
  | zero =>
    refine (Nat.lt_clog_iff_pow_lt (by norm_num)).mpr ?_
    have h2 := Nat.mul_le_mul_right (2 ^ (L + 1)) hL
    omega
  | succ d =>
    refine (Nat.lt_clog_iff_pow_lt (by norm_num)).mpr ?_
    have hhalf : 2 ^ (L + 1 + (d + 1)) = 2 * 2 ^ (L + 1 + d) := by ring
    have hless : 2 ^ (L + 1) ≤ 2 ^ (L + 1 + d) := Nat.pow_le_pow_right (by norm_num) (by omega)
    show 2 ^ (L + 1 + d) < n
    omega

theorem Processed.slot_of_sweep (hst : Processed t st t.l.length)
    (hlo : (w - 1) * 2 ^ j < t.l.length) (hhi : t.l.length < w * 2 ^ j) (hlt : w * 2 ^ j < 2 ^ 32) :
    Slot t st.inner st.matchlevel st.pbranch j w := by
  have hw : 0 < w := Nat.pos_of_ne_zero (by rintro rfl; omega)
  have hj : j < 32 := (Nat.pow_lt_pow_iff_right (by norm_num : 1 < 2)).mp
    (lt_of_le_of_lt (Nat.le_mul_of_pos_left _ hw) hlt)
  refine hst.slot hj ?_ (lt_width_iff.mpr hlo)
  rw [Nat.div_eq_of_lt_le hlo.le (by rwa [Nat.sub_add_cancel hw]), Nat.sub_add_cancel hw]

theorem Sweeping.climbing_self (hs : Sweeping t st count c w) :
    let pbranch := if c.matchh then c.pbranch.map (fun branch => branch ++ [c.h]) else c.pbranch
    Climbing t st.matchlevel st.pbranch
      { c with level := c.level + 1, h := t.hash256 c.h c.h, pbranch := pbranch }
      (width t.l.length (c.level + 1)) := by
  have hodd := hs.odd
  have hwidth := hs.width_eq
  have hlast : 2 * (width t.l.length (c.level + 1) - 1) = w - 1 := by
    rw [width_succ]
    omega
  constructor
  · show t.hash256 c.h c.h = node t.hash256 t.l (c.level + 1) _
    rw [node_succ, right_of_not_lt _ (by omega), hlast, hs.h_eq]
  · have hdiv : t.branchpos / 2 ^ (c.level + 1) = t.branchpos / 2 ^ c.level / 2 := by
      rw [pow_succ, Nat.div_div_eq_div_mul]
    rcases hs.collects with hnone | ⟨hmatch, hpos, hsome⟩ | ⟨hmatch, hsame, hlevel⟩
    · exact .inl hnone
    · refine .inr (.inl ⟨hmatch, ?_, ?_⟩)
      · show t.branchpos / 2 ^ (c.level + 1) + 1 = _
        rw [width_succ]
        omega
      · have hself : t.branchpos / 2 ^ c.level = w - 1 := by omega
        have heven : ¬ (w - 1) % 2 = 1 := by omega
        have hend : ¬ w - 1 + 1 < width t.l.length c.level := by omega
        simp only [hmatch, hsome, if_true, Option.map_some, branch_succ, hself, sibling,
          if_neg heven, if_neg hend, hs.h_eq]
    · refine .inr (.inr ⟨hmatch, by simp [hmatch, hsame], .inr ?_⟩)
      push_cast
      omega

theorem Sweeping.count_succ (hs : Sweeping t st count c w) :
    (count + 2 ^ c.level) % 2 ^ 32
      = width t.l.length (c.level + 1) * 2 ^ (c.level + 1) % 2 ^ 32 := by
  have hodd := hs.odd
  have htwo : w + 1 = width t.l.length (c.level + 1) * 2 := by
    rw [width_succ, hs.width_eq]
    omega
  rw [hs.count_eq, mod_add_mod, ← succ_mul, succ_eq_add_one, htwo, pow_succ]
  congr 1
  ring

theorem width_mul_le {n h k : ℕ} (hn : n ≤ 2 ^ k) (hh : h ≤ k) : width n h * 2 ^ h ≤ 2 ^ k := by
  obtain ⟨d, rfl⟩ := Nat.exists_eq_add_of_le hh
  have hnot : ¬ 2 ^ d < width n h := by
    rw [lt_width_iff, ← pow_add, add_comm d h]
    omega
  rw [pow_add, mul_comm (2 ^ h)]
  exact Nat.mul_le_mul_right _ (not_lt.mp hnot)

/-- A count that has not wrapped around to the end is of more than one node. -/
theorem Sweeping.count_ne (hs : Sweeping t st count c w)
    (hlen : t.l.length < 2 ^ 32) (hw : w ≠ 1) : count ≠ 2 ^ c.level := by
  have hpos := Nat.two_pow_pos c.level
  have hle := width_mul_le hlen.le hs.level_lt.le
  rw [hs.width_eq] at hle
  rw [hs.count_eq]
  rcases hle.lt_or_eq with hlt | heq
  · rw [Nat.mod_eq_of_lt hlt]
    exact fun h => hw (Nat.eq_of_mul_eq_mul_right hpos (by rw [h, one_mul]))
  · omega

section
variable (hst : Processed t st t.l.length)
include hst

section

variable (hml : t.withBranch = false ∨ st.matchlevel ≠ -1)

include hml

theorem Sweeping.next (hs : Sweeping t st count c w)
    (hw : w ≠ 1) (hlt : width t.l.length (c.level + 1) * 2 ^ (c.level + 1) < 2 ^ 32) :
    let pbranch := if c.matchh then c.pbranch.map (fun branch => branch ++ [c.h]) else c.pbranch
    let count' := (count + 2 ^ c.level) % 2 ^ 32
    ∃ c' w', climb t.hash256 st.inner st.matchlevel count' false (31 - c.level)
        { c with level := c.level + 1, h := t.hash256 c.h c.h, pbranch := pbranch } = some c'
      ∧ c.level < c'.level ∧ Sweeping t st count' c' w'
      ∧ c'.mutated = c.mutated := by
  intro pbranch count'
  have hodd := hs.odd
  have hlevel := hs.level_lt
  have hw₁ : width t.l.length (c.level + 1) = (w + 1) / 2 := by rw [width_succ, hs.width_eq]
  have hcount : count' = width t.l.length (c.level + 1) * 2 ^ (c.level + 1) :=
    hs.count_succ.trans (mod_eq_of_lt hlt)
  have hrange : ∀ j w', c.level + 1 ≤ j → count' = w' * 2 ^ j →
      (w' - 1) * 2 ^ j < t.l.length ∧ t.l.length < w' * 2 ^ j :=
    fun j w' hj hw' => sweep_range rfl hs.not_dvd hj (hcount ▸ hw')
  have hslots : ∀ j w', c.level + 1 ≤ j → count' = w' * 2 ^ j →
      Slot t st.inner st.matchlevel st.pbranch j w' := by
    intro j w' hj hw'
    obtain ⟨hlo, hhi⟩ := hrange j w' hj hw'
    exact hst.slot_of_sweep hlo hhi (by rw [← hw', hcount]; exact hlt)
  have hlevels : c.level + 1 + (31 - c.level) = 32 := by omega
  obtain ⟨c', w', hclimb, hle, hlt', hw', hodd', hc', hmutated⟩ :=
    climb_spec false (hcount ▸ hlt) (31 - c.level) hlevels hcount (by omega) hslots hs.climbing_self
  replace hle : c.level + 1 ≤ c'.level := hle
  obtain ⟨hlo, hhi⟩ := hrange _ _ hle hw'
  refine ⟨c', w', hclimb, hle, ?_, ?_⟩
  · refine ⟨width_eq_of_range hlo hhi.le, hodd', hlt', ?_, ?_, ?_, hc'.1, ?_⟩
    · exact level_le_height (by omega) (lt_width_iff.mp (by omega)) hle (hcount ▸ hw')
    · exact fun hdvd => hs.not_dvd ((pow_dvd_pow 2 (by omega)).trans hdvd)
    · rw [← hw', hcount, mod_eq_of_lt hlt]
    · grind [hc'.2.of_odd hodd' (hslots _ _ hle hw')]
  · have : c'.mutated ↔ c.mutated := by simpa using hmutated
    exact Bool.eq_iff_iff.mpr this

/-- **The sweep reaches the root**, for at most `2 ^ 31` leaves; for more it has no end. -/
theorem sweep_spec (hlen : t.l.length < 2 ^ 32) (rounds : ℕ) :
    ∀ {count : ℕ} {c : Climb} {w : ℕ}, Sweeping t st count c w →
    32 ≤ c.level + rounds →
    (t.l.length ≤ 2 ^ 31 ∧ ∃ c' count', sweep t.hash256 st.inner st.matchlevel rounds count c = some c'
        ∧ Sweeping t st count' c' 1 ∧ c'.mutated = c.mutated)
      ∨ (2 ^ 31 < t.l.length ∧ sweep t.hash256 st.inner st.matchlevel rounds count c = none) := by
  induction rounds with
  | zero => exact fun hs hrounds => absurd hs.level_lt (by omega)
  | succ rounds ih =>
    intro count c w hs hrounds
    have hlevel := hs.level_lt
    by_cases hw : w = 1
    · subst hw
      have hpow : 2 ^ c.level ≤ 2 ^ 31 := Nat.pow_le_pow_right (by norm_num) (by omega)
      have hcount : count = 2 ^ c.level := by
        rw [hs.count_eq, one_mul, Nat.mod_eq_of_lt (by omega)]
      have hle : t.l.length ≤ 2 ^ c.level := by
        have hnot : ¬ 1 < width t.l.length c.level := by rw [hs.width_eq]; omega
        rw [lt_width_iff] at hnot
        omega
      exact .inl ⟨by omega, c, count, by rw [sweep, if_pos hcount], hs, rfl⟩
    · -- there are more nodes at this level
      have hodd := hs.odd
      have hcount := hs.count_ne hlen hw
      rcases (width_mul_le hlen.le hlevel).lt_or_eq with hlt | heq
      · obtain ⟨c', w', hclimb, hup, hs', hmutated⟩ := hs.next hst hml hw hlt
        rcases ih hs' (by omega) with ⟨hle, c₂, count₂, hsweep, hs₂, hmutated₂⟩ | ⟨hmore, hsweep⟩
        · refine .inl ⟨hle, c₂, count₂, ?_, hs₂, hmutated₂.trans hmutated⟩
          rw [sweep, if_neg hcount]
          simp only [hclimb, hsweep]
        · refine .inr ⟨hmore, ?_⟩
          rw [sweep, if_neg hcount]
          simp only [hclimb, hsweep]
      · -- the count wraps around to zero
        refine .inr ⟨?_, ?_⟩
        · by_contra hle
          have hmore : 2 ^ c.level < 2 ^ 31 := by
            have hlt := lt_width_iff.mp (by rw [hs.width_eq]; omega : 1 < width t.l.length c.level)
            omega
          have hless := (Nat.pow_lt_pow_iff_right (by norm_num : 1 < 2)).mp hmore
          have hhalf := width_mul_le (not_lt.mp hle) hless
          omega
        · have hzero := hs.count_succ
          rw [heq, Nat.mod_self] at hzero
          rw [sweep, if_neg hcount]
          simp only [hzero, climb_zero]

/-- The state of the sweep before its first round. -/
theorem Processed.sweeping (hlen : t.l.length < 2 ^ 32) {level : ℕ}
    (hw : t.l.length = w * 2 ^ level) (hodd : w % 2 = 1) :
    st.inner[level]? = some (node t.hash256 t.l level (w - 1))
      ∧ Sweeping t st t.l.length
          ⟨level, node t.hash256 t.l level (w - 1), decide (st.matchlevel = level), st.mutated,
            st.pbranch⟩ w := by
  have hpos := Nat.two_pow_pos level
  have hdiv : t.l.length / 2 ^ level = w := by rw [hw, Nat.mul_div_cancel _ hpos]
  have hle : 2 ^ level ≤ t.l.length := by
    rw [hw]
    exact Nat.le_mul_of_pos_left _ (by omega)
  have hlevel : level < 32 :=
    (Nat.pow_lt_pow_iff_right (by norm_num : 1 < 2)).mp (lt_of_le_of_lt hle hlen)
  refine ⟨?_, ?_, hodd, hlevel, ?_, ?_, ?_, rfl, ?_⟩
  · rw [hst.inner_eq level hlevel (by omega), hdiv]
  · refine width_eq_of_range ?_ hw.le
    rw [hw]
    exact Nat.mul_lt_mul_of_pos_right (by omega) hpos
  · exact (Nat.pow_le_pow_iff_right (by norm_num : 1 < 2)).mp
      (hle.trans (le_two_pow_height _))
  · rintro ⟨q, hq⟩
    have hcancel : w = q * 2 := by
      apply Nat.eq_of_mul_eq_mul_right hpos
      rw [← hw, hq]
      ring
    omega
  · rw [← hw, Nat.mod_eq_of_lt hlen]
  · have heven := fun m => @even_div_of_lt w level t.l.length m hw
    grind [hst.collects]

end

end

end Sweep

/-! ## The result -/

section Result

/-- The state after all leaves, for a position that is one of them if the branch is asked for. -/
theorem exists_processed (t : MerkleTask) (hne : t.l ≠ []) (hlen : t.l.length < 2 ^ 32)
    (hpos : t.withBranch → t.branchpos < t.l.length) : ∃ st w level,
    merkleComputation t.hash256 t.l t.branchpos t.withBranch = finish t.hash256 st
      ∧ Processed t st t.l.length ∧ (t.withBranch = false ∨ st.matchlevel ≠ -1)
      ∧ t.l.length = w * 2 ^ level ∧ w % 2 = 1 := by
  obtain ⟨st, hfold, hst⟩ := foldlM_addLeaf_spec t t.l.length le_rfl hlen
  rw [take_length] at hfold
  obtain ⟨level, w, hodd, hw⟩ := exists_eq_two_pow_mul_odd (length_pos_of_ne_nil hne).ne'
  refine ⟨st, w, level, ?_, hst, ?_, by rw [hw, mul_comm], odd_iff.mp hodd⟩
  · rw [merkleComputation, if_neg (by simpa using hne), hfold]
    rfl
  · grind [hst.collects]

/-- **`MerkleComputation` computes the tree**: its root, whether two neighbours that cover all their
    leaves are equal, and the branch of the position. -/
theorem merkleComputation_spec (t : MerkleTask) (hne : t.l ≠ []) (hlen : t.l.length ≤ 2 ^ 31)
    (hpos : t.withBranch → t.branchpos < t.l.length) :
    ∃ r, merkleComputation t.hash256 t.l t.branchpos t.withBranch = some r
      ∧ r.root = root t.hash256 t.l ∧ (r.mutated ↔ Repeats t.hash256 t.l)
      ∧ (t.withBranch → r.pbranch
        = some (branch t.hash256 t.l t.branchpos (height t.l.length))) := by
  obtain ⟨st, w, level, hresult, hst, hml, hw, hodd⟩ := exists_processed t hne (by omega) hpos
  obtain ⟨hinner, hsweeping⟩ := hst.sweeping hml (by omega) hw hodd
  rcases sweep_spec hst hml (by omega) 32 hsweeping (by omega) with
    ⟨-, c, count, hsweep, hs, hmutated⟩ | ⟨hmore, -⟩
  · have hlevel : c.level = height t.l.length :=
      le_antisymm hs.level_le (width_le_one_iff.mp hs.width_eq.le)
    refine ⟨⟨c.h, c.mutated, c.pbranch⟩, ?_, ?_, ?_, ?_⟩
    · rw [hresult, finish, hst.count_eq, hw, skipLevels_spec hodd 32 (Nat.zero_le _) (by
        have := hsweeping.level_lt; omega)]
      simp only [Option.bind_eq_bind, Option.bind_some, hinner, ← hw, hsweep]
    · rw [root, ← hlevel]
      exact hs.h_eq
    · show c.mutated ↔ _
      rw [hmutated]
      exact hst.mutated_iff
    · intro hbranch
      rcases hs.collects with hnot | ⟨-, -, hc⟩ | ⟨-, hsame, hup⟩
      · simp [hbranch] at hnot
      · rwa [hlevel] at hc
      · -- the position would be under a node that covers more leaves than there are
        rcases hst.collects with hnot | ⟨-, hle, -⟩ | ⟨m, hm, hbit, -⟩
        · simp [hbranch] at hnot
        · exact absurd (hpos hbranch) (by omega)
        · have hlt : t.l.length < 2 ^ m := lt_of_le_of_lt (le_two_pow_height _)
            (Nat.pow_lt_pow_right (by norm_num) (by rw [hm, hlevel] at hup; exact_mod_cast hup))
          simp [Nat.div_eq_of_lt hlt] at hbit
  · omega

variable {hash256 : PairHash} {l : List Uint256}

/-- For more than `2 ^ 31` leaves there is no result. -/
theorem merkleComputation_eq_none {branchpos : ℕ} (hlen : 2 ^ 31 < l.length) :
    merkleComputation hash256 l branchpos false = none := by
  have hne : l ≠ [] := ne_nil_of_length_pos (by omega)
  rcases lt_or_ge l.length (2 ^ 32) with hless | hge
  · obtain ⟨st, w, level, hresult, hst, hml, hw, hodd⟩ :=
      exists_processed ⟨hash256, l, branchpos, false⟩ hne hless nofun
    obtain ⟨hinner, hsweeping⟩ := hst.sweeping hml hless hw hodd
    rcases sweep_spec hst hml hless 32 hsweeping (by omega) with ⟨hle, -⟩ | ⟨-, hsweep⟩
    · exact absurd hle (by simpa using hlen)
    · rw [hresult, finish, hst.count_eq, hw, skipLevels_spec hodd 32 (zero_le _) (by
        have := hsweeping.level_lt; omega)]
      simp only [Option.bind_eq_bind, Option.bind_some, hinner, ← hw, hsweep, Option.bind_none]
  · rw [merkleComputation, if_neg (by simpa using hne),
      foldlM_addLeaf_eq_none ⟨hash256, l, branchpos, false⟩ hge]
    rfl

variable (hash256) in
/-- **`ComputeMerkleRoot` gives the root of the tree and notes repeats.** -/
theorem computeMerkleRoot_spec (hne : l ≠ []) (hlen : l.length ≤ 2 ^ 31) :
    ∃ mutated, computeMerkleRoot hash256 l = some (root hash256 l, mutated)
      ∧ (mutated ↔ Repeats hash256 l) := by
  obtain ⟨r, hr, hroot, hmutated, -⟩ :=
    merkleComputation_spec ⟨hash256, l, 2 ^ 32 - 1, false⟩ hne hlen nofun
  refine ⟨r.mutated, ?_, hmutated⟩
  rw [computeMerkleRoot, hr, ← hroot]
  rfl

/-- If `ComputeMerkleRoot` has a result, it is that of the tree. -/
theorem computeMerkleRoot_eq_some (hne : l ≠ []) {hash : Uint256} {mutated : Bool}
    (h : computeMerkleRoot hash256 l = some (hash, mutated)) :
    root hash256 l = hash ∧ (mutated ↔ Repeats hash256 l) := by
  rcases lt_or_ge (2 ^ 31) l.length with hmore | hle
  · simp [computeMerkleRoot, merkleComputation_eq_none hmore] at h
  · obtain ⟨mutated', h', hrepeats⟩ := computeMerkleRoot_spec hash256 hne hle
    rw [h] at h'
    cases h'
    exact ⟨rfl, hrepeats⟩

end Result

end Binarium
