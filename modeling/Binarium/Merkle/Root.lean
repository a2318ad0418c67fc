import Binarium.Merkle.Computation

set_option autoImplicit false

/-! # What a merkle root says about the leaves

`MerkleComputation` gives the root that building the tree level by level gives, and the branch of a
leaf leads back to it (`merkleComputation_eq_levels`).

Because the last node of an odd level is paired with itself, a list and the list with its end repeated
have one root. `MerkleComputation` compares the hashes only where both cover all their leaves, and not in
the final sweep; this is enough (`eq_of_computeMerkleRoot_eq`). The list without leaves has the root
zero, which a leaf or a hash may be as well. -/

namespace Binarium

open MerkleTree List

section Branch

variable (hash256 : PairHash) (l : List Uint256)

/-- From a node over the position, the siblings of `k` levels lead `k` levels up. -/
theorem computeMerkleRootFromBranch_siblings {pos : ℕ} (hpos : pos < l.length) (k : ℕ) : ∀ h : ℕ,
    computeMerkleRootFromBranch hash256 (node hash256 l h (pos / 2 ^ h))
        ((List.range' h k).map fun i => sibling hash256 l i (pos / 2 ^ i)) (pos / 2 ^ h)
      = node hash256 l (h + k) (pos / 2 ^ (h + k)) := by
  induction k with
  | zero => exact fun h => rfl
  | succ k ih =>
    intro h
    have hdiv : pos / 2 ^ h / 2 = pos / 2 ^ (h + 1) := by
      rw [pow_succ, Nat.div_div_eq_div_mul]
    have hwidth : pos / 2 ^ h < width l.length h :=
      lt_width_iff.mpr (lt_of_le_of_lt (Nat.div_mul_le_self _ _) hpos)
    have hshift : h + (k + 1) = h + 1 + k := by omega
    have hup := node_half hash256 l hwidth
    rw [hshift, ← ih (h + 1), range'_succ, map_cons, computeMerkleRootFromBranch, hdiv,
      ← hdiv, hup, Nat.testBit_zero]
    simp

/-- **The branch of a leaf leads from the leaf to the root.** -/
theorem computeMerkleRootFromBranch_branch {pos : ℕ} (hpos : pos < l.length) :
    computeMerkleRootFromBranch hash256 l[pos] (branch hash256 l pos (height l.length)) pos
      = root hash256 l := by
  have hleaf : node hash256 l 0 pos = l[pos] := by simp [node, hpos]
  have hsiblings := computeMerkleRootFromBranch_siblings hash256 l hpos (height l.length) 0
  rw [pow_zero, Nat.div_one, hleaf, ← range_eq_range', Nat.zero_add,
    Nat.div_eq_of_lt (lt_of_lt_of_le hpos (le_two_pow_height _))] at hsiblings
  exact hsiblings

end Branch

/-- **The constant-space computation is the tree.** Its root is the root of the tree that is built
    level by level, and the branch of a leaf leads from the leaf to that root. -/
theorem merkleComputation_eq_levels (hash256 : PairHash) {leaves : List Uint256} (hne : leaves ≠ [])
    (hlen : leaves.length < 2 ^ 31) {position : ℕ} (hpos : position < leaves.length) :
    (∃ mutated, computeMerkleRoot hash256 leaves
        = some (rootByLevels hash256 leaves.length leaves, mutated))
      ∧ ∃ vMerkleBranch, computeMerkleBranch hash256 leaves position = some vMerkleBranch
        ∧ computeMerkleRootFromBranch hash256 leaves[position] vMerkleBranch position
            = rootByLevels hash256 leaves.length leaves := by
  rw [rootByLevels_eq_root hne]
  constructor
  · obtain ⟨mutated, hroot, -⟩ := computeMerkleRoot_spec hash256 hne hlen.le
    exact ⟨mutated, hroot⟩
  · obtain ⟨r, hr, -, -, hbranch⟩ :=
      merkleComputation_spec ⟨hash256, leaves, position, true⟩ hne hlen.le fun _ => hpos
    refine ⟨_, ?_, computeMerkleRootFromBranch_branch hash256 leaves hpos⟩
    rw [computeMerkleBranch, hr]
    exact hbranch rfl

/-- A pair hash whose results are odd numbers. -/
def oddHash (a b : Uint256) : Uint256 := (a * 1000000 + b * 10) ||| 1

/-- **Three leaves, and the branch of the last one.** -/
theorem merkleComputation_eq_levels_three :
    ([2, 4, 6] : List Uint256) ≠ [] ∧ ([2, 4, 6] : List Uint256).length < 2 ^ 31
      ∧ computeMerkleBranch oddHash [2, 4, 6] 2 = some [6, 2000041]
      ∧ computeMerkleRootFromBranch oddHash 6 [6, 2000041] 2
          = rootByLevels oddHash 3 [2, 4, 6] := by
  obtain ⟨-, b, hb, hroot⟩ :=
    merkleComputation_eq_levels oddHash (by simp : ([2, 4, 6] : List Uint256) ≠ []) (by decide)
      (by decide : 2 < _)
  have hbranch : computeMerkleBranch oddHash [2, 4, 6] 2 = some [6, 2000041] := by decide +kernel
  cases hb
  exact ⟨by simp, by decide, hbranch, hroot⟩

/-- **Equal roots without repeats come from equal lists**, both without leaves or both with leaves, if
    the pairs that are hashed do not collide and no leaf is the hash of one of them. -/
theorem eq_of_computeMerkleRoot_eq {hash256 : PairHash} {leaves leaves' : List Uint256}
    {hash : Uint256}
    (hfree : CollisionFree hash256 (hashed hash256 leaves ++ hashed hash256 leaves'))
    (hleaf : ∀ a ∈ leaves ++ leaves', ∀ p ∈ hashed hash256 leaves ++ hashed hash256 leaves',
      a ≠ hash256 p.1 p.2)
    (hempty : leaves = [] ↔ leaves' = [])
    (h : computeMerkleRoot hash256 leaves = some (hash, false))
    (h' : computeMerkleRoot hash256 leaves' = some (hash, false)) : leaves = leaves' := by
  by_cases hne : leaves = []
  · rw [hne, hempty.mp hne]
  · have hne' : leaves' ≠ [] := fun hnil => hne (hempty.mpr hnil)
    obtain ⟨hroot, hrepeats⟩ := computeMerkleRoot_eq_some hne h
    obtain ⟨hroot', hrepeats'⟩ := computeMerkleRoot_eq_some hne' h'
    exact eq_of_root_eq hfree (subset_append_left _ _) (subset_append_right _ _)
      (fun a ha => hleaf a (mem_append_left _ ha))
      (fun a ha => hleaf a (mem_append_right _ ha)) (by simpa using hrepeats)
      (by simpa using hrepeats') hne hne' (hroot.trans hroot'.symm)

/-- **Three leaves without repeats.** -/
theorem eq_of_computeMerkleRoot_eq_three :
    (CollisionFree oddHash (hashed oddHash [2, 4, 6] ++ hashed oddHash [2, 4, 6])
      ∧ computeMerkleRoot oddHash [2, 4, 6] = some (2000101000611, false))
    ∧ ([2, 4, 6] : List Uint256) = [2, 4, 6] := by
  have hfree : CollisionFree oddHash (hashed oddHash [2, 4, 6] ++ hashed oddHash [2, 4, 6]) := by
    decide +kernel
  have hleaf : ∀ a ∈ ([2, 4, 6] ++ [2, 4, 6] : List Uint256),
      ∀ p ∈ hashed oddHash [2, 4, 6] ++ hashed oddHash [2, 4, 6], a ≠ oddHash p.1 p.2 := by
    rintro a ha p - rfl
    have heven : ∀ x : Uint256, x ∈ ([2, 4, 6] ++ [2, 4, 6] : List Uint256) → x.getLsbD 0 = false := by
      simp
    exact absurd (heven _ ha) (by simp [oddHash])
  have hroot : computeMerkleRoot oddHash [2, 4, 6] = some (2000101000611, false) := by
    decide +kernel
  exact ⟨⟨hfree, hroot⟩, eq_of_computeMerkleRoot_eq hfree hleaf Iff.rfl hroot hroot⟩

/-- **The list without leaves and the list of one zero leaf have one root**, although no leaf is the
    hash of any pair and no pairs are hashed. -/
theorem computeMerkleRoot_nil_eq_zero_leaf :
    CollisionFree oddHash (hashed oddHash [] ++ hashed oddHash [0])
    ∧ (∀ a ∈ ([] ++ [0] : List Uint256), ∀ b c, a ≠ oddHash b c)
    ∧ computeMerkleRoot oddHash [] = some (0, false)
    ∧ computeMerkleRoot oddHash [0] = some (0, false)
    ∧ ([] : List Uint256) ≠ [0] := by
  refine ⟨?_, ?_, by decide +kernel, by decide +kernel, by simp⟩
  · simp [CollisionFree, hashed, height]
  · intro a ha b c hzero
    obtain rfl : a = 0 := by simpa using ha
    have hbit := congrArg (fun x : Uint256 => x.getLsbD 0) hzero
    simp [oddHash] at hbit

end Binarium
