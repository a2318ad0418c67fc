import Mathlib.Data.List.GetD
import Mathlib.Data.List.Nodup
import Mathlib.Data.Nat.Log
import Mathlib.Tactic.Ring

set_option autoImplicit false

/-! # Hash trees over a list

The tree over a list of leaves has the leaves at height 0, and at every further height one node for two
neighbours of the height below; where the number of nodes is odd, the last node is paired with itself.
A node is given by its height and its position, and covers the leaves from `pos * 2 ^ h` on, `2 ^ h` of
them or as many as there are.

Because of the rule for odd numbers, lists of different lengths may have one root. They do not if no
two neighbours that cover all their leaves are equal (`Repeats`): then the hash of a node fixes the
leaves that it covers (`covered_eq_of_node_eq`), and the root fixes the list (`eq_of_root_eq`). Only the
pairs that are hashed in the two trees must not collide.

The same tree can be built one level after the other (`nextLevel`), and the nodes that a leaf is paired
with on its way up (`branch`) give the root back. -/

namespace MerkleTree

open List

/-! ## Shape -/

/-- The number of nodes at a height of a tree with `n` leaves. -/
def width (n h : ℕ) : ℕ := (n + 2 ^ h - 1) / 2 ^ h

variable {h pos : ℕ}

/-- A position is in the tree if the first leaf that it covers is. -/
theorem lt_width_iff {n : ℕ} : pos < width n h ↔ pos * 2 ^ h < n := by
  have hpos : 0 < 2 ^ h := Nat.two_pow_pos h
  rw [width, Nat.lt_iff_add_one_le, Nat.le_div_iff_mul_le hpos, Nat.add_mul, one_mul]
  omega

@[simp] theorem width_zero (n : ℕ) : width n 0 = n := by simp [width]

theorem width_succ (n h : ℕ) : width n (h + 1) = (width n h + 1) / 2 := by
  refine eq_of_forall_lt_iff fun pos => ?_
  have hhalf : pos < (width n h + 1) / 2 ↔ 2 * pos < width n h := by omega
  rw [hhalf, lt_width_iff, lt_width_iff, pow_succ]
  have hmul : pos * (2 ^ h * 2) = 2 * pos * 2 ^ h := by ring
  rw [hmul]

theorem left_lt_width {n : ℕ} (hpos : pos < width n (h + 1)) : 2 * pos < width n h := by
  rw [width_succ] at hpos
  omega

/-- The height at which only the root is left. -/
def height (n : ℕ) : ℕ := Nat.clog 2 n

theorem width_le_one_iff {n : ℕ} : width n h ≤ 1 ↔ height n ≤ h := by
  rw [← not_lt, lt_width_iff, one_mul, not_lt, height]
  exact (Nat.clog_le_iff_le_pow (by norm_num)).symm

theorem le_two_pow_height (n : ℕ) : n ≤ 2 ^ height n := Nat.le_pow_clog (by norm_num) n

theorem zero_lt_width {n : ℕ} (hn : 0 < n) : 0 < width n h :=
  lt_width_iff.mpr (by rwa [zero_mul])

/-! ## Nodes -/

section Nodes

variable {α : Type*} [Inhabited α] (f : α → α → α) (l : List α)

/-- The hash of a node. -/
def node : ℕ → ℕ → α
  | 0, pos => l.getD pos default
  | h + 1, pos =>
    f (node h (2 * pos))
      (if 2 * pos + 1 < width l.length h then node h (2 * pos + 1) else node h (2 * pos))

/-- The right child of a node, which is the left one where there is no other. -/
def right (h pos : ℕ) : α :=
  if 2 * pos + 1 < width l.length h then node f l h (2 * pos + 1) else node f l h (2 * pos)

theorem node_succ (h pos : ℕ) :
    node f l (h + 1) pos = f (node f l h (2 * pos)) (right f l h pos) := rfl

variable {l} in
theorem right_of_lt (hlt : 2 * pos + 1 < width l.length h) :
    right f l h pos = node f l h (2 * pos + 1) := if_pos hlt

variable {l} in
theorem right_of_not_lt (hlt : ¬ 2 * pos + 1 < width l.length h) :
    right f l h pos = node f l h (2 * pos) := if_neg hlt

/-- The hash of the whole list. -/
def root : α := node f l (height l.length) 0

/-- The pairs that are hashed in the tree. -/
def hashed : List (α × α) :=
  (List.range (height l.length)).flatMap fun h =>
    (List.range (width l.length (h + 1))).map fun pos => (node f l h (2 * pos), right f l h pos)

variable {l} in
theorem mem_hashed (hh : h < height l.length) (hpos : pos < width l.length (h + 1)) :
    (node f l h (2 * pos), right f l h pos) ∈ hashed f l :=
  mem_flatMap.mpr ⟨h, mem_range.mpr hh, mem_map.mpr ⟨pos, mem_range.mpr hpos, rfl⟩⟩

/-- The leaves that a node covers. -/
def covered (h pos : ℕ) : List α := (l.drop (pos * 2 ^ h)).take (2 ^ h)

omit [Inhabited α] in
theorem length_covered (h pos : ℕ) :
    (covered l h pos).length = min (2 ^ h) (l.length - pos * 2 ^ h) := by
  simp [covered]

omit [Inhabited α] in
/-- The leaves of a node are those of its children. -/
theorem covered_succ (h pos : ℕ) :
    covered l (h + 1) pos = covered l h (2 * pos) ++ covered l h (2 * pos + 1) := by
  have hstart : pos * 2 ^ (h + 1) = 2 * pos * 2 ^ h := by ring
  have hnext : (2 * pos + 1) * 2 ^ h = 2 * pos * 2 ^ h + 2 ^ h := by ring
  rw [covered, covered, covered, hstart, hnext, pow_succ, mul_two, take_add, drop_drop]

omit [Inhabited α] in
theorem covered_eq_nil (hpos : ¬ pos < width l.length h) : covered l h pos = [] := by
  rw [lt_width_iff, not_lt] at hpos
  rw [covered, drop_eq_nil_of_le hpos, take_nil]

/-- Two neighbours that cover all their leaves are equal. -/
def Repeats : Prop :=
  ∃ h pos, (pos + 1) * 2 ^ (h + 1) ≤ l.length ∧ node f l h (2 * pos) = node f l h (2 * pos + 1)

end Nodes

/-! ## The root fixes the list -/

section Unique

variable {α : Type*} [Inhabited α]

/-- The pairs of a list do not collide. -/
def CollisionFree (f : α → α → α) (S : List (α × α)) : Prop :=
  ∀ p ∈ S, ∀ q ∈ S, f p.1 p.2 = f q.1 q.2 → p = q

omit [Inhabited α] in
/-- A list without collisions is recognised by trying its pairs, not all pairs there are. -/
instance decidableCollisionFree [DecidableEq α] (f : α → α → α) (S : List (α × α)) :
    Decidable (CollisionFree f S) :=
  decidable_of_iff
    ((S.all fun p => S.all fun q => decide (f p.1 p.2 = f q.1 q.2 → p = q)) = true)
    (by simp only [CollisionFree, List.all_eq_true, decide_eq_true_eq])

variable {f : α → α → α} {S : List (α × α)}

/-- Two nodes with one hash have the same children. -/
theorem children_eq {l l' : List α} (hS : CollisionFree f S) (hl : hashed f l ⊆ S)
    (hl' : hashed f l' ⊆ S) {h' pos' : ℕ} (hh : h < height l.length) (hh' : h' < height l'.length)
    (hpos : pos < width l.length (h + 1)) (hpos' : pos' < width l'.length (h' + 1))
    (heq : node f l (h + 1) pos = node f l' (h' + 1) pos') :
    node f l h (2 * pos) = node f l' h' (2 * pos') ∧ right f l h pos = right f l' h' pos' :=
  Prod.ext_iff.mp
    (hS _ (hl (mem_hashed f hh hpos)) _ (hl' (mem_hashed f hh' hpos')) heq)

/-- **The hash of a node fixes the leaves that it covers**, in trees without repeats. -/
theorem covered_eq_of_node_eq (hS : CollisionFree f S) (h : ℕ) : ∀ {l l' : List α},
    hashed f l ⊆ S → hashed f l' ⊆ S → ¬ Repeats f l → ¬ Repeats f l' →
    h ≤ height l.length → h ≤ height l'.length → ∀ {pos pos' : ℕ}, pos < width l.length h →
    pos' < width l'.length h → node f l h pos = node f l' h pos' →
    covered l h pos = covered l' h pos' := by
  induction h with
  | zero =>
    intro l l' _ _ _ _ _ _ pos pos' hpos hpos' heq
    rw [width_zero] at hpos hpos'
    simpa [node, covered, take_one, hpos, hpos'] using heq
  | succ h ih =>
    -- a node without a right child has the children `x` and `x`; then a node with the same hash
    -- that has one has two equal children, and the right one does not cover all its leaves
    have hlone : ∀ {l' : List α}, hashed f l' ⊆ S → ¬ Repeats f l' → h + 1 ≤ height l'.length →
        ∀ {pos' : ℕ}, 2 * pos' + 1 < width l'.length h →
        node f l' h (2 * pos') ≠ node f l' h (2 * pos' + 1) := by
      intro l' hl' hrep' hh' pos' hright heq
      have hcov := ih hl' hl' hrep' hrep' (by omega) (by omega) (by omega) hright heq
      have hlen := congrArg length hcov
      have hfirst := lt_width_iff.mp hright
      rw [length_covered, length_covered] at hlen
      have hnext : (2 * pos' + 1) * 2 ^ h = 2 * pos' * 2 ^ h + 2 ^ h := by ring
      refine hrep' ⟨h, pos', ?_, heq⟩
      have hend : (pos' + 1) * 2 ^ (h + 1) = 2 * pos' * 2 ^ h + 2 ^ h + 2 ^ h := by ring
      omega
    intro l l' hl hl' hrep hrep' hh hh' pos pos' hpos hpos' heq
    obtain ⟨hleft, hright⟩ := children_eq hS hl hl' hh hh' hpos hpos' heq
    have hcov := ih hl hl' hrep hrep' (by omega) (by omega) (left_lt_width hpos)
      (left_lt_width hpos') hleft
    rw [covered_succ, covered_succ, hcov]
    by_cases h1 : 2 * pos + 1 < width l.length h
    · by_cases h2 : 2 * pos' + 1 < width l'.length h
      · rw [right_of_lt f h1, right_of_lt f h2] at hright
        rw [ih hl hl' hrep hrep' (by omega) (by omega) h1 h2 hright]
      · rw [right_of_lt f h1, right_of_not_lt f h2, ← hleft] at hright
        exact absurd hright.symm (hlone hl hrep hh h1)
    · by_cases h2 : 2 * pos' + 1 < width l'.length h
      · rw [right_of_not_lt f h1, right_of_lt f h2, hleft] at hright
        exact absurd hright (hlone hl' hrep' hh' h2)
      · rw [covered_eq_nil l h1, covered_eq_nil l' h2]

/-- A node is no node at a greater height of another tree, if no leaf is the hash of a pair. -/
theorem node_ne_of_height_ne (hS : CollisionFree f S) {l l' : List α} (hl : hashed f l ⊆ S)
    (hl' : hashed f l' ⊆ S) (hleaf : ∀ a ∈ l, ∀ p ∈ S, a ≠ f p.1 p.2) {gap : ℕ} (h : ℕ) :
    ∀ {pos pos' : ℕ}, h ≤ height l.length → h + gap + 1 ≤ height l'.length → pos < width l.length h →
    pos' < width l'.length (h + gap + 1) → node f l h pos ≠ node f l' (h + gap + 1) pos' := by
  induction h with
  | zero =>
    intro pos pos' _ hh' hpos hpos' heq
    rw [width_zero] at hpos
    have hmem : node f l 0 pos ∈ l := by
      simp [node, hpos]
    exact hleaf _ hmem _ (hl' (mem_hashed f (by omega) hpos')) heq
  | succ h ih =>
    intro pos pos' hh hh' hpos hpos' heq
    have hshift : h + 1 + gap = h + gap + 1 := by omega
    rw [hshift] at hh' hpos' heq
    obtain ⟨hleft, -⟩ := children_eq hS hl hl' hh hh' hpos hpos' heq
    exact ih (by omega) (by omega) (left_lt_width hpos) (left_lt_width hpos') hleft

theorem node_inj {l : List α} (hS : CollisionFree f (hashed f l)) (hnodup : l.Nodup) (h : ℕ) :
    ∀ {pos pos' : ℕ}, h ≤ height l.length → pos < width l.length h → pos' < width l.length h →
    node f l h pos = node f l h pos' → pos = pos' := by
  induction h with
  | zero =>
    intro pos pos' _ hpos hpos' heq
    rw [width_zero] at hpos hpos'
    simp only [node, getD_eq_getElem _ _ hpos, getD_eq_getElem _ _ hpos'] at heq
    exact (hnodup.getElem_inj_iff).mp heq
  | succ h ih =>
    intro pos pos' hh hpos hpos' heq
    obtain ⟨hleft, -⟩ :=
      children_eq hS (List.Subset.refl _) (List.Subset.refl _) hh hh hpos hpos' heq
    have hsame := ih (by omega) (left_lt_width hpos) (left_lt_width hpos') hleft
    omega

theorem not_repeats_of_nodup {l : List α} (hS : CollisionFree f (hashed f l)) (hnodup : l.Nodup) :
    ¬ Repeats f l := by
  rintro ⟨h, pos, hle, heq⟩
  have hpow : 2 ^ (h + 1) ≤ l.length := le_trans (Nat.le_mul_of_pos_left _ (by omega)) hle
  have hh : h + 1 ≤ height l.length := (Nat.pow_le_pow_iff_right (by norm_num : 1 < 2)).mp
    (hpow.trans (le_two_pow_height _))
  have hright : 2 * pos + 1 < width l.length h := by
    rw [lt_width_iff]
    have hend : (pos + 1) * 2 ^ (h + 1) = (2 * pos + 1) * 2 ^ h + 2 ^ h := by ring
    have := Nat.two_pow_pos h
    omega
  have := node_inj hS hnodup h (by omega) (by omega) hright heq
  omega

omit [Inhabited α] in
theorem covered_root (l : List α) : covered l (height l.length) 0 = l := by
  rw [covered, zero_mul, drop_zero]
  exact take_of_length_le (le_two_pow_height _)

/-- **The root fixes the list**: two lists with one root and without repeats are equal, if the pairs
    that are hashed do not collide and no leaf is the hash of one of them. -/
theorem eq_of_root_eq {l l' : List α} (hS : CollisionFree f S) (hl : hashed f l ⊆ S)
    (hl' : hashed f l' ⊆ S) (hleaf : ∀ a ∈ l, ∀ p ∈ S, a ≠ f p.1 p.2)
    (hleaf' : ∀ a ∈ l', ∀ p ∈ S, a ≠ f p.1 p.2) (hrep : ¬ Repeats f l) (hrep' : ¬ Repeats f l')
    (hne : l ≠ []) (hne' : l' ≠ []) (heq : root f l = root f l') : l = l' := by
  have hpos := zero_lt_width (h := height l.length) (length_pos_of_ne_nil hne)
  have hpos' := zero_lt_width (h := height l'.length) (length_pos_of_ne_nil hne')
  rcases lt_trichotomy (height l.length) (height l'.length) with hlt | hsame | hlt
  · obtain ⟨gap, hgap⟩ := Nat.exists_eq_add_of_lt hlt
    unfold root at heq
    rw [hgap] at heq hpos'
    exact absurd heq (node_ne_of_height_ne hS hl hl' hleaf _ le_rfl (by omega) hpos hpos')
  · unfold root at heq
    rw [← hsame] at heq hpos'
    have hcov := covered_eq_of_node_eq hS _ hl hl' hrep hrep' le_rfl (by omega) hpos hpos' heq
    rwa [covered_root, hsame, covered_root] at hcov
  · obtain ⟨gap, hgap⟩ := Nat.exists_eq_add_of_lt hlt
    unfold root at heq
    rw [hgap] at heq hpos
    exact absurd heq.symm (node_ne_of_height_ne hS hl' hl hleaf' _ le_rfl (by omega) hpos' hpos)

end Unique

/-! ## Level by level -/

section Levels

variable {α : Type*} [Inhabited α] (f : α → α → α)

/-- The level above a level. -/
def nextLevel : List α → List α
  | [] => []
  | [a] => [f a a]
  | a :: b :: rest => f a b :: nextLevel rest

/-- The root, by building level after level until one node is left. The number of leaves bounds the
    rounds. -/
def rootByLevels : ℕ → List α → α
  | _, [] => default
  | _, [a] => a
  | 0, _ => default
  | rounds + 1, l => rootByLevels rounds (nextLevel f l)

/-- `level` holds the nodes of a height. -/
def IsLevel (l : List α) (h : ℕ) (level : List α) : Prop :=
  level.length = width l.length h ∧ ∀ pos < level.length, level.getD pos default = node f l h pos

variable {f}

omit [Inhabited α] in
theorem length_nextLevel (level : List α) : (nextLevel f level).length = (level.length + 1) / 2 := by
  induction level using nextLevel.induct with
  | case1 => simp [nextLevel]
  | case2 a => simp [nextLevel]
  | case3 a b rest ih =>
    simp only [nextLevel, length_cons]
    omega

theorem getD_nextLevel (level : List α) : ∀ {pos : ℕ}, pos < (level.length + 1) / 2 →
    (nextLevel f level).getD pos default = f (level.getD (2 * pos) default)
      (if 2 * pos + 1 < level.length then level.getD (2 * pos + 1) default
        else level.getD (2 * pos) default) := by
  induction level using nextLevel.induct with
  | case1 => simp
  | case2 a =>
    intro pos hpos
    obtain rfl : pos = 0 := by simpa using hpos
    rfl
  | case3 a b rest ih =>
    intro pos hpos
    cases pos with
    | zero => simp [nextLevel]
    | succ pos =>
      rw [length_cons, length_cons] at hpos
      have hlt : pos < (rest.length + 1) / 2 := by omega
      have hnext := ih hlt
      have hdouble : 2 * (pos + 1) = 2 * pos + 1 + 1 := by ring
      simpa [nextLevel, hdouble] using hnext

theorem IsLevel.next {l level : List α} (hlevel : IsLevel f l h level) :
    IsLevel f l (h + 1) (nextLevel f level) := by
  obtain ⟨hlen, hnodes⟩ := hlevel
  refine ⟨by rw [length_nextLevel, hlen, width_succ], fun pos hpos => ?_⟩
  rw [length_nextLevel] at hpos
  rw [getD_nextLevel level hpos, hnodes _ (by omega), node_succ, right, ← hlen]
  split_ifs with hright
  · rw [hnodes _ hright]
  · rfl

theorem IsLevel.rootByLevels_eq {l : List α} (hne : l ≠ []) (rounds : ℕ) : ∀ {h : ℕ} {level : List α},
    IsLevel f l h level → h ≤ height l.length → height l.length ≤ h + rounds →
    rootByLevels f rounds level = root f l := by
  -- a level of one node is the root; otherwise the root is further up
  have hone : ∀ {h : ℕ} {a : α}, IsLevel f l h [a] → h ≤ height l.length → a = root f l := by
    intro h a hlevel hh
    have hheight : height l.length = h :=
      le_antisymm (width_le_one_iff.mp (by rw [← hlevel.1]; simp)) hh
    rw [root, hheight, ← hlevel.2 0 (by simp)]
    rfl
  have hnil : ∀ {h : ℕ}, ¬ IsLevel f l h [] := fun hlevel =>
    absurd hlevel.1 (zero_lt_width (length_pos_of_ne_nil hne)).ne
  induction rounds with
  | zero =>
    intro h level hlevel hh hrounds
    rcases level with _ | ⟨a, _ | ⟨b, rest⟩⟩
    · exact absurd hlevel hnil
    · exact hone hlevel hh
    · have hwidth := hlevel.1 ▸ width_le_one_iff.mpr hrounds
      simp at hwidth
  | succ rounds ih =>
    intro h level hlevel hh hrounds
    rcases level with _ | ⟨a, _ | ⟨b, rest⟩⟩
    · exact absurd hlevel hnil
    · exact hone hlevel hh
    · have hmore : h < height l.length := by
        by_contra hle
        have hwidth := hlevel.1 ▸ width_le_one_iff.mpr (not_lt.mp hle)
        simp at hwidth
      exact ih hlevel.next hmore (by omega)

/-- **The level-by-level tree has the root of the tree.** -/
theorem rootByLevels_eq_root {l : List α} (hne : l ≠ []) : rootByLevels f l.length l = root f l := by
  refine IsLevel.rootByLevels_eq hne l.length ⟨(width_zero _).symm, fun _ _ => rfl⟩ (Nat.zero_le _) ?_
  rw [Nat.zero_add]
  exact (Nat.clog_le_of_le_pow (Nat.lt_two_pow_self).le)

end Levels

/-! ## Branches -/

section Branches

variable {α : Type*} [Inhabited α] (f : α → α → α) (l : List α)

/-- What a node is paired with. -/
def sibling (h pos : ℕ) : α :=
  if pos % 2 = 1 then node f l h (pos - 1)
  else if pos + 1 < width l.length h then node f l h (pos + 1) else node f l h pos

/-- What the nodes over a leaf are paired with, up to a height. -/
def branch (pos h : ℕ) : List α := (List.range h).map fun i => sibling f l i (pos / 2 ^ i)

theorem branch_succ (pos h : ℕ) :
    branch f l pos (h + 1) = branch f l pos h ++ [sibling f l h (pos / 2 ^ h)] := by
  rw [branch, range_succ, map_append]
  rfl

/-- The parent of a node from the node and its sibling. -/
theorem node_half (hpos : pos < width l.length h) :
    node f l (h + 1) (pos / 2) = if pos % 2 = 1 then f (sibling f l h pos) (node f l h pos)
      else f (node f l h pos) (sibling f l h pos) := by
  rw [node_succ, right, sibling]
  by_cases hodd : pos % 2 = 1
  · have hleft : 2 * (pos / 2) = pos - 1 := by omega
    have hself : pos - 1 + 1 = pos := by omega
    simp [hleft, hself, hpos, hodd]
  · have hself : 2 * (pos / 2) = pos := by omega
    simp [hself, hodd]

end Branches

end MerkleTree
