import Binarium.Merkle.Root
import Binarium.Primitives.Block

set_option autoImplicit false

/-! # Partial merkle trees (`merkleblock.h`, `merkleblock.cpp`)

A `CPartialMerkleTree` tells a client which of the transactions of a block match its filter. It is the
merkle tree of the block, cut at the nodes with no match below them, in depth-first order: a bit for
every node that is visited, and a hash where the tree is cut or a leaf is reached.

What the constructor writes, `ExtractMatches` reads back in step (`traverse_roundTrip`). For a tree
from a peer nothing is known about the bits and hashes; but where the traversal gives the hash of a node
of the block, every matched leaf is a leaf of the block (`traverseAndExtract_sound`). A failed extraction
returns zero and keeps the matches that it has collected, so a root of zero proves nothing. -/

namespace Binarium

open MerkleTree List

/-! ## The code -/

/-- `CPartialMerkleTree`. -/
structure CPartialMerkleTree where
  nTransactions : ℕ
  vBits : List Bool
  vHash : List Uint256
  fBad : Bool
deriving DecidableEq

/-- `CPartialMerkleTree::CalcTreeWidth`, without overflow: `ExtractMatches` bounds the number of
    transactions. -/
def calcTreeWidth (nTransactions height : ℕ) : ℕ := (nTransactions + 2 ^ height - 1) / 2 ^ height

/-- The loop that calculates the height of the tree, while there are bits in the number. -/
def calcHeight (nTransactions : ℕ) : ℕ → ℕ → ℕ
  | 0, nHeight => nHeight
  | bits + 1, nHeight =>
    if calcTreeWidth nTransactions nHeight > 1 then calcHeight nTransactions bits (nHeight + 1)
    else nHeight

namespace CPartialMerkleTree

section Build

variable (hash256 : PairHash) (vTxid : List Uint256) (vMatch : List Bool)

/-- `CalcHash`, with `vTxid.size()` transactions. There is no result if it reads beyond the end of
    `vTxid`. -/
def calcHash : ℕ → ℕ → Option Uint256
  | 0, pos => vTxid[pos]?
  | height + 1, pos => do
    let left ← calcHash height (pos * 2)
    let right ←
      if pos * 2 + 1 < calcTreeWidth vTxid.length height then calcHash height (pos * 2 + 1)
      else some left
    some (hash256 left right)

/-- `fParentOfMatch`: some transaction below the node matches. -/
def parentOfMatch (height pos : ℕ) : Bool :=
  (List.range' (pos * 2 ^ height) (2 ^ height)).any fun p =>
    decide (p < vTxid.length) && vMatch.getD p false

/-- `TraverseAndBuild`, which appends to `vBits` and `vHash`. -/
def traverseAndBuild : ℕ → ℕ → List Bool × List Uint256 → Option (List Bool × List Uint256)
  | 0, pos, (vBits, vHash) => do
    let hash ← calcHash hash256 vTxid 0 pos
    some (vBits ++ [parentOfMatch vTxid vMatch 0 pos], vHash ++ [hash])
  | height + 1, pos, (vBits, vHash) =>
    if parentOfMatch vTxid vMatch (height + 1) pos then do
      let built ← traverseAndBuild height (pos * 2) (vBits ++ [true], vHash)
      if pos * 2 + 1 < calcTreeWidth vTxid.length height then
        traverseAndBuild height (pos * 2 + 1) built
      else some built
    else do
      let hash ← calcHash hash256 vTxid (height + 1) pos
      some (vBits ++ [false], vHash ++ [hash])

/-- The constructor from a list of transactions and the matches among them. -/
def create : Option CPartialMerkleTree := do
  let nHeight := calcHeight vTxid.length 32 0
  let built ← traverseAndBuild hash256 vTxid vMatch nHeight 0 ([], [])
  some ⟨vTxid.length, built.1, built.2, false⟩

end Build

/-- What `TraverseAndExtract` changes. -/
structure Extraction where
  nBitsUsed : ℕ
  nHashUsed : ℕ
  vMatch : List Uint256
  fBad : Bool
deriving DecidableEq

section Extract

variable (hash256 : PairHash) (t : CPartialMerkleTree)

/-- The branch of `TraverseAndExtract` that uses a stored hash. -/
def useHash (isMatch : Bool) (s : Extraction) : Uint256 × Extraction :=
  match t.vHash[s.nHashUsed]? with
  | none => (0, { s with fBad := true })
  | some hash =>
    (hash, { s with
      nHashUsed := s.nHashUsed + 1
      vMatch := if isMatch then s.vMatch ++ [hash] else s.vMatch })

/-- `TraverseAndExtract`. -/
def traverseAndExtract : ℕ → ℕ → Extraction → Uint256 × Extraction
  | 0, _, s =>
    match t.vBits[s.nBitsUsed]? with
    | none => (0, { s with fBad := true })
    | some fParentOfMatch => t.useHash fParentOfMatch { s with nBitsUsed := s.nBitsUsed + 1 }
  | height + 1, pos, s =>
    match t.vBits[s.nBitsUsed]? with
    | none => (0, { s with fBad := true })
    | some false => t.useHash false { s with nBitsUsed := s.nBitsUsed + 1 }
    | some true =>
      let left := traverseAndExtract height (pos * 2) { s with nBitsUsed := s.nBitsUsed + 1 }
      if pos * 2 + 1 < calcTreeWidth t.nTransactions height then
        let right := traverseAndExtract height (pos * 2 + 1) left.2
        (hash256 left.1 right.1,
          { right.2 with fBad := right.2.fBad || decide (right.1 = left.1) })
      else (hash256 left.1 left.1, left.2)

/-- `ExtractMatches`: the merkle root, or zero, and `vMatch`. -/
def extractMatches : Uint256 × List Uint256 :=
  if t.nTransactions = 0 then (0, [])
  else if t.nTransactions > maxBlockSize true / 60 then (0, [])
  else if t.vHash.length > t.nTransactions then (0, [])
  else if t.vBits.length < t.vHash.length then (0, [])
  else
    let nHeight := calcHeight t.nTransactions 32 0
    let extracted := t.traverseAndExtract hash256 nHeight 0 ⟨0, 0, [], t.fBad⟩
    let s := extracted.2
    if s.fBad then (0, s.vMatch)
    else if (s.nBitsUsed + 7) / 8 ≠ (t.vBits.length + 7) / 8 then (0, s.vMatch)
    else if s.nHashUsed ≠ t.vHash.length then (0, s.vMatch)
    else (extracted.1, s.vMatch)

end Extract

end CPartialMerkleTree

/-! ## The shape of the tree -/

theorem calcTreeWidth_eq_width (n h : ℕ) : calcTreeWidth n h = width n h := rfl

theorem calcHeight_eq {n : ℕ} (bits : ℕ) : ∀ {h : ℕ}, h ≤ height n → height n ≤ h + bits →
    calcHeight n bits h = height n := by
  induction bits with
  | zero => exact fun hle hge => le_antisymm hle hge
  | succ bits ih =>
    intro h hle hge
    rw [calcHeight, calcTreeWidth_eq_width]
    split_ifs
    · have hlt : h < height n := not_le.mp fun h' => absurd (width_le_one_iff.mpr h') (by omega)
      exact ih hlt (by omega)
    · exact le_antisymm hle (width_le_one_iff.mp (by omega))

theorem calcHeight_eq_height {n : ℕ} (hn : n ≤ 2 ^ 32) : calcHeight n 32 0 = height n :=
  calcHeight_eq 32 (Nat.zero_le _) (by rw [Nat.zero_add]; exact Nat.clog_le_of_le_pow hn)

namespace CPartialMerkleTree

section RoundTrip

variable {hash256 : PairHash} {vTxid : List Uint256} {vMatch : List Bool}

theorem calcHash_eq (h : ℕ) : ∀ {pos : ℕ}, pos < width vTxid.length h →
    calcHash hash256 vTxid h pos = some (node hash256 vTxid h pos) := by
  induction h with
  | zero =>
    intro pos hpos
    rw [width_zero] at hpos
    simp [calcHash, node, hpos]
  | succ h ih =>
    intro pos hpos
    rw [calcHash, mul_comm pos 2, ih (left_lt_width hpos), node_succ, right, calcTreeWidth_eq_width]
    by_cases hright : 2 * pos + 1 < width vTxid.length h
    · simp [hright, ih hright]
    · simp [hright]

/-! ## Matches -/

/-- The transactions that match, in their order. -/
def matched (txids : List Uint256) (marks : List Bool) : List Uint256 :=
  ((txids.zip marks).filter Prod.snd).map Prod.fst

theorem matched_append {a a' : List Uint256} {b b' : List Bool} (hlen : a.length = b.length) :
    matched (a ++ a') (b ++ b') = matched a b ++ matched a' b' := by
  rw [matched, zip_append hlen, filter_append, map_append]
  rfl

variable (vTxid vMatch) in
/-- The matches below a node. -/
def matchedBelow (h pos : ℕ) : List Uint256 := matched (covered vTxid h pos) (covered vMatch h pos)

theorem matchedBelow_succ (hlen : vMatch.length = vTxid.length) (h pos : ℕ) :
    matchedBelow vTxid vMatch (h + 1) pos
      = matchedBelow vTxid vMatch h (2 * pos) ++ matchedBelow vTxid vMatch h (2 * pos + 1) := by
  rw [matchedBelow, covered_succ, covered_succ, matched_append]
  · rfl
  · simp [length_covered, hlen]

theorem matchedBelow_eq_nil (hlen : vMatch.length = vTxid.length) {h pos : ℕ}
    (hnone : parentOfMatch vTxid vMatch h pos = false) : matchedBelow vTxid vMatch h pos = [] := by
  rw [matchedBelow, matched, map_eq_nil_iff, filter_eq_nil_iff]
  rintro ⟨x, b⟩ hmem hb
  obtain ⟨i, hi⟩ := getElem?_of_mem (of_mem_zip hmem).2
  rw [covered, getElem?_take] at hi
  split_ifs at hi
  rw [getElem?_drop] at hi
  obtain ⟨hin, hget⟩ := List.getElem?_eq_some_iff.mp hi
  have hany : parentOfMatch vTxid vMatch h pos := by
    refine any_eq_true.mpr ⟨pos * 2 ^ h + i, mem_range'_1.mpr ⟨by omega, by omega⟩, ?_⟩
    have hb : b := hb
    simp [hlen ▸ hin, hi, hb]
  simp [hnone] at hany

/-! ## Building and extracting -/

variable (hash256 vTxid vMatch) in
/-- The bits `B` and hashes `H` are what the traversal of a node writes, and reading them gives the
    hash of the node and the matches below it. -/
structure InStep (h pos : ℕ) (B : List Bool) (H : List Uint256) : Prop where
  build : ∀ vBits vHash, traverseAndBuild hash256 vTxid vMatch h pos (vBits, vHash)
    = some (vBits ++ B, vHash ++ H)
  hashes_le : H.length ≤ (covered vTxid h pos).length
  hashes_le_bits : H.length ≤ B.length
  extract : ∀ (t : CPartialMerkleTree) (s : Extraction) (restB : List Bool) (restH : List Uint256),
    t.nTransactions = vTxid.length → t.vBits.drop s.nBitsUsed = B ++ restB →
    t.vHash.drop s.nHashUsed = H ++ restH →
    t.traverseAndExtract hash256 h pos s = (node hash256 vTxid h pos,
      ⟨s.nBitsUsed + B.length, s.nHashUsed + H.length,
        s.vMatch ++ matchedBelow vTxid vMatch h pos, s.fBad⟩)

theorem getElem?_of_drop_eq_cons {α : Type} {l rest : List α} {i : ℕ} {a : α}
    (h : l.drop i = a :: rest) : l[i]? = some a := by
  rw [← head?_drop, h]
  rfl

theorem drop_of_drop_eq_append {α : Type} {l a rest : List α} {i : ℕ} (h : l.drop i = a ++ rest) :
    l.drop (i + a.length) = rest := by
  rw [← drop_drop, h, drop_left]

theorem length_covered_pos {h pos : ℕ} (hpos : pos < width vTxid.length h) :
    0 < (covered vTxid h pos).length := by
  have hfirst := lt_width_iff.mp hpos
  have := Nat.two_pow_pos h
  rw [length_covered]
  omega

section
variable (hlen : vMatch.length = vTxid.length)
include hlen

theorem inStep_leaf {pos : ℕ} (hpos : pos < vTxid.length) :
    InStep hash256 vTxid vMatch 0 pos [parentOfMatch vTxid vMatch 0 pos]
      [node hash256 vTxid 0 pos] where
  build := by
    intro vBits vHash
    rw [traverseAndBuild, calcHash_eq 0 (by rwa [width_zero])]
    rfl
  hashes_le := length_covered_pos (by rwa [width_zero])
  hashes_le_bits := le_rfl
  extract := by
    intro t s restB restH _ hB hH
    have hpos' : pos < vMatch.length := by omega
    have hparent : parentOfMatch vTxid vMatch 0 pos = vMatch[pos] := by
      simp [parentOfMatch, hpos, hpos']
    have hcov : matchedBelow vTxid vMatch 0 pos
        = if vMatch[pos] then [node hash256 vTxid 0 pos] else [] := by
      have hx : covered vTxid 0 pos = [vTxid[pos]] := by
        simp [covered, take_one]
      have hb : covered vMatch 0 pos = [vMatch[pos]] := by
        simp [covered, take_one]
      rw [matchedBelow, hx, hb, matched]
      cases vMatch[pos] <;> simp [node, hpos]
    rw [traverseAndExtract, getElem?_of_drop_eq_cons hB]
    simp only [useHash, getElem?_of_drop_eq_cons hH, hparent, hcov]
    cases vMatch[pos] <;> simp

theorem inStep_cut {h pos : ℕ} (hpos : pos < width vTxid.length (h + 1))
    (hnone : parentOfMatch vTxid vMatch (h + 1) pos = false) :
    InStep hash256 vTxid vMatch (h + 1) pos [false] [node hash256 vTxid (h + 1) pos] where
  build := by
    intro vBits vHash
    rw [traverseAndBuild, hnone, calcHash_eq (h + 1) hpos]
    rfl
  hashes_le := length_covered_pos hpos
  hashes_le_bits := le_rfl
  extract := by
    intro t s restB restH _ hB hH
    rw [traverseAndExtract, getElem?_of_drop_eq_cons hB]
    simp [useHash, getElem?_of_drop_eq_cons hH, matchedBelow_eq_nil hlen hnone]

theorem inStep_left {h pos : ℕ} (hsome : parentOfMatch vTxid vMatch (h + 1) pos)
    (hright : ¬ 2 * pos + 1 < width vTxid.length h) {B : List Bool} {H : List Uint256}
    (hleft : InStep hash256 vTxid vMatch h (2 * pos) B H) :
    InStep hash256 vTxid vMatch (h + 1) pos (true :: B) H where
  build := by
    intro vBits vHash
    simp [traverseAndBuild, hsome, mul_comm pos 2, hleft.build, calcTreeWidth_eq_width, hright]
  hashes_le := by
    rw [covered_succ, covered_eq_nil _ hright, append_nil]
    exact hleft.hashes_le
  hashes_le_bits := le_trans hleft.hashes_le_bits (by simp)
  extract := by
    intro t s restB restH hn hB hH
    have hB' := drop_of_drop_eq_append (a := [true]) hB
    rw [traverseAndExtract, getElem?_of_drop_eq_cons hB, mul_comm pos 2]
    have hextract := hleft.extract t { s with nBitsUsed := s.nBitsUsed + 1 } restB restH hn hB' hH
    have hempty : matchedBelow vTxid vMatch h (2 * pos + 1) = [] := by
      rw [matchedBelow, covered_eq_nil _ hright]
      rfl
    simp only [hextract, hn, calcTreeWidth_eq_width, if_neg hright, node_succ,
      right_of_not_lt hash256 hright, matchedBelow_succ hlen, hempty, append_nil, length_cons]
    congr 2
    omega

/-- A node with two children, whose hashes differ. -/
theorem inStep_both {h pos : ℕ} (hsome : parentOfMatch vTxid vMatch (h + 1) pos)
    (hlt : 2 * pos + 1 < width vTxid.length h)
    (hne : node hash256 vTxid h (2 * pos + 1) ≠ node hash256 vTxid h (2 * pos))
    {B B' : List Bool} {H H' : List Uint256} (hleft : InStep hash256 vTxid vMatch h (2 * pos) B H)
    (hright : InStep hash256 vTxid vMatch h (2 * pos + 1) B' H') :
    InStep hash256 vTxid vMatch (h + 1) pos (true :: (B ++ B')) (H ++ H') where
  build := by
    intro vBits vHash
    rw [traverseAndBuild, hsome, mul_comm pos 2, hleft.build]
    simp [calcTreeWidth_eq_width, hlt, hright.build]
  hashes_le := by
    simp [covered_succ, length_append, add_le_add hleft.hashes_le hright.hashes_le]
  hashes_le_bits := by
    have h1 := hleft.hashes_le_bits
    have h2 := hright.hashes_le_bits
    simp only [length_cons, length_append]
    omega
  extract := by
    intro t s restB restH hn hB hH
    have hB₁ : t.vBits.drop (s.nBitsUsed + 1) = B ++ (B' ++ restB) := by
      simpa using drop_of_drop_eq_append (a := [true]) hB
    rw [append_assoc] at hH
    have hextract := hleft.extract t { s with nBitsUsed := s.nBitsUsed + 1 } _ _ hn hB₁ hH
    have hextract' := hright.extract t ⟨s.nBitsUsed + 1 + B.length, s.nHashUsed + H.length,
      s.vMatch ++ matchedBelow vTxid vMatch h (2 * pos), s.fBad⟩ restB restH hn
      (drop_of_drop_eq_append hB₁) (drop_of_drop_eq_append hH)
    rw [traverseAndExtract, getElem?_of_drop_eq_cons hB, mul_comm pos 2]
    simp only [hextract, hextract', hn, calcTreeWidth_eq_width, if_pos hlt, node_succ,
      right_of_lt hash256 hlt, matchedBelow_succ hlen, decide_eq_false hne, Bool.or_false,
      length_cons, length_append, append_assoc]
    congr 2
    · omega
    · omega

/-- **Building and extracting run in step**, for distinct transactions without collisions. -/
theorem traverse_roundTrip
    (hfree : CollisionFree hash256 (hashed hash256 vTxid)) (hnodup : vTxid.Nodup) (h : ℕ) :
    ∀ {pos : ℕ}, h ≤ height vTxid.length → pos < width vTxid.length h →
    ∃ B H, InStep hash256 vTxid vMatch h pos B H := by
  induction h with
  | zero =>
    intro pos _ hpos
    rw [width_zero] at hpos
    exact ⟨_, _, inStep_leaf hlen hpos⟩
  | succ h ih =>
    intro pos hh hpos
    by_cases hsome : parentOfMatch vTxid vMatch (h + 1) pos
    · obtain ⟨B, H, hleft⟩ := ih (by omega) (left_lt_width hpos)
      by_cases hlt : 2 * pos + 1 < width vTxid.length h
      · obtain ⟨B', H', hright⟩ := ih (by omega) hlt
        have hne : node hash256 vTxid h (2 * pos + 1) ≠ node hash256 vTxid h (2 * pos) := by
          intro heq
          have := node_inj hfree hnodup h (by omega) hlt (left_lt_width hpos) heq
          omega
        exact ⟨_, _, inStep_both hlen hsome hlt hne hleft hright⟩
      · exact ⟨_, _, inStep_left hlen hsome hlt hleft⟩
    · exact ⟨_, _, inStep_cut hlen hpos (by simpa using hsome)⟩

/-- The tree of a list of transactions is extracted to its root and the matches. -/
theorem extractMatches_create (hne : vTxid ≠ []) (hcount : vTxid.length ≤ maxBlockSize true / 60)
    (hfree : CollisionFree hash256 (hashed hash256 vTxid)) (hnodup : vTxid.Nodup) :
    ∃ t, create hash256 vTxid vMatch = some t
      ∧ t.extractMatches hash256 = (root hash256 vTxid, matched vTxid vMatch) := by
  have hmax : maxBlockSize true / 60 ≤ 2 ^ 32 := by decide
  have hpos := length_pos_of_ne_nil hne
  have hheight := calcHeight_eq_height (hcount.trans hmax)
  obtain ⟨B, H, hstep⟩ := traverse_roundTrip hlen hfree hnodup (height vTxid.length) le_rfl
    (zero_lt_width hpos)
  have hcovered : matchedBelow vTxid vMatch (height vTxid.length) 0 = matched vTxid vMatch := by
    rw [matchedBelow, covered_root, ← hlen, covered_root]
  refine ⟨⟨vTxid.length, B, H, false⟩, ?_, ?_⟩
  · rw [create, hheight, hstep.build]
    rfl
  · have hextract := hstep.extract ⟨vTxid.length, B, H, false⟩ ⟨0, 0, [], false⟩ [] [] rfl
      (by simp) (by simp)
    have hhashes := hstep.hashes_le
    rw [covered_root] at hhashes
    rw [extractMatches, if_neg hpos.ne', if_neg (not_lt.mpr hcount), if_neg (not_lt.mpr hhashes),
      if_neg (by simpa using hstep.hashes_le_bits)]
    simp only [hheight, hextract, hcovered, Nat.zero_add, nil_append, ne_eq, not_true_eq_false,
      Bool.false_eq_true, if_false]
    rfl

end

end RoundTrip

/-! ## Trees from a peer -/

section Sound

variable {hash256 : PairHash} {vTxid : List Uint256} {t : CPartialMerkleTree}

variable (hash256 vTxid) in
/-- No other pair has the hash of a pair that is hashed in the tree of the block. -/
def NoSecondPreimage : Prop :=
  ∀ p ∈ hashed hash256 vTxid, ∀ a b, hash256 a b = hash256 p.1 p.2 → (a, b) = p

theorem useHash_sound {isMatch : Bool} {s : Extraction}
    (hmem : isMatch → (t.useHash isMatch s).1 ∈ vTxid) :
    ∀ x ∈ (t.useHash isMatch s).2.vMatch, x ∈ s.vMatch ∨ x ∈ vTxid := by
  unfold useHash at hmem ⊢
  cases hhash : t.vHash[s.nHashUsed]? with
  | none => exact fun x hx => .inl hx
  | some hash =>
    intro x hx
    simp only [hhash] at hmem hx
    split_ifs at hx with hmatch
    · rcases mem_append.mp hx with hx | hx
      · exact .inl hx
      · rw [mem_singleton.mp hx]
        exact .inr (hmem hmatch)
    · exact .inl hx

/-- **Where the traversal gives the hash of a node of the block, it adds only transactions of the
    block**, whatever bits and hashes it reads. -/
theorem traverseAndExtract_sound (hn : t.nTransactions = vTxid.length)
    (hpre : NoSecondPreimage hash256 vTxid) (h : ℕ) : ∀ {pos : ℕ} {s : Extraction},
    h ≤ height vTxid.length → pos < width vTxid.length h →
    (t.traverseAndExtract hash256 h pos s).1 = node hash256 vTxid h pos →
    ∀ x ∈ (t.traverseAndExtract hash256 h pos s).2.vMatch, x ∈ s.vMatch ∨ x ∈ vTxid := by
  induction h with
  | zero =>
    intro pos s _ hpos hroot
    rw [width_zero] at hpos
    rw [traverseAndExtract] at hroot ⊢
    cases hbit : t.vBits[s.nBitsUsed]? with
    | none => exact fun x hx => .inl hx
    | some fParentOfMatch =>
      simp only [hbit] at hroot
      refine useHash_sound fun _ => ?_
      simp [hroot, node, hpos]
  | succ h ih =>
    intro pos s hh hpos hroot
    rw [traverseAndExtract] at hroot ⊢
    rcases hbit : t.vBits[s.nBitsUsed]? with _ | _ | _
    · exact fun x hx => .inl hx
    · exact useHash_sound fun hfalse => absurd hfalse Bool.false_ne_true
    · -- the hashes of the children are those of the block
      simp only [hbit, hn, calcTreeWidth_eq_width, mul_comm pos 2] at hroot ⊢
      have hpair := hpre _ (mem_hashed hash256 hh hpos)
      by_cases hlt : 2 * pos + 1 < width vTxid.length h
      · rw [if_pos hlt] at hroot ⊢
        obtain ⟨hl, hr⟩ := Prod.ext_iff.mp (hpair _ _ hroot)
        rw [right_of_lt hash256 hlt] at hr
        intro x hx
        rcases ih (by omega) hlt hr x hx with hx | hx
        · exact ih (by omega) (left_lt_width hpos) hl x hx
        · exact .inr hx
      · rw [if_neg hlt] at hroot ⊢
        obtain ⟨hl, -⟩ := Prod.ext_iff.mp (hpair _ _ hroot)
        exact ih (by omega) (left_lt_width hpos) hl

/-- An extraction that does not return zero returns what the traversal gives. -/
theorem extractMatches_of_ne_zero (h : (t.extractMatches hash256).1 ≠ 0) :
    t.nTransactions ≤ maxBlockSize true / 60
      ∧ t.extractMatches hash256
          = ((t.traverseAndExtract hash256 (calcHeight t.nTransactions 32 0) 0
                ⟨0, 0, [], t.fBad⟩).1,
              (t.traverseAndExtract hash256 (calcHeight t.nTransactions 32 0) 0
                ⟨0, 0, [], t.fBad⟩).2.vMatch) := by
  unfold extractMatches at h ⊢
  split_ifs at h ⊢ with h0 hmany
  · exact absurd rfl h
  · exact absurd rfl h
  · exact absurd rfl h
  · exact absurd rfl h
  · refine ⟨not_lt.mp hmany, ?_⟩
    simp only at h ⊢
    split_ifs at h ⊢
    · exact absurd rfl h
    · exact absurd rfl h
    · exact absurd rfl h
    · rfl

/-- The matches of an extraction that gives the root of the block. -/
theorem extractMatches_sound (hne : vTxid ≠ []) (hn : t.nTransactions = vTxid.length)
    (hpre : NoSecondPreimage hash256 vTxid) (hzero : root hash256 vTxid ≠ 0)
    (hroot : (t.extractMatches hash256).1 = root hash256 vTxid) :
    ∀ x ∈ (t.extractMatches hash256).2, x ∈ vTxid := by
  obtain ⟨hcount, hresult⟩ := extractMatches_of_ne_zero (hroot ▸ hzero)
  have hmax : maxBlockSize true / 60 ≤ 2 ^ 32 := by decide
  rw [calcHeight_eq_height (hcount.trans hmax), hn] at hresult
  rw [hresult] at hroot ⊢
  intro x hx
  have hsound := traverseAndExtract_sound hn hpre _ le_rfl
    (zero_lt_width (length_pos_of_ne_nil hne)) hroot x hx
  exact hsound.resolve_left (by simp)

end Sound

end CPartialMerkleTree

open CPartialMerkleTree

/-- **Partial merkle trees are faithful.** For distinct transactions, extracting from the tree that is
    built gives the merkle root and the matches. And from any tree for the number of transactions of a
    block, if the result is the merkle root of the block and not zero, the matches are transactions of
    the block. -/
theorem partialMerkleTree_roundTrip_sound (hash256 : PairHash) {vTxid : List Uint256}
    (hne : vTxid ≠ []) :
    (∀ vMatch : List Bool, vMatch.length = vTxid.length → vTxid.Nodup →
      vTxid.length ≤ maxBlockSize true / 60 → CollisionFree hash256 (hashed hash256 vTxid) →
      ∃ t, create hash256 vTxid vMatch = some t
        ∧ computeMerkleRoot hash256 vTxid = some ((t.extractMatches hash256).1, false)
        ∧ (t.extractMatches hash256).2
            = ((vTxid.zip vMatch).filter fun tx => tx.2).map fun tx => tx.1)
    ∧ ∀ (t : CPartialMerkleTree) (mutated : Bool), t.nTransactions = vTxid.length →
      CPartialMerkleTree.NoSecondPreimage hash256 vTxid →
      computeMerkleRoot hash256 vTxid = some ((t.extractMatches hash256).1, mutated) →
      (t.extractMatches hash256).1 ≠ 0 → ∀ x ∈ (t.extractMatches hash256).2, x ∈ vTxid := by
  have hmax : maxBlockSize true / 60 ≤ 2 ^ 31 := by decide
  constructor
  · intro vMatch hlen hnodup hcount hfree
    obtain ⟨t, ht, hextract⟩ :=
      extractMatches_create hlen hne hcount hfree hnodup
    obtain ⟨mutated, hroot, hrepeats⟩ := computeMerkleRoot_spec hash256 hne (hcount.trans hmax)
    have hmutated : mutated = false := by
      simpa [not_repeats_of_nodup hfree hnodup] using hrepeats
    exact ⟨t, ht, by rw [hextract, hroot, hmutated], by rw [hextract]; rfl⟩
  · intro t mutated hn hpre hroot hzero
    obtain ⟨hsame, -⟩ := computeMerkleRoot_eq_some hne hroot
    exact extractMatches_sound hne hn hpre (hsame ▸ hzero) hsame.symm

/-- A pair hash that gives only the pair of 2 and 4 the hash `hash`. -/
def onePairHash (hash : Uint256) : PairHash := fun a b => if a = 2 ∧ b = 4 then hash else 1

theorem hashed_onePairHash (hash : Uint256) : hashed (onePairHash hash) [2, 4] = [(2, 4)] := by
  rfl

theorem noSecondPreimage_onePairHash {hash : Uint256} (hne : hash ≠ 1) :
    CPartialMerkleTree.NoSecondPreimage (onePairHash hash) [2, 4] := by
  intro p hp a b heq
  rw [hashed_onePairHash, mem_singleton] at hp
  subst hp
  unfold onePairHash at heq
  rw [if_pos (show (2 : Uint256) = 2 ∧ (4 : Uint256) = 4 from ⟨rfl, rfl⟩)] at heq
  split_ifs at heq with hab
  · rw [hab.1, hab.2]
  · exact absurd heq.symm hne

/-- **A block of two transactions, of which the second matches.** -/
theorem partialMerkleTree_two :
    (∃ t, create (onePairHash 9) [2, 4] [false, true] = some t
      ∧ computeMerkleRoot (onePairHash 9) [2, 4] = some ((t.extractMatches (onePairHash 9)).1, false)
      ∧ (t.extractMatches (onePairHash 9)).2 = [4])
    ∧ ((⟨2, [true, false, true], [2, 4], false⟩ : CPartialMerkleTree).extractMatches
          (onePairHash 9) = (9, [4])
      ∧ ∀ x ∈ ((⟨2, [true, false, true], [2, 4], false⟩ : CPartialMerkleTree).extractMatches
          (onePairHash 9)).2, x ∈ ([2, 4] : List Uint256)) := by
  obtain ⟨hround, hsound⟩ :=
    partialMerkleTree_roundTrip_sound (onePairHash 9) (by simp : ([2, 4] : List Uint256) ≠ [])
  have hfree : CollisionFree (onePairHash 9) (hashed (onePairHash 9) [2, 4]) := by
    decide +kernel
  exact ⟨hround [false, true] rfl (by decide) (by decide) hfree, by decide +kernel,
    hsound _ false rfl (noSecondPreimage_onePairHash (by decide)) (by decide +kernel)
      (by decide +kernel)⟩

/-- The tree that a peer sends for a block of two transactions, with one byte of bits too many. -/
def forgedTree : CPartialMerkleTree :=
  ⟨2, true :: true :: true :: List.replicate 13 false, [5, 7], false⟩

/-- **No transactions, and a root of zero.** For an empty list the constructor reads the first element.
    And a failed extraction returns zero with the matches that it has collected: here the root of a
    block of two transactions is zero, and the matches are other transactions. -/
theorem partialMerkleTree_empty_and_zero_root :
    create (onePairHash 0) [] [] = none
    ∧ CollisionFree (onePairHash 0) (hashed (onePairHash 0) [2, 4])
    ∧ CPartialMerkleTree.NoSecondPreimage (onePairHash 0) [2, 4]
    ∧ computeMerkleRoot (onePairHash 0) [2, 4] = some (0, false)
    ∧ forgedTree.nTransactions = [2, 4].length
    ∧ forgedTree.extractMatches (onePairHash 0) = (0, [5, 7]) := by
  refine ⟨by decide +kernel, ?_, noSecondPreimage_onePairHash (by decide), by decide +kernel, rfl,
    by decide +kernel⟩
  decide +kernel

end Binarium
