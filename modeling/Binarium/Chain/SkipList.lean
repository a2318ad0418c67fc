import Mathlib.Data.Int.Notation
import Mathlib.Data.Nat.Notation
import Mathlib.Tactic.Common

set_option autoImplicit false

/-! # Ancestors by skip pointers (`chain.cpp`)

Every block index has, beside the pointer to its predecessor, one to an ancestor further back, which
`BuildSkip` sets when the block is inserted. `GetAncestor` follows the two kinds of pointers to a given
height, and `BuildSkip` itself calls it to find where the new pointer goes. While it walks it never looks
at the height of the block it is at: it computes the height a skip pointer leads to.

Blocks are positions in the list of the entries, in the order of insertion. -/

namespace Binarium.SkipList

open List Option

/-! ## The code -/

/-- What `CBlockIndex` has for walking back. -/
structure SkipEntry where
  pprev : Option ℕ
  pskip : Option ℕ
  nHeight : ℕ
deriving DecidableEq

/-- `InvertLowestOne`. -/
def invertLowestOne (n : ℕ) : ℕ := n &&& (n - 1)

/-- `GetSkipHeight`. -/
def getSkipHeight (height : ℕ) : ℕ :=
  if height < 2 then 0
  else if height &&& 1 ≠ 0 then invertLowestOne (invertLowestOne (height - 1)) + 1
  else invertLowestOne height

/-- The local variables of `GetAncestor`. -/
structure Walk where
  pindexWalk : ℕ
  heightWalk : ℕ
deriving DecidableEq

/-- Whether `GetAncestor` follows `pskip`: not if the skip pointer of the predecessor is better than the
    predecessor of the skip pointer. -/
def followsSkip (height heightWalk : ℕ) : Bool :=
  let heightSkip := getSkipHeight heightWalk
  let heightSkipPrev := getSkipHeight (heightWalk - 1)
  decide (heightSkip = height ∨
    (heightSkip > height ∧ ¬ (heightSkipPrev + 2 < heightSkip ∧ heightSkipPrev ≥ height)))

/-- A round of the loop in `GetAncestor`; `none` is a failed assertion. -/
def walkStep (heap : List SkipEntry) (height : ℕ) (walk : Walk) : Option Walk := do
  let entry ← heap[walk.pindexWalk]?
  match entry.pskip, followsSkip height walk.heightWalk with
  | some pskip, true => some ⟨pskip, getSkipHeight walk.heightWalk⟩
  | _, _ => entry.pprev.map fun pprev => ⟨pprev, walk.heightWalk - 1⟩

/-- The loop of `GetAncestor`, for at most so many rounds. -/
def walkLoop (heap : List SkipEntry) (height : ℕ) : ℕ → Walk → Option ℕ
  | 0, walk => if walk.heightWalk > height then none else some walk.pindexWalk
  | rounds + 1, walk =>
    if walk.heightWalk > height then (walkStep heap height walk).bind (walkLoop heap height rounds)
    else some walk.pindexWalk

/-- So many rounds of the loop, while it goes on. -/
def walkRounds (heap : List SkipEntry) (height : ℕ) : ℕ → Walk → Option Walk
  | 0, walk => some walk
  | rounds + 1, walk =>
    if walk.heightWalk > height then (walkStep heap height walk).bind (walkRounds heap height rounds)
    else none

/-- `CBlockIndex::GetAncestor`: `some none` is a null pointer, `none` a failed assertion. The height
    falls in every round. -/
def getAncestor (heap : List SkipEntry) (pindex : ℕ) (height : ℤ) : Option (Option ℕ) := do
  let entry ← heap[pindex]?
  if height > entry.nHeight ∨ height < 0 then some none
  else (walkLoop heap height.toNat entry.nHeight ⟨pindex, entry.nHeight⟩).map some

/-- Insert a block: its predecessor, its height, and `BuildSkip`. -/
def insertBlock (heap : List SkipEntry) : Option ℕ → Option (List SkipEntry)
  | none => some (heap ++ [⟨none, none, 0⟩])
  | some pprev => do
    let entry ← heap[pprev]?
    let nHeight := entry.nHeight + 1
    let pskip ← getAncestor heap pprev (getSkipHeight nHeight)
    some (heap ++ [⟨some pprev, pskip, nHeight⟩])

/-- The block trees that are built by inserting one block after the other, each on a block that is
    there or on none. -/
inductive Built : List SkipEntry → Prop where
  | nil : Built []
  | insert {heap heap' : List SkipEntry} {pprev : Option ℕ} (h : Built heap)
      (hpprev : ∀ p, pprev = some p → p < heap.length)
      (hinsert : insertBlock heap pprev = some heap') : Built heap'

/-! ## Following the predecessors -/

/-- The block that many predecessors back. -/
def followPrev (heap : List SkipEntry) : ℕ → ℕ → Option ℕ
  | 0, pindex => some pindex
  | n + 1, pindex => (heap[pindex]?.bind SkipEntry.pprev).bind (followPrev heap n)

theorem followPrev_add (heap : List SkipEntry) (m n : ℕ) :
    ∀ pindex, followPrev heap (m + n) pindex
      = (followPrev heap m pindex).bind (followPrev heap n) := by
  induction m with
  | zero => simp [followPrev]
  | succ m ih =>
    simp [Nat.add_right_comm, followPrev, funext ih, (bind_assoc ..).symm]

/-- What `BuildSkip` maintains for an entry: the height counts the predecessors, and the skip pointer
    leads to the ancestor at the skip height. -/
structure EntryOk (heap : List SkipEntry) (pindex : ℕ) (entry : SkipEntry) : Prop where
  root : entry.pprev = none → entry.nHeight = 0
  prev : ∀ p, entry.pprev = some p → p < pindex ∧
    heap[p]?.map SkipEntry.nHeight = some (entry.nHeight - 1) ∧ 0 < entry.nHeight
  skip : ∀ p, entry.pskip = some p →
    followPrev heap (entry.nHeight - getSkipHeight entry.nHeight) pindex = some p

/-- The invariant of the block tree. -/
def HeapOk (heap : List SkipEntry) : Prop :=
  ∀ pindex entry, heap[pindex]? = some entry → EntryOk heap pindex entry

theorem invertLowestOne_le (n : ℕ) : invertLowestOne n ≤ n - 1 := Nat.and_le_right

theorem getSkipHeight_lt {height : ℕ} (h : 0 < height) : getSkipHeight height < height := by
  have hinner := invertLowestOne_le (height - 1)
  have houter := invertLowestOne_le (invertLowestOne (height - 1))
  have hle := invertLowestOne_le height
  unfold getSkipHeight
  split_ifs <;> omega

section Walking

variable {heap : List SkipEntry} (hok : HeapOk heap)
include hok

/-- The predecessors of a block reach down to height 0, one at each height. -/
theorem exists_followPrev (n : ℕ) :
    ∀ {pindex : ℕ} {entry : SkipEntry}, heap[pindex]? = some entry → n ≤ entry.nHeight →
      ∃ p e, followPrev heap n pindex = some p ∧ heap[p]? = some e ∧ e.nHeight = entry.nHeight - n := by
  induction n with
  | zero => exact fun h _ => ⟨_, _, rfl, h, rfl⟩
  | succ n ih =>
    intro pindex entry hentry hle
    have hentryOk := hok pindex entry hentry
    cases hprev : entry.pprev with
    | none =>
      have hroot := hentryOk.root hprev
      omega
    | some p =>
      obtain ⟨-, hheight, -⟩ := hentryOk.prev p hprev
      obtain ⟨e, he, heq⟩ := map_eq_some_iff.mp hheight
      obtain ⟨q, e', hq, he', hfound⟩ := ih he (by omega)
      exact ⟨q, e', by simp [followPrev, hentry, hprev, hq], he', by omega⟩

/-- **A round of the walk** goes to an ancestor that is not below the height asked for, and what it takes
    for the height of that ancestor is its height. -/
theorem walkStep_spec {height : ℕ} {pindex : ℕ} {entry : SkipEntry} (hentry : heap[pindex]? = some entry)
    (hlt : height < entry.nHeight) :
    ∃ p e, walkStep heap height ⟨pindex, entry.nHeight⟩ = some ⟨p, e.nHeight⟩ ∧ heap[p]? = some e ∧
      height ≤ e.nHeight ∧ e.nHeight < entry.nHeight ∧
      followPrev heap (entry.nHeight - e.nHeight) pindex = some p := by
  have hentryOk := hok pindex entry hentry
  unfold walkStep
  rw [hentry]
  simp only [bind_eq_bind, bind_some]
  split
  next p hskip hfollows =>
    have hback := getSkipHeight_lt (Nat.zero_lt_of_lt hlt)
    obtain ⟨q, e, hq, he, hheight⟩ :=
      exists_followPrev hok (entry.nHeight - getSkipHeight entry.nHeight) hentry (by omega)
    obtain rfl : p = q := Option.some.inj ((hentryOk.skip p hskip).symm.trans hq)
    have hskipHeight : e.nHeight = getSkipHeight entry.nHeight := by omega
    have hge := of_decide_eq_true hfollows
    exact ⟨p, e, by rw [hskipHeight], he, by omega, by omega, by rwa [hskipHeight]⟩
  next =>
    cases hprev : entry.pprev with
    | none =>
      have hroot := hentryOk.root hprev
      omega
    | some p =>
      obtain ⟨-, hheight, hpos⟩ := hentryOk.prev p hprev
      obtain ⟨e, he, heq⟩ := map_eq_some_iff.mp hheight
      have hone : entry.nHeight - e.nHeight = 1 := by omega
      exact ⟨p, e, by rw [heq]; rfl, he, by omega, by omega,
        by simp [hone, followPrev, hentry, hprev]⟩

/-- **The walk** ends at the ancestor. -/
theorem walkLoop_spec {height : ℕ} (rounds : ℕ) :
    ∀ {pindex : ℕ} {entry : SkipEntry}, heap[pindex]? = some entry → height ≤ entry.nHeight →
      entry.nHeight ≤ rounds + height →
      walkLoop heap height rounds ⟨pindex, entry.nHeight⟩
        = followPrev heap (entry.nHeight - height) pindex := by
  induction rounds with
  | zero =>
    intro pindex entry _ hle hrounds
    have hzero : entry.nHeight - height = 0 := by omega
    rw [walkLoop, if_neg (by dsimp only; omega), hzero]
    rfl
  | succ rounds ih =>
    intro pindex entry hentry hle hrounds
    rw [walkLoop]
    split_ifs with hgt
    · obtain ⟨p, e, hstep, he, hge, hlt, hfollow⟩ := walkStep_spec hok hentry hgt
      have hsplit : entry.nHeight - height
          = (entry.nHeight - e.nHeight) + (e.nHeight - height) := by omega
      simp [hstep, bind_some, ih he hge (by omega), hsplit, followPrev_add, hfollow]
    · have hzero : entry.nHeight - height = 0 := by dsimp only at hgt; omega
      rw [hzero]
      rfl

theorem getAncestor_eq {pindex : ℕ} {entry : SkipEntry} {height : ℤ}
    (hentry : heap[pindex]? = some entry) (hnonneg : 0 ≤ height) (hle : height ≤ entry.nHeight) :
    getAncestor heap pindex height
      = (followPrev heap (entry.nHeight - height.toNat) pindex).map some := by
  rw [getAncestor, hentry]
  simp only [bind_eq_bind, bind_some]
  rw [if_neg (by omega), walkLoop_spec hok _ hentry (by omega) (by omega)]

/-- **During the walk** the assumed heights are the heights. -/
theorem heightWalk_eq {height : ℕ} (rounds : ℕ) :
    ∀ {pindex : ℕ} {entry : SkipEntry} {walk : Walk}, heap[pindex]? = some entry →
      walkRounds heap height rounds ⟨pindex, entry.nHeight⟩ = some walk →
      heap[walk.pindexWalk]?.map SkipEntry.nHeight = some walk.heightWalk := by
  induction rounds with
  | zero =>
    rintro pindex entry _ hentry ⟨⟩
    simp [hentry]
  | succ rounds ih =>
    intro pindex entry walk hentry hwalk
    rw [walkRounds] at hwalk
    split_ifs at hwalk with hgt
    obtain ⟨p, e, hstep, he, -⟩ := walkStep_spec hok hentry hgt
    rw [hstep, bind_some] at hwalk
    exact ih he hwalk

end Walking

/-! ## Inserting blocks -/

section

variable {heap : List SkipEntry} (hok : HeapOk heap)

include hok

theorem followPrev_append (new : List SkipEntry) (n : ℕ) :
    ∀ {pindex : ℕ}, pindex < heap.length →
      followPrev (heap ++ new) n pindex = followPrev heap n pindex := by
  induction n with
  | zero => exact fun _ => rfl
  | succ n ih =>
    intro pindex hlt
    rw [followPrev, followPrev, getElem?_append_left hlt, getElem?_eq_getElem hlt, bind_some]
    cases hprev : heap[pindex].pprev with
    | none => rfl
    | some p =>
      have hback := ((hok pindex _ (getElem?_eq_getElem hlt)).prev p hprev).1
      exact ih (by omega)

theorem EntryOk.append (new : List SkipEntry)
    {pindex : ℕ} {entry : SkipEntry} (hentry : heap[pindex]? = some entry) :
    EntryOk (heap ++ new) pindex entry := by
  have h := hok pindex entry hentry
  have hlt : pindex < heap.length := (List.getElem?_eq_some_iff.mp hentry).1
  refine ⟨h.root, fun p hp => ?_, fun p hp => ?_⟩
  · obtain ⟨hback, hheight, hpos⟩ := h.prev p hp
    exact ⟨hback, by rw [getElem?_append_left (by omega), hheight], hpos⟩
  · simp [followPrev_append hok new _ hlt, h.skip p hp]

theorem HeapOk.append {new : SkipEntry}
    (hnew : EntryOk (heap ++ [new]) heap.length new) : HeapOk (heap ++ [new]) := by
  intro pindex entry hentry
  rcases Nat.lt_trichotomy pindex heap.length with hlt | rfl | hgt
  · rw [getElem?_append_left hlt] at hentry
    exact EntryOk.append hok [new] hentry
  · rw [getElem?_concat_length] at hentry
    cases hentry
    exact hnew
  · rw [getElem?_eq_none (by rw [length_append]; exact hgt)] at hentry
    simp at hentry

/-- **Inserting a block** never fails and keeps the invariant. -/
theorem insertBlock_spec {pprev : Option ℕ} (hpprev : ∀ p, pprev = some p → p < heap.length) :
    ∃ heap', insertBlock heap pprev = some heap' ∧ HeapOk heap' := by
  cases pprev with
  | none => exact ⟨_, rfl, hok.append ⟨fun _ => rfl, by simp, by simp⟩⟩
  | some p =>
    have hp := hpprev p rfl
    have hentry := getElem?_eq_getElem hp
    have hback : getSkipHeight (heap[p].nHeight + 1) < heap[p].nHeight + 1 :=
      getSkipHeight_lt (Nat.succ_pos _)
    have hancestor := getAncestor_eq hok hentry (Int.natCast_nonneg (getSkipHeight _))
      (by exact_mod_cast Nat.lt_succ_iff.mp hback)
    obtain ⟨q, e, hq, he, hheight⟩ := exists_followPrev hok
      (heap[p].nHeight - getSkipHeight (heap[p].nHeight + 1)) hentry (by omega)
    rw [Int.toNat_natCast, hq, map_some] at hancestor
    have hinsert : insertBlock heap (some p)
        = some (heap ++ [⟨some p, some q, heap[p].nHeight + 1⟩]) := by
      simp [insertBlock, hentry, hancestor]
    refine ⟨_, hinsert, hok.append ⟨by simp, ?_, ?_⟩⟩
    · rintro _ ⟨⟩
      exact ⟨hp, by rw [getElem?_append_left hp, hentry]; rfl, Nat.succ_pos _⟩
    · rintro _ ⟨⟩
      have hsplit : heap[p].nHeight + 1 - getSkipHeight (heap[p].nHeight + 1)
          = (heap[p].nHeight - getSkipHeight (heap[p].nHeight + 1)) + 1 := by omega
      rw [hsplit, followPrev, getElem?_concat_length, bind_some, bind_some,
        followPrev_append hok _ _ hp, hq]

end

theorem Built.heapOk {heap : List SkipEntry} (h : Built heap) : HeapOk heap := by
  induction h with
  | nil => simp [HeapOk]
  | insert h hpprev hinsert ih =>
    obtain ⟨heap', hinsert', hok⟩ := insertBlock_spec ih hpprev
    rwa [Option.some.inj (hinsert.symm.trans hinsert')]

/-- **Skip pointers find the ancestors.** In every block tree that is built block by block, the next
    block can be built too, and for every block and every height up to its own `GetAncestor` returns the block
    that is reached by following the predecessors, which has that height. The assertion holds in every
    round, and the height it assumes for the block it is at is the height of that block. -/
theorem getAncestor_spec {heap : List SkipEntry} (h : Built heap) :
    (∀ pprev : Option ℕ, (∀ p, pprev = some p → p < heap.length) →
      ∃ heap', insertBlock heap pprev = some heap') ∧
    ∀ (pindex : ℕ) (entry : SkipEntry) (height : ℤ), heap[pindex]? = some entry → 0 ≤ height →
      height ≤ entry.nHeight →
      (∃ p e, getAncestor heap pindex height = some (some p) ∧
        followPrev heap (entry.nHeight - height.toNat) pindex = some p ∧
        heap[p]? = some e ∧ (e.nHeight : ℤ) = height) ∧
      ∀ (rounds : ℕ) (walk : Walk),
        walkRounds heap height.toNat rounds ⟨pindex, entry.nHeight⟩ = some walk →
        heap[walk.pindexWalk]?.map SkipEntry.nHeight = some walk.heightWalk := by
  have hok := h.heapOk
  refine ⟨fun pprev hpprev => ?_, fun pindex entry height hentry hnonneg hle => ⟨?_, ?_⟩⟩
  · exact (insertBlock_spec hok hpprev).imp fun _ => And.left
  · obtain ⟨p, e, hp, he, hheight⟩ :=
      exists_followPrev hok (entry.nHeight - height.toNat) hentry (by omega)
    refine ⟨p, e, ?_, hp, he, by omega⟩
    rw [getAncestor_eq hok hentry hnonneg hle, hp, map_some]
  · exact fun rounds walk hwalk => heightWalk_eq hok rounds hentry hwalk

/-- A chain of five blocks and a second block on its third one. -/
def forkedHeap : List SkipEntry :=
  [⟨none, none, 0⟩, ⟨some 0, some 0, 1⟩, ⟨some 1, some 0, 2⟩, ⟨some 2, some 1, 3⟩, ⟨some 3, some 0, 4⟩,
   ⟨some 2, some 1, 3⟩]

theorem built_forkedHeap : Built forkedHeap :=
  have h0 : Built [⟨none, none, 0⟩] := @Built.insert _ _ none Built.nil (by simp) rfl
  have h1 := @Built.insert _ _ (some 0) h0 (by simp) rfl
  have h2 := @Built.insert _ _ (some 1) h1 (by simp) rfl
  have h3 := @Built.insert _ _ (some 2) h2 (by simp) rfl
  have h4 := @Built.insert _ _ (some 3) h3 (by simp) rfl
  @Built.insert _ _ (some 2) h4 (by simp) rfl

/-- From height 3 the walk to height 1 takes a skip pointer. -/
theorem getAncestor_spec_forked :
    Built forkedHeap ∧ ∃ p e, getAncestor forkedHeap 5 1 = some (some p) ∧
      followPrev forkedHeap 2 5 = some p ∧ forkedHeap[p]? = some e ∧ (e.nHeight : ℤ) = 1 :=
  ⟨built_forkedHeap, (((getAncestor_spec built_forkedHeap).2 5 ⟨some 2, some 1, 3⟩ 1 rfl
    (by decide) (by decide))).1⟩

end Binarium.SkipList
