import Binarium.Mempool.Descendants

set_option autoImplicit false

/-! # Transactions that come back from a block

When a block is disconnected, its transactions are added to the pool one after the other, each as an
entry without children. `UpdateTransactionsFromBlock` then goes over them backwards. It links each of
them to the children that were in the pool already, and adds the descendants outside the block to its
totals; those inside were counted when they were added.

`Relinking` is the state in between: the links from the transactions still to do to children outside the
block are missing, and their totals count descendants from the block only. -/

namespace Binarium

open Closure Checks Descent Relation CTxMemPoolEntry List TransGen

namespace CTxMemPool

/-! ## `UpdateTransactionsFromBlock` -/

/-- One element of `mapNextTx` that spends an output of the entry, with the children so far. -/
def linkChild (setAlreadyIncluded : List Uint256) (it : Uint256) (s : SetEntries × CTxMemPool)
    (childHash : Uint256) : SetEntries × CTxMemPool :=
  if childHash ∈ s.1 then s
  else
    (insertSet hashOrder childHash s.1,
      if childHash ∈ setAlreadyIncluded then s.2
      else (s.2.updateChild it childHash true).updateParent childHash it true)

/-- The loop over `mapNextTx`. -/
def linkChildren (pool : CTxMemPool) (setAlreadyIncluded : List Uint256) (it : Uint256) : CTxMemPool :=
  ((pool.childrenCheck it).foldl (linkChild setAlreadyIncluded it) ([], pool)).2

/-- The end of a round, with the descendants or the mark. -/
def updateOrMark (pool : CTxMemPool) (setAlreadyIncluded : List Uint256) (cached : DescendantCache)
    (it : Uint256) : CTxMemPool × DescendantCache :=
  match pool.updateForDescendants it 100 cached setAlreadyIncluded with
  | some updated => updated
  | none => (pool.modifyTx it CTxMemPoolEntry.setDirty, cached)

/-- One round of `UpdateTransactionsFromBlock`. -/
def updateFromBlock (setAlreadyIncluded : List Uint256) (s : CTxMemPool × DescendantCache)
    (hash : Uint256) : CTxMemPool × DescendantCache :=
  if s.1.existsTx hash then
    (s.1.linkChildren setAlreadyIncluded hash).updateOrMark setAlreadyIncluded s.2 hash
  else s

/-- `CTxMemPool::UpdateTransactionsFromBlock`. -/
def updateTransactionsFromBlock (pool : CTxMemPool) (vHashesToUpdate : List Uint256) : CTxMemPool :=
  (vHashesToUpdate.reverse.foldl (updateFromBlock vHashesToUpdate) (pool, ∅)).1

variable {pool pool' : CTxMemPool}

/-! ## The links to children -/

section LinkChildren

variable {setAlreadyIncluded : List Uint256} {it : Uint256}

/-- A loop of rounds that change the pool only by `UpdateChild` and `UpdateParent`. -/
theorem linkChild_keeps {β : Type} (g : CTxMemPool → β)
    (hchild : ∀ s entry child, g (updateChild s entry child true) = g s)
    (hparent : ∀ s entry parent, g (updateParent s entry parent true) = g s) :
    g (pool.linkChildren setAlreadyIncluded it) = g pool := by
  refine foldl_keeps (g := fun s : SetEntries × CTxMemPool => g s.2) (fun s a => ?_) _ ([], pool)
  grind [linkChild]

theorem mapTx_linkChildren : (pool.linkChildren setAlreadyIncluded it).mapTx = pool.mapTx :=
  linkChild_keeps CTxMemPool.mapTx (fun _ _ _ => rfl) (fun _ _ _ => rfl)

theorem framed_linkChildren : Framed pool (pool.linkChildren setAlreadyIncluded it) :=
  ⟨linkChild_keeps CTxMemPool.mapNextTx (fun _ _ _ => rfl) (fun _ _ _ => rfl),
    linkChild_keeps CTxMemPool.mapDeltas (fun _ _ _ => rfl) (fun _ _ _ => rfl),
    linkChild_keeps CTxMemPool.totalTxSize (fun _ _ _ => rfl) (fun _ _ _ => rfl)⟩

/-- What a loop over some children has linked. -/
structure Linking (pool : CTxMemPool) (setAlreadyIncluded : List Uint256) (it : Uint256)
    (done : List Uint256) (s : SetEntries × CTxMemPool) : Prop where
  children : ∀ c, c ∈ s.1 ↔ c ∈ done
  childLink : ∀ p c, s.2.ChildLink p c
    ↔ pool.ChildLink p c ∨ (p = it ∧ c ∈ done ∧ c ∉ setAlreadyIncluded)
  parentLink : ∀ p c, s.2.ParentLink p c
    ↔ pool.ParentLink p c ∨ (p = it ∧ c ∈ done ∧ c ∉ setAlreadyIncluded)
  hasLinks : ∀ h, s.2.hasLinks h = true
    ↔ pool.hasLinks h = true ∨ ∃ c ∈ done, c ∉ setAlreadyIncluded ∧ (h = it ∨ h = c)
  nodup : s.2.NodupLinks

/-- A child that is not from the block is linked at both ends. -/
theorem Linking.step {done : List Uint256} {s : SetEntries × CTxMemPool}
    (h : Linking pool setAlreadyIncluded it done s) (childHash : Uint256) :
    Linking pool setAlreadyIncluded it (childHash :: done)
      (linkChild setAlreadyIncluded it s childHash) := by
  have hchild : ∀ p c, (s.2.updateChild it childHash true).ChildLink p c
      ↔ s.2.ChildLink p c ∨ (p = it ∧ c = childHash) := fun p c =>
    (@childLink_updateChild_true s.2 it (p, c) childHash).trans (by rw [Prod.ext_iff])
  have hparent : ∀ p c,
      ((s.2.updateChild it childHash true).updateParent childHash it true).ParentLink p c
      ↔ (s.2.updateChild it childHash true).ParentLink p c ∨ (p = it ∧ c = childHash) := fun p c =>
    (@parentLink_updateParent_true _ childHash (p, c) it).trans (by rw [Prod.ext_iff])
  obtain ⟨hchildren, hchildLink, hparentLink, hhasLinks, hnodup⟩ := h
  unfold linkChild
  split_ifs
  · constructor <;> grind
  · constructor <;> grind [mem_insertSet]
  · constructor
    · grind [mem_insertSet]
    · grind [childLink_updateParent]
    · grind [parentLink_updateChild]
    · intro x
      rw [hasLinks_updateParent, hasLinks_updateChild, hhasLinks]
      grind
    · exact nodupLinks_updateParent (nodupLinks_updateChild hnodup _ _ _) _ _ _

theorem linking_linkChildren (hnodup : pool.NodupLinks) :
    Linking pool setAlreadyIncluded it (pool.childrenCheck it)
      ((pool.childrenCheck it).foldl (linkChild setAlreadyIncluded it) ([], pool)) := by
  have hloop : ∀ (rest done : List Uint256) (s : SetEntries × CTxMemPool),
      Linking pool setAlreadyIncluded it done s →
      Linking pool setAlreadyIncluded it (rest.reverse ++ done)
        (rest.foldl (linkChild setAlreadyIncluded it) s) := by
    intro rest
    induction rest with
    | nil => exact fun done s h => h
    | cons c rest ih =>
      intro done s h
      simp [ih _ _ (h.step c)]
  have hstart : Linking pool setAlreadyIncluded it [] ([], pool) :=
    ⟨fun _ => Iff.rfl, by simp, by simp, by simp, hnodup⟩
  have hend := hloop (pool.childrenCheck it) [] _ hstart
  refine ⟨fun c => ?_, fun p c => ?_, fun p c => ?_, fun h => ?_, hend.nodup⟩
  · simp [hend.children]
  · simp [hend.childLink]
  · simp [hend.parentLink]
  · simp [hend.hasLinks, mem_reverse]

section

variable (hpool : pool.Consistent) (hit : pool.existsTx it = true)

include hpool hit

theorem Consistent.mem_childrenCheck {c : Uint256} : c ∈ pool.childrenCheck it ↔ pool.Spends it c := by
  rw [CTxMemPool.mem_childrenCheck]
  constructor
  · rintro ⟨outpoint, next, hnext, rfl, rfl⟩
    obtain ⟨child, hchild, txin, hin, rfl⟩ := spentBy_of_checkNext (hpool.nextTx_sound hnext)
    exact ⟨hit, child, hchild, txin, hin, rfl⟩
  · rintro ⟨-, child, hchild, txin, hin, rfl⟩
    obtain ⟨next, hnext, hptx⟩ := hpool.nextTx_complete hchild txin hin
    exact ⟨txin.prevout, next, hnext, rfl, by rw [hptx]; exact hpool.keyed hchild⟩

theorem childLink_linkChildren (p c : Uint256) : (pool.linkChildren setAlreadyIncluded it).ChildLink p c
      ↔ pool.ChildLink p c ∨ (p = it ∧ pool.Spends it c ∧ c ∉ setAlreadyIncluded) := by
  rw [← hpool.mem_childrenCheck hit]
  exact (linking_linkChildren hpool.nodup).childLink p c

theorem consistent_linkChildren
    (hacyclic : ∀ h, ¬ TransGen (pool.linkChildren setAlreadyIncluded it).ChildLink h h) :
    (pool.linkChildren setAlreadyIncluded it).Consistent := by
  have hlinking := @linking_linkChildren pool setAlreadyIncluded it hpool.nodup
  have hmapTx := @mapTx_linkChildren pool setAlreadyIncluded it
  have hframe := @framed_linkChildren pool setAlreadyIncluded it
  have hexists : ∀ h, (pool.linkChildren setAlreadyIncluded it).existsTx h = pool.existsTx h :=
    fun h => by rw [existsTx, existsTx, hmapTx]
  constructor
  case keyed => exact fun hentry => hpool.keyed (hmapTx ▸ hentry)
  case hasLinks =>
    intro h
    rw [hexists, ← hpool.hasLinks, Bool.eq_iff_iff]
    refine (hlinking.hasLinks h).trans (or_iff_left_of_imp ?_)
    rintro ⟨c, hc, -, rfl | rfl⟩
    · rw [hpool.hasLinks, hit]
    · simp [hpool.hasLinks, ((hpool.mem_childrenCheck hit).mp hc).exists_child]
  case nodup => exact hlinking.nodup
  case both =>
    intro p c
    refine (hlinking.parentLink p c).trans ((or_congr_left (hpool.both p c)).trans ?_)
    exact (hlinking.childLink p c).symm
  case acyclic => exact hacyclic
  case nextTx_sound =>
    intro outpoint next hnext
    rw [hframe.mapNextTx] at hnext
    have hcheck := hpool.nextTx_sound hnext
    rwa [checkNext, hmapTx]
  case nextTx_complete =>
    intro h entry hentry txin hin
    rw [hframe.mapNextTx]
    exact hpool.nextTx_complete (hmapTx ▸ hentry) txin hin
  case deltas =>
    intro h entry hentry
    rw [hframe.mapDeltas]
    exact hpool.deltas (hmapTx ▸ hentry)
  case totalSize =>
    have hsize := hpool.totalSize
    unfold TotalSize at hsize ⊢
    rw [hframe.totalTxSize, hmapTx, hsize]

end

end LinkChildren

/-! ## The rounds -/

/-- What the transactions of a block have in common with each other and with the rest of the pool: none
    of them spends from outside, and none spends from a later one. -/
structure FromBlock (pool : CTxMemPool) (block : List Uint256) : Prop where
  nodup : block.Nodup
  closed : ∀ {p c}, pool.Spends p c → c ∈ block → p ∈ block
  ordered : block.Pairwise fun earlier later => ¬ pool.Spends later earlier

/-- The links so far: to do are those from some transactions of the block to children outside. -/
def LinkedBut (pool : CTxMemPool) (block todo : List Uint256) : Prop :=
  ∀ p c, pool.ChildLink p c ↔ pool.Spends p c ∧ ¬ (p ∈ todo ∧ c ∉ block)

open Classical in
/-- The state within and between rounds: transactions that are still to be linked, and transactions
    whose totals are still to be completed. -/
structure Relinking (block unlinked todo : List Uint256) (s : CTxMemPool × DescendantCache) : Prop where
  consistent : s.1.Consistent
  fromBlock : s.1.FromBlock block
  acyclic : ∀ h, ¬ TransGen s.1.Spends h h
  linked : s.1.LinkedBut block unlinked
  finished : ∀ {h entry}, s.1.mapTx.lookup h = some entry → h ∉ todo →
    entry.Tallies (∑ d ∈ s.1.descendants h, s.1.weight d)
  unfinished : ∀ {h entry}, s.1.mapTx.lookup h = some entry → h ∈ todo →
    entry.Tallies (∑ d ∈ (s.1.descendants h).filter (· ∈ block), s.1.weight d)
  cache : s.1.CacheOk block s.2
  cached : ∀ {u its}, s.2.lookup u = some its → u ∉ todo

theorem LinkedBut.spends {block todo : List Uint256} (h : pool.LinkedBut block todo) {p c : Uint256}
    (hlink : pool.ChildLink p c) : pool.Spends p c :=
  ((h p c).mp hlink).1

/-- What leads to a transaction of the block by links is of the block and not later than it. -/
theorem FromBlock.before {block : List Uint256} (h : pool.FromBlock block) {before after : List Uint256}
    (hsplit : block = before ++ after) {x b : Uint256} (hb : b ∈ before)
    (hreach : ReflTransGen pool.Spends x b) : x ∈ before := by
  have hordered := h.ordered
  rw [hsplit] at hordered
  obtain ⟨-, -, hcross⟩ := pairwise_append.mp hordered
  induction hreach using ReflTransGen.head_induction_on with
  | refl => exact hb
  | head hspends _ ih =>
    have hin := h.closed hspends (by rw [hsplit]; exact mem_append_left _ ih)
    rw [hsplit] at hin
    rcases mem_append.mp hin with hin | hin
    · exact hin
    · exact absurd hspends (hcross _ ih _ hin)

/-- A circle of spends would be one of links. -/
theorem acyclic_spends (hacyclic : ∀ h, ¬ TransGen pool.ChildLink h h) {block : List Uint256}
    (hblock : pool.FromBlock block) (hlinked : pool.LinkedBut block block) (h : Uint256) :
    ¬ TransGen pool.Spends h h := by
  intro hcycle
  refine hacyclic h (mono (fun x y hxy => ?_) _ _ (transGen_of_circle hcycle .refl))
  obtain ⟨hspends, hback⟩ := hxy
  refine (hlinked x y).mpr ⟨hspends, fun ⟨hx, hy⟩ => hy ?_⟩
  exact hblock.before (append_nil block).symm hx hback

/-- What a transaction reaches in the block does not depend on links that leave the block. -/
theorem reaches_block {block todo todo' : List Uint256} (hblock : pool.FromBlock block)
    (hlinked : pool.LinkedBut block todo) (hspends : ∀ p c, pool'.Spends p c ↔ pool.Spends p c)
    (hlinked' : pool'.LinkedBut block todo') {h d : Uint256} (hd : d ∈ block)
    (hreach : ReflTransGen pool'.ChildLink h d) : ReflTransGen pool.ChildLink h d := by
  induction hreach with
  | refl => exact .refl
  | tail _ hlink ih =>
    have hspend := (hspends _ _).mp (hlinked'.spends hlink)
    exact (ih (hblock.closed hspend hd)).tail ((hlinked _ _).mpr ⟨hspend, fun hout => hout.2 hd⟩)

section Round

variable {block pre post : List Uint256} {b : Uint256} {s : CTxMemPool × DescendantCache}

theorem spends_linkChildren {p c : Uint256} :
    (pool.linkChildren block b).Spends p c ↔ pool.Spends p c := by
  unfold Spends existsTx
  rw [mapTx_linkChildren]

theorem weight_linkChildren (h : Uint256) : (pool.linkChildren block b).weight h = pool.weight h := by
  unfold weight deref
  rw [mapTx_linkChildren]

theorem FromBlock.congr (h : pool.FromBlock block)
    (hspends : ∀ p c, pool'.Spends p c ↔ pool.Spends p c) :
    pool'.FromBlock block where
  nodup := h.nodup
  closed := fun hpc hc => h.closed ((hspends _ _).mp hpc) hc
  ordered := h.ordered.imp fun hab hba => hab ((hspends _ _).mp hba)

/-- **A transaction of the block is linked to its children outside the block.** -/
theorem Relinking.link (hblock : block = (pre ++ [b]) ++ post)
    (h : Relinking block (pre ++ [b]) (pre ++ [b]) s) (hb : s.1.existsTx b) :
    Relinking block pre (pre ++ [b]) (s.1.linkChildren block b, s.2) := by
  have hlinks := fun p c => @childLink_linkChildren s.1 block b h.consistent hb p c
  have hspends : ∀ p c, (s.1.linkChildren block b).Spends p c ↔ s.1.Spends p c :=
    fun p c => spends_linkChildren
  have hfresh : b ∉ pre := by
    have hnodup := h.fromBlock.nodup
    grind
  have hlinked : (s.1.linkChildren block b).LinkedBut block pre := by
    intro p c
    rw [hlinks, h.linked p c, hspends]
    grind
  have hacyclic : ∀ x, ¬ TransGen (s.1.linkChildren block b).ChildLink x x := fun x hcycle =>
    h.acyclic x (mono (fun p c hlink => (hspends p c).mp (hlinked.spends hlink)) _ _ hcycle)
  -- what is done already does not lead to the transaction
  have hapart : ∀ x, x ∉ pre ++ [b] → ¬ ReflTransGen s.1.ChildLink x b := fun x hx hreach =>
    hx (h.fromBlock.before hblock (by simp)
      (ReflTransGen.mono (fun p c hlink => h.linked.spends hlink) _ _ hreach))
  have hexists : ∀ x, (s.1.linkChildren block b).existsTx x = s.1.existsTx x :=
    fun x => by rw [existsTx, existsTx, mapTx_linkChildren]
  have hreaches : ∀ x d, x ∉ pre ++ [b] → (ReflTransGen (s.1.linkChildren block b).ChildLink x d
      ↔ ReflTransGen s.1.ChildLink x d) :=
    fun x d hx => reaches_addNext hlinks (hapart x hx)
  constructor
  case consistent => exact consistent_linkChildren h.consistent hb hacyclic
  case fromBlock => exact h.fromBlock.congr hspends
  case acyclic =>
    intro x hcycle
    exact h.acyclic x (mono (fun p c hpc => (hspends p c).mp hpc) _ _ hcycle)
  case linked => exact hlinked
  case finished =>
    intro x entry hentry hx
    have hdescendants : (s.1.linkChildren block b).descendants x = s.1.descendants x := by
      ext d
      simp [mem_descendants, hexists, hreaches x d hx]
    simp [hdescendants, weight_linkChildren, h.finished (mapTx_linkChildren ▸ hentry) hx]
  case unfinished =>
    intro x entry hentry hx
    have hdescendants : ((s.1.linkChildren block b).descendants x).filter (· ∈ block)
        = (s.1.descendants x).filter (· ∈ block) := by
      ext d
      rw [Finset.mem_filter, Finset.mem_filter, mem_descendants, mem_descendants, hexists]
      refine and_congr_left fun hd => and_congr_right fun _ => ⟨?_, ?_⟩
      · exact reaches_block h.fromBlock h.linked hspends hlinked hd
      · exact reaches_block (h.fromBlock.congr hspends) hlinked (fun p c => (hspends p c).symm)
          h.linked hd
    simp [hdescendants, weight_linkChildren, h.unfinished (mapTx_linkChildren ▸ hentry) hx]
  case cache =>
    intro u its hu
    obtain ⟨hin, hmem⟩ := h.cache hu
    refine ⟨hin, fun d => ?_⟩
    rw [hmem]
    refine and_congr_right fun hd => ?_
    have hne : d ≠ u := fun heq => hd (heq ▸ hin)
    simp [transGen_iff_of_ne hne, hreaches u d (h.cached hu)]
  case cached => exact fun hu => h.cached hu

/-- The second part of a round changes the totals of one transaction, to those of its descendants or to
    none. -/
theorem Relinking.complete (h : Relinking block pre (pre ++ [b]) s) (hfresh : b ∉ pre)
    (hgraph : SameGraph s.1 pool') (hdeltas : pool'.mapDeltas = s.1.mapDeltas)
    (hentries : ∀ {x entry'}, pool'.mapTx.lookup x = some entry' → ∃ entry,
      s.1.mapTx.lookup x = some entry ∧ entry'.feeDelta = entry.feeDelta
        ∧ entry'.weight = entry.weight ∧ (x ≠ b → ∀ t, entry.Tallies t → entry'.Tallies t)
        ∧ (x = b → entry'.Tallies (∑ d ∈ s.1.descendants b, s.1.weight d)))
    {cached' : DescendantCache} (hcache : s.1.CacheOk block cached')
    (hcached : ∀ u, u ≠ b → cached'.lookup u = s.2.lookup u) :
    Relinking block pre pre (pool', cached') := by
  have hlinks := hgraph.childLink_eq
  have hspends : ∀ p c, pool'.Spends p c ↔ s.1.Spends p c := fun p c => hgraph.spends_iff
  have hweight : ∀ {d}, pool'.existsTx d → pool'.weight d = s.1.weight d := by
    intro d hd
    obtain ⟨entry', hentry'⟩ := existsTx_iff.mp hd
    obtain ⟨entry, hentry, -, hsame, -⟩ := hentries hentry'
    rw [weight, weight, deref_of_lookup hentry', deref_of_lookup hentry, hsame]
  have hsum : ∀ x, ∑ d ∈ pool'.descendants x, pool'.weight d
      = ∑ d ∈ s.1.descendants x, s.1.weight d := by
    intro x
    rw [← hgraph.descendants_eq x]
    exact Finset.sum_congr rfl fun d hd => hweight (mem_descendants.mp hd).1
  constructor
  case consistent =>
    refine hgraph.consistent h.consistent fun {x entry'} hentry' => ?_
    obtain ⟨entry, hentry, hfee, -⟩ := hentries hentry'
    rw [hfee, hdeltas]
    exact h.consistent.deltas hentry
  case fromBlock => exact h.fromBlock.congr hspends
  case acyclic =>
    intro x hcycle
    exact h.acyclic x (mono (fun p c hpc => (hspends p c).mp hpc) _ _ hcycle)
  case linked =>
    intro p c
    rw [hlinks, hspends]
    exact h.linked p c
  case finished =>
    intro x entry' hentry' hx
    obtain ⟨entry, hentry, -, -, hother, hmine⟩ := hentries hentry'
    rw [hsum]
    by_cases hxb : x = b
    · simp [hxb, hmine hxb]
    · exact hother hxb _ (h.finished hentry (by simp [hx, hxb]))
  case unfinished =>
    intro x entry' hentry' hx
    obtain ⟨entry, hentry, -, -, hother, -⟩ := hentries hentry'
    have hfilter : ∑ d ∈ (pool'.descendants x).filter (· ∈ block), pool'.weight d
        = ∑ d ∈ (s.1.descendants x).filter (· ∈ block), s.1.weight d := by
      rw [← hgraph.descendants_eq x]
      refine Finset.sum_congr rfl fun d hd => hweight ?_
      exact (mem_descendants.mp (Finset.mem_filter.mp hd).1).1
    have htally := hother (fun heq => hfresh (heq ▸ hx)) _
      (h.unfinished hentry (mem_append_left _ hx))
    convert htally
  case cache =>
    intro u its hu
    rw [hlinks]
    exact hcache hu
  case cached =>
    intro u its hu
    by_cases hub : u = b
    · exact hub ▸ hfresh
    · have hold := h.cached (hcached u hub ▸ hu)
      exact fun hin => hold (mem_append_left _ hin)

open Classical in
/-- The descendants of a transaction of the block: those from the block, and the others. -/
theorem sum_descendants_split (h : Relinking block pre (pre ++ [b]) s) {counted : Finset Uint256}
    (hin : b ∈ block) (hcounted : ∀ d, d ∈ counted ↔ d ∉ block ∧ TransGen s.1.ChildLink b d) :
    ∑ d ∈ (s.1.descendants b).filter (· ∈ block), s.1.weight d + ∑ d ∈ counted, s.1.weight d
      = ∑ d ∈ s.1.descendants b, s.1.weight d := by
  have hothers : counted = (s.1.descendants b).filter (· ∉ block) := by
    ext d
    rw [hcounted, Finset.mem_filter, mem_descendants, and_comm]
    refine and_congr_left fun hd => ?_
    have hne : d ≠ b := fun heq => hd (heq ▸ hin)
    rw [transGen_iff_of_ne hne]
    refine ⟨fun hreach => ⟨?_, hreach⟩, And.right⟩
    rcases ReflTransGen.cases_tail hreach with rfl | ⟨c, -, hlink⟩
    · exact absurd hin hd
    · exact (h.consistent.exists_of_childLink hlink).2
  rw [hothers, Finset.sum_filter_add_sum_filter_not]

/-- **The totals of a transaction of the block are completed**, or it is marked as dirty. -/
theorem Relinking.update (hin : b ∈ block) (hfresh : b ∉ pre)
    (h : Relinking block pre (pre ++ [b]) s) :
    Relinking block pre pre (s.1.updateOrMark block s.2 b) := by
  unfold updateOrMark
  cases hupdate : s.1.updateForDescendants b 100 s.2 block with
  | some updated =>
    obtain ⟨counted, hcounted, htotals, hlinks, hframe, hcache, hcached⟩ :=
      updateForDescendants_spec h.consistent h.cache hin hupdate
    refine h.complete hfresh (sameGraph_of_retallied htotals hlinks hframe) hframe.mapDeltas ?_
      hcache hcached
    intro x entry' hentry'
    obtain ⟨entry, hentry, hcore, htally⟩ := htotals.of_lookup hentry'
    refine ⟨entry, hentry, feeDelta_of_core hcore,
      weight_of_core hcore, fun hx t ht => ?_, fun hx => ?_⟩
    · have hafter := htally t ht
      rwa [if_neg hx, add_zero] at hafter
    · subst hx
      have hafter := htally _ (h.unfinished hentry (by simp))
      rwa [if_pos rfl, sum_descendants_split h hin hcounted] at hafter
  | none =>
    have hlookup : ∀ x, (s.1.modifyTx b setDirty).mapTx.lookup x
        = if x = b then (s.1.mapTx.lookup b).map setDirty
          else s.1.mapTx.lookup x := fun x => Maps.lookup_modify _ _ _ _
    have hgraph : SameGraph s.1 (s.1.modifyTx b setDirty) := by
      refine ⟨rfl, rfl, rfl, fun x => ?_⟩
      rw [hlookup]
      split_ifs with hx
      · rw [hx, Option.map_map]
        rfl
      · rfl
    refine h.complete hfresh hgraph rfl (fun {x entry'} hentry' => ?_) h.cache fun _ _ => rfl
    rw [hlookup] at hentry'
    split_ifs at hentry' with hx
    · obtain ⟨entry, hentry, rfl⟩ := Option.map_eq_some_iff.mp hentry'
      exact ⟨entry, hx ▸ hentry, rfl, rfl, fun hne => absurd hx hne,
        fun _ hclean => absurd hclean (by simp [isDirty, setDirty])⟩
    · exact ⟨entry', hentry', rfl, rfl, fun _ t ht => ht, fun heq => absurd heq hx⟩

/-- **One round.** -/
theorem Relinking.round (hblock : block = (pre ++ [b]) ++ post)
    (h : Relinking block (pre ++ [b]) (pre ++ [b]) s) :
    Relinking block pre pre (updateFromBlock block s b) := by
  have hin : b ∈ block := by simp [hblock]
  have hfresh : b ∉ pre := by
    have hnodup := h.fromBlock.nodup
    grind
  unfold updateFromBlock
  split_ifs with hb
  · exact (h.link hblock hb).update hin hfresh
  · -- a transaction that has left the pool has neither links nor totals
    have hother : ∀ {x entry}, s.1.mapTx.lookup x = some entry → x ≠ b :=
      fun hentry heq => hb (heq ▸ existsTx_iff.mpr ⟨_, hentry⟩)
    refine ⟨h.consistent, h.fromBlock, h.acyclic, fun p c => ?_, fun hentry hx => ?_,
      fun hentry hx => h.unfinished hentry (mem_append_left _ hx), h.cache,
      fun hu hpre => h.cached hu (mem_append_left _ hpre)⟩
    · rw [h.linked p c]
      grind [Spends]
    · exact h.finished hentry (by simp [hx, hother hentry])

theorem Relinking.loop (todo : List Uint256) :
    ∀ {post : List Uint256} {s : CTxMemPool × DescendantCache},
    block = todo.reverse ++ post → Relinking block todo.reverse todo.reverse s →
    Relinking block [] [] (todo.foldl (updateFromBlock block) s) := by
  induction todo with
  | nil => exact fun _ h => h
  | cons b rest ih =>
    intro post s hblock h
    rw [reverse_cons] at hblock h
    exact ih (hblock.trans (append_assoc _ _ _)) (h.round hblock)

end Round

open Classical in
/-- **`UpdateTransactionsFromBlock` puts the pool in order again**: the links are those of the spends,
    and the totals those of the descendants. -/
theorem updateTransactionsFromBlock_spec (hpool : pool.Consistent) (hexact : pool.Exact)
    {block : List Uint256} (hblock : pool.FromBlock block) (hlinked : pool.LinkedBut block block) :
    (pool.updateTransactionsFromBlock block).Consistent
      ∧ (pool.updateTransactionsFromBlock block).Exact
      ∧ ∀ p c, (pool.updateTransactionsFromBlock block).ChildLink p c
        ↔ (pool.updateTransactionsFromBlock block).Spends p c := by
  have hstart : Relinking block block.reverse.reverse block.reverse.reverse (pool, ∅) := by
    rw [reverse_reverse]
    refine ⟨hpool, hblock, acyclic_spends hpool.acyclic hblock hlinked, hlinked,
      fun hentry _ => hexact hentry, fun {x entry} hentry hx => ?_,
      fun hu => absurd hu (by simp), fun hu => absurd hu (by simp)⟩
    -- no link leaves the block yet
    have hall : (pool.descendants x).filter (· ∈ block) = pool.descendants x := by
      refine Finset.filter_true_of_mem fun d hd => ?_
      obtain ⟨-, hreach⟩ := mem_descendants.mp hd
      clear hd
      induction hreach with
      | refl => exact hx
      | tail _ hlink ih =>
        by_contra hout
        exact ((hlinked _ _).mp hlink).2 ⟨ih, hout⟩
    rw [hall]
    exact hexact hentry
  have hend := Relinking.loop block.reverse
    (by rw [reverse_reverse, append_nil] : block = block.reverse.reverse ++ []) hstart
  refine ⟨hend.consistent, fun hentry => hend.finished hentry (by simp), fun p c => ?_⟩
  refine (hend.linked p c).trans (and_iff_left fun hout => ?_)
  exact absurd hout.1 (by simp)

end CTxMemPool

end Binarium
