import Binarium.Mempool.Removal

set_option autoImplicit false

/-! # Adding an entry to the memory pool

`addUnchecked` links a new entry to its parents and counts it in the totals of the ancestors it is given.
It does not look for children: the entry is added as one without descendants (`Added`). What the pool
keeps track of stays true, and so do exact totals if the ancestors are the ones that
`CalculateMemPoolAncestors` finds (`Added.consistent`, `Added.exact`).

`PrioritiseTransaction` changes the modified fee of an entry and adds the same amount to its total and
to those of its ancestors. -/

namespace Binarium

open Closure Checks Descent Relation CTxMemPoolEntry List Option Maps

namespace CTxMemPool

variable {pool pool' : CTxMemPool}

/-- `p` is an entry of the pool, and the transaction spends one of its outputs. -/
def ParentOf (pool : CTxMemPool) (tx : CTransaction) (p : Uint256) : Prop :=
  pool.existsTx p = true ∧ ∃ txin ∈ tx.vin, txin.prevout.hash = p

/-! ## The spent outpoints -/

/-- The loop that marks the inputs of a transaction as spent. -/
def markInputs (tx : CTransaction) (inputs : List (CTxIn × ℕ))
    (m : AList fun _ : COutPoint => CInPoint) : AList fun _ : COutPoint => CInPoint :=
  inputs.foldl (fun m (input : CTxIn × ℕ) => m.insert input.1.prevout ⟨tx, input.2⟩) m

theorem lookup_markInputs_of_not_mem {tx : CTransaction} {outpoint : COutPoint}
    (inputs : List (CTxIn × ℕ)) : ∀ {m : AList fun _ : COutPoint => CInPoint},
    (∀ input ∈ inputs, input.1.prevout ≠ outpoint) →
    (markInputs tx inputs m).lookup outpoint = m.lookup outpoint := by
  induction inputs with
  | nil => exact fun _ => rfl
  | cons input rest ih =>
    intro m h
    obtain ⟨hfirst, hrest⟩ := forall_mem_cons.mp h
    exact (ih hrest).trans (AList.lookup_insert_ne (Ne.symm hfirst))

theorem lookup_markInputs_of_mem (tx : CTransaction) {outpoint : COutPoint}
    (inputs : List (CTxIn × ℕ)) : ∀ (m : AList fun _ : COutPoint => CInPoint),
    (∃ input ∈ inputs, input.1.prevout = outpoint) → ∃ input ∈ inputs, input.1.prevout = outpoint
      ∧ (markInputs tx inputs m).lookup outpoint = some ⟨tx, input.2⟩ := by
  induction inputs with
  | nil => exact fun _ ⟨_, hin, _⟩ => absurd hin (by simp)
  | cons input rest ih =>
    intro m h
    -- the last input with the outpoint is the one that stays
    by_cases hlater : ∃ later ∈ rest, later.1.prevout = outpoint
    · obtain ⟨later, hin, hsame, hlookup⟩ := ih (m.insert input.1.prevout ⟨tx, input.2⟩) hlater
      exact ⟨later, mem_cons_of_mem _ hin, hsame, hlookup⟩
    · have hkeep := @lookup_markInputs_of_not_mem tx outpoint rest
        (m.insert input.1.prevout ⟨tx, input.2⟩)
      obtain ⟨found, hfound, hsame⟩ := h
      refine ⟨found, hfound, hsame, (hkeep (by grind)).trans ?_⟩
      grind

/-! ## `addUnchecked` -/

/-- The second pool is the first one with a new entry that has parents and no children. -/
structure Added (pool pool' : CTxMemPool) (entry : CTxMemPoolEntry) (setAncestors : SetEntries) :
    Prop where
  exists_iff : ∀ h, pool'.existsTx h = true ↔ h = entry.tx.hash ∨ pool.existsTx h = true
  newEntry : ∃ entry', pool'.mapTx.lookup entry.tx.hash = some entry'
    ∧ entry'.core = (pool.withFeeDelta entry.tx.hash entry).core
    ∧ ∀ t, (pool.withFeeDelta entry.tx.hash entry).Tallies t → entry'.Tallies t
  entries : ∀ {h known}, pool.mapTx.lookup h = some known → ∃ known',
    pool'.mapTx.lookup h = some known' ∧ known'.core = known.core
      ∧ ∀ t, known.Tallies t → known'.Tallies
        (t + if h ∈ setAncestors then (pool.withFeeDelta entry.tx.hash entry).weight else 0)
  childLink : ∀ p c, pool'.ChildLink p c
    ↔ pool.ChildLink p c ∨ (c = entry.tx.hash ∧ pool.ParentOf entry.tx p)
  parentLink : ∀ p c, pool'.ParentLink p c
    ↔ pool.ParentLink p c ∨ (c = entry.tx.hash ∧ pool.ParentOf entry.tx p)
  hasLinks : ∀ h, pool'.hasLinks h = true ↔ h = entry.tx.hash ∨ pool.hasLinks h = true
  nodup : pool'.NodupLinks
  mapNextTx : pool'.mapNextTx = markInputs entry.tx entry.tx.vin.zipIdx pool.mapNextTx
  mapDeltas : pool'.mapDeltas = pool.mapDeltas
  totalSize : pool'.TotalSize

/-- The pool after the first part of `addUnchecked`, in which the entry has no links yet. -/
def insertEntry (pool : CTxMemPool) (entry : CTxMemPoolEntry) : CTxMemPool :=
  { pool with
    mapTx := Maps.insertNew pool.mapTx entry.tx.hash (pool.withFeeDelta entry.tx.hash entry)
    mapLinks := Maps.insertNew pool.mapLinks entry.tx.hash ⟨[], []⟩
    mapNextTx := markInputs entry.tx entry.tx.vin.zipIdx pool.mapNextTx }

/-- The pool after the loop over the parents. -/
def linkParents (pool : CTxMemPool) (tx : CTransaction) : CTxMemPool :=
  (tx.vin.foldl (fun s txin => insertSet hashOrder txin.prevout.hash s) []).foldl
    (fun pool phash => if pool.existsTx phash then pool.updateParent tx.hash phash true else pool) pool

theorem addUnchecked_eq (entry : CTxMemPoolEntry) (setAncestors : SetEntries) :
    pool.addUnchecked entry.tx.hash entry setAncestors
      = { ((pool.insertEntry entry).linkParents entry.tx).updateAncestorsOf true entry.tx.hash
            setAncestors with
          totalTxSize := (((pool.insertEntry entry).linkParents entry.tx).updateAncestorsOf true
            entry.tx.hash setAncestors).totalTxSize + UInt64.ofNat entry.getTxSize } := rfl

section LinkParents

variable {tx : CTransaction}

theorem mapTx_linkParents : (pool.linkParents tx).mapTx = pool.mapTx := by
  refine foldl_keeps (g := CTxMemPool.mapTx) (fun s a => ?_) _ pool
  split_ifs <;> rfl

theorem framed_linkParents : Framed pool (pool.linkParents tx) := by
  refine Framed.foldl (fun s a => ?_) _ pool
  split_ifs <;> exact ⟨rfl, rfl, rfl⟩

theorem childLink_linkParents : (pool.linkParents tx).ChildLink = pool.ChildLink := by
  refine foldl_keeps (g := ChildLink) (fun s a => ?_) _ pool
  split_ifs
  · exact funext fun p => funext fun c => propext childLink_updateParent
  · rfl

theorem nodupLinks_linkParents (hpool : pool.NodupLinks) : (pool.linkParents tx).NodupLinks := by
  refine foldl_invariant (Q := NodupLinks) (fun s a hs => ?_) _ hpool
  split_ifs
  · exact nodupLinks_updateParent hs _ _ true
  · exact hs

theorem hasLinks_linkParents (hlinks : pool.hasLinks tx.hash) (h : Uint256) :
    (pool.linkParents tx).hasLinks h ↔ pool.hasLinks h := by
  refine foldl_invariant (Q := fun s : CTxMemPool => ∀ x, s.hasLinks x ↔ pool.hasLinks x)
    (fun s a hs x => ?_) _ (fun _ => Iff.rfl) h
  grind [hasLinks_updateParent]

theorem parentLink_linkParents (p c : Uint256) : (pool.linkParents tx).ParentLink p c
    ↔ pool.ParentLink p c ∨ (c = tx.hash ∧ pool.ParentOf tx p) := by
  have hloop : ∀ (l : SetEntries) (s : CTxMemPool),
      (l.foldl (fun pool phash => if pool.existsTx phash then pool.updateParent tx.hash phash true
        else pool) s).ParentLink p c
      ↔ s.ParentLink p c ∨ (c = tx.hash ∧ p ∈ l ∧ s.existsTx p) := by
    intro l
    induction l with
    | nil => simp
    | cons a rest ih =>
      intro s
      have hlink : (s.updateParent tx.hash a true).ParentLink p c
          ↔ s.ParentLink p c ∨ (p = a ∧ c = tx.hash) :=
        (@parentLink_updateParent_true s tx.hash (p, c) a).trans (by rw [Prod.ext_iff])
      grind [existsTx_updateParent]
  rw [linkParents, hloop]
  simp [mem_foldl_insertSet hashOrder, ParentOf, and_comm]

end LinkParents

section InsertEntry

variable {entry : CTxMemPoolEntry}

theorem tx_withFeeDelta (h : Uint256) : (pool.withFeeDelta h entry).tx = entry.tx := by
  grind [withFeeDelta, updateFeeDelta]

theorem lookup_insertEntry (hfresh : pool.existsTx entry.tx.hash = false) (h : Uint256) :
    (pool.insertEntry entry).mapTx.lookup h
      = if h = entry.tx.hash then some (pool.withFeeDelta entry.tx.hash entry)
        else pool.mapTx.lookup h := by
  have hnone : pool.mapTx.lookup entry.tx.hash = none :=
    not_isSome_iff_eq_none.mp (by rw [← existsTx, hfresh]; simp)
  show (insertNew _ _ _).lookup h = _
  rw [lookup_insertNew, hnone]
  rfl

theorem links_insertEntry (h : Uint256) : (pool.insertEntry entry).links h = pool.links h := by
  simp only [links, insertEntry, lookup_insertNew]
  split_ifs with heq
  · rw [heq]
    simp
  · rfl

theorem parentLink_insertEntry : (pool.insertEntry entry).ParentLink = pool.ParentLink := by
  funext p c
  rw [ParentLink, getMemPoolParents, links_insertEntry]
  rfl

theorem childLink_insertEntry : (pool.insertEntry entry).ChildLink = pool.ChildLink := by
  funext p c
  rw [ChildLink, getMemPoolChildren, links_insertEntry]
  rfl

theorem nodupLinks_insertEntry (hpool : pool.NodupLinks) : (pool.insertEntry entry).NodupLinks := by
  intro h
  rw [getMemPoolParents, getMemPoolChildren, links_insertEntry]
  exact hpool h

theorem hasLinks_insertEntry (h : Uint256) : (pool.insertEntry entry).hasLinks h
    ↔ h = entry.tx.hash ∨ pool.hasLinks h := by
  simp only [hasLinks, insertEntry, lookup_insertNew]
  split_ifs with heq <;> simp [heq]

end InsertEntry

/-- **`addUnchecked` adds the entry with its parents**, and counts it in the totals of the ancestors. -/
theorem added_addUnchecked (hpool : pool.Consistent) {entry : CTxMemPoolEntry}
    {setAncestors : SetEntries} (hfresh : pool.existsTx entry.tx.hash = false)
    (hself : ∀ txin ∈ entry.tx.vin, txin.prevout.hash ≠ entry.tx.hash) (hnodup : setAncestors.Nodup)
    (hancestors : entry.tx.hash ∉ setAncestors) :
    Added pool (pool.addUnchecked entry.tx.hash entry setAncestors) entry setAncestors := by
  have hlookup := lookup_insertEntry hfresh
  have hparentOf : ∀ p, (pool.insertEntry entry).ParentOf entry.tx p ↔ pool.ParentOf entry.tx p := by
    intro p
    refine and_congr_left fun ⟨txin, hin, hp⟩ => ?_
    rw [existsTx, hlookup, if_neg fun heq => hself txin hin (hp.trans heq), existsTx]
  have hnolink : ∀ p, ¬ pool.ParentLink p entry.tx.hash := by
    intro p hlink
    have hexists := hasLinks_of_parentLink hlink
    rw [hpool.hasLinks, hfresh] at hexists
    simp at hexists
  have hparents : ∀ p c, ((pool.insertEntry entry).linkParents entry.tx).ParentLink p c
      ↔ pool.ParentLink p c ∨ (c = entry.tx.hash ∧ pool.ParentOf entry.tx p) := by
    simp [parentLink_linkParents, parentLink_insertEntry, hparentOf]
  have hsame : ((pool.insertEntry entry).linkParents entry.tx).mapTx = (pool.insertEntry entry).mapTx :=
    mapTx_linkParents
  have hderef : ((pool.insertEntry entry).linkParents entry.tx).deref entry.tx.hash
      = pool.withFeeDelta entry.tx.hash entry :=
    deref_of_lookup (by rw [hsame, hlookup, if_pos rfl])
  have htotals : Retallied ((pool.insertEntry entry).linkParents entry.tx)
      (((pool.insertEntry entry).linkParents entry.tx).updateAncestorsOf true entry.tx.hash setAncestors)
      (fun x => if x ∈ setAncestors then (pool.withFeeDelta entry.tx.hash entry).weight else 0) := by
    have hdelta := change_add (pool.withFeeDelta entry.tx.hash entry)
    rw [← hderef] at hdelta ⊢
    exact retallied_updateAncestorsOf hnodup hdelta
  have hentries := fun {h known} => @Retallied.entries _ _ _ htotals h known
  simp only [hsame, hlookup] at hentries
  rw [addUnchecked_eq]
  set linked := (pool.insertEntry entry).linkParents entry.tx
  constructor
  case exists_iff => exact pool.existsTx_addUnchecked entry.tx.hash entry setAncestors
  case newEntry =>
    obtain ⟨entry', hentry', hcore, htally⟩ := hentries (if_pos rfl)
    refine ⟨entry', hentry', hcore, fun t ht => ?_⟩
    have hadd := htally t ht
    rwa [if_neg hancestors, add_zero] at hadd
  case entries =>
    intro h known hknown
    refine hentries ?_
    rw [if_neg, hknown]
    rintro rfl
    rw [existsTx, hknown] at hfresh
    simp at hfresh
  case childLink =>
    intro p c
    refine (childLink_updateAncestorsOf_true p c).trans ?_
    rw [childLink_linkParents, childLink_insertEntry, hparents, or_iff_right (hnolink p)]
    simp
  case parentLink =>
    intro p c
    rw [← hparents p c]
    have hkeep := @parentLink_updateAncestorsOf linked true entry.tx.hash setAncestors
    exact iff_of_eq (congrFun (congrFun hkeep p) c)
  case hasLinks =>
    intro h
    refine (@hasLinks_updateAncestorsOf linked true entry.tx.hash setAncestors h).trans ?_
    rw [hasLinks_linkParents ((hasLinks_insertEntry _).mpr (.inl rfl)), hasLinks_insertEntry, hparents,
      or_iff_left_iff_imp]
    rintro (hlink | ⟨-, hparent⟩)
    · exact absurd hlink (hnolink h)
    · exact .inr (by rw [hpool.hasLinks, hparent.1])
  case nodup =>
    exact nodupLinks_updateAncestorsOf (nodupLinks_linkParents (nodupLinks_insertEntry hpool.nodup))
  case mapNextTx =>
    exact (framed_linkParents.trans framed_updateAncestorsOf).mapNextTx
  case mapDeltas =>
    exact (framed_linkParents.trans framed_updateAncestorsOf).mapDeltas
  case totalSize =>
    have htotal : total (fun _ entry => entry.getTxSize) (pool.insertEntry entry).mapTx
        = (pool.withFeeDelta entry.tx.hash entry).getTxSize
          + total (fun _ entry => entry.getTxSize) pool.mapTx := by
      refine total_eq_add (by rw [hlookup, if_pos rfl]) ?_ fun k hk => by rw [hlookup, if_neg hk]
      exact not_isSome_iff_eq_none.mp (by rw [← existsTx, hfresh]; simp)
    show _ + UInt64.ofNat entry.getTxSize = UInt64.ofNat (total _ (updateAncestorsOf _ _ _ _).mapTx)
    rw [htotals.total_getTxSize, hsame, htotal, UInt64.ofNat_add, ← hpool.totalSize, UInt64.add_comm,
      (framed_linkParents.trans framed_updateAncestorsOf).totalTxSize, getTxSize,
      getTxSize, tx_withFeeDelta]
    rfl

/-! ## What outlives an addition -/

/-- What `AcceptToMemoryPool` has checked of a transaction that it adds: it is not in the pool, none of
    its inputs is spent in the pool, and it does not spend itself. -/
structure Addable (pool : CTxMemPool) (tx : CTransaction) : Prop where
  fresh : pool.existsTx tx.hash = false
  unspent : ∀ txin ∈ tx.vin, pool.mapNextTx.lookup txin.prevout = none
  notSelf : ∀ txin ∈ tx.vin, txin.prevout.hash ≠ tx.hash

variable {entry : CTxMemPoolEntry} {setAncestors : SetEntries}

/-- The entry with its fee delta carries its own weight. -/
theorem totals_withFeeDelta (hnew : entry.New) (h : Uint256) :
    (pool.withFeeDelta h entry).totals = (pool.withFeeDelta h entry).weight := by
  grind [withFeeDelta, totals_updateFeeDelta, weight_updateFeeDelta, hnew.totals]

theorem feeDelta_withFeeDelta (hnew : entry.New) (h : Uint256) :
    (pool.withFeeDelta h entry).feeDelta = (pool.mapDeltas.lookup h).getD 0 := by
  grind [withFeeDelta, updateFeeDelta, hnew.feeDelta]

namespace Added

variable (h : Added pool pool' entry setAncestors)

include h

theorem of_lookup {x : Uint256} {found : CTxMemPoolEntry} (hfound : pool'.mapTx.lookup x = some found) :
    (x = entry.tx.hash ∧ found.core = (pool.withFeeDelta entry.tx.hash entry).core)
      ∨ ∃ known, pool.mapTx.lookup x = some known ∧ found.core = known.core := by
  have hexists := h.exists_iff x
  have hnew := h.newEntry
  have hold := fun known => @Added.entries _ _ _ _ h x known
  grind [existsTx_iff]

theorem weight_eq {x : Uint256} (hx : pool.existsTx x) : pool'.weight x = pool.weight x := by
  obtain ⟨known, hknown⟩ := existsTx_iff.mp hx
  obtain ⟨known', hknown', hcore, -⟩ := h.entries hknown
  rw [weight, weight, deref_of_lookup hknown', deref_of_lookup hknown, weight_of_core hcore]

theorem weight_new : pool'.weight entry.tx.hash = (pool.withFeeDelta entry.tx.hash entry).weight := by
  obtain ⟨entry', hentry', hcore, -⟩ := h.newEntry
  rw [weight, deref_of_lookup hentry', weight_of_core hcore]

/-- What the entries spend of each other: as before, and what the new one spends and is spent of. -/
theorem spends_iff {p c : Uint256} :
    pool'.Spends p c ↔ pool.Spends p c ∨ (c = entry.tx.hash ∧ (∃ txin ∈ entry.tx.vin,
        txin.prevout.hash = p) ∧ (p = entry.tx.hash ∨ pool.existsTx p))
      ∨ (p = entry.tx.hash ∧ ∃ known, pool.mapTx.lookup c = some known
        ∧ ∃ txin ∈ known.tx.vin, txin.prevout.hash = p) := by
  have hnew := h.newEntry
  have hold := fun known => @Added.entries _ _ _ _ h c known
  have hfound := fun found => @Added.of_lookup _ _ _ _ h c found
  have hexists := h.exists_iff p
  have htx := @tx_withFeeDelta pool entry entry.tx.hash
  grind [Spends, → tx_of_core]

section

variable (hpool : pool.Consistent)

include hpool

/-- **What the pool keeps track of outlives an addition.** -/
theorem consistent (hnew : entry.New) (hadd : pool.Addable entry.tx) : pool'.Consistent where
  keyed := fun {x found} hfound => by
    rcases h.of_lookup hfound with ⟨rfl, hcore⟩ | ⟨known, hknown, hcore⟩
    · rw [tx_of_core hcore, tx_withFeeDelta]
    · rw [tx_of_core hcore]
      exact hpool.keyed hknown
  hasLinks := fun x => by rw [Bool.eq_iff_iff, h.hasLinks, h.exists_iff, hpool.hasLinks]
  nodup := h.nodup
  both := fun p c => by rw [h.parentLink, h.childLink, hpool.both]
  acyclic := by
    refine acyclic_addSink h.childLink (fun y hlink => ?_) (fun hparent => ?_) hpool.acyclic
    · have hexists := (hpool.exists_of_childLink hlink).1
      simp [hadd.fresh] at hexists
    · exact absurd hparent.1 (by simp [hadd.fresh])
  nextTx_sound := fun {outpoint next} hnext => by
    rw [h.mapNextTx] at hnext
    by_cases hmine : ∃ input ∈ entry.tx.vin.zipIdx, input.1.prevout = outpoint
    · obtain ⟨input, hin, hsame, hlookup⟩ := lookup_markInputs_of_mem entry.tx _ pool.mapNextTx
        hmine
      cases hlookup.symm.trans hnext
      obtain ⟨entry', hentry', hcore, -⟩ := h.newEntry
      refine (Bool.and_eq_true _ _).mpr ⟨?_, ?_⟩
      · simp [hentry', any_some, tx_of_core hcore, tx_withFeeDelta]
      · simp [mem_zipIdx_iff_getElem?.mp hin, map_some, hsame]
    · rw [lookup_markInputs_of_not_mem _ fun input hin heq => hmine ⟨input, hin, heq⟩] at hnext
      obtain ⟨hentry, hinput⟩ := (Bool.and_eq_true _ _).mp (hpool.nextTx_sound hnext)
      obtain ⟨known, hknown, htx⟩ := (any_eq_true _ _).mp hentry
      obtain ⟨known', hknown', hcore, -⟩ := h.entries hknown
      refine (Bool.and_eq_true _ _).mpr ⟨?_, hinput⟩
      rwa [hknown', any_some, tx_of_core hcore]
  nextTx_complete := fun {x found} hfound txin hin => by
    rw [h.mapNextTx]
    rcases h.of_lookup hfound with ⟨rfl, hcore⟩ | ⟨known, hknown, hcore⟩
    · rw [tx_of_core hcore, tx_withFeeDelta] at hin ⊢
      obtain ⟨i, hi⟩ := getElem?_of_mem hin
      obtain ⟨input, -, -, hlookup⟩ := lookup_markInputs_of_mem entry.tx _ pool.mapNextTx
        ⟨(txin, i), mem_zipIdx_iff_getElem?.mpr hi, rfl⟩
      exact ⟨_, hlookup, rfl⟩
    · rw [tx_of_core hcore] at hin ⊢
      obtain ⟨next, hnext, hptx⟩ := hpool.nextTx_complete hknown txin hin
      refine ⟨next, ?_, hptx⟩
      rw [lookup_markInputs_of_not_mem, hnext]
      intro input hinput hsame
      have hvin : input.1 ∈ entry.tx.vin :=
        mem_of_getElem? (mem_zipIdx_iff_getElem?.mp hinput)
      have hnone := hadd.unspent _ hvin
      rw [hsame, hnext] at hnone
      simp at hnone
  deltas := fun {x found} hfound => by
    rw [h.mapDeltas]
    rcases h.of_lookup hfound with ⟨rfl, hcore⟩ | ⟨known, hknown, hcore⟩
    · rw [feeDelta_of_core hcore, feeDelta_withFeeDelta hnew]
    · simp [feeDelta_of_core hcore, hpool.deltas hknown]
  totalSize := h.totalSize

/-- The new entry is a descendant of itself and of its ancestors. -/
theorem mem_descendants_iff (hfresh : pool.existsTx entry.tx.hash = false)
    {x d : Uint256} (hx : pool.existsTx x) : d ∈ pool'.descendants x ↔ d ∈ pool.descendants x
      ∨ (d = entry.tx.hash
        ∧ ∃ p, pool.ParentOf entry.tx p ∧ ReflTransGen pool.ChildLink x p) := by
  have hnone : ∀ {y}, pool.existsTx y → y ≠ entry.tx.hash := by grind
  have hreach : ReflTransGen pool'.ChildLink x d ↔ ReflTransGen pool.ChildLink x d
      ∨ (d = entry.tx.hash ∧ ∃ p, pool.ParentOf entry.tx p ∧ ReflTransGen pool.ChildLink x p) :=
    reaches_addSink h.childLink (fun y hlink => hnone (hpool.exists_of_childLink hlink).1 rfl)
      fun hparent => hnone hparent.1 rfl
  have hexists : ReflTransGen pool.ChildLink x d → pool.existsTx d := by
    intro hold
    rcases ReflTransGen.cases_tail hold with rfl | ⟨c, -, hlink⟩
    · exact hx
    · exact (hpool.exists_of_childLink hlink).2
  rw [mem_descendants, mem_descendants, h.exists_iff, hreach]
  grind

theorem descendants_new (hfresh : pool.existsTx entry.tx.hash = false) :
    pool'.descendants entry.tx.hash = {entry.tx.hash} := by
  ext d
  rw [mem_descendants, Finset.mem_singleton]
  constructor
  · rintro ⟨-, hreach⟩
    rcases ReflTransGen.cases_head hreach with rfl | ⟨c, hlink, -⟩
    · rfl
    · rcases (h.childLink _ c).mp hlink with hold | ⟨-, hparent⟩
      · exact absurd (hpool.exists_of_childLink hold).1 (by simp [hfresh])
      · exact absurd hparent.1 (by simp [hfresh])
  · rintro rfl
    exact ⟨(h.exists_iff _).mpr (.inl rfl), .refl⟩

/-- **Exact totals outlive an addition** to the ancestors of the entry. -/
theorem exact (hnew : entry.New) (hfresh : pool.existsTx entry.tx.hash = false)
    (hancestors : ∀ x, x ∈ setAncestors
      ↔ ∃ p, pool.ParentOf entry.tx p ∧ ReflTransGen pool.ChildLink x p)
    (hexact : pool.Exact) : pool'.Exact := by
  intro x found hfound
  rcases (h.exists_iff x).mp (existsTx_iff.mpr ⟨found, hfound⟩) with rfl | hx
  · obtain ⟨entry', hentry', -, htally⟩ := h.newEntry
    cases hfound.symm.trans hentry'
    rw [h.descendants_new hpool hfresh, Finset.sum_singleton, h.weight_new]
    exact htally _ fun _ => totals_withFeeDelta hnew _
  · obtain ⟨known, hknown⟩ := existsTx_iff.mp hx
    obtain ⟨known', hknown', -, htally⟩ := h.entries hknown
    cases hfound.symm.trans hknown'
    have hsame : ∑ d ∈ pool.descendants x, pool'.weight d = ∑ d ∈ pool.descendants x, pool.weight d :=
      Finset.sum_congr rfl fun d hd => h.weight_eq (mem_descendants.mp hd).1
    have hsum : ∑ d ∈ pool'.descendants x, pool'.weight d = ∑ d ∈ pool.descendants x, pool.weight d
        + if x ∈ setAncestors then (pool.withFeeDelta entry.tx.hash entry).weight else 0 := by
      have hmem := fun d => @mem_descendants_iff _ _ _ _ h hpool hfresh x d hx
      rw [← hancestors x] at hmem
      split_ifs with hancestor
      · have hdescendants : pool'.descendants x = insert entry.tx.hash (pool.descendants x) := by
          ext d
          rw [hmem, Finset.mem_insert, and_iff_left hancestor, or_comm]
        have hoff : entry.tx.hash ∉ pool.descendants x := fun hmem =>
          absurd (mem_descendants.mp hmem).1 (by simp [hfresh])
        rw [hdescendants, Finset.sum_insert hoff, h.weight_new, hsame, add_comm]
      · have hdescendants : pool'.descendants x = pool.descendants x := by
          ext d
          rw [hmem, or_iff_left fun hnew => hancestor hnew.2]
        rw [hdescendants, hsame, add_zero]
    rw [hsum]
    exact htally _ (hexact hknown)

end

end Added

/-! ## `PrioritiseTransaction` -/

/-- `CTxMemPool::PrioritiseTransaction`, for the fee. -/
def prioritiseTransaction (pool : CTxMemPool) (hash : Uint256) (nFeeDelta : CAmount) : CTxMemPool :=
  let delta := (pool.mapDeltas.lookup hash).getD 0 + nFeeDelta
  let pool := { pool with mapDeltas := pool.mapDeltas.insert hash delta }
  if pool.existsTx hash then
    let pool := pool.modifyTx hash fun e => e.updateFeeDelta delta
    let setAncestors := pool.calculateMemPoolAncestors (pool.deref hash) noLimits false
    (setAncestors.toOption.getD []).foldl
      (fun pool ancestorIt => pool.modifyTx ancestorIt fun e => e.updateState 0 nFeeDelta 0) pool
  else pool

/-- The second pool has the transactions, inputs and links of the first one; the fees and totals of its
    entries may be others. -/
structure SameGraph (pool pool' : CTxMemPool) : Prop where
  mapLinks : pool'.mapLinks = pool.mapLinks
  mapNextTx : pool'.mapNextTx = pool.mapNextTx
  totalTxSize : pool'.totalTxSize = pool.totalTxSize
  txs : ∀ h, (pool'.mapTx.lookup h).map CTxMemPoolEntry.tx = (pool.mapTx.lookup h).map CTxMemPoolEntry.tx

namespace SameGraph

variable (h : SameGraph pool pool')

include h

theorem exists_eq (x : Uint256) : pool'.existsTx x = pool.existsTx x := by
  have htx := congrArg isSome (h.txs x)
  rwa [isSome_map, isSome_map] at htx

theorem of_lookup {x : Uint256} {entry' : CTxMemPoolEntry}
    (hentry' : pool'.mapTx.lookup x = some entry') :
    ∃ entry, pool.mapTx.lookup x = some entry ∧ entry.tx = entry'.tx := by
  have htx := h.txs x
  rw [hentry', map_some] at htx
  exact map_eq_some_iff.mp htx.symm

theorem lookup {x : Uint256} {entry : CTxMemPoolEntry} (hentry : pool.mapTx.lookup x = some entry) :
    ∃ entry', pool'.mapTx.lookup x = some entry' ∧ entry'.tx = entry.tx := by
  have htx := h.txs x
  rw [hentry, map_some] at htx
  exact map_eq_some_iff.mp htx

theorem childLink_eq : pool'.ChildLink = pool.ChildLink := childLink_of_mapLinks h.mapLinks

theorem descendants_eq (x : Uint256) : pool'.descendants x = pool.descendants x := by
  ext d
  simp [mem_descendants, h.exists_eq, h.childLink_eq]

theorem spends_iff {p c : Uint256} : pool'.Spends p c ↔ pool.Spends p c := by
  have hlookup := h.txs c
  rw [Spends, Spends, h.exists_eq]
  cases hold : pool.mapTx.lookup c <;> cases hnew : pool'.mapTx.lookup c <;> simp_all

theorem consistent (hpool : pool.Consistent)
    (hdeltas : ∀ {x entry'}, pool'.mapTx.lookup x = some entry' →
      entry'.feeDelta = (pool'.mapDeltas.lookup x).getD 0) : pool'.Consistent where
  keyed := fun {x entry'} hentry' => by
    obtain ⟨entry, hentry, htx⟩ := h.of_lookup hentry'
    rw [← htx]
    exact hpool.keyed hentry
  hasLinks := fun x => by
    rw [h.exists_eq, hasLinks_of_mapLinks h.mapLinks]
    exact hpool.hasLinks x
  nodup := nodupLinks_of_mapLinks h.mapLinks hpool.nodup
  both := fun p c => by
    rw [parentLink_of_mapLinks h.mapLinks, h.childLink_eq]
    exact hpool.both p c
  acyclic := fun x => by
    rw [h.childLink_eq]
    exact hpool.acyclic x
  nextTx_sound := fun {outpoint next} hnext => by
    rw [h.mapNextTx] at hnext
    obtain ⟨hentry, hinput⟩ := (Bool.and_eq_true _ _).mp (hpool.nextTx_sound hnext)
    obtain ⟨entry, hlookup, htx⟩ := (Option.any_eq_true _ _).mp hentry
    obtain ⟨entry', hentry', hsame⟩ := h.lookup hlookup
    refine (Bool.and_eq_true _ _).mpr ⟨?_, hinput⟩
    rw [hentry', Option.any_some, hsame]
    exact htx
  nextTx_complete := fun {x entry'} hentry' txin hin => by
    obtain ⟨entry, hentry, htx⟩ := h.of_lookup hentry'
    rw [h.mapNextTx, ← htx]
    exact hpool.nextTx_complete hentry txin (htx ▸ hin)
  deltas := hdeltas
  totalSize := by
    rw [TotalSize, h.totalTxSize, hpool.totalSize]
    refine congrArg UInt64.ofNat (total_congr fun x => ?_)
    have hsize := congrArg (Option.map CTransaction.serializeSize) (h.txs x)
    rw [Option.map_map, Option.map_map] at hsize
    exact hsize.symm

end SameGraph

theorem sameGraph_of_retallied {δ : Uint256 → Tally} (h : Retallied pool pool' δ)
    (hlinks : pool'.mapLinks = pool.mapLinks) (hrest : Framed pool pool') : SameGraph pool pool' where
  mapLinks := hlinks
  mapNextTx := hrest.mapNextTx
  totalTxSize := hrest.totalTxSize
  txs := fun x => by
    cases hx : pool.mapTx.lookup x with
    | none => rw [h.lookup_eq_none hx]
    | some entry =>
      obtain ⟨entry', hentry', hcore, -⟩ := h.entries hx
      rw [hentry', map_some, map_some, tx_of_core hcore]

section Prioritise

variable {hash : Uint256} {nFeeDelta : CAmount}

/-- The amount by which the totals change. -/
def feeTally (nFeeDelta : CAmount) : Tally := (0, 0, nFeeDelta.toBitVec)

theorem mapDeltas_prioritiseTransaction : (pool.prioritiseTransaction hash nFeeDelta).mapDeltas
    = pool.mapDeltas.insert hash ((pool.mapDeltas.lookup hash).getD 0 + nFeeDelta) := by
  simp only [prioritiseTransaction, ]
  split_ifs
  · exact foldl_keeps (g := CTxMemPool.mapDeltas) (fun _ _ => by rfl) _ _
  · rfl

theorem prioritiseTransaction_of_not_exists (h : ¬ pool.existsTx hash) :
    pool.prioritiseTransaction hash nFeeDelta
      = { pool with mapDeltas :=
            pool.mapDeltas.insert hash ((pool.mapDeltas.lookup hash).getD 0 + nFeeDelta) } :=
  if_neg h

/-- The pool before the ancestors are updated. -/
def bumpFee (pool : CTxMemPool) (hash : Uint256) (nFeeDelta : CAmount) : CTxMemPool :=
  let delta := (pool.mapDeltas.lookup hash).getD 0 + nFeeDelta
  modifyTx { pool with mapDeltas := pool.mapDeltas.insert hash delta } hash
    fun e => e.updateFeeDelta delta

theorem existsTx_bumpFee (x : Uint256) : (pool.bumpFee hash nFeeDelta).existsTx x = pool.existsTx x :=
  existsTx_modifyTx { pool with mapDeltas := _ } hash _ x

theorem lookup_bumpFee (hpool : pool.Consistent) {entry : CTxMemPoolEntry}
    (hentry : pool.mapTx.lookup hash = some entry) (x : Uint256) :
    (pool.bumpFee hash nFeeDelta).mapTx.lookup x
      = if x = hash then some (entry.updateFeeDelta (entry.feeDelta + nFeeDelta))
        else pool.mapTx.lookup x := by
  show (modify pool.mapTx hash _).lookup x = _
  rw [lookup_modify, hentry, hpool.deltas hentry]
  rfl

theorem add_sub_feeDelta (entry : CTxMemPoolEntry) (nFeeDelta : CAmount) :
    entry.feeDelta + nFeeDelta - entry.feeDelta = nFeeDelta := by
  simp [Int64.add_comm]

/-- The loop over the ancestors, which are those of the entry. -/
theorem prioritiseTransaction_eq (nFeeDelta : CAmount) (hpool : pool.Consistent)
    (hexists : pool.existsTx hash) :
    ∃ setAncestors : SetEntries, setAncestors.Nodup
      ∧ (∀ x, x ∈ setAncestors ↔ TransGen pool.ChildLink x hash)
      ∧ pool.prioritiseTransaction hash nFeeDelta = setAncestors.foldl
        (fun pool ancestorIt => pool.modifyTx ancestorIt fun e => e.updateState 0 nFeeDelta 0)
        (pool.bumpFee hash nFeeDelta) := by
  obtain ⟨entry, hentry⟩ := existsTx_iff.mp hexists
  have hlookup : (pool.bumpFee hash nFeeDelta).mapTx.lookup hash
      = some (entry.updateFeeDelta (entry.feeDelta + nFeeDelta)) := by
    simp [lookup_bumpFee hpool hentry]
  have hhash : ((pool.bumpFee hash nFeeDelta).deref hash).tx.hash = hash := by
    have hkeyed : entry.tx.hash = hash := hpool.keyed hentry
    rwa [deref_of_lookup hlookup]
  have hparents : (pool.bumpFee hash nFeeDelta).ParentsExist := by
    intro c hc p hp
    rw [existsTx_bumpFee] at hc ⊢
    exact hpool.parentsExist c hc p hp
  have hnodupLinks : (pool.bumpFee hash nFeeDelta).NodupLinks := hpool.nodup
  obtain ⟨setAncestors, hcalc, hnodup, hmem⟩ := calculateMemPoolAncestors_noLimits hparents
    hnodupLinks ((pool.bumpFee hash nFeeDelta).deref hash) (by rw [hhash, existsTx_bumpFee, hexists])
  have hlinks : (pool.bumpFee hash nFeeDelta).ParentLink = pool.ChildLink := hpool.parentLink_eq
  rw [hhash, hlinks] at hmem
  refine ⟨setAncestors, hnodup, hmem, ?_⟩
  show (if pool.existsTx hash then _ else _) = _
  rw [if_pos hexists]
  show (((pool.bumpFee hash nFeeDelta).calculateMemPoolAncestors
    ((pool.bumpFee hash nFeeDelta).deref hash) noLimits false).toOption.getD []).foldl _ _ = _
  rw [hcalc]
  rfl

open Classical in
section
variable (hpool : pool.Consistent)
include hpool

theorem lookup_prioritiseTransaction (hexists : pool.existsTx hash)
    {x : Uint256} {entry' : CTxMemPoolEntry}
    (hentry' : (pool.prioritiseTransaction hash nFeeDelta).mapTx.lookup x = some entry') :
    ∃ entry, pool.mapTx.lookup x = some entry
      ∧ entry'.tx = entry.tx
      ∧ entry'.feeDelta = (if x = hash then entry.feeDelta + nFeeDelta else entry.feeDelta)
      ∧ entry'.weight = entry.weight + (if x = hash then feeTally nFeeDelta else 0)
      ∧ ∀ t, entry.Tallies t → entry'.Tallies
        (t + if ReflTransGen pool.ChildLink x hash then feeTally nFeeDelta else 0) := by
  obtain ⟨setAncestors, hnodup, hmem, heq⟩ := prioritiseTransaction_eq nFeeDelta hpool hexists
  obtain ⟨entry, hentry⟩ := existsTx_iff.mp hexists
  rw [heq] at hentry'
  obtain ⟨found, hfound, hcore, htally⟩ :=
    (retallied_foldl_modifyTx 0 nFeeDelta 0 setAncestors hnodup).of_lookup hentry'
  rw [tx_of_core hcore, feeDelta_of_core hcore, weight_of_core hcore]
  rw [lookup_bumpFee hpool hentry] at hfound
  split_ifs at hfound with hx
  · subst hx
    cases hfound
    refine ⟨entry, hentry, rfl, by rw [if_pos rfl]; rfl, ?_, fun t ht => ?_⟩
    · rw [if_pos rfl, weight_updateFeeDelta, add_sub_feeDelta]
      rfl
    · have hself : x ∉ setAncestors := fun hin => hpool.acyclic x ((hmem x).mp hin)
      have hafter := htally (t + feeTally nFeeDelta) fun hclean => by
        rw [totals_updateFeeDelta, add_sub_feeDelta, ht hclean]
        rfl
      rw [if_neg hself, add_zero] at hafter
      rwa [if_pos .refl]
  · refine ⟨found, hfound, rfl, by rw [if_neg hx], by rw [if_neg hx, add_zero], fun t ht => ?_⟩
    have hiff : x ∈ setAncestors ↔ ReflTransGen pool.ChildLink x hash := by
      rw [hmem, reflTransGen_iff_eq_or_transGen]
      exact (or_iff_right fun heq : hash = x => hx heq.symm).symm
    have hafter := htally t ht
    simp only [hiff] at hafter
    exact hafter

theorem sameGraph_prioritiseTransaction :
    SameGraph pool (pool.prioritiseTransaction hash nFeeDelta) := by
  by_cases hexists : pool.existsTx hash
  · obtain ⟨setAncestors, -, -, heq⟩ := prioritiseTransaction_eq nFeeDelta hpool hexists
    have hkeep : ∀ {β : Type} (g : CTxMemPool → β),
        (∀ s it f, g (modifyTx s it f) = g s) →
        g (pool.prioritiseTransaction hash nFeeDelta) = g (pool.bumpFee hash nFeeDelta) := by
      intro β g hg
      rw [heq]
      exact foldl_keeps (g := g) (fun s it => hg s it _) _ _
    refine ⟨hkeep mapLinks fun _ _ _ => rfl, hkeep mapNextTx fun _ _ _ => rfl,
      hkeep totalTxSize fun _ _ _ => rfl, fun x => ?_⟩
    cases hx : (pool.prioritiseTransaction hash nFeeDelta).mapTx.lookup x with
    | some entry' =>
      obtain ⟨entry, hentry, htx, -⟩ := lookup_prioritiseTransaction hpool hexists hx
      simp [hentry, map_some, htx]
    | none =>
      have hout := hkeep (fun s => s.existsTx x) fun s it f => s.existsTx_modifyTx it f x
      simp only [existsTx_bumpFee] at hout
      rw [existsTx, hx] at hout
      have hnone : pool.mapTx.lookup x = none :=
        not_isSome_iff_eq_none.mp (by rw [← existsTx, ← hout]; simp)
      rw [hnone]
  · rw [prioritiseTransaction_of_not_exists hexists]
    exact ⟨rfl, rfl, rfl, fun _ => rfl⟩

/-- **What the pool keeps track of outlives `PrioritiseTransaction`.** -/
theorem Consistent.prioritiseTransaction :
    (pool.prioritiseTransaction hash nFeeDelta).Consistent := by
  refine (sameGraph_prioritiseTransaction hpool).consistent hpool fun {x entry'} hentry' => ?_
  rw [mapDeltas_prioritiseTransaction, lookup_insert_eq_ite]
  by_cases hexists : pool.existsTx hash
  · obtain ⟨entry, hentry, -, hfee, -⟩ := lookup_prioritiseTransaction hpool hexists hentry'
    grind [hpool.deltas hentry]
  · rw [prioritiseTransaction_of_not_exists hexists] at hentry'
    grind [existsTx_iff, hpool.deltas hentry']

theorem weight_prioritiseTransaction (hexists : pool.existsTx hash)
    {d : Uint256} (hd : pool.existsTx d) : (pool.prioritiseTransaction hash nFeeDelta).weight d
      = pool.weight d + if d = hash then feeTally nFeeDelta else 0 := by
  rw [← (sameGraph_prioritiseTransaction hpool).exists_eq] at hd
  obtain ⟨entry', hentry'⟩ := existsTx_iff.mp hd
  obtain ⟨entry, hentry, -, -, hweight, -⟩ := lookup_prioritiseTransaction hpool hexists hentry'
  rw [weight, weight, deref_of_lookup hentry', deref_of_lookup hentry, hweight]

/-- **Exact totals outlive `PrioritiseTransaction`.** -/
theorem Exact.prioritiseTransaction (hexact : pool.Exact) :
    (pool.prioritiseTransaction hash nFeeDelta).Exact := by
  intro x entry' hentry'
  rw [(sameGraph_prioritiseTransaction hpool).descendants_eq]
  by_cases hexists : pool.existsTx hash
  · classical
    obtain ⟨entry, hentry, -, -, -, htally⟩ := lookup_prioritiseTransaction hpool hexists hentry'
    have hsum : ∑ d ∈ pool.descendants x, (pool.prioritiseTransaction hash nFeeDelta).weight d
        = ∑ d ∈ pool.descendants x, pool.weight d
          + if ReflTransGen pool.ChildLink x hash then feeTally nFeeDelta else 0 := by
      rw [Finset.sum_congr rfl fun d hd =>
        weight_prioritiseTransaction hpool hexists (mem_descendants.mp hd).1, Finset.sum_add_distrib,
        Finset.sum_ite_eq']
      simp only [mem_descendants, hexists, true_and]
    rw [hsum]
    exact htally _ (hexact hentry)
  · rw [prioritiseTransaction_of_not_exists hexists] at hentry' ⊢
    exact hexact hentry'

end

end Prioritise

end CTxMemPool

end Binarium
