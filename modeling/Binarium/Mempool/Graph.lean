import Binarium.Lib.Checks
import Binarium.Mempool.Pool

set_option autoImplicit false

/-! # The graph of the memory pool

An entry spends an output of another entry: that relation (`CTxMemPool.Spends`) is what the links of
the pool stand for. `CTxMemPool::check` asserts that they do, and that `mapNextTx` holds the inputs of
the entries and nothing else; a pool that passes (`checkLinks`) is `Linked`. In such a pool the walks
of `CalculateDescendants` and `CalculateMemPoolAncestors` find all descendants and all ancestors.

The pool is in such a state whenever `AcceptToMemoryPool` looks for transactions to replace. Only
between `addUnchecked` and `UpdateTransactionsFromBlock`, while transactions of disconnected blocks
come back, links to children may be missing. -/

namespace Binarium

open Closure Checks List

namespace CTxMemPool

/-! ## `CTxMemPool::check` -/

/-- `==` of two sets. -/
def sameSet (s t : SetEntries) : Bool := s.all (fun h => h ∈ t) && t.all (fun h => h ∈ s)

theorem mem_iff_of_sameSet {s t : SetEntries} (h : sameSet s t) (x : Uint256) : x ∈ s ↔ x ∈ t := by
  simp only [sameSet, Bool.and_eq_true, all_eq_true, decide_eq_true_eq] at h
  exact ⟨h.1 x, h.2 x⟩

/-- `setParentCheck`. -/
def parentCheck (pool : CTxMemPool) (tx : CTransaction) : SetEntries :=
  (tx.vin.map fun txin => txin.prevout.hash).filter pool.existsTx

/-- `setChildrenCheck`. -/
def childrenCheck (pool : CTxMemPool) (it : Uint256) : SetEntries :=
  (pool.mapNextTx.entries.filter fun next => decide (next.1.hash = it)).map
    fun next => next.2.ptx.hash

/-- An input is marked in `mapNextTx`. -/
def checkInput (pool : CTxMemPool) (tx : CTransaction) (input : CTxIn × ℕ) : Bool :=
  (pool.mapNextTx.lookup input.1.prevout).any fun next => decide (next.ptx = tx ∧ next.n = input.2)

/-- The assertions on the links of one entry, which `mapTx` finds under its hash. -/
def checkEntry (pool : CTxMemPool) (it : Uint256) (entry : CTxMemPoolEntry) : Bool :=
  decide (entry.tx.hash = it) && (pool.mapLinks.lookup it).isSome
    && entry.tx.vin.zipIdx.all (pool.checkInput entry.tx)
    && sameSet (pool.parentCheck entry.tx) (pool.getMemPoolParents it)
    && sameSet (pool.childrenCheck it) (pool.getMemPoolChildren it)

/-- The assertions on one element of `mapNextTx`. -/
def checkNext (pool : CTxMemPool) (outpoint : COutPoint) (next : CInPoint) : Bool :=
  (pool.mapTx.lookup next.ptx.hash).any (fun entry => decide (entry.tx = next.ptx))
    && decide (next.ptx.vin[next.n]?.map CTxIn.prevout = some outpoint)

/-- The assertions of `CTxMemPool::check` on `mapLinks` and `mapNextTx`. -/
def checkLinks (pool : CTxMemPool) : Bool :=
  Maps.forAll pool.mapTx pool.checkEntry && Maps.forAll pool.mapNextTx pool.checkNext

/-! ## The relation of the entries -/

/-- The entry `c` spends an output of the entry `h`. -/
def Spends (pool : CTxMemPool) (h c : Uint256) : Prop :=
  pool.existsTx h = true
    ∧ ∃ entry, pool.mapTx.lookup c = some entry ∧ ∃ txin ∈ entry.tx.vin, txin.prevout.hash = h

/-- A transaction of the pool spends the outpoint. -/
def SpentBy (pool : CTxMemPool) (outpoint : COutPoint) (h : Uint256) : Prop :=
  ∃ entry, pool.mapTx.lookup h = some entry ∧ ∃ txin ∈ entry.tx.vin, txin.prevout = outpoint

/-- `mapNextTx` and `mapLinks` say what the entries spend. -/
structure Linked (pool : CTxMemPool) : Prop where
  keyed : ∀ {h entry}, pool.mapTx.lookup h = some entry → entry.tx.hash = h
  spentBy : ∀ outpoint h, pool.SpentBy outpoint h ↔
    ∃ next, pool.mapNextTx.lookup outpoint = some next ∧ next.ptx.hash = h
  parents : ∀ c, pool.existsTx c = true → ∀ h, h ∈ pool.getMemPoolParents c ↔ pool.Spends h c
  children : ∀ h, pool.existsTx h = true → ∀ c, c ∈ pool.getMemPoolChildren h ↔ pool.Spends h c

variable {h : Uint256} {entry : CTxMemPoolEntry}

section

variable {pool : CTxMemPool}

theorem existsTx_iff : pool.existsTx h ↔ ∃ entry, pool.mapTx.lookup h = some entry :=
  Option.isSome_iff_exists

theorem mem_keys_iff : h ∈ pool.mapTx.keys.toFinset ↔ pool.existsTx h := by
  rw [mem_toFinset]
  exact Maps.mem_keys_iff_isSome pool.mapTx h

theorem Spends.exists_child {c : Uint256} (hs : pool.Spends h c) : pool.existsTx c := by
  obtain ⟨-, entry, hentry, -⟩ := hs
  exact existsTx_iff.mpr ⟨entry, hentry⟩

theorem spentBy_of_checkNext {outpoint : COutPoint} {next : CInPoint}
    (h : pool.checkNext outpoint next) : pool.SpentBy outpoint next.ptx.hash := by
  simp only [checkNext, Bool.and_eq_true, Option.any_eq_true, Option.map_eq_some_iff,
    decide_eq_true_eq] at h
  obtain ⟨⟨entry, hlookup, htx⟩, txin, hin, hprevout⟩ := h
  exact ⟨entry, hlookup, txin, htx ▸ mem_of_getElem? hin, hprevout⟩

theorem checkEntry_spec {it : Uint256} (h : pool.checkEntry it entry) : entry.tx.hash = it
      ∧ (∀ txin ∈ entry.tx.vin, ∃ next, pool.mapNextTx.lookup txin.prevout = some next
          ∧ next.ptx = entry.tx)
      ∧ (∀ p, p ∈ pool.parentCheck entry.tx ↔ p ∈ pool.getMemPoolParents it)
      ∧ ∀ c, c ∈ pool.childrenCheck it ↔ c ∈ pool.getMemPoolChildren it := by
  simp only [checkEntry, checkInput, Bool.and_eq_true, decide_eq_true_eq, all_eq_true,
    Option.any_eq_true] at h
  obtain ⟨⟨⟨⟨hhash, -⟩, hinputs⟩, hparents⟩, hchildren⟩ := h
  refine ⟨hhash, fun txin hin => ?_, mem_iff_of_sameSet hparents, mem_iff_of_sameSet hchildren⟩
  obtain ⟨i, hi⟩ := getElem?_of_mem hin
  obtain ⟨next, hnext, hsame, -⟩ := hinputs (txin, i) (mem_zipIdx_iff_getElem?.mpr hi)
  exact ⟨next, hnext, hsame⟩

theorem mem_parentCheck {c p : Uint256} (hentry : pool.mapTx.lookup c = some entry) :
    p ∈ pool.parentCheck entry.tx ↔ pool.Spends p c := by
  simp [parentCheck, Spends, hentry, and_comm]

theorem mem_childrenCheck {c : Uint256} :
    c ∈ pool.childrenCheck h ↔ ∃ outpoint next, pool.mapNextTx.lookup outpoint = some next
      ∧ outpoint.hash = h ∧ next.ptx.hash = c := by
  simp [childrenCheck, ← Maps.mem_lookup_iff_mem_entries, and_assoc]

/-- **A pool that passes `CTxMemPool::check` is linked.** -/
theorem linked_of_checkLinks (h : pool.checkLinks) : pool.Linked := by
  obtain ⟨hentries, hnexts⟩ := (Bool.and_eq_true _ _).mp h
  rw [Maps.forAll_iff] at hentries hnexts
  have hspec := fun h entry hentry => checkEntry_spec (hentries h entry hentry)
  have hspent : ∀ outpoint h, pool.SpentBy outpoint h ↔
      ∃ next, pool.mapNextTx.lookup outpoint = some next ∧ next.ptx.hash = h := by
    intro outpoint h
    constructor
    · rintro ⟨entry, hentry, txin, hin, rfl⟩
      obtain ⟨next, hnext, hptx⟩ := (hspec h entry hentry).2.1 txin hin
      exact ⟨next, hnext, hptx ▸ (hspec h entry hentry).1⟩
    · rintro ⟨next, hnext, rfl⟩
      exact spentBy_of_checkNext (hnexts outpoint next hnext)
  refine ⟨fun hentry => (hspec _ _ hentry).1, hspent, fun c hc p => ?_, fun p hp c => ?_⟩
  · obtain ⟨entry, hentry⟩ := existsTx_iff.mp hc
    rw [← (hspec c entry hentry).2.2.1, mem_parentCheck hentry]
  · obtain ⟨entry, hentry⟩ := existsTx_iff.mp hp
    rw [← (hspec p entry hentry).2.2.2, mem_childrenCheck]
    constructor
    · rintro ⟨outpoint, next, hnext, hhash, rfl⟩
      obtain ⟨child, hchild, txin, hin, rfl⟩ := (hspent outpoint _).mpr ⟨next, hnext, rfl⟩
      exact ⟨hp, child, hchild, txin, hin, hhash⟩
    · rintro ⟨-, child, hchild, txin, hin, hhash⟩
      obtain ⟨next, hnext, hptx⟩ := (hspent txin.prevout c).mp ⟨child, hchild, txin, hin, rfl⟩
      exact ⟨txin.prevout, next, hnext, hhash, hptx⟩

end

/-! ## Descendants -/

section Walks

variable {pool : CTxMemPool}

/-- The links to children lead to entries. -/
def ChildrenExist (pool : CTxMemPool) : Prop :=
  ∀ x, pool.existsTx x = true → ∀ y ∈ pool.getMemPoolChildren x, pool.existsTx y = true

/-- The links to parents lead to entries. -/
def ParentsExist (pool : CTxMemPool) : Prop :=
  ∀ x, pool.existsTx x = true → ∀ y ∈ pool.getMemPoolParents x, pool.existsTx y = true

theorem Linked.childrenExist (hpool : pool.Linked) : pool.ChildrenExist :=
  fun x hx y hy => ((hpool.children x hx y).mp hy).exists_child

theorem Linked.parentsExist (hpool : pool.Linked) : pool.ParentsExist :=
  fun x hx y hy => ((hpool.parents x hx y).mp hy).1

variable {roots setAncestors : SetEntries} {limits : AncestorLimits}

theorem stage_eq_nil_of_full {next : Uint256 → SetEntries} {stage found : SetEntries}
    (hnext : ∀ x, pool.existsTx x → ∀ y ∈ next x, pool.existsTx y)
    (hroots : ∀ root ∈ roots, pool.existsTx root) (h : Walking next roots stage found)
    (hfull : pool.mapTx.keys.length ≤ found.length) : stage = [] := by
  have hcard : pool.mapTx.keys.toFinset.card = pool.mapTx.keys.length :=
    toFinset_card_of_nodup pool.mapTx.nodupKeys
  refine h.stage_eq_nil (fun root hroot => mem_keys_iff.mpr (hroots root hroot)) ?_ (hcard ▸ hfull)
  exact fun x hx y hy => mem_keys_iff.mpr (hnext x (mem_keys_iff.mp hx) y hy)

theorem walkDescendants_walking (hpool : pool.ChildrenExist)
    (hroots : ∀ root ∈ roots, pool.existsTx root) :
    ∀ {rounds : ℕ} {stage found : SetEntries},
    Walking pool.getMemPoolChildren roots stage found →
    pool.mapTx.keys.length ≤ rounds + found.length →
    Walking pool.getMemPoolChildren roots [] (pool.walkDescendants rounds stage found) := by
  intro rounds
  induction rounds with
  | zero => exact fun h hrounds => stage_eq_nil_of_full hpool hroots h (by omega) ▸ h
  | succ rounds ih =>
    intro stage found h hrounds
    cases stage with
    | nil => exact h
    | cons it stage =>
      have hfresh : it ∉ found := h.disjoint it (by simp)
      refine ih h.visit ?_
      rw [length_insertSet hashOrder hfresh]
      omega

/-- **`CalculateDescendants` finishes its walk.** -/
theorem calculateDescendants_walking (hpool : pool.ChildrenExist) {found : SetEntries}
    {it : Uint256} (hroots : ∀ root ∈ it :: roots, pool.existsTx root)
    (h : Walking pool.getMemPoolChildren roots [] found) :
    Walking pool.getMemPoolChildren (it :: roots) [] (pool.calculateDescendants it found) :=
  walkDescendants_walking hpool hroots h.addRoot (Nat.le_add_right _ _)

theorem foldl_calculateDescendants_walking (hpool : pool.ChildrenExist) :
    ∀ {its roots found : SetEntries}, (∀ root ∈ its ++ roots, pool.existsTx root) →
    Walking pool.getMemPoolChildren roots [] found →
    Walking pool.getMemPoolChildren (its.reverse ++ roots) []
      (its.foldl (fun found it => pool.calculateDescendants it found) found) := by
  intro its
  induction its with
  | nil => exact fun _ h => h
  | cons it rest ih =>
    intro roots found hroots h
    rw [foldl_cons, reverse_cons, append_assoc]
    have hmore : ∀ root ∈ rest ++ it :: roots, pool.existsTx root := by
      simp_all [or_imp]
    exact ih hmore (calculateDescendants_walking hpool
      (fun root hroot => hmore root (mem_append_right _ hroot)) h)

theorem reached_children_iff (hpool : pool.Linked)
    (hroots : ∀ root ∈ roots, pool.existsTx root) (h : Uint256) :
    Reached pool.getMemPoolChildren roots h ↔
      ∃ root ∈ roots, Relation.ReflTransGen pool.Spends root h := by
  constructor
  · rintro ⟨root, hroot, hreach⟩
    have hstep : pool.existsTx h ∧ Relation.ReflTransGen pool.Spends root h := by
      induction hreach with
      | refl => exact ⟨hroots root hroot, .refl⟩
      | tail _ hlink ih =>
        have hspends := (hpool.children _ ih.1 _).mp hlink
        exact ⟨hspends.exists_child, ih.2.tail hspends⟩
    exact ⟨root, hroot, hstep.2⟩
  · rintro ⟨root, hroot, hreach⟩
    refine ⟨root, hroot, Relation.ReflTransGen.mono (fun x y hspends => ?_) _ _ hreach⟩
    exact (hpool.children x hspends.1 y).mpr hspends

/-! ## Ancestors -/

/-- The loop over the parents, if no limit stops it, stages the new ones. -/
theorem stageParents_eq {staged : SetEntries} :
    ∀ {parents parentHashes : SetEntries},
    stageParents limits setAncestors parents parentHashes = .ok staged →
    staged = stageNew hashOrder setAncestors parentHashes parents := by
  intro parents
  induction parents with
  | nil => exact fun h => (Except.ok.inj h).symm
  | cons phash rest ih =>
    intro parentHashes h
    simp only [stageParents] at h
    rw [stageNew_cons]
    split_ifs at h ⊢
    · exact ih h
    · exact ih h

theorem walkAncestors_walking (hpool : pool.ParentsExist)
    (hroots : ∀ root ∈ roots, pool.existsTx root) :
    ∀ {rounds : ℕ} {total : UInt64} {stage found : SetEntries},
    Walking pool.getMemPoolParents roots stage found →
    pool.mapTx.keys.length ≤ rounds + found.length →
    pool.walkAncestors limits entry rounds total stage found = .ok setAncestors →
    Walking pool.getMemPoolParents roots [] setAncestors := by
  intro rounds
  induction rounds with
  | zero =>
    intro total stage found h hrounds hok
    obtain rfl : stage = [] := stage_eq_nil_of_full hpool hroots h (by omega)
    cases hok
    exact h
  | succ rounds ih =>
    intro total stage found h hrounds hok
    cases stage with
    | nil =>
      cases hok
      exact h
    | cons it stage =>
      have hfresh : it ∉ found := h.disjoint it (by simp)
      obtain ⟨_, -, hrest⟩ := bind_eq_ok_iff.mp hok
      obtain ⟨staged, hstaged, hwalk⟩ := bind_eq_ok_iff.mp hrest
      refine ih h.visit ?_ (stageParents_eq hstaged ▸ hwalk)
      rw [length_insertSet hashOrder hfresh]
      omega

theorem searchParents_spec {vin : List CTxIn} {parents : SetEntries} :
    ∀ {parentHashes : SetEntries}, parentHashes.Nodup →
    pool.searchParents limits vin parentHashes = .ok parents →
    parents.Nodup ∧ ∀ h, h ∈ parents ↔
      h ∈ parentHashes ∨ (pool.existsTx h ∧ ∃ txin ∈ vin, txin.prevout.hash = h) := by
  induction vin with
  | nil =>
    intro parentHashes hnodup h
    cases h
    exact ⟨hnodup, by simp⟩
  | cons txin rest ih =>
    intro parentHashes hnodup h
    simp only [searchParents] at h
    split_ifs at h
    · obtain ⟨hparents, hmem⟩ := ih (nodup_insertSet hashOrder hnodup) h
      exact ⟨hparents, fun x => by grind [mem_insertSet]⟩
    · obtain ⟨hparents, hmem⟩ := ih hnodup h
      exact ⟨hparents, fun x => by grind⟩

/-- **`CalculateMemPoolAncestors`, if no limit stops it, finds every entry that the transaction
    descends from.** -/
theorem mem_calculateMemPoolAncestors (hpool : pool.Linked)
    (hok : pool.calculateMemPoolAncestors entry limits true = .ok setAncestors) {p : Uint256}
    (hp : pool.existsTx p) (hspends : ∃ txin ∈ entry.tx.vin, txin.prevout.hash = p)
    (hreach : Relation.ReflTransGen pool.Spends h p) : h ∈ setAncestors := by
  obtain ⟨parents, hparents, hwalk⟩ := bind_eq_ok_iff.mp hok
  obtain ⟨hnodup, hmem⟩ := searchParents_spec nodup_nil hparents
  simp only [not_mem_nil, false_or] at hmem
  have hdone := walkAncestors_walking hpool.parentsExist (fun root hroot => ((hmem root).mp hroot).1)
    (Walking.ofStage hnodup) (by simp) hwalk
  refine (hdone.mem_iff h).mpr ⟨p, (hmem p).mpr ⟨hp, hspends⟩, ?_⟩
  -- the links to parents go the other way
  refine Relation.ReflTransGen.mono (fun x y hxy => ?_) _ _ (Relation.ReflTransGen.swap _ _ hreach)
  exact (hpool.parents x (Spends.exists_child hxy) y).mpr hxy

end Walks

end CTxMemPool

end Binarium
