import Binarium.Mempool.Links
import Mathlib.Data.BitVec

set_option autoImplicit false

/-! # Totals with descendants

Every entry counts for one transaction, its size and its modified fee, and it carries the totals of
itself and its descendants in three 64-bit numbers. `UpdateState` adds to them without a look at the
graph, and leaves the totals of a dirty entry alone. `Retallied` is what a loop of such updates does to
the whole pool: nothing but the totals changes, and those by a known amount. -/

namespace Binarium

open Closure Descent Relation CTxMemPoolEntry

/-- A number of transactions, their size and their modified fees, in 64 bits each. -/
abbrev Tally := BitVec 64 × BitVec 64 × BitVec 64

namespace CTxMemPoolEntry

/-- What the entry itself counts for. -/
def weight (entry : CTxMemPoolEntry) : Tally :=
  (1, BitVec.ofNat 64 entry.getTxSize, entry.getModifiedFee.toBitVec)

/-- The totals that the entry carries. -/
def totals (entry : CTxMemPoolEntry) : Tally :=
  (entry.nCountWithDescendants.toBitVec, entry.nSizeWithDescendants.toBitVec,
    entry.nModFeesWithDescendants.toBitVec)

/-- The entry without its totals. -/
def core (entry : CTxMemPoolEntry) : CTxMemPoolEntry :=
  { entry with nCountWithDescendants := 0, nSizeWithDescendants := 0, nModFeesWithDescendants := 0 }

/-- These are the totals of the entry, unless it is dirty. -/
def Tallies (entry : CTxMemPoolEntry) (t : Tally) : Prop := entry.isDirty = false → entry.totals = t

variable {entry entry' : CTxMemPoolEntry}

theorem tx_of_core (h : entry'.core = entry.core) : entry'.tx = entry.tx := by
  show entry'.core.tx = entry.core.tx
  rw [h]

theorem feeDelta_of_core (h : entry'.core = entry.core) : entry'.feeDelta = entry.feeDelta := by
  show entry'.core.feeDelta = entry.core.feeDelta
  rw [h]

theorem weight_of_core (h : entry'.core = entry.core) : entry'.weight = entry.weight := by
  show entry'.core.weight = entry.core.weight
  rw [h]

theorem core_updateState (entry : CTxMemPoolEntry) (modifySize : Int64) (modifyFee : CAmount)
    (modifyCount : Int64) : (entry.updateState modifySize modifyFee modifyCount).core = entry.core := by
  unfold updateState
  split_ifs <;> rfl

/-- The change of the totals that the arguments of `UpdateState` stand for. -/
def change (modifySize : Int64) (modifyFee : CAmount) (modifyCount : Int64) : Tally :=
  (modifyCount.toBitVec, modifySize.toBitVec, modifyFee.toBitVec)

/-- **`UpdateState` adds to the totals.** -/
theorem tallies_updateState {t : Tally} (h : entry.Tallies t) (modifySize : Int64) (modifyFee : CAmount)
    (modifyCount : Int64) : (entry.updateState modifySize modifyFee modifyCount).Tallies
      (t + change modifySize modifyFee modifyCount) := by
  unfold updateState
  split_ifs with hdirty
  · exact fun hclean => absurd hdirty (by simp [hclean])
  · intro _
    rw [← h (by simpa using hdirty)]
    rfl

theorem change_add (entry : CTxMemPoolEntry) :
    change (1 * Int64.ofNat entry.getTxSize) (1 * entry.getModifiedFee) 1 = entry.weight := by
  rw [Int64.one_mul, Int64.one_mul]
  rfl

theorem change_remove (entry : CTxMemPoolEntry) :
    change (-1 * Int64.ofNat entry.getTxSize) (-1 * entry.getModifiedFee) (-1) = -entry.weight := by
  rw [Int64.neg_mul, Int64.one_mul, Int64.neg_mul, Int64.one_mul]
  rfl

/-- An entry as the constructor makes it. -/
structure New (entry : CTxMemPoolEntry) : Prop where
  totals : entry.totals = entry.weight
  feeDelta : entry.feeDelta = 0

theorem new_create (tx : CTransaction) (nFee : CAmount) (nTime : ℤ) (entryHeight : ℕ)
    (poolHasNoInputsOf spendsCoinbase : Bool) (sigOps : ℕ) :
    (create tx nFee nTime entryHeight poolHasNoInputsOf spendsCoinbase sigOps).New where
  totals := by
    show ((1 : UInt64).toBitVec, (UInt64.ofNat tx.serializeSize).toBitVec, nFee.toBitVec)
      = (1, BitVec.ofNat 64 tx.serializeSize, (nFee + 0).toBitVec)
    simp [UInt64.toBitVec_ofNat']
  feeDelta := rfl

theorem weight_updateFeeDelta (entry : CTxMemPoolEntry) (newFeeDelta : CAmount) :
    (entry.updateFeeDelta newFeeDelta).weight
      = entry.weight + (0, 0, (newFeeDelta - entry.feeDelta).toBitVec) := by
  show (1, BitVec.ofNat 64 entry.getTxSize, (entry.nFee + newFeeDelta).toBitVec)
    = (1 + 0, BitVec.ofNat 64 entry.getTxSize + 0,
        (entry.nFee + entry.feeDelta).toBitVec + (newFeeDelta - entry.feeDelta).toBitVec)
  simp

theorem totals_updateFeeDelta (entry : CTxMemPoolEntry) (newFeeDelta : CAmount) :
    (entry.updateFeeDelta newFeeDelta).totals
      = entry.totals + (0, 0, (newFeeDelta - entry.feeDelta).toBitVec) := by
  show (entry.nCountWithDescendants.toBitVec, entry.nSizeWithDescendants.toBitVec, _)
    = (entry.nCountWithDescendants.toBitVec + 0, entry.nSizeWithDescendants.toBitVec + 0, _)
  rw [add_zero, add_zero]
  rfl

end CTxMemPoolEntry

/-! ## The totals of a pool -/

namespace CTxMemPool

/-- What an entry of the pool counts for. -/
def weight (pool : CTxMemPool) (h : Uint256) : Tally := (pool.deref h).weight

/-- The second pool is the first one with the totals of every entry changed by `δ`. -/
structure Retallied (pool pool' : CTxMemPool) (δ : Uint256 → Tally) : Prop where
  exists_eq : ∀ h, pool'.existsTx h = pool.existsTx h
  entries : ∀ {h entry}, pool.mapTx.lookup h = some entry → ∃ entry',
    pool'.mapTx.lookup h = some entry' ∧ entry'.core = entry.core
      ∧ ∀ t, entry.Tallies t → entry'.Tallies (t + δ h)

namespace Retallied

variable {pool pool' pool'' : CTxMemPool} {δ δ' : Uint256 → Tally}

theorem of_mapTx (h : pool'.mapTx = pool.mapTx) : Retallied pool pool' 0 where
  exists_eq := fun x => by rw [existsTx, existsTx, h]
  entries := fun {x entry} hentry =>
    ⟨entry, h ▸ hentry, rfl, fun t ht => by rw [Pi.zero_apply, add_zero]; exact ht⟩

section
variable (h : Retallied pool pool' δ)
include h

theorem trans (h' : Retallied pool' pool'' δ') : Retallied pool pool'' (δ + δ') where
  exists_eq := fun x => (h'.exists_eq x).trans (h.exists_eq x)
  entries := fun {x entry} hentry => by
    obtain ⟨entry', hentry', hcore, htally⟩ := h.entries hentry
    obtain ⟨entry'', hentry'', hcore', htally'⟩ := h'.entries hentry'
    refine ⟨entry'', hentry'', hcore'.trans hcore, fun t ht => ?_⟩
    rw [Pi.add_apply, ← add_assoc]
    exact htally' _ (htally t ht)

theorem congr (hδ : ∀ x, pool.existsTx x → δ x = δ' x) : Retallied pool pool' δ' where
  exists_eq := h.exists_eq
  entries := fun {x entry} hentry => by
    rw [← hδ x (existsTx_iff.mpr ⟨entry, hentry⟩)]
    exact h.entries hentry

theorem of_lookup {x : Uint256} {entry' : CTxMemPoolEntry}
    (hentry' : pool'.mapTx.lookup x = some entry') : ∃ entry, pool.mapTx.lookup x = some entry
      ∧ entry'.core = entry.core ∧ ∀ t, entry.Tallies t → entry'.Tallies (t + δ x) := by
  have hin : pool.existsTx x := by
    rw [← h.exists_eq]
    exact existsTx_iff.mpr ⟨entry', hentry'⟩
  obtain ⟨entry, hentry⟩ := existsTx_iff.mp hin
  obtain ⟨entry'', hentry'', hcore, htally⟩ := h.entries hentry
  obtain rfl : entry'' = entry' := Option.some.inj (hentry''.symm.trans hentry')
  exact ⟨entry, hentry, hcore, htally⟩

theorem lookup_eq_none {x : Uint256} (hx : pool.mapTx.lookup x = none) :
    pool'.mapTx.lookup x = none := by
  have hexists := h.exists_eq x
  rw [existsTx, existsTx, hx] at hexists
  exact Option.not_isSome_iff_eq_none.mp (by rw [hexists]; simp)

theorem core_deref (x : Uint256) : (pool'.deref x).core = (pool.deref x).core := by
  cases hx : pool.mapTx.lookup x with
  | some entry =>
    obtain ⟨entry', hentry', hcore, -⟩ := h.entries hx
    rw [deref_of_lookup hx, deref_of_lookup hentry', hcore]
  | none => rw [deref, deref, hx, h.lookup_eq_none hx]

theorem tx_deref (x : Uint256) : (pool'.deref x).tx = (pool.deref x).tx :=
  tx_of_core (h.core_deref x)

theorem total_getTxSize :
    Maps.total (fun _ entry => entry.getTxSize) pool'.mapTx
      = Maps.total (fun _ entry => entry.getTxSize) pool.mapTx := by
  refine Maps.total_congr fun x => ?_
  cases hx : pool.mapTx.lookup x with
  | some entry =>
    obtain ⟨entry', hentry', hcore, -⟩ := h.entries hx
    simp [hentry', Option.map_some, getTxSize, tx_of_core hcore]
  | none => rw [h.lookup_eq_none hx]

end

end Retallied

variable {pool : CTxMemPool} (modifySize : Int64) (modifyFee : CAmount) (modifyCount : Int64)

theorem retallied_modifyTx (it : Uint256) :
    Retallied pool (pool.modifyTx it fun e => e.updateState modifySize modifyFee modifyCount)
      (fun h => if h = it then change modifySize modifyFee modifyCount else 0) where
  exists_eq := pool.existsTx_modifyTx it _
  entries := fun {x entry} hentry => by
    unfold modifyTx
    simp only [Maps.lookup_modify]
    split_ifs with heq
    · subst heq
      exact ⟨_, by rw [hentry]; rfl, entry.core_updateState _ _ _,
        fun t ht => tallies_updateState ht _ _ _⟩
    · exact ⟨entry, hentry, rfl, fun t ht => by rwa [add_zero]⟩

/-- **A loop that updates the totals of some entries.** -/
theorem retallied_foldl_modifyTx (its : SetEntries) : ∀ {pool : CTxMemPool}, its.Nodup →
    Retallied pool
      (its.foldl (fun pool it =>
        pool.modifyTx it fun e => e.updateState modifySize modifyFee modifyCount) pool)
      (fun h => if h ∈ its then change modifySize modifyFee modifyCount else 0) := by
  induction its with
  | nil => exact fun _ => (Retallied.of_mapTx rfl).congr fun x _ => by simp
  | cons it rest ih =>
    intro pool hnodup
    obtain ⟨hfresh, hrest⟩ := List.nodup_cons.mp hnodup
    refine ((retallied_modifyTx _ _ _ it).trans (ih hrest)).congr fun x _ => ?_
    by_cases hx : x = it
    · subst hx
      simp [hfresh]
    · simp [hx]

end CTxMemPool

end Binarium
