import Binarium.Mempool.Runs

set_option autoImplicit false

/-! # `removeConflicts` and the transactions it refers to

`removeConflicts` finds a conflict by `mapNextTx`, which points to the transaction inside the entry that
owns it. It removes the entry with its descendants and asks the transaction for its hash afterwards, to
clear its priority. By then the entry is erased and the pointer dangles: the function is safe only if
there is nothing to remove (`removesConflictsSafely_iff`).

Where the freed memory still has the old hash, which is what `MeteredPool.removeConflicts` computes with,
the priority of a conflict that descends from another one may stay even then: its inputs leave
`mapNextTx` with it, before the loop comes to them. -/

namespace Binarium

open Relation

/-- A read of a transaction after the entry that owns it has been erased. -/
structure DanglingRead where
  hash : Uint256
deriving DecidableEq

/-- An entry other than the transaction that spends an output which the transaction spends. -/
def CTxMemPool.ConflictsWith (pool : CTxMemPool) (tx : CTransaction) (c : Uint256) : Prop :=
  pool.DirectConflict tx c ∧ c ≠ tx.hash

theorem CTxMemPool.SpentBy.exists_entry {pool : CTxMemPool} {outpoint : COutPoint} {c : Uint256}
    (h : pool.SpentBy outpoint c) : pool.existsTx c := by
  obtain ⟨entry, hentry, -⟩ := h
  exact CTxMemPool.existsTx_iff.mpr ⟨entry, hentry⟩

namespace MeteredPool

section Reads

variable (sizes : NodeSizes)

/-- `*ptx` for a pointer of `mapNextTx`, which points into the entry of the transaction. -/
def readTx (m : MeteredPool) (ptx : CTransaction) : Except DanglingRead CTransaction :=
  if m.existsTx ptx.hash then .ok ptx else .error ⟨ptx.hash⟩

/-- One input of the loop of `removeConflicts`, with the reads through `txConflict`: the comparison, the
    removal, which reads before it erases, and the hash for `ClearPrioritisation`. -/
def removeConflictRead (tx : CTransaction) (s : MeteredPool × List CTransaction) (txin : CTxIn) :
    Except DanglingRead (MeteredPool × List CTransaction) :=
  match s.1.mapNextTx.lookup txin.prevout with
  | none => .ok s
  | some next => do
    let txConflict ← s.1.readTx next.ptx
    if txConflict.hash ≠ tx.hash then
      let (m, removed) := s.1.remove sizes txConflict true
      let txConflict ← m.readTx next.ptx
      .ok (m.clearPrioritisation txConflict.hash, s.2 ++ removed)
    else .ok s

/-- `CTxMemPool::removeConflicts`, with the reads. -/
def removeConflictsRead (m : MeteredPool) (tx : CTransaction) :
    Except DanglingRead (MeteredPool × List CTransaction) :=
  tx.vin.foldlM (removeConflictRead sizes tx) (m, [])

end Reads

variable {sizes : NodeSizes} {m m' : MeteredPool} {tx : CTransaction}

/-! ## Conflicts by `mapNextTx` -/

theorem Sound.spentBy_iff {block : List Uint256} (h : Sound sizes block m) (outpoint : COutPoint)
    (c : Uint256) : m.SpentBy outpoint c
      ↔ ∃ next, m.mapNextTx.lookup outpoint = some next ∧ next.ptx.hash = c := by
  constructor
  · rintro ⟨entry, hentry, txin, hin, rfl⟩
    obtain ⟨next, hnext, hptx⟩ := h.pool.consistent.nextTx_complete hentry txin hin
    exact ⟨next, hnext, by rw [hptx, h.pool.consistent.keyed hentry]⟩
  · rintro ⟨next, hnext, rfl⟩
    exact CTxMemPool.spentBy_of_checkNext (h.pool.consistent.nextTx_sound hnext)

/-! ## The reads -/

section

variable {s : MeteredPool × List CTransaction} {txin : CTxIn} (h : Sound sizes [] s.1)

include h

/-- An input that only the transaction itself spends, or none, changes nothing. -/
theorem removeConflictRead_of_none (hnone : ∀ c, s.1.SpentBy txin.prevout c → c = tx.hash) :
    removeConflictRead sizes tx s txin = .ok s := by
  unfold removeConflictRead
  split
  next => rfl
  next next hnext =>
    have hspent := (h.spentBy_iff txin.prevout next.ptx.hash).mpr ⟨next, hnext, rfl⟩
    rw [readTx, if_pos hspent.exists_entry]
    exact if_neg (not_not.mpr (hnone _ hspent))

/-- **The read after a removal dangles.** -/
theorem removeConflictRead_of_conflict {c : Uint256} (hspent : s.1.SpentBy txin.prevout c)
    (hother : c ≠ tx.hash) :
    removeConflictRead sizes tx s txin = .error ⟨c⟩ := by
  obtain ⟨next, hnext, rfl⟩ := (h.spentBy_iff txin.prevout c).mp hspent
  have hfreed : (s.1.remove sizes next.ptx true).1.readTx next.ptx = .error ⟨next.ptx.hash⟩ := by
    rw [readTx, if_neg (by simp [h.existsTx_remove next.ptx])]
  rw [removeConflictRead, hnext]
  simp only
  rw [readTx, if_pos hspent.exists_entry]
  show (if next.ptx.hash ≠ tx.hash then _ else _) = _
  rw [if_pos hother]
  rw [hfreed]
  rfl

end

theorem removeConflictsRead_loop (h : Sound sizes [] m) (tx : CTransaction)
    (removed : List CTransaction) (vin : List CTxIn) :
    ((∀ txin ∈ vin, ∀ c, m.SpentBy txin.prevout c → c = tx.hash) ∧
        vin.foldlM (removeConflictRead sizes tx) (m, removed) = .ok (m, removed))
      ∨ ∃ txin ∈ vin, ∃ c, m.SpentBy txin.prevout c ∧ c ≠ tx.hash
        ∧ vin.foldlM (removeConflictRead sizes tx) (m, removed) = .error ⟨c⟩ := by
  induction vin with
  | nil => exact .inl ⟨by simp, rfl⟩
  | cons txin rest ih =>
    rw [List.foldlM_cons]
    by_cases hconflict : ∃ c, m.SpentBy txin.prevout c ∧ c ≠ tx.hash
    · obtain ⟨c, hspent, hother⟩ := hconflict
      refine .inr ⟨txin, List.mem_cons_self, c, hspent, hother, ?_⟩
      rw [removeConflictRead_of_conflict (s := (m, removed)) h hspent hother]
      rfl
    · have hnone : ∀ c, m.SpentBy txin.prevout c → c = tx.hash :=
        fun c hspent => by_contra fun hother => hconflict ⟨c, hspent, hother⟩
      rw [removeConflictRead_of_none (s := (m, removed)) h hnone]
      refine ih.imp (fun ⟨hrest, hok⟩ => ⟨List.forall_mem_cons.mpr ⟨hnone, hrest⟩, hok⟩) ?_
      exact fun ⟨other, hin, hother⟩ => ⟨other, List.mem_cons_of_mem _ hin, hother⟩

end MeteredPool

/-- `removeConflicts` reads no transaction whose entry is erased, removes the conflicts with all their
    descendants and nothing else, and clears the priority of every conflict. -/
def RemovesConflictsSafely (sizes : NodeSizes) (m : MeteredPool) (tx : CTransaction) : Prop :=
  ∃ m' removed, m.removeConflictsRead sizes tx = .ok (m', removed)
    ∧ (∀ h, m'.existsTx h = true ↔ m.existsTx h = true
      ∧ ¬ ∃ c, m.ConflictsWith tx c ∧ ReflTransGen m.Spends c h)
    ∧ ∀ c, m.ConflictsWith tx c → m'.mapDeltas.lookup c = none

/-- **Conflicts are removed safely if and only if there are none.** -/
theorem removesConflictsSafely_iff {sizes : NodeSizes} {m : MeteredPool}
    (h : MeteredPool.Reachable sizes m) (tx : CTransaction) :
    RemovesConflictsSafely sizes m tx ↔ ∀ c, ¬ m.ConflictsWith tx c := by
  have hloop := MeteredPool.removeConflictsRead_loop h.sound tx [] tx.vin
  constructor
  · rintro ⟨m', removed, hok, -⟩ c ⟨⟨txin, hin, hspent⟩, hother⟩
    rcases hloop with ⟨hnone, -⟩ | ⟨_, -, _, -, -, herror⟩
    · exact hother (hnone txin hin c hspent)
    · exact absurd (hok.symm.trans herror) (by simp)
  · intro hnone
    rcases hloop with ⟨-, hok⟩ | ⟨txin, hin, c, hspent, hother, -⟩
    · refine ⟨m, [], hok, fun x => ?_, fun c hc => absurd hc (hnone c)⟩
      exact (and_iff_left fun ⟨c, hc, _⟩ => hnone c hc).symm
    · exact absurd ⟨⟨txin, hin, hspent⟩, hother⟩ (hnone c)

/-- **A transaction that spends what no entry spends.** -/
theorem childRun_removesConflictsSafely :
    (MeteredPool.Reachable sampleSizes childRun ∧ ∀ c, ¬ childRun.ConflictsWith cheapTx c)
    ∧ RemovesConflictsSafely sampleSizes childRun cheapTx := by
  have hfree : ∀ c, ¬ childRun.ConflictsWith cheapTx c := by
    rintro c ⟨⟨txin, hin, hspent⟩, -⟩
    obtain ⟨next, hnext, -⟩ := (reachable_childRun.sound.spentBy_iff _ c).mp hspent
    have hunspent : cheapTx.vin.all (fun txin => (childRun.mapNextTx.lookup txin.prevout).isNone)
        := by decide +kernel
    exact absurd (List.all_eq_true.mp hunspent txin hin) (by simp [hnext])
  exact ⟨⟨reachable_childRun, hfree⟩,
    (removesConflictsSafely_iff reachable_childRun cheapTx).mpr hfree⟩

/-- It spends an output of the child, and the second one of the parent. -/
def spendsBothTx : CTransaction := replaceable 40 [⟨20, 0⟩, ⟨10, 1⟩] [78000]

/-- It spends both outputs of the parent. -/
def doubleSpendTx : CTransaction := replaceable 50 [⟨10, 0⟩, ⟨10, 1⟩] [70000]

/-- The pool with the parent, the child and the grandchild, which have priorities. -/
def grandchildRun : MeteredPool :=
  (childRun.prioritiseTransaction 40 7000).addUnchecked sampleSizes (sampleEntry spendsBothTx 1000)
    [10, 20]

/-- **The hash of a removed conflict is read from its entry**, which is gone. And the priority of the
    second conflict, which descends from the first one, is there after both have been removed. -/
theorem doubleSpendTx_not_removesConflictsSafely :
    (MeteredPool.Reachable sampleSizes grandchildRun
      ∧ (grandchildRun.removeConflictsRead sampleSizes doubleSpendTx).toOption.isNone = true
      ∧ (grandchildRun.removeConflicts sampleSizes doubleSpendTx).1.mapTx.keys = [10]
      ∧ (grandchildRun.removeConflicts sampleSizes doubleSpendTx).1.mapDeltas.lookup 20 = none
      ∧ (grandchildRun.removeConflicts sampleSizes doubleSpendTx).1.mapDeltas.lookup 40 = some 7000)
    ∧ ¬ RemovesConflictsSafely sampleSizes grandchildRun doubleSpendTx := by
  have hreach : MeteredPool.Reachable sampleSizes grandchildRun :=
    (reachable_childRun.prioritiseTransaction 40 7000).addUnchecked
      (accepted_sample 1000 (by decide +kernel) (by decide +kernel) (by decide +kernel))
      (childless_sample (by decide +kernel))
  have hread : (grandchildRun.removeConflictsRead sampleSizes doubleSpendTx).toOption.isNone := by
    decide +kernel
  refine ⟨⟨hreach, hread, by decide +kernel, by decide +kernel, by decide +kernel⟩, ?_⟩
  rintro ⟨m', removed, hok, -⟩
  rw [hok] at hread
  simp [Except.toOption] at hread

end Binarium
