import Binarium.Mempool.Runs

set_option autoImplicit false

/-! # `TrimToSize` and the deltas

`TrimToSize` removes entries while `DynamicMemoryUsage` is above the limit. The usage has a part that it
never touches, the nodes of `mapDeltas`: `PrioritiseTransaction` stores a delta for any hash, in the pool
or not, and removing an entry does not erase its delta. If the deltas alone are above the limit, the
loop removes every entry and then dereferences `mapTx.get<1>().begin()` of an empty index. Otherwise it
ends within the limit, since nothing but the deltas is left of an empty pool (`trimsSafely_iff`).

In either case an entry leaves with all its descendants. -/

namespace Binarium

open Closure Relation MeteredPool

namespace MeteredPool

variable {lim : LimitContext} {block : List Uint256} {m : MeteredPool}

/-- What is left of a pool after trimming: the entries with all their parents, and the deltas. -/
structure Trimming (lim : LimitContext) (m m' : MeteredPool) : Prop where
  shrunk : Shrunk lim.sizes [] m m'
  mapDeltas : m'.mapDeltas = m.mapDeltas
  parents : ∀ {p c}, m.Spends p c → m'.existsTx c = true → m'.existsTx p = true

theorem Trimming.refl (h : Sound lim.sizes [] m) : Trimming lim m m :=
  ⟨Shrunk.refl h, rfl, fun hspends _ => hspends.1⟩

theorem Trimming.trans {m' m'' : MeteredPool} (h : Trimming lim m m') (h' : Trimming lim m' m'') :
    Trimming lim m m'' := by
  refine ⟨h.shrunk.trans h'.shrunk, h'.mapDeltas.trans h.mapDeltas, fun {p c} hspends hc => ?_⟩
  have hc' := h'.shrunk.exists_of_exists hc
  exact h'.parents (h.shrunk.spends hspends (h.parents hspends hc') hc') hc

/-- **One round removes an entry with what descends from it.** -/
theorem Trimming.once {s : MeteredTrim} (h : Sound lim.sizes [] s.pool) {it : Uint256}
    (hit : s.pool.existsTx it) : Trimming lim s.pool (trimOnce lim.sizes s it).pool
      ∧ (trimOnce lim.sizes s it).pool.mapTx.keys.length < s.pool.mapTx.keys.length := by
  have hits : ∀ x ∈ [it], s.pool.existsTx x := List.forall_mem_singleton.mpr hit
  obtain ⟨hnodup, hmem⟩ := h.pool.consistent.mem_stage hits
  have hremoved := h.removed_descendants hits
  refine ⟨⟨h.removeDescendants hits, hremoved.mapDeltas, fun {p c} hspends hc => ?_⟩, ?_⟩
  · obtain ⟨-, hkept⟩ := (hremoved.exists_iff c).mp hc
    refine (hremoved.exists_iff p).mpr ⟨hspends.1, fun hp => hkept ?_⟩
    -- a child of a removed entry descends from the same one
    obtain ⟨x, hx, hreach⟩ := (hmem p).mp (List.mem_toFinset.mp hp)
    have hlink := (CTxMemPool.linkedBut_nil.mp h.pool.linked p c).mpr hspends
    exact List.mem_toFinset.mpr ((hmem c).mpr ⟨x, hx, hreach.tail hlink⟩)
  · have hpool := h.removeStaged_eq (h.pool.consistent.exists_of_mem_stage hits) hnodup
    exact (congrArg (fun m : MeteredPool => m.mapTx.keys.length) hpool).trans_lt
      (@LimitContext.keys_trimOnce_lt ⟨s.pool.toCTxMemPool, []⟩ it hit)

/-- Nothing but deltas is left of a pool without entries. -/
theorem Sound.dynamicMemoryUsage_of_empty {sizes : NodeSizes} (h : Sound sizes block m)
    (hempty : m.mapTx.keys = []) :
    m.dynamicMemoryUsage sizes = sizes.delta * m.mapDeltas.keys.length := by
  have hnone : ∀ x, m.existsTx x = false := by
    intro x
    rw [Bool.eq_false_iff]
    intro hx
    have hkey := (Maps.mem_keys_iff_isSome m.mapTx x).mpr hx
    simp [hempty] at hkey
  have hlinks : m.mapLinks.keys = [] := by
    refine List.eq_nil_iff_forall_not_mem.mpr fun x hx => ?_
    have hhas : m.hasLinks x := (Maps.mem_keys_iff_isSome m.mapLinks x).mp hx
    simp [h.pool.consistent.hasLinks, hnone] at hhas
  have hnext : m.mapNextTx.keys = [] := by
    refine List.eq_nil_iff_forall_not_mem.mpr fun outpoint hin => ?_
    obtain ⟨next, hnext⟩ := Option.isSome_iff_exists.mp ((Maps.mem_keys_iff_isSome _ _).mp hin)
    obtain ⟨entry, hentry, -⟩ :=
      CTxMemPool.spentBy_of_checkNext (h.pool.consistent.nextTx_sound hnext)
    exact absurd (CTxMemPool.existsTx_iff.mpr ⟨entry, hentry⟩) (by simp [hnone])
  have hinner : m.cachedInnerUsage = 0 := by
    simp [h.counted, innerUsage_eq, Maps.total, hempty, hlinks]
  simp [dynamicMemoryUsage, hempty, hlinks, hnext, hinner]

/-- What the loop ends with: within the limit, or in an error with only deltas left. -/
theorem trimRounds_spec (rounds : ℕ) : ∀ {s : MeteredTrim}, Sound lim.sizes [] s.pool →
    s.pool.mapTx.keys.length < rounds →
    Trimming lim s.pool (trimRounds lim rounds s).2.pool
      ∧ ((trimRounds lim rounds s).1 = .ok ()
          ∧ (trimRounds lim rounds s).2.pool.dynamicMemoryUsage lim.sizes ≤ lim.limit
        ∨ (trimRounds lim rounds s).1 = .error (.nullPointer "mapTx.get<1>().begin()")
          ∧ lim.limit < lim.sizes.delta * s.pool.mapDeltas.keys.length) := by
  induction rounds with
  | zero => exact fun _ hlen => absurd hlen (Nat.not_lt_zero _)
  | succ rounds ih =>
    intro s h hlen
    rw [trimRounds]
    split_ifs with husage
    · cases hfirst : lim.first s.pool.toCTxMemPool with
      | none =>
        rw [h.dynamicMemoryUsage_of_empty (lim.first_none hfirst)] at husage
        exact ⟨Trimming.refl h, .inr ⟨rfl, husage⟩⟩
      | some it =>
        obtain ⟨honce, hless⟩ := Trimming.once h (lim.first_mem hfirst)
        obtain ⟨hrest, hend⟩ := ih honce.shrunk.sound (by omega)
        rw [honce.mapDeltas] at hend
        exact ⟨honce.trans hrest, hend⟩
    · exact ⟨Trimming.refl h, .inl ⟨rfl, not_lt.mp husage⟩⟩

end MeteredPool

/-- `TrimToSize` ends within the limit, without dereferencing the end of the index, and an entry that is
    left has all its parents of before. -/
def TrimsSafely (lim : LimitContext) (m : MeteredPool) : Prop :=
  (MeteredPool.trimToSize lim m).1 = .ok ()
    ∧ (MeteredPool.trimToSize lim m).2.pool.dynamicMemoryUsage lim.sizes ≤ lim.limit
    ∧ ∀ p c, m.Spends p c → (MeteredPool.trimToSize lim m).2.pool.existsTx c = true →
      (MeteredPool.trimToSize lim m).2.pool.existsTx p = true

/-- **Trimming is safe if and only if the deltas fit the limit.** -/
theorem trimsSafely_iff {lim : LimitContext} {m : MeteredPool}
    (h : MeteredPool.Reachable lim.sizes m) :
    TrimsSafely lim m ↔ lim.sizes.delta * m.mapDeltas.keys.length ≤ lim.limit := by
  obtain ⟨htrim, hend⟩ := trimRounds_spec (m.mapTx.keys.length + 1)
    (show MeteredPool.Sound lim.sizes [] (MeteredTrim.mk m []).pool from h.sound) (Nat.lt_succ_self _)
  constructor
  · rintro ⟨hok, -⟩
    rcases hend with ⟨-, husage⟩ | ⟨herror, -⟩
    · have hdeltas : lim.sizes.delta * m.mapDeltas.keys.length
          ≤ (trimToSize lim m).2.pool.dynamicMemoryUsage lim.sizes := by
        rw [show m.mapDeltas = (trimToSize lim m).2.pool.mapDeltas from
          htrim.mapDeltas.symm, dynamicMemoryUsage]
        omega
      exact hdeltas.trans husage
    · exact absurd (herror.symm.trans hok) (by simp)
  · intro hdeltas
    rcases hend with ⟨hok, husage⟩ | ⟨-, hover⟩
    · exact ⟨hok, husage, fun p c hspends hc => htrim.parents hspends hc⟩
    · exact absurd hover (not_lt.mpr hdeltas)

/-- **A pool with one delta is trimmed to a limit that the delta fits.** -/
theorem childRun_trimsSafely :
    (MeteredPool.Reachable tightLimit.sizes childRun
      ∧ tightLimit.sizes.delta * childRun.mapDeltas.keys.length ≤ tightLimit.limit)
    ∧ TrimsSafely tightLimit childRun := by
  have hdeltas : tightLimit.sizes.delta * childRun.mapDeltas.keys.length ≤ tightLimit.limit := by
    decide +kernel
  exact ⟨⟨reachable_childRun, hdeltas⟩, (trimsSafely_iff reachable_childRun).mpr hdeltas⟩

/-- A limit below what one delta takes. -/
def deltaLimit : LimitContext := { tightLimit with limit := 95 }

/-- **A limit that the delta does not fit**: the pool loses both entries, and then the loop dereferences
    the end of the index. -/
theorem childRun_not_trimsSafely :
    (MeteredPool.Reachable deltaLimit.sizes childRun
      ∧ childRun.existsTx 10 = true ∧ childRun.existsTx 20 = true
      ∧ (trimToSize deltaLimit childRun).1
        = .error (.nullPointer "mapTx.get<1>().begin()")
      ∧ (trimToSize deltaLimit childRun).2.pool.mapTx.keys = [])
    ∧ ¬ TrimsSafely deltaLimit childRun := by
  have herror : (trimToSize deltaLimit childRun).1
      = .error (.nullPointer "mapTx.get<1>().begin()") := by decide +kernel
  refine ⟨⟨reachable_childRun, by decide +kernel, by decide +kernel, herror, by decide +kernel⟩,
    fun hsafe => ?_⟩
  exact absurd (herror.symm.trans hsafe.1) (by simp)

end Binarium
