import Binarium.Mempool.Replacement

set_option autoImplicit false

/-! # The size of the memory pool (`txmempool.cpp`, `validation.cpp`)

`LimitMempoolSize` drops what is too old (`Expire`) and then, as long as the pool takes too much memory,
the entry with the lowest descendant score and its descendants (`TrimToSize`). Both only remove
transactions (`existsTx_limitMempoolSize`).

`AcceptToMemoryPoolWorker` calls it after the replaced transactions have left the pool and the new one
has entered. When the new transaction is the one that is dropped, the call fails with "mempool full",
and the replaced transactions are gone all the same: acceptance is atomic except for a transaction that
replaces others and is trimmed away (`acceptToMemoryPoolWorker_atomic_iff`). -/

namespace Binarium

open Closure Checks CTxMemPool

/-! ## Memory usage -/

/-- What the nodes of the containers of the pool take, which depends on the platform. -/
structure NodeSizes where
  /-- an entry of `mapTx`, with 12 pointers -/
  entry : ℕ
  nextTx : ℕ
  delta : ℕ
  links : ℕ
  /-- an element of a set of parents or children -/
  set : ℕ
  /-- `RecursiveDynamicUsage(tx)` -/
  tx : CTransaction → ℕ

/-- `cachedInnerUsage`, which `CTxMemPool::check` asserts to be this sum. -/
def NodeSizes.innerUsage (sizes : NodeSizes) (pool : CTxMemPool) : ℕ :=
  (pool.mapTx.entries.map fun e => sizes.tx e.2.tx).sum
    + (pool.mapLinks.entries.map fun e =>
        sizes.set * (e.2.parents.length + e.2.children.length)).sum

/-- `CTxMemPool::DynamicMemoryUsage`. -/
def NodeSizes.dynamicMemoryUsage (sizes : NodeSizes) (pool : CTxMemPool) : ℕ :=
  sizes.entry * pool.mapTx.keys.length + sizes.nextTx * pool.mapNextTx.keys.length
    + sizes.delta * pool.mapDeltas.keys.length + sizes.links * pool.mapLinks.keys.length
    + sizes.innerUsage pool

/-! ## `LimitMempoolSize` -/

/-- What limiting the pool reads besides the pool. -/
structure LimitContext where
  sizes : NodeSizes
  /-- `mapTx.get<1>().begin()`, the entry with the lowest descendant score -/
  first : CTxMemPool → Option Uint256
  first_mem : ∀ {pool h}, first pool = some h → pool.existsTx h = true
  first_none : ∀ {pool}, first pool = none → pool.mapTx.keys = []
  /-- `-maxmempool` in bytes -/
  limit : ℕ
  /-- `GetTime()` less `-mempoolexpiry` -/
  expiry : ℤ

/-- `CTxMemPool::Expire`. -/
def CTxMemPool.expire (pool : CTxMemPool) (time : ℤ) : CTxMemPool :=
  let toremove := pool.mapTx.entries.foldl
    (fun s e => if e.2.nTime < time then insertSet hashOrder e.1 s else s) []
  pool.removeStaged (toremove.foldl (fun stage it => pool.calculateDescendants it stage) [])

/-- The pool while it is trimmed, and `pvNoSpendsRemaining`. -/
structure Trimmed where
  pool : CTxMemPool
  vNoSpendsRemaining : List COutPoint

variable (lim : LimitContext)

namespace LimitContext

/-- The inputs of removed transactions that spend from outside the pool. -/
def noSpendsRemaining (pool : CTxMemPool) (txn : List CTransaction) : List COutPoint :=
  (txn.flatMap fun tx => tx.vin.map CTxIn.prevout).filter fun prevout => !pool.existsTx prevout.hash

/-- One round of the loop of `TrimToSize`. -/
def trimOnce (s : Trimmed) (it : Uint256) : Trimmed :=
  let stage := s.pool.calculateDescendants it []
  let txn := stage.map fun h => (s.pool.deref h).tx
  let pool := s.pool.removeStaged stage
  ⟨pool, s.vNoSpendsRemaining ++ noSpendsRemaining pool txn⟩

/-- The loop of `TrimToSize`. For an empty pool `begin()` is `end()`, which it dereferences. -/
def trimRounds (lim : LimitContext) : ℕ → Trimmed → Except CppError Unit × Trimmed
  | 0, s => (.ok (), s)
  | rounds + 1, s =>
    if lim.sizes.dynamicMemoryUsage s.pool > lim.limit then
      match lim.first s.pool with
      | none => (.error (.nullPointer "mapTx.get<1>().begin()"), s)
      | some it => lim.trimRounds rounds (trimOnce s it)
    else (.ok (), s)

/-- `CTxMemPool::TrimToSize`. Every round removes an entry, so it ends after as many rounds as there
    are entries and the one that finds the pool small enough. -/
def trimToSize (pool : CTxMemPool) : Except CppError Unit × Trimmed :=
  lim.trimRounds (pool.mapTx.keys.length + 1) ⟨pool, []⟩

/-- `LimitMempoolSize`. -/
def limitMempoolSize (pool : CTxMemPool) : Except CppError Unit × Trimmed :=
  lim.trimToSize (pool.expire lim.expiry)

end LimitContext

/-- The context of an acceptance that limits the pool in this way. -/
def AcceptContext.limitedBy (ctx : AcceptContext) (lim : LimitContext) : AcceptContext :=
  { ctx with limitMempoolSize := fun pool => (lim.limitMempoolSize pool).2.pool }

/-! ## Limiting only removes -/

namespace LimitContext

variable {h : Uint256}

theorem existsTx_of_trimOnce {s : Trimmed} {it : Uint256}
    (hin : (trimOnce s it).pool.existsTx h) : s.pool.existsTx h :=
  ((existsTx_removeStaged _ _ _).mp hin).2

theorem existsTx_of_trimRounds (rounds : ℕ) :
    ∀ {s : Trimmed}, (lim.trimRounds rounds s).2.pool.existsTx h →
      s.pool.existsTx h := by
  induction rounds with
  | zero => exact fun hin => hin
  | succ rounds ih =>
    intro s hin
    rw [trimRounds] at hin
    split_ifs at hin
    · cases hfirst : lim.first s.pool with
      | none => simpa [hfirst] using hin
      | some it => exact existsTx_of_trimOnce (ih (by simpa [hfirst] using hin))
    · exact hin

/-- **What is in the limited pool was in the pool.** -/
theorem existsTx_limitMempoolSize {pool : CTxMemPool}
    (hin : (lim.limitMempoolSize pool).2.pool.existsTx h) : pool.existsTx h :=
  ((existsTx_removeStaged _ _ _).mp (lim.existsTx_of_trimRounds _ hin)).2

/-! ## The rounds are enough -/

theorem mem_walkDescendants {pool : CTxMemPool} (rounds : ℕ) :
    ∀ {stage setDescendants : SetEntries}, h ∈ setDescendants →
      h ∈ pool.walkDescendants rounds stage setDescendants := by
  induction rounds with
  | zero => exact fun hin => hin
  | succ rounds ih =>
    intro stage setDescendants hin
    cases stage with
    | nil => exact hin
    | cons it rest => exact ih ((mem_insertSet hashOrder).mpr (.inr hin))

theorem mem_calculateDescendants_self {pool : CTxMemPool} {it : Uint256}
    (hin : pool.existsTx it) : it ∈ pool.calculateDescendants it [] := by
  have hkey : it ∈ pool.mapTx.keys := (Maps.mem_keys_iff_isSome pool.mapTx it).mpr hin
  obtain ⟨n, hn⟩ := Nat.exists_eq_succ_of_ne_zero (List.length_pos_of_mem hkey).ne'
  rw [calculateDescendants, hn]
  exact mem_walkDescendants n ((mem_insertSet hashOrder).mpr (.inl rfl))

theorem keys_trimOnce_lt {s : Trimmed} {it : Uint256} (hin : s.pool.existsTx it) :
    (trimOnce s it).pool.mapTx.keys.length < s.pool.mapTx.keys.length := by
  rw [← List.toFinset_card_of_nodup (AList.keys_nodup _),
    ← List.toFinset_card_of_nodup (AList.keys_nodup _)]
  refine Finset.card_lt_card ((Finset.ssubset_iff_of_subset fun h hh => ?_).mpr ⟨it, ?_, ?_⟩)
  · exact mem_keys_iff.mpr (existsTx_of_trimOnce (mem_keys_iff.mp hh))
  · exact mem_keys_iff.mpr hin
  · intro hh
    exact ((existsTx_removeStaged _ _ _).mp (mem_keys_iff.mp hh)).1
      (mem_calculateDescendants_self hin)

end LimitContext

/-! ## Acceptance that fails -/

section Atomic

variable (ctx : AcceptContext) (pool : CTxMemPool) (tx : CTransaction) (flags : AcceptFlags)

/-- The pool that `LimitMempoolSize` is called with, if the transaction gets that far. -/
def poolBeforeLimit : Option CTxMemPool :=
  match acceptChecks ctx pool tx flags with
  | .error _ => none
  | .ok checked =>
    if flags.fDryRun || flags.fOverrideMempoolLimit then none
    else
      match checkInputsTwice ctx tx checked.view with
      | .error _ => none
      | .ok _ => some ((pool.removeStaged checked.allConflicting).addUnchecked tx.hash checked.entry
          checked.setAncestors)

/-- When the transaction is not accepted, a transaction that was in the pool and no longer is has been
    removed by expiry or size limiting: it was there when the pool was limited. -/
def AtomicOnFailure : Prop :=
  (acceptToMemoryPoolWorker ctx pool tx flags).1 ≠ .ok () →
    ∀ h, pool.existsTx h = true → (acceptToMemoryPoolWorker ctx pool tx flags).2.existsTx h = false →
      ∃ limited, poolBeforeLimit ctx pool tx flags = some limited ∧ limited.existsTx h = true

/-- The transaction passes all checks and enters the pool, and limiting the pool drops it again. -/
def TrimmedAway : Prop :=
  ∃ limited, poolBeforeLimit ctx pool tx flags = some limited
    ∧ (ctx.limitMempoolSize limited).existsTx tx.hash = false

variable {ctx pool tx flags}

/-- A transaction that is not accepted leaves the pool as it was, unless it is trimmed away. -/
theorem acceptToMemoryPoolWorker_failed
    (hfail : (acceptToMemoryPoolWorker ctx pool tx flags).1 ≠ .ok ()) :
    (acceptToMemoryPoolWorker ctx pool tx flags).2 = pool ∨ TrimmedAway ctx pool tx flags := by
  unfold acceptToMemoryPoolWorker at hfail ⊢
  unfold TrimmedAway poolBeforeLimit
  cases hchecked : acceptChecks ctx pool tx flags with
  | error e => exact .inl rfl
  | ok checked =>
    simp only [hchecked] at hfail ⊢
    by_cases hdry : flags.fDryRun
    · exact absurd (by rw [if_pos hdry]) hfail
    · rw [if_neg hdry] at hfail ⊢
      cases hinputs : checkInputsTwice ctx tx checked.view with
      | error e => exact .inl rfl
      | ok _ =>
        simp only [hinputs] at hfail
        by_cases hoverride : flags.fOverrideMempoolLimit
        · exact absurd (by rw [if_pos hoverride]) hfail
        · rw [if_neg hoverride] at hfail
          refine .inr ⟨_, by rw [if_neg (by simp [hdry, hoverride])], ?_⟩
          by_contra hkept
          exact hfail (by rw [if_pos (by simpa using hkept)])

variable {limited : CTxMemPool}

theorem poolBeforeLimit_eq_some (hlimited : poolBeforeLimit ctx pool tx flags = some limited) :
    ∃ checked, acceptChecks ctx pool tx flags = .ok checked ∧ flags.fDryRun = false
      ∧ flags.fOverrideMempoolLimit = false ∧ checkInputsTwice ctx tx checked.view = .ok ()
      ∧ (pool.removeStaged checked.allConflicting).addUnchecked tx.hash checked.entry
          checked.setAncestors = limited := by
  unfold poolBeforeLimit at hlimited
  grind

theorem acceptToMemoryPoolWorker_trimmed
    (hlimited : poolBeforeLimit ctx pool tx flags = some limited)
    (hgone : (ctx.limitMempoolSize limited).existsTx tx.hash = false) :
    acceptToMemoryPoolWorker ctx pool tx flags
      = (.error (.failed (stateDoS 0 REJECT_INSUFFICIENTFEE "mempool full")),
          ctx.limitMempoolSize limited) := by
  obtain ⟨checked, hchecked, hdry, hoverride, hinputs, rfl⟩ := poolBeforeLimit_eq_some hlimited
  simp [acceptToMemoryPoolWorker, hchecked, hdry, hoverride, hinputs, hgone]

theorem checkLooseTransaction_new (h : checkLooseTransaction ctx pool tx = .ok ()) :
    pool.existsTx tx.hash = false := by
  obtain ⟨_, -, h⟩ := bind_eq_ok_iff.mp h
  obtain ⟨_, -, h⟩ := bind_eq_ok_iff.mp h
  obtain ⟨_, -, h⟩ := bind_eq_ok_iff.mp (require_bind h).2
  simpa using (require_bind (require_bind (require_bind h).2).2).1

theorem mem_allConflicting (hpool : pool.Linked) {checked : Checked}
    (hchecked : acceptChecks ctx pool tx flags = .ok checked) (h : Uint256) :
    h ∈ checked.allConflicting ↔ h ∈ pool.evicted tx := by
  obtain ⟨hloose, setConflicts, c, hfound, hview, hcandidate, -, hreplacement⟩ :=
    acceptChecks_ok hchecked
  obtain ⟨rfl, -⟩ := candidate_spec (checkLooseTransaction_ok hloose).1 hview hcandidate
  have hconflicts := mem_directConflicts hpool hfound
  by_cases hempty : setConflicts.isEmpty
  · rw [checkReplacement, if_pos hempty] at hreplacement
    rw [List.isEmpty_iff.mp hempty] at hconflicts
    simp [← Except.ok.inj hreplacement, mem_evicted, ← hconflicts]
  · obtain ⟨⟨-, hevicted⟩, -⟩ :=
      checkReplacement_ok hpool hconflicts (by simpa using hempty) hreplacement
    simp [hevicted]

/-- The pool before it is limited: the evicted transactions have left. -/
theorem existsTx_poolBeforeLimit (hpool : pool.Linked)
    (hlimited : poolBeforeLimit ctx pool tx flags = some limited) (h : Uint256) :
    limited.existsTx h ↔ h = tx.hash ∨ (h ∉ pool.evicted tx ∧ pool.existsTx h) := by
  obtain ⟨checked, hchecked, -, -, -, rfl⟩ := poolBeforeLimit_eq_some hlimited
  rw [existsTx_addUnchecked, existsTx_removeStaged, mem_allConflicting hpool hchecked]

/-- The transaction that limiting drops was not in the pool before. -/
theorem existsTx_of_poolBeforeLimit (hlimited : poolBeforeLimit ctx pool tx flags = some limited) :
    pool.existsTx tx.hash = false := by
  obtain ⟨checked, hchecked, -⟩ := poolBeforeLimit_eq_some hlimited
  exact checkLooseTransaction_new (acceptChecks_ok hchecked).1

end Atomic

/-- **Acceptance that fails changes nothing**, but for what expires or is trimmed, unless the
    transaction replaces others and is itself trimmed away: then the replaced ones are lost. -/
theorem acceptToMemoryPoolWorker_atomic_iff {ctx : AcceptContext} {lim : LimitContext}
    {pool : CTxMemPool} {tx : CTransaction} {flags : AcceptFlags} (hpool : pool.checkLinks = true) :
    AtomicOnFailure (ctx.limitedBy lim) pool tx flags ↔
      ¬ (TrimmedAway (ctx.limitedBy lim) pool tx flags ∧ ∃ c, pool.DirectConflict tx c) := by
  have hlinked := linked_of_checkLinks hpool
  constructor
  · rintro hatomic ⟨⟨limited, hlimited, hgone⟩, c, hc⟩
    have hresult := acceptToMemoryPoolWorker_trimmed hlimited hgone
    have hin := DirectConflict.exists_entry hc
    have hlost : limited.existsTx c ≠ true := by
      rw [Ne, existsTx_poolBeforeLimit hlinked hlimited c, not_or]
      refine ⟨?_, fun hkept => hkept.1 (mem_evicted.mpr ⟨hin, c, hc, .refl⟩)⟩
      rintro rfl
      simp [existsTx_of_poolBeforeLimit hlimited] at hin
    have hmissing : ((ctx.limitedBy lim).limitMempoolSize limited).existsTx c = false :=
      Bool.eq_false_iff.mpr fun hkept => hlost (lim.existsTx_limitMempoolSize hkept)
    obtain ⟨limited', hlimited', hkept⟩ := hatomic (by simp [hresult]) c hin (by rwa [hresult])
    obtain rfl := Option.some.inj (hlimited.symm.trans hlimited')
    exact hlost hkept
  · intro hsafe hfail h hin hmissing
    rcases acceptToMemoryPoolWorker_failed hfail with hsame | ⟨limited, hlimited, hgone⟩
    · simp [hsame, hin] at hmissing
    · refine ⟨limited, hlimited, (existsTx_poolBeforeLimit hlinked hlimited h).mpr (.inr ⟨?_, hin⟩)⟩
      intro hevicted
      obtain ⟨-, c, hc, -⟩ := mem_evicted.mp hevicted
      exact hsafe ⟨⟨limited, hlimited, hgone⟩, c, hc⟩

/-! ## Samples -/

/-- The score of an entry, exactly; the code compares products of doubles. -/
def descendantScore (entry : CTxMemPoolEntry) : ℚ :=
  max (entry.getModifiedFee.toInt / entry.getTxSize)
    (entry.nModFeesWithDescendants.toInt / entry.nSizeWithDescendants.toNat)

/-- Sizes of nodes, for a transaction by its inputs and outputs. -/
def sampleSizes : NodeSizes := ⟨320, 112, 96, 160, 64, fun tx => 80 * (tx.vin.length + tx.vout.length)⟩

/-- A limit that the pool with the parent and one child is just below. -/
def tightLimit : LimitContext where
  sizes := sampleSizes
  first := fun pool => (pool.mapTx.entries.argmin fun e => descendantScore e.2).map Sigma.fst
  first_mem := by
    intro pool h hfirst
    obtain ⟨e, he, rfl⟩ := Option.map_eq_some_iff.mp hfirst
    exact (Maps.mem_keys_iff_isSome pool.mapTx e.1).mp (List.mem_map_of_mem (List.argmin_mem he))
  first_none := by
    intro pool hfirst
    have hnil := List.argmin_eq_none.mp (Option.map_eq_none_iff.mp hfirst)
    exact List.map_eq_nil_iff.mpr hnil
  limit := 1800
  expiry := 0

/-- It spends the same output as the transaction it replaces, pays 2500 and has three outputs. -/
def largerTx : CTransaction := replaceable 33 [⟨10, 0⟩] [12500, 12500, 12500]

/-- It spends the second output of the parent and pays 100. -/
def cheapTx : CTransaction := replaceable 34 [⟨10, 1⟩] [39900]

/-- **A transaction without conflicts that is trimmed away leaves the pool as it was.** -/
theorem cheapTx_atomic :
    (parentPool.checkLinks = true
      ∧ ((acceptToMemoryPoolWorker (replaceContext.limitedBy tightLimit) parentPool cheapTx fromPeer).1
          = .error (.failed (stateDoS 0 REJECT_INSUFFICIENTFEE "mempool full"))))
    ∧ AtomicOnFailure (replaceContext.limitedBy tightLimit) parentPool cheapTx fromPeer := by
  have hlinks : parentPool.checkLinks := by decide +kernel
  have hfound : findConflicts replaceContext parentPool cheapTx.hash cheapTx.vin [] = .ok [] :=
    toOption_eq_some_iff.mp (by decide +kernel)
  have hnone : ¬ ∃ c, parentPool.DirectConflict cheapTx c := by
    rintro ⟨c, hc⟩
    have hin := (mem_directConflicts (linked_of_checkLinks hlinks) hfound c).mpr hc
    simp at hin
  exact ⟨⟨hlinks, by decide +kernel⟩,
    (acceptToMemoryPoolWorker_atomic_iff hlinks).mpr fun h => hnone h.2⟩

/-- **A replacement that does not fit loses the transaction it replaces.** The larger transaction pays
    more than the one it replaces, but it has the lowest score of the pool, which is then above its
    limit. The call fails and neither transaction is in the pool. -/
theorem largerTx_not_atomic :
    (parentPool.checkLinks = true
      ∧ ((acceptToMemoryPoolWorker (replaceContext.limitedBy tightLimit) parentPool largerTx fromPeer).1
          = .error (.failed (stateDoS 0 REJECT_INSUFFICIENTFEE "mempool full")))
      ∧ parentPool.existsTx 20 = true
      ∧ (acceptToMemoryPoolWorker (replaceContext.limitedBy tightLimit) parentPool largerTx
          fromPeer).2.mapTx.keys = [10])
    ∧ ¬ AtomicOnFailure (replaceContext.limitedBy tightLimit) parentPool largerTx fromPeer := by
  have hfail : (acceptToMemoryPoolWorker (replaceContext.limitedBy tightLimit) parentPool largerTx
      fromPeer).1 = .error (.failed (stateDoS 0 REJECT_INSUFFICIENTFEE "mempool full")) :=
    by decide +kernel
  refine ⟨⟨by decide +kernel, hfail, by decide +kernel, by decide +kernel⟩, fun hatomic => ?_⟩
  obtain ⟨limited, hlimited, hkept⟩ :=
    hatomic (by simp [hfail]) 20 (by decide +kernel) (by decide +kernel)
  have hgone : (poolBeforeLimit (replaceContext.limitedBy tightLimit) parentPool largerTx
      fromPeer).all (fun limited => !limited.existsTx 20) := by decide +kernel
  rw [hlimited, Option.all_some, hkept] at hgone
  simp at hgone

end Binarium
