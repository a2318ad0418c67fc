import Binarium.Lib.KeyedFold
import Binarium.Lib.Layers
import Binarium.Coins.Slot

set_option autoImplicit false

/-! # Stacks of caches refine layered updates

A stack of caches over the database is meant to be a map with layered updates: each cache is a layer,
`AddCoin` and `SpendCoin` update it and `Flush` writes it one level down; reading and `Uncache` do
nothing to it. `Refines` says that a stack agrees with such a map at every level and outpoint, and
`modifyAt_refines` that an operation on any level keeps the agreement.

One thing the caches cannot do: a cache that has read a coin, or created it as `FRESH`, relies on the
view below it. Changing that coin on a lower level goes unnoticed. `allowedAt` therefore asks that
the levels above an update are indifferent to what is below them at that outpoint. -/

namespace Binarium

open Function

/-! ## Stacks -/

/-- The number of caches. -/
def CCoinsView.depth : CCoinsView → ℕ
  | .db _ => 0
  | .cache _ _ base => base.depth + 1

/-- The view without its `i` topmost caches. -/
def CCoinsView.level : ℕ → CCoinsView → CCoinsView
  | 0, v => v
  | _ + 1, .db d => .db d
  | i + 1, .cache _ _ base => base.level i

/-- The entry of the topmost cache. -/
def CCoinsView.entryAt : CCoinsView → COutPoint → Option CCoinsCacheEntry
  | .db _, _ => none
  | .cache cacheCoins _ _, outpoint => cacheCoins.lookup outpoint

/-- New caches over a database. -/
def cacheStack (d : CCoinsViewDB) : ℕ → CCoinsView
  | 0 => .db d
  | depth + 1 => (CCoinsViewCache.over (cacheStack d depth)).toView

/-- Run an operation of a cache on the `i`-th cache from the top. -/
def CCoinsView.modifyAt (f : CCoinsViewCache → Except CppError CCoinsViewCache) :
    ℕ → CCoinsView → Except CppError CCoinsView
  | _, .db d => .ok (.db d)
  | 0, .cache cacheCoins hashBlock base => do
    let view ← f ⟨cacheCoins, hashBlock, base⟩
    .ok view.toView
  | i + 1, .cache cacheCoins hashBlock base => do
    let base ← base.modifyAt f i
    .ok (.cache cacheCoins hashBlock base)

/-! ## Operations -/

/-- What a caller can do to a cache. -/
inductive CacheOp where
  | addCoin (outpoint : COutPoint) (coin : Coin) (possible_overwrite : Bool)
  | spendCoin (outpoint : COutPoint)
  | uncache (outpoint : COutPoint)
  | getCoin (outpoint : COutPoint)
  | accessCoin (outpoint : COutPoint)
  | haveCoin (outpoint : COutPoint)
  | setBestBlock (hashBlock : Uint256)
  | flush

/-- The operation on a cache. -/
def CacheOp.exec : CacheOp → CCoinsViewCache → Except CppError CCoinsViewCache
  | .addCoin outpoint coin possible_overwrite, view =>
    match view.addCoin outpoint coin possible_overwrite with
    -- thrown before the entry is changed, so that a caller can go on
    | .error (.logicError _) => .ok view
    | result => result
  | .spendCoin outpoint, view => .ok (view.spendCoin outpoint).2
  | .uncache outpoint, view => .ok (view.uncache outpoint)
  | .getCoin outpoint, view => .ok (view.fetchCoin outpoint).2
  | .accessCoin outpoint, view => .ok (view.accessCoin outpoint).2
  | .haveCoin outpoint, view => .ok (view.haveCoin outpoint).2
  | .setBestBlock hashBlock, view => .ok (view.setBestBlock hashBlock)
  | .flush, view => view.flush

/-- What the operation means for a map with layered updates. -/
def CacheOp.apply : CacheOp → Layers COutPoint Coin → Layers COutPoint Coin
  | .addCoin outpoint coin possible_overwrite, L =>
    if coin.out.scriptPubKey.isUnspendable || (!possible_overwrite && (L.lookup outpoint).isSome)
    then L else L.set outpoint (some coin)
  | .spendCoin outpoint, L => if (L.lookup outpoint).isSome then L.set outpoint none else L
  | .flush, L => L.flush
  | _, L => L

/-- The outpoint whose coin an operation may change. -/
def CacheOp.changes : CacheOp → Option COutPoint
  | .addCoin outpoint _ _ | .spendCoin outpoint => some outpoint
  | _ => none

/-- What a caller of `AddCoin` promises: the coin is unspent, and an overwrite is allowed if a coin
    may exist unspent. -/
def CacheOp.allowed : CacheOp → Layers COutPoint Coin → Prop
  | .addCoin outpoint coin possible_overwrite, L =>
    coin.isSpent = false ∧ (possible_overwrite = true ∨ (L.level 1).lookup outpoint = none
      ∨ L.lookup outpoint = none)
  | _, _ => True

/-- A slot that stays right whatever happens below: not read and not updated, or dirty and not
    `FRESH`. -/
def slotIndifferent (slot : Option CCoinsCacheEntry) (update : Option (Option Coin)) : Bool :=
  match slot with
  | none => update.isNone
  | some entry => entry.dirty && !entry.fresh

/-- The caches above the `i`-th are indifferent to what is below them at an outpoint. -/
def indifferentAbove (outpoint : COutPoint) : ℕ → CCoinsView → Layers COutPoint Coin → Bool
  | i + 1, .cache cacheCoins _ base, .layer updates below =>
    slotIndifferent (cacheCoins.lookup outpoint) (updates outpoint)
      && indifferentAbove outpoint i base below
  | _, _, _ => true

/-- An operation that may be run on the `i`-th cache from the top. -/
def allowedAt (i : ℕ) (op : CacheOp) (v : CCoinsView) (L : Layers COutPoint Coin) : Prop :=
  i < v.depth ∧ op.allowed (L.level i)
    ∧ ∀ outpoint ∈ op.changes, indifferentAbove outpoint i v L = true

/-- Run operations, each on the given level. -/
def runCaches (ops : List (ℕ × CacheOp)) (v : CCoinsView) : Except CppError CCoinsView :=
  ops.foldlM (fun v op => v.modifyAt op.2.exec op.1) v

/-- The same operations on a map with layered updates. -/
def runLayers (ops : List (ℕ × CacheOp)) (L : Layers COutPoint Coin) : Layers COutPoint Coin :=
  ops.foldl (fun L op => L.modifyAt op.2.apply op.1) L

/-- Every operation of a run is allowed when its turn comes. -/
def Disciplined : List (ℕ × CacheOp) → CCoinsView → Layers COutPoint Coin → Prop
  | [], _, _ => True
  | (i, op) :: rest, v, L =>
    allowedAt i op v L ∧ ∀ v', v.modifyAt op.exec i = .ok v' →
      Disciplined rest v' (L.modifyAt op.apply i)

/-! ## Agreement -/

/-- A stack agrees with a map with layered updates, level by level and outpoint by outpoint. -/
def Refines : CCoinsView → Layers COutPoint Coin → Prop
  | .db d, .base m => ∀ o, d.getCoin o = m o
  | .cache cacheCoins _ base, .layer updates below =>
    Refines base below ∧ ∀ o, SlotAgrees (cacheCoins.lookup o) (updates o) (below.lookup o)
  | _, _ => False

variable {L below : Layers COutPoint Coin} {v : CCoinsView}
  {updates : COutPoint → Option (Option Coin)} {view : CCoinsViewCache} {outpoint : COutPoint}

theorem Refines.visible (h : Refines v L) (o : COutPoint) : v.visible o = L.lookup o := by
  induction v generalizing L with
  | db d =>
    cases L with
    | base m => exact h o
    | layer => exact h.elim
  | cache cacheCoins hashBlock base ih =>
    cases L with
    | base m => exact h.elim
    | layer updates below =>
      show slotVisible (cacheCoins.lookup o) (base.visible o) = (updates o).getD (below.lookup o)
      simp [ih h.1, (h.2 o).visible]

theorem Refines.level (h : Refines v L) (i : ℕ) : Refines (v.level i) (L.level i) := by
  induction i generalizing v L with
  | zero => exact h
  | succ i ih => cases v <;> cases L <;> first | exact h | exact h.elim | exact ih h.1

theorem CCoinsView.level_succ (v : CCoinsView) (i : ℕ) : v.level (i + 1) = (v.level i).level 1 := by
  induction i generalizing v with
  | zero => rfl
  | succ i ih =>
    cases v with
    | db d => rfl
    | cache cacheCoins hashBlock base => exact ih base

open CCoinsView

theorem Refines.fresh (h : Refines v L) {o : COutPoint} {entry : CCoinsCacheEntry}
    (hentry : v.entryAt o = some entry) (hfresh : entry.fresh) : (v.level 1).visible o = none := by
  cases v with
  | db d => simp [entryAt] at hentry
  | cache cacheCoins hashBlock base =>
    cases L with
    | base m => exact h.elim
    | layer updates below => exact (h.1.visible o).trans ((h.2 o).fresh hentry hfresh)

theorem Refines.exists_layer (h : Refines view.toView L) :
    ∃ updates below, L = .layer updates below := by
  cases L with
  | base m => exact h.elim
  | layer updates below => exact ⟨updates, below, rfl⟩

theorem refines_cacheStack (d : CCoinsViewDB) (depth : ℕ) :
    Refines (cacheStack d depth) (Layers.empty d.getCoin depth) := by
  induction depth with
  | zero => exact fun _ => rfl
  | succ depth ih => exact ⟨ih, fun o => .absent _⟩

theorem Refines.lookup_isSpent (h : Refines v L) {o : COutPoint} {coin : Coin}
    (hcoin : L.lookup o = some coin) : coin.isSpent = false :=
  v.isSpent_of_visible ((h.visible o).trans hcoin)

/-! ## Reading -/

section
variable (h : Refines view.toView (.layer updates below))
include h

theorem Refines.fetched (outpoint : COutPoint) :
    view.fetched outpoint = (view.cacheCoins.lookup outpoint).or
      ((below.lookup outpoint).map CCoinsCacheEntry.clean) := by
  rw [← h.1.visible outpoint]
  rfl

/-- Replacing an entry by one that agrees with a new update, if the read below is harmless. -/
theorem Refines.replace {view' : CCoinsViewCache}
    {slot : Option CCoinsCacheEntry} {update : Option (Option Coin)}
    (hread : Refines (view.base.getCoin outpoint).2 below)
    (hview : Replaced view outpoint slot view')
    (hslot : SlotAgrees slot update (below.lookup outpoint)) :
    Refines view'.toView (.layer (Function.update updates outpoint update) below) := by
  refine ⟨?_, fun o => ?_⟩
  · rcases hview.base with hbase | hbase
    · exact hbase ▸ h.1
    · exact hbase ▸ hread
  · by_cases ho : o = outpoint
    · rwa [ho, hview.lookup_self, update_self]
    · simp [hview.lookup_ne o ho, update_of_ne ho, h.2 o]

/-- Fetching, if the read below is harmless. -/
theorem Refines.fetch (hread : Refines (view.base.getCoin outpoint).2 below) :
    Refines (view.fetchCoin outpoint).2.toView (.layer updates below) := by
  have hslot := (h.2 outpoint).fetch (fun _ => h.1.lookup_isSpent)
  rw [← h.fetched outpoint] at hslot
  have hnew := h.replace hread (view.fetchCoin_spec outpoint).2 hslot
  simpa using hnew

end

theorem Refines.getCoin (h : Refines v L) (outpoint : COutPoint) :
    Refines (v.getCoin outpoint).2 L := by
  induction v generalizing L with
  | db d => exact h
  | cache cacheCoins hashBlock base ih =>
    have hview : Refines (⟨cacheCoins, hashBlock, base⟩ : CCoinsViewCache).toView L := h
    obtain ⟨updates, below, rfl⟩ := hview.exists_layer
    exact hview.fetch (ih h.1)

theorem Refines.fetchCoin (h : Refines view.toView L) (outpoint : COutPoint) :
    Refines (view.fetchCoin outpoint).2.toView L := by
  obtain ⟨updates, below, rfl⟩ := h.exists_layer
  exact h.fetch (h.1.getCoin outpoint)

/-! ## Changing -/

open CacheOp

theorem Refines.spendCoin (h : Refines view.toView L) (outpoint : COutPoint) :
    Refines (view.spendCoin outpoint).2.toView ((spendCoin outpoint).apply L) := by
  obtain ⟨updates, below, rfl⟩ := h.exists_layer
  have hslot := (h.2 outpoint).spend
  rw [← h.fetched outpoint] at hslot
  have hnew := h.replace (h.1.getCoin outpoint) (view.spendCoin_spec outpoint).2 hslot
  have happly : (spendCoin outpoint).apply (.layer updates below)
      = if ((updates outpoint).getD (below.lookup outpoint)).isSome
        then .layer (update updates outpoint (some none)) below else .layer updates below := rfl
  rw [happly]
  split_ifs at hnew ⊢
  · exact hnew
  · simpa using hnew

theorem Refines.uncache (h : Refines view.toView L) (outpoint : COutPoint) :
    Refines (view.uncache outpoint).toView L := by
  obtain ⟨updates, below, rfl⟩ := h.exists_layer
  unfold CCoinsViewCache.uncache
  split
  · next entry hentry =>
      split_ifs
      · exact h
      · have hnew := h.replace (h.1.getCoin outpoint) (Replaced.erase view outpoint)
          ((h.2 outpoint).uncache hentry (by simp_all))
        simpa using hnew
  · exact h

/-- `AddCoin`: it returns, or throws and leaves everything as it was. -/
theorem Refines.addCoin (h : Refines view.toView L) {coin : Coin} {possible_overwrite : Bool}
    (hallowed : (addCoin outpoint coin possible_overwrite).allowed L) :
    ∃ view', (addCoin outpoint coin possible_overwrite).exec view = .ok view'
      ∧ Refines view'.toView ((addCoin outpoint coin possible_overwrite).apply L) := by
  obtain ⟨updates, below, rfl⟩ := h.exists_layer
  obtain ⟨hspent, hfree⟩ := hallowed
  have hlookup : (Layers.layer updates below).lookup outpoint
      = (updates outpoint).getD (below.lookup outpoint) := rfl
  simp only [exec, CCoinsViewCache.addCoin, apply, hspent, Bool.false_eq_true, if_false, hlookup]
  cases hscript : coin.out.scriptPubKey.isUnspendable with
  | true => exact ⟨view, rfl, h⟩
  | false =>
    by_cases hthrow : possible_overwrite = false
        ∧ ((view.cacheCoins.lookup outpoint).getD ⟨coinEmpty, false, false⟩).coin.isSpent
          = false
    · have hsome := (h.2 outpoint).add_throws hthrow.2
      simp only [hthrow.1, hthrow.2, hsome, Bool.not_false, Bool.and_self, if_true]
      exact ⟨view, rfl, h⟩
    · have hok : possible_overwrite
          ∨ ((view.cacheCoins.lookup outpoint).getD ⟨coinEmpty, false, false⟩).coin.isSpent
            := by
        rw [not_and_or] at hthrow
        simpa using hthrow
      have hcond : (!possible_overwrite && !((view.cacheCoins.lookup outpoint).getD
          ⟨coinEmpty, false, false⟩).coin.isSpent) = false := by
        rcases hok with hok | hok <;> simp [hok]
      rw [hcond, (h.2 outpoint).add_free hfree hok]
      refine ⟨_, rfl, ?_⟩
      exact h.replace (h.1.getCoin outpoint) (Replaced.insert view outpoint _)
        ((h.2 outpoint).add hspent hfree hok)

/-! ## Flushing -/

/-- An entry of the child's map, or a key that is not in it. -/
theorem CCoinsMap.lookup_cases (mapCoins : CCoinsMap) (o : COutPoint) :
    (∃ entry, mapCoins.lookup o = some entry ∧ ⟨o, entry⟩ ∈ mapCoins.entries)
      ∨ (mapCoins.lookup o = none ∧ o ∉ mapCoins.entries.keys) := by
  cases hentry : mapCoins.lookup o with
  | some entry => exact .inl ⟨entry, rfl, AList.mem_lookup_iff.mp hentry⟩
  | none => exact .inr ⟨rfl, AList.lookup_eq_none.mp hentry⟩

theorem batchWrite_refines_db {d : CCoinsViewDB} {m : COutPoint → Option Coin}
    (h : Refines (.db d) (.base m)) {mapCoins : CCoinsMap} (hashBlock : Uint256)
    (hchild : ∀ o, SlotAgrees (mapCoins.lookup o) (updates o) (m o)) :
    ∃ v', (CCoinsView.db d).batchWrite mapCoins hashBlock = .ok v'
      ∧ Refines v' ((Layers.base m).push updates) := by
  obtain ⟨coins, hok, hentries, hothers⟩ := KeyedFold.foldlM_spec
    (fun coins o => coins.lookup o)
    (fun coins o child => (.ok (batchWriteDB coins o child) : Except CppError _))
    (fun o child stored => SlotAgrees (some child) (updates o) (stored.map Subtype.val))
    (fun o _ stored stored' =>
      stored'.map Subtype.val = (updates o).getD (stored.map Subtype.val))
    (fun coins o child hpre => ⟨_, rfl, batchWriteDB_spec hpre⟩)
    mapCoins.entries d.coins mapCoins.nodupKeys (by
      intro e he
      have hslot := hchild e.1
      rw [AList.mem_lookup_iff.mpr he, ← h e.1] at hslot
      exact hslot)
  refine ⟨_, by rw [batchWrite, hok]; rfl, ?_⟩
  intro o
  show (coins.lookup o).map Subtype.val = (updates o).getD (m o)
  rw [← h o]
  rcases mapCoins.lookup_cases o with ⟨entry, -, hmem⟩ | ⟨hnone, hkey⟩
  · exact hentries _ hmem
  · have hslot := hchild o
    rw [hnone, ← h o] at hslot
    rw [hothers o hkey]
    exact hslot.visible

theorem batchWrite_refines_cache {cacheCoins : CCoinsMap} {hashBlock : Uint256} {base : CCoinsView}
    {own : COutPoint → Option (Option Coin)}
    (h : Refines (.cache cacheCoins hashBlock base) (.layer own below)) {mapCoins : CCoinsMap}
    (hashBlockIn : Uint256)
    (hchild : ∀ o, SlotAgrees (mapCoins.lookup o) (updates o) ((own o).getD (below.lookup o))) :
    ∃ v', (cache cacheCoins hashBlock base).batchWrite mapCoins hashBlockIn = .ok v'
      ∧ Refines v' ((Layers.layer own below).push updates) := by
  obtain ⟨cacheCoins', hok, hentries, hothers⟩ := KeyedFold.foldlM_spec
    (fun (cacheCoins : CCoinsMap) o => cacheCoins.lookup o) batchWriteEntry
    (fun o child slot => SlotAgrees (some child) (updates o) ((own o).getD (below.lookup o))
      ∧ SlotAgrees slot (own o) (below.lookup o))
    (fun o _ _ slot' => SlotAgrees slot' ((updates o).or (own o)) (below.lookup o))
    (fun cacheCoins o child hpre => batchWriteEntry_spec hpre.1 hpre.2)
    mapCoins.entries cacheCoins mapCoins.nodupKeys (by
      intro e he
      have hslot := hchild e.1
      rw [AList.mem_lookup_iff.mpr he] at hslot
      exact ⟨hslot, h.2 e.1⟩)
  refine ⟨.cache cacheCoins' hashBlockIn base, by rw [batchWrite, hok]; rfl, h.1, ?_⟩
  intro o
  rcases mapCoins.lookup_cases o with ⟨entry, -, hmem⟩ | ⟨hnone, hkey⟩
  · exact hentries _ hmem
  · have hslot := hchild o
    rw [hnone] at hslot
    rw [hothers o hkey]
    exact hslot.merge_none (h.2 o)

/-- **`Flush` pushes the updates one level down** and never finds a misapplied `FRESH` flag. -/
theorem Refines.flush (h : Refines view.toView L) :
    ∃ view', view.flush = .ok view' ∧ Refines view'.toView L.flush := by
  obtain ⟨updates, below, rfl⟩ := h.exists_layer
  obtain ⟨cacheCoins, hashBlock, base⟩ := view
  have hwrite : ∃ base', base.batchWrite cacheCoins hashBlock = .ok base'
      ∧ Refines base' (below.push updates) := by
    obtain ⟨hbase, hslots⟩ := h
    cases base <;> cases below
    · exact batchWrite_refines_db hbase hashBlock hslots
    · exact hbase.elim
    · exact hbase.elim
    · exact batchWrite_refines_cache hbase hashBlock hslots
  obtain ⟨base', hok, hbase'⟩ := hwrite
  refine ⟨⟨∅, hashBlock, base'⟩, ?_, hbase', fun o => .absent _⟩
  rw [CCoinsViewCache.flush, hok]
  rfl

/-! ## Any level -/

/-- Only the outpoint that an operation changes looks different from the top. -/
theorem CacheOp.lookup_apply {op : CacheOp} {o : COutPoint} (ho : o ∉ op.changes)
    (L : Layers COutPoint Coin) : (op.apply L).lookup o = L.lookup o := by
  cases op with
  | addCoin outpoint coin possible_overwrite =>
    simp only [changes, Option.mem_def, Option.some.injEq] at ho
    simp only [apply]
    split_ifs
    · rfl
    · exact Layers.lookup_set_ne (Ne.symm ho) _ L
  | spendCoin outpoint =>
    simp only [changes, Option.mem_def, Option.some.injEq] at ho
    simp only [apply]
    split_ifs
    · exact Layers.lookup_set_ne (Ne.symm ho) _ L
    · rfl
  | flush => exact L.lookup_flush o
  | _ => rfl

theorem SlotAgrees.of_indifferent {slot : Option CCoinsCacheEntry} {update : Option (Option Coin)}
    {below : Option Coin} (h : SlotAgrees slot update below)
    (hslot : slotIndifferent slot update) (below' : Option Coin) :
    SlotAgrees slot update below' := by
  cases h with
  | absent => exact .absent below'
  | updated coin fresh below h => exact .updated coin fresh below' (by simp_all [slotIndifferent])
  | _ => simp_all [slotIndifferent, CCoinsCacheEntry.clean]

theorem Refines.exec (h : Refines view.toView L) {op : CacheOp} (hallowed : op.allowed L) :
    ∃ view', op.exec view = .ok view' ∧ Refines view'.toView (op.apply L) := by
  cases op with
  | addCoin outpoint coin possible_overwrite => exact h.addCoin hallowed
  | spendCoin outpoint => exact ⟨_, rfl, h.spendCoin outpoint⟩
  | uncache outpoint => exact ⟨_, rfl, h.uncache outpoint⟩
  | setBestBlock hashBlock =>
    obtain ⟨updates, below, rfl⟩ := h.exists_layer
    exact ⟨_, rfl, h⟩
  | flush => exact h.flush
  | _ outpoint => exact ⟨_, rfl, h.fetchCoin outpoint⟩

/-- **An operation on any level keeps the agreement.** -/
theorem modifyAt_refines {op : CacheOp} {i : ℕ} (h : Refines v L) (hallowed : allowedAt i op v L) :
    ∃ v', v.modifyAt op.exec i = .ok v' ∧ Refines v' (L.modifyAt op.apply i) := by
  induction i generalizing v L with
  | zero =>
    obtain ⟨hdepth, hop, -⟩ := hallowed
    cases v with
    | db d => exact absurd hdepth (Nat.not_lt_zero 0)
    | cache cacheCoins hashBlock base =>
      let view : CCoinsViewCache := ⟨cacheCoins, hashBlock, base⟩
      have hview : Refines view.toView L := h
      obtain ⟨view', hok, hview'⟩ := hview.exec hop
      refine ⟨view'.toView, ?_, hview'⟩
      rw [modifyAt, hok]
      rfl
  | succ i ih =>
    obtain ⟨hdepth, hop, habove⟩ := hallowed
    cases v with
    | db d => exact absurd hdepth (Nat.not_lt_zero _)
    | cache cacheCoins hashBlock base =>
      cases L with
      | base m => exact h.elim
      | layer updates below =>
        have hindiff : ∀ o ∈ op.changes,
            slotIndifferent (cacheCoins.lookup o) (updates o)
              ∧ indifferentAbove o i base below := by
          intro o ho
          simpa [indifferentAbove] using habove o ho
        obtain ⟨base', hok, hbase'⟩ := ih h.1
          ⟨Nat.lt_of_succ_lt_succ hdepth, hop, fun o ho => (hindiff o ho).2⟩
        refine ⟨.cache cacheCoins hashBlock base', ?_, hbase', ?_⟩
        · rw [modifyAt, hok]
          rfl
        · intro o
          by_cases ho : o ∈ op.changes
          · exact (h.2 o).of_indifferent (hindiff o ho).1 _
          · simp [Layers.lookup_modifyAt (fun L => lookup_apply ho L), h.2 o]

/-- A disciplined run keeps the agreement and is never stopped by an exception. -/
theorem runCaches_refines {ops : List (ℕ × CacheOp)} (h : Refines v L) (hdisc : Disciplined ops v L) :
    ∃ v', runCaches ops v = .ok v' ∧ Refines v' (runLayers ops L) := by
  induction ops generalizing v L with
  | nil => exact ⟨v, rfl, h⟩
  | cons op rest ih =>
    obtain ⟨hallowed, hrest⟩ := hdisc
    obtain ⟨v₁, hok, h₁⟩ := modifyAt_refines h hallowed
    obtain ⟨v', hrun, h'⟩ := ih h₁ (hrest v₁ hok)
    refine ⟨v', ?_, h'⟩
    rwa [runCaches, List.foldlM_cons, hok]

/-- **A stack of caches is a map with layered updates.** Over any database and to any depth, after
    any run of operations on its levels in which updates are announced and do not go behind the back
    of a level above: no exception was thrown, every level shows what the layered map shows, and a
    `FRESH` entry never has an unspent coin below it. -/
theorem cacheStack_refines_layers (d : CCoinsViewDB) (depth : ℕ) (ops : List (ℕ × CacheOp))
    (hdisc : Disciplined ops (cacheStack d depth) (Layers.empty d.getCoin depth)) :
    ∃ v, runCaches ops (cacheStack d depth) = .ok v ∧ ∀ i o,
      ((v.level i).getCoin o).1 = ((runLayers ops (Layers.empty d.getCoin depth)).level i).lookup o
      ∧ (∀ view : CCoinsViewCache, v.level i = view.toView → (view.accessCoin o).1.unspent
        = ((runLayers ops (Layers.empty d.getCoin depth)).level i).lookup o)
      ∧ ∀ entry, (v.level i).entryAt o = some entry → entry.fresh = true →
        ((v.level (i + 1)).getCoin o).1 = none := by
  obtain ⟨v, hrun, h⟩ := runCaches_refines (refines_cacheStack d depth) hdisc
  refine ⟨v, hrun, ?_⟩
  intro i o
  have hlevel := h.level i
  refine ⟨?_, ?_, ?_⟩
  · simp [((v.level i).getCoin_spec o).1, hlevel.visible o]
  · intro view hview
    rw [view.accessCoin_unspent o, ← hlevel.visible o, hview]
    rfl
  · intro entry hentry hfresh
    rw [v.level_succ i, (((v.level i).level 1).getCoin_spec o).1]
    exact hlevel.fresh hentry hfresh

/-- One unspent coin of 50 at the outpoint `(1, 0)`. -/
def oneCoin : Coin := ⟨⟨50, [0x51]⟩, false, 7⟩

/-- A database with that coin. -/
def oneCoinDB : CCoinsViewDB := ⟨(∅ : AList _).insert ⟨1, 0⟩ ⟨oneCoin, rfl⟩, 0⟩

/-- Spend it in the upper of two caches, create another one, and flush both to the database. -/
def spendAndFlush : List (ℕ × CacheOp) :=
  [(0, .getCoin ⟨1, 0⟩), (0, .spendCoin ⟨1, 0⟩), (0, .addCoin ⟨2, 0⟩ oneCoin false), (0, .flush),
    (1, .flush)]

theorem disciplined_spendAndFlush :
    Disciplined spendAndFlush (cacheStack oneCoinDB 2) (Layers.empty oneCoinDB.getCoin 2) := by
  refine ⟨⟨by decide, trivial, by simp [changes]⟩, ?_⟩
  rintro v ⟨⟩
  refine ⟨⟨by decide, trivial, fun _ _ => rfl⟩, ?_⟩
  rintro v ⟨⟩
  refine ⟨⟨by decide, ⟨rfl, .inr (.inl rfl)⟩, fun _ _ => rfl⟩, ?_⟩
  rintro v ⟨⟩
  refine ⟨⟨by decide, trivial, fun _ _ => rfl⟩, ?_⟩
  rintro v ⟨⟩
  exact ⟨⟨by decide, trivial, by simp [changes]⟩, fun _ _ => trivial⟩

theorem cacheStack_refines_layers_spendAndFlush :
    ∃ v, runCaches spendAndFlush (cacheStack oneCoinDB 2) = .ok v
      ∧ ((v.level 2).getCoin ⟨1, 0⟩).1 = none ∧ ((v.level 2).getCoin ⟨2, 0⟩).1 = some oneCoin := by
  obtain ⟨v, hrun, h⟩ :=
    cacheStack_refines_layers oneCoinDB 2 spendAndFlush disciplined_spendAndFlush
  exact ⟨v, hrun, (h 2 ⟨1, 0⟩).1, (h 2 ⟨2, 0⟩).1⟩

/-- Spending a coin behind the back of a cache that has read it: the upper cache goes on showing it,
    the layered map does not. -/
theorem cacheStack_stale_read :
    ∃ v, runCaches [(0, .getCoin ⟨1, 0⟩), (1, .spendCoin ⟨1, 0⟩)] (cacheStack oneCoinDB 2) = .ok v
      ∧ ((v.level 0).getCoin ⟨1, 0⟩).1 = some oneCoin
      ∧ ((runLayers [(0, .getCoin ⟨1, 0⟩), (1, .spendCoin ⟨1, 0⟩)]
        (Layers.empty oneCoinDB.getCoin 2)).level 0).lookup ⟨1, 0⟩ = none := by
  refine ⟨_, rfl, ?_, ?_⟩
  · decide
  · decide

end Binarium
