import Binarium.Mempool.Addition

set_option autoImplicit false

/-! # `UpdateForDescendants`

A transaction that comes back from a disconnected block may have descendants in the pool that it does not
know of. `UpdateForDescendants` walks over its descendants and adds up those that are not from the block
themselves. It gives up when it meets a dirty entry or has more than a hundred new entries to visit.

The descendants of entries from the block that were walked over before are cached: their cached
descendants are added to the set without a visit. So the set of descendants has members that were visited
and members whose descendants are all in the set already (`Searching.settled`). When nothing is staged
any more, it holds all descendants that are not from the block (`walkForDescendants_spec`). -/

namespace Binarium

open Closure Checks Descent Relation List Option

/-- `CTxMemPoolEntry::SetDirty`. -/
def CTxMemPoolEntry.setDirty (entry : CTxMemPoolEntry) : CTxMemPoolEntry :=
  { entry with
    nCountWithDescendants := 0
    nSizeWithDescendants := UInt64.ofNat entry.getTxSize
    nModFeesWithDescendants := entry.getModifiedFee }

/-- `cacheMap`: entries with their descendants. -/
abbrev DescendantCache := AList fun _ : Uint256 => SetEntries

/-- What the loop of `UpdateForDescendants` changes. -/
structure DescendantWalk where
  stageEntries : SetEntries
  setAllDescendants : SetEntries
  nChildrenToVisit : ℕ

namespace DescendantWalk

/-- One cached descendant of a child. -/
def addCacheEntry (setExclude : List Uint256) (w : DescendantWalk) (cacheEntry : Uint256) :
    DescendantWalk :=
  if cacheEntry ∈ w.setAllDescendants then w
  else
    { w with
      setAllDescendants := insertSet hashOrder cacheEntry w.setAllDescendants
      nChildrenToVisit :=
        if cacheEntry ∉ setExclude ∧ cacheEntry ∉ w.stageEntries then w.nChildrenToVisit + 1
        else w.nChildrenToVisit }

/-- One child of an entry that is visited. -/
def visitChild (cachedDescendants : DescendantCache) (setExclude : List Uint256) (w : DescendantWalk)
    (childEntry : Uint256) : DescendantWalk :=
  match cachedDescendants.lookup childEntry with
  | some cacheEntries => cacheEntries.foldl (addCacheEntry setExclude) w
  | none =>
    if childEntry ∈ w.setAllDescendants then w
    else if childEntry ∈ w.stageEntries then w
    else
      { w with
        stageEntries := insertSet hashOrder childEntry w.stageEntries
        nChildrenToVisit :=
          if childEntry ∉ setExclude then w.nChildrenToVisit + 1 else w.nChildrenToVisit }

/-- The loop over the children, which ends the walk when there is too much to visit. -/
def visitChildren (maxDescendantsToVisit : ℕ) (cachedDescendants : DescendantCache)
    (setExclude : List Uint256) : SetEntries → DescendantWalk → Option DescendantWalk
  | [], w => some w
  | childEntry :: rest, w =>
    let w := w.visitChild cachedDescendants setExclude childEntry
    if w.nChildrenToVisit > maxDescendantsToVisit then none
    else visitChildren maxDescendantsToVisit cachedDescendants setExclude rest w

end DescendantWalk

namespace CTxMemPool

/-- The loop of `UpdateForDescendants`: all descendants, or nothing when it returns false. -/
def walkForDescendants (pool : CTxMemPool) (maxDescendantsToVisit : ℕ)
    (cachedDescendants : DescendantCache) (setExclude : List Uint256) : ℕ → DescendantWalk → Option SetEntries
  | 0, w => some w.setAllDescendants
  | rounds + 1, w =>
    match w.stageEntries with
    | [] => some w.setAllDescendants
    | cit :: stageEntries =>
      if (pool.deref cit).isDirty then none
      else do
        let w ← DescendantWalk.visitChildren maxDescendantsToVisit cachedDescendants setExclude
          (pool.getMemPoolChildren cit)
          { w with
            stageEntries := stageEntries
            setAllDescendants := insertSet hashOrder cit w.setAllDescendants }
        pool.walkForDescendants maxDescendantsToVisit cachedDescendants setExclude rounds w

/-- What is added to the totals: size, fees and number of some entries. -/
def addUp (pool : CTxMemPool) (its : SetEntries) : Int64 × CAmount × Int64 :=
  its.foldl (fun (modify : Int64 × CAmount × Int64) cit =>
    (modify.1 + Int64.ofNat (pool.deref cit).getTxSize,
      modify.2.1 + (pool.deref cit).getModifiedFee, modify.2.2 + 1)) (0, 0, 0)

/-- `cachedDescendants[updateIt].insert(cit)` for some entries. -/
def cacheDescendants (cachedDescendants : DescendantCache) (updateIt : Uint256) (its : SetEntries) :
    DescendantCache :=
  its.foldl (fun (cached : DescendantCache) cit =>
    cached.insert updateIt (insertSet hashOrder cit ((cached.lookup updateIt).getD [])))
    cachedDescendants

/-- `CTxMemPool::UpdateForDescendants`; nothing where it returns false. -/
def updateForDescendants (pool : CTxMemPool) (updateIt : Uint256) (maxDescendantsToVisit : ℕ)
    (cachedDescendants : DescendantCache) (setExclude : List Uint256) :
    Option (CTxMemPool × DescendantCache) := do
  let setAllDescendants ← pool.walkForDescendants maxDescendantsToVisit cachedDescendants setExclude
    pool.mapTx.keys.length ⟨pool.getMemPoolChildren updateIt, [], 0⟩
  let counted := setAllDescendants.filter fun cit => cit ∉ setExclude
  let (modifySize, modifyFee, modifyCount) := pool.addUp counted
  some (pool.modifyTx updateIt fun e => e.updateState modifySize modifyFee modifyCount,
    cacheDescendants cachedDescendants updateIt counted)

variable {pool : CTxMemPool}

/-! ## The walk -/

/-- Every cached set holds the descendants of its entry that are not excluded, and the entry itself is
    excluded. -/
def CacheOk (pool : CTxMemPool) (setExclude : List Uint256) (cachedDescendants : DescendantCache) :
    Prop :=
  ∀ {u s}, cachedDescendants.lookup u = some s →
    u ∈ setExclude ∧ ∀ d, d ∈ s ↔ d ∉ setExclude ∧ TransGen pool.ChildLink u d

/-- The descendants of an entry, and itself, are in the set as far as they are not excluded. -/
def Covered (pool : CTxMemPool) (setExclude : List Uint256) (w : DescendantWalk) (c : Uint256) : Prop :=
  ∀ d, d ∉ setExclude → ReflTransGen pool.ChildLink c d → d ∈ w.setAllDescendants

/-- What the walk keeps, with the entries that were visited. -/
structure Searching (pool : CTxMemPool) (setExclude : List Uint256) (updateIt : Uint256)
    (visited : Finset Uint256) (w : DescendantWalk) : Prop where
  nodupStage : w.stageEntries.Nodup
  nodupAll : w.setAllDescendants.Nodup
  staged : ∀ d ∈ w.stageEntries, d ∉ visited ∧ TransGen pool.ChildLink updateIt d
  below : ∀ d ∈ w.setAllDescendants, TransGen pool.ChildLink updateIt d
  visitedIn : ∀ d ∈ visited, d ∈ w.setAllDescendants
  settled : ∀ d ∈ w.setAllDescendants, d ∈ visited ∨ pool.Covered setExclude w d

/-- A child of a visited entry has been seen to. -/
def Seen (pool : CTxMemPool) (setExclude : List Uint256) (visited : Finset Uint256)
    (w : DescendantWalk) (c : Uint256) : Prop :=
  c ∈ visited ∨ c ∈ w.stageEntries ∨ pool.Covered setExclude w c

/-- Nothing is unstaged and nothing leaves the set. -/
structure Grows (w w' : DescendantWalk) : Prop where
  stage : ∀ d ∈ w.stageEntries, d ∈ w'.stageEntries
  all : ∀ d ∈ w.setAllDescendants, d ∈ w'.setAllDescendants

variable {d : Uint256} {maxDescendantsToVisit : ℕ}

section Walk

variable {setExclude : List Uint256} {visited : Finset Uint256} {updateIt : Uint256}
  {w w' w'' : DescendantWalk} {cachedDescendants : DescendantCache}

theorem Grows.refl (w : DescendantWalk) : Grows w w := ⟨fun _ h => h, fun _ h => h⟩

theorem Grows.trans (h : Grows w w') (h' : Grows w' w'') : Grows w w'' :=
  ⟨fun d hd => h'.stage d (h.stage d hd), fun d hd => h'.all d (h.all d hd)⟩

variable {c : Uint256}

theorem Covered.mono (h : Grows w w') (hc : pool.Covered setExclude w c) :
    pool.Covered setExclude w' c :=
  fun d hd hreach => h.all d (hc d hd hreach)

theorem Seen.mono (h : Grows w w') (hc : pool.Seen setExclude visited w c) :
    pool.Seen setExclude visited w' c := by
  grind [Seen, h.stage, Covered.mono]

/-! ### Cached descendants -/

open DescendantWalk

theorem mem_addCacheEntry {a : Uint256} :
    d ∈ (w.addCacheEntry setExclude a).setAllDescendants ↔ d ∈ w.setAllDescendants ∨ d = a := by
  grind [addCacheEntry, mem_insertSet]

theorem mem_foldl_addCacheEntry {s : SetEntries} :
    d ∈ (s.foldl (addCacheEntry setExclude) w).setAllDescendants
      ↔ d ∈ w.setAllDescendants ∨ d ∈ s := by
  refine (foldl_gains (Q := fun (w : DescendantWalk) d => d ∈ w.setAllDescendants) (g := id)
    (b := d) fun w a b => mem_addCacheEntry).trans ?_
  simp

theorem stage_foldl_addCacheEntry (s : SetEntries) :
    (s.foldl (addCacheEntry setExclude) w).stageEntries = w.stageEntries :=
  foldl_keeps (g := stageEntries) (fun w a => by grind [addCacheEntry]) s w

theorem nodup_foldl_addCacheEntry (s : SetEntries) (h : w.setAllDescendants.Nodup) :
    (s.foldl (addCacheEntry setExclude) w).setAllDescendants.Nodup := by
  refine foldl_invariant (Q := fun w : DescendantWalk => w.setAllDescendants.Nodup) (fun w a hw => ?_)
    s h
  grind [addCacheEntry, nodup_insertSet]

theorem grows_foldl_addCacheEntry (s : SetEntries) :
    Grows w (s.foldl (addCacheEntry setExclude) w) where
  stage := fun d hd => by rwa [stage_foldl_addCacheEntry]
  all := fun d hd => mem_foldl_addCacheEntry.mpr (.inl hd)

section
variable (hcache : pool.CacheOk setExclude cachedDescendants)
include hcache

/-- A child whose descendants are cached is covered with them. -/
theorem covered_of_cached {s : SetEntries} (hc : cachedDescendants.lookup c = some s) :
    pool.Covered setExclude (s.foldl (addCacheEntry setExclude) w) c := by
  obtain ⟨hexclude, hmem⟩ := hcache hc
  intro d hd hreach
  refine mem_foldl_addCacheEntry.mpr (.inr ((hmem d).mpr ⟨hd, ?_⟩))
  rcases reflTransGen_iff_eq_or_transGen.mp hreach with rfl | hreach
  · exact absurd hexclude hd
  · exact hreach

theorem Searching.addCached (h : pool.Searching setExclude updateIt visited w) {s : SetEntries}
    (hc : cachedDescendants.lookup c = some s) (hbelow : TransGen pool.ChildLink updateIt c) :
    pool.Searching setExclude updateIt visited
      (s.foldl (addCacheEntry setExclude) w) := by
  have hgrows : Grows w (s.foldl (addCacheEntry setExclude) w) :=
    grows_foldl_addCacheEntry s
  obtain ⟨-, hmem⟩ := hcache hc
  refine ⟨?_, nodup_foldl_addCacheEntry s h.nodupAll, ?_, ?_,
    fun d hd => hgrows.all d (h.visitedIn d hd), ?_⟩
  · simp [stage_foldl_addCacheEntry, h.nodupStage]
  · rw [stage_foldl_addCacheEntry]
    exact h.staged
  · intro d hd
    rcases mem_foldl_addCacheEntry.mp hd with hd | hd
    · exact h.below d hd
    · exact hbelow.trans ((hmem d).mp hd).2
  · intro d hd
    rcases mem_foldl_addCacheEntry.mp hd with hd | hd
    · exact (h.settled d hd).imp_right fun hcovered => hcovered.mono hgrows
    · refine .inr fun e he hreach => mem_foldl_addCacheEntry.mpr (.inr ((hmem e).mpr ⟨he, ?_⟩))
      exact ((hmem d).mp hd).2.trans_left hreach

/-! ### One child -/

/-- **A child is visited**: its cached descendants are added, or it is staged unless it is known. -/
theorem Searching.visitChild (h : pool.Searching setExclude updateIt visited w)
    (hbelow : TransGen pool.ChildLink updateIt c) :
    pool.Searching setExclude updateIt visited (w.visitChild cachedDescendants setExclude c)
      ∧ Grows w (w.visitChild cachedDescendants setExclude c)
      ∧ pool.Seen setExclude visited (w.visitChild cachedDescendants setExclude c) c := by
  unfold DescendantWalk.visitChild
  cases hc : cachedDescendants.lookup c with
  | some s =>
    exact ⟨h.addCached hcache hc hbelow, grows_foldl_addCacheEntry s,
      .inr (.inr (covered_of_cached hcache hc))⟩
  | none =>
    by_cases hall : c ∈ w.setAllDescendants
    · rw [if_pos hall]
      exact ⟨h, Grows.refl w, (h.settled c hall).imp_right .inr⟩
    · rw [if_neg hall]
      by_cases hstage : c ∈ w.stageEntries
      · rw [if_pos hstage]
        exact ⟨h, Grows.refl w, .inr (.inl hstage)⟩
      · rw [if_neg hstage]
        refine ⟨⟨nodup_insertSet hashOrder h.nodupStage, h.nodupAll, ?_, h.below, h.visitedIn,
          h.settled⟩, ⟨fun d hd => (mem_insertSet hashOrder).mpr (.inr hd), fun d hd => hd⟩,
          .inr (.inl ((mem_insertSet hashOrder).mpr (.inl rfl)))⟩
        intro d hd
        rcases (mem_insertSet hashOrder).mp hd with rfl | hd
        · exact ⟨fun hvisited => hall (h.visitedIn d hvisited), hbelow⟩
        · exact h.staged d hd

theorem Searching.visitChildren (children : SetEntries) : ∀ {w w' : DescendantWalk},
    pool.Searching setExclude updateIt visited w →
    (∀ c ∈ children, TransGen pool.ChildLink updateIt c) →
    DescendantWalk.visitChildren maxDescendantsToVisit cachedDescendants setExclude children w
      = some w' →
    pool.Searching setExclude updateIt visited w' ∧ Grows w w'
      ∧ ∀ c ∈ children, pool.Seen setExclude visited w' c := by
  induction children with
  | nil =>
    intro w w' h _ hvisit
    cases hvisit
    exact ⟨h, Grows.refl w, by simp⟩
  | cons c rest ih =>
    intro w w' h hbelow hvisit
    obtain ⟨hfirst, hrest⟩ := forall_mem_cons.mp hbelow
    obtain ⟨hstep, hgrows, hseen⟩ := h.visitChild hcache hfirst
    rw [DescendantWalk.visitChildren] at hvisit
    split_ifs at hvisit
    obtain ⟨hdone, hmore, hall⟩ := ih hstep hrest hvisit
    exact ⟨hdone, hgrows.trans hmore, forall_mem_cons.mpr ⟨hseen.mono hmore, hall⟩⟩

end

/-! ### All rounds -/

/-- The children of the entry and of all visited entries have been seen to. -/
def AllSeen (pool : CTxMemPool) (setExclude : List Uint256) (updateIt : Uint256)
    (visited : Finset Uint256) (w : DescendantWalk) : Prop :=
  ∀ v, v = updateIt ∨ v ∈ visited → ∀ c, pool.ChildLink v c → pool.Seen setExclude visited w c

section
variable (h : pool.Searching setExclude updateIt visited w)
include h

/-- **With nothing staged, all descendants that are not excluded have been found.** -/
theorem Searching.complete
    (hseen : pool.AllSeen setExclude updateIt visited w) (hstage : w.stageEntries = [])
    (hd : d ∉ setExclude) (hreach : TransGen pool.ChildLink updateIt d) :
    d ∈ w.setAllDescendants := by
  -- along a path entries are visited until one is covered
  have hpath : d ∈ visited
      ∨ ∃ c, pool.Covered setExclude w c ∧ ReflTransGen pool.ChildLink c d := by
    have hnext : ∀ {v c}, (v = updateIt ∨ v ∈ visited) → pool.ChildLink v c → c ∈ visited
        ∨ ∃ c', pool.Covered setExclude w c' ∧ ReflTransGen pool.ChildLink c' c := by
      intro v c hv hlink
      grind [Seen, hseen v hv c hlink]
    clear hd
    induction hreach with
    | single hlink => exact hnext (.inl rfl) hlink
    | tail _ hlink ih =>
      rcases ih with hvisited | ⟨c, hcovered, hreach⟩
      · exact hnext (.inr hvisited) hlink
      · exact .inr ⟨c, hcovered, hreach.tail hlink⟩
  rcases hpath with hvisited | ⟨c, hcovered, hreach⟩
  · exact h.visitedIn d hvisited
  · exact hcovered d hd hreach

/-- A staged entry is taken off the stage and visited. -/
theorem Searching.visit {cit : Uint256} {stageEntries : SetEntries}
    (hstage : w.stageEntries = cit :: stageEntries) :
    pool.Searching setExclude updateIt (insert cit visited)
      { w with
        stageEntries := stageEntries
        setAllDescendants := insertSet hashOrder cit w.setAllDescendants } := by
  have hnodup := h.nodupStage
  have hstaged := h.staged
  rw [hstage] at hnodup hstaged
  obtain ⟨hcit, hnodup⟩ := nodup_cons.mp hnodup
  refine ⟨hnodup, nodup_insertSet hashOrder h.nodupAll, ?_, ?_, ?_, ?_⟩
  · grind
  · grind [mem_insertSet, h.below]
  · grind [mem_insertSet, h.visitedIn]
  · grind [mem_insertSet, h.settled, Covered]

/-- **One round of the walk.** -/
theorem Searching.round (hcache : pool.CacheOk setExclude cachedDescendants) {cit : Uint256}
    {stageEntries : SetEntries} (hseen : pool.AllSeen setExclude updateIt visited w)
    (hstage : w.stageEntries = cit :: stageEntries)
    (hvisit : DescendantWalk.visitChildren maxDescendantsToVisit cachedDescendants setExclude
      (pool.getMemPoolChildren cit)
      { w with
        stageEntries := stageEntries
        setAllDescendants := insertSet hashOrder cit w.setAllDescendants } = some w') :
    pool.Searching setExclude updateIt (insert cit visited) w'
      ∧ pool.AllSeen setExclude updateIt (insert cit visited) w' := by
  have hbelow := (h.staged cit (hstage ▸ mem_cons_self)).2
  obtain ⟨hdone, hgrows, hchildren⟩ := Searching.visitChildren hcache (pool.getMemPoolChildren cit)
    (h.visit hstage) (fun c hc => hbelow.tail hc) hvisit
  refine ⟨hdone, fun v hv c hlink => ?_⟩
  by_cases hv' : v = cit
  · subst hv'
    exact hchildren c hlink
  · refine Seen.mono hgrows ?_
    grind [Seen, Covered, mem_insertSet, hseen v (by grind) c hlink]

end

section

variable (hpool : pool.Consistent) (hcache : pool.CacheOk setExclude cachedDescendants)
  {all : SetEntries}

include hpool hcache

theorem Searching.walk (rounds : ℕ) :
    ∀ {visited : Finset Uint256} {w : DescendantWalk},
    pool.Searching setExclude updateIt visited w → pool.AllSeen setExclude updateIt visited w →
    pool.mapTx.keys.toFinset.card ≤ rounds + visited.card →
    pool.walkForDescendants maxDescendantsToVisit cachedDescendants setExclude rounds w = some all →
    all.Nodup ∧ (∀ d ∈ all, TransGen pool.ChildLink updateIt d)
      ∧ ∀ d, d ∉ setExclude → TransGen pool.ChildLink updateIt d → d ∈ all := by
  have hexists : ∀ {d}, TransGen pool.ChildLink updateIt d → d ∈ pool.mapTx.keys.toFinset := by
    intro d hd
    obtain ⟨c, -, hlink⟩ := TransGen.tail'_iff.mp hd
    exact mem_keys_iff.mpr (hpool.exists_of_childLink hlink).2
  induction rounds with
  | zero =>
    intro visited w h hseen hcard hwalk
    cases hwalk
    have hvisited : visited = pool.mapTx.keys.toFinset :=
      Finset.eq_of_subset_of_card_le (fun d hd => hexists (h.below d (h.visitedIn d hd))) (by omega)
    have hstage : w.stageEntries = [] := by
      refine eq_nil_iff_forall_not_mem.mpr fun d hd => ?_
      obtain ⟨hfresh, hbelow⟩ := h.staged d hd
      exact hfresh (hvisited ▸ hexists hbelow)
    exact ⟨h.nodupAll, h.below, fun d hd hreach => h.complete hseen hstage hd hreach⟩
  | succ rounds ih =>
    intro visited w h hseen hcard hwalk
    rw [walkForDescendants] at hwalk
    cases hstage : w.stageEntries with
    | nil =>
      rw [hstage] at hwalk
      cases hwalk
      exact ⟨h.nodupAll, h.below, fun d hd hreach => h.complete hseen hstage hd hreach⟩
    | cons cit stageEntries =>
      rw [hstage] at hwalk
      simp only at hwalk
      split_ifs at hwalk
      obtain ⟨w', hvisit, hwalk⟩ := bind_eq_some_iff.mp hwalk
      obtain ⟨hstep, hall⟩ := h.round hcache hseen hstage hvisit
      refine ih hstep hall ?_ hwalk
      rw [Finset.card_insert_of_notMem (h.staged cit (hstage ▸ mem_cons_self)).1]
      omega

/-- **The walk finds the descendants**, all of those that are not excluded. -/
theorem walkForDescendants_spec
    (hwalk : pool.walkForDescendants maxDescendantsToVisit cachedDescendants setExclude
      pool.mapTx.keys.length ⟨pool.getMemPoolChildren updateIt, [], 0⟩ = some all) :
    all.Nodup ∧ (∀ d ∈ all, TransGen pool.ChildLink updateIt d)
      ∧ ∀ d, d ∉ setExclude → TransGen pool.ChildLink updateIt d → d ∈ all := by
  have hstart : pool.Searching setExclude updateIt ∅ ⟨pool.getMemPoolChildren updateIt, [], 0⟩ :=
    ⟨(hpool.nodup updateIt).2, nodup_nil, fun d hd => ⟨by simp, .single hd⟩, by simp, by simp,
      by simp⟩
  refine Searching.walk hpool hcache _ hstart (fun v hv c hlink => ?_) ?_ hwalk
  · obtain rfl : v = updateIt := hv.resolve_right (by simp)
    exact .inr (.inl hlink)
  · simp [toFinset_card_of_nodup pool.mapTx.keys_nodup]

end

end Walk

/-! ## What the walk is used for -/

open CTxMemPoolEntry

theorem change_addUp (its : SetEntries) (hnodup : its.Nodup) :
    change (pool.addUp its).1 (pool.addUp its).2.1 (pool.addUp its).2.2
      = ∑ d ∈ its.toFinset, pool.weight d := by
  have hloop : ∀ (its : SetEntries) (modify : Int64 × CAmount × Int64),
      let result := its.foldl (fun (modify : Int64 × CAmount × Int64) cit =>
        (modify.1 + Int64.ofNat (pool.deref cit).getTxSize,
          modify.2.1 + (pool.deref cit).getModifiedFee, modify.2.2 + 1)) modify
      change result.1 result.2.1 result.2.2
        = change modify.1 modify.2.1 modify.2.2 + (its.map pool.weight).sum := by
    intro its
    induction its with
    | nil => exact fun modify => (add_zero _).symm
    | cons cit rest ih =>
      intro modify
      refine (ih _).trans ?_
      rw [map_cons, sum_cons, ← add_assoc]
      rfl
  rw [sum_toFinset _ hnodup]
  refine (hloop its (0, 0, 0)).trans ?_
  simp [show change 0 0 0 = (0 : Tally) from rfl]

theorem lookup_cacheDescendants_ne {updateIt u : Uint256} (hu : u ≠ updateIt) (its : SetEntries)
    (cachedDescendants : DescendantCache) :
    (cacheDescendants cachedDescendants updateIt its).lookup u = cachedDescendants.lookup u :=
  foldl_keeps (g := fun cached : DescendantCache => cached.lookup u)
    (fun _ _ => AList.lookup_insert_ne hu) its cachedDescendants

theorem mem_cacheDescendants {updateIt : Uint256} (its : SetEntries)
    {cachedDescendants : DescendantCache} :
    d ∈ ((cacheDescendants cachedDescendants updateIt its).lookup updateIt).getD []
      ↔ d ∈ (cachedDescendants.lookup updateIt).getD [] ∨ d ∈ its := by
  refine (foldl_gains (Q := fun (cached : DescendantCache) d => d ∈ (cached.lookup updateIt).getD [])
    (g := id) (b := d) fun cached cit d => ?_).trans (by simp)
  rw [AList.lookup_insert, getD_some, mem_insertSet, or_comm]
  rfl

theorem CacheOk.cacheDescendants {setExclude : List Uint256} {cachedDescendants : DescendantCache}
    (h : pool.CacheOk setExclude cachedDescendants) {updateIt : Uint256} (hin : updateIt ∈ setExclude)
    {its : SetEntries} (hits : ∀ d, d ∈ its ↔ d ∉ setExclude ∧ TransGen pool.ChildLink updateIt d) :
    pool.CacheOk setExclude (CTxMemPool.cacheDescendants cachedDescendants updateIt its) := by
  intro u s hs
  by_cases hu : u = updateIt
  · subst hu
    refine ⟨hin, fun d => ?_⟩
    have hmem : d ∈ ((CTxMemPool.cacheDescendants cachedDescendants u its).lookup u).getD []
        ↔ d ∈ (cachedDescendants.lookup u).getD [] ∨ d ∈ its := mem_cacheDescendants its
    cases hold : cachedDescendants.lookup u with
    | none => grind
    | some s => grind [(h hold).2 d]
  · rw [lookup_cacheDescendants_ne hu] at hs
    exact h hs

/-- **`UpdateForDescendants` adds the descendants that are not excluded to the totals of the entry**,
    unless it gives up. -/
theorem updateForDescendants_spec (hpool : pool.Consistent) {setExclude : List Uint256}
    {cachedDescendants cached' : DescendantCache}
    (hcache : pool.CacheOk setExclude cachedDescendants) {updateIt : Uint256}
    (hin : updateIt ∈ setExclude) {pool' : CTxMemPool}
    (h : pool.updateForDescendants updateIt maxDescendantsToVisit cachedDescendants setExclude =
      some (pool', cached')) :
    ∃ counted : Finset Uint256,
      (∀ d, d ∈ counted ↔ d ∉ setExclude ∧ TransGen pool.ChildLink updateIt d)
      ∧ Retallied pool pool' (fun x => if x = updateIt then ∑ d ∈ counted, pool.weight d else 0)
      ∧ pool'.mapLinks = pool.mapLinks ∧ Framed pool pool' ∧ pool.CacheOk setExclude cached'
      ∧ ∀ u, u ≠ updateIt → cached'.lookup u = cachedDescendants.lookup u := by
  obtain ⟨all, hwalk, h⟩ := bind_eq_some_iff.mp h
  obtain ⟨hnodup, hbelow, hcomplete⟩ := walkForDescendants_spec hpool hcache hwalk
  set counted := all.filter fun cit => cit ∉ setExclude
  have hpool' : pool.modifyTx updateIt (fun e => e.updateState (pool.addUp counted).1
      (pool.addUp counted).2.1 (pool.addUp counted).2.2) = pool' :=
    (Prod.ext_iff.mp (some.inj h)).1
  have hcached' : cacheDescendants cachedDescendants updateIt counted = cached' :=
    (Prod.ext_iff.mp (some.inj h)).2
  subst hpool' hcached'
  have hcounted : ∀ d, d ∈ counted ↔ d ∉ setExclude ∧ TransGen pool.ChildLink updateIt d := by
    intro d
    rw [mem_filter, decide_eq_true_eq, and_comm]
    exact and_congr_right fun hd => ⟨hbelow d, hcomplete d hd⟩
  refine ⟨counted.toFinset, fun d => ?_, ?_, rfl, ⟨rfl, rfl, rfl⟩, hcache.cacheDescendants hin hcounted,
    fun u hu => lookup_cacheDescendants_ne hu counted cachedDescendants⟩
  · simp [hcounted]
  · rw [← change_addUp _ (hnodup.filter _)]
    exact retallied_modifyTx _ _ _ updateIt

end CTxMemPool

end Binarium
