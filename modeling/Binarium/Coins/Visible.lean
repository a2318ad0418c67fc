import Binarium.Coins.Cache

set_option autoImplicit false

/-! # What a view shows

`visible` is the coin a view shows at an outpoint, with nothing said about how it is cached. Every
reading function returns it and leaves it unchanged at every outpoint, although it may fill caches
on the way down; this holds of every view, with no assumption on its entries. For the functions that
change a cache, the lemmas here say what becomes of its entries. -/

namespace Binarium

open CCoinsCacheEntry AList

/-- The unspent coin that a view shows at an outpoint. -/
def CCoinsView.visible : CCoinsView → COutPoint → Option Coin
  | .db d, outpoint => d.getCoin outpoint
  | .cache cacheCoins _ base, outpoint =>
    match cacheCoins.lookup outpoint with
    | some entry => entry.coin.unspent
    | none => base.visible outpoint

/-- The unspent coin that a cache shows at an outpoint. -/
def CCoinsViewCache.visible (view : CCoinsViewCache) : COutPoint → Option Coin := view.toView.visible

variable {outpoint : COutPoint} {view view' : CCoinsViewCache}

theorem CCoinsViewCache.visible_of_lookup {entry : CCoinsCacheEntry}
    (h : view.cacheCoins.lookup outpoint = some entry) :
    view.visible outpoint = entry.coin.unspent := by
  simp only [visible, toView, CCoinsView.visible, h]

theorem CCoinsViewCache.visible_of_lookup_none (h : view.cacheCoins.lookup outpoint = none) :
    view.visible outpoint = view.base.visible outpoint := by
  simp only [visible, toView, CCoinsView.visible, h]

theorem CCoinsViewCache.visible_congr
    (hentry : view'.cacheCoins.lookup outpoint = view.cacheCoins.lookup outpoint)
    (hbase : view'.base.visible outpoint = view.base.visible outpoint) :
    view'.visible outpoint = view.visible outpoint := by
  simp only [visible, toView, CCoinsView.visible, hentry, hbase]

theorem CCoinsView.isSpent_of_visible {coin : Coin} (v : CCoinsView) :
    v.visible outpoint = some coin → coin.isSpent = false := by
  induction v with
  | db d =>
    intro h
    obtain ⟨stored, -, rfl⟩ := Option.map_eq_some_iff.mp h
    exact stored.2
  | cache cacheCoins hashBlock base ih =>
    intro h
    simp only [visible] at h
    split at h
    · grind [Coin.unspent]
    · exact ih h

/-! ## Replacing one entry -/

/-- `view'` is `view` with the entry at `outpoint` replaced by `slot`; below, the same outpoint may
    have been read. -/
structure Replaced (view : CCoinsViewCache) (outpoint : COutPoint) (slot : Option CCoinsCacheEntry)
    (view' : CCoinsViewCache) : Prop where
  lookup_self : view'.cacheCoins.lookup outpoint = slot
  lookup_ne : ∀ o, o ≠ outpoint → view'.cacheCoins.lookup o = view.cacheCoins.lookup o
  hashBlock : view'.hashBlock = view.hashBlock
  base : view'.base = view.base ∨ view'.base = (view.base.getCoin outpoint).2

section

variable (view : CCoinsViewCache) (outpoint : COutPoint)

theorem Replaced.insert (entry : CCoinsCacheEntry) :
    Replaced view outpoint (some entry) (view.withCoins (view.cacheCoins.insert outpoint entry)) :=
  ⟨lookup_insert _, fun _ ho => lookup_insert_ne ho, rfl, .inl rfl⟩

theorem Replaced.erase :
    Replaced view outpoint none (view.withCoins (view.cacheCoins.erase outpoint)) :=
  ⟨lookup_erase _ _, fun _ ho => lookup_erase_ne ho, rfl, .inl rfl⟩

theorem Replaced.refl : Replaced view outpoint (view.cacheCoins.lookup outpoint) view :=
  ⟨rfl, fun _ _ => rfl, rfl, .inl rfl⟩

end

/-- A second replacement that does not read below. -/
theorem Replaced.trans {view₁ view₂ : CCoinsViewCache} {slot₁ slot₂ : Option CCoinsCacheEntry}
    (h₁ : Replaced view outpoint slot₁ view₁) (h₂ : Replaced view₁ outpoint slot₂ view₂)
    (hbase : view₂.base = view₁.base) : Replaced view outpoint slot₂ view₂ := by
  refine ⟨h₂.lookup_self, ?_, h₂.hashBlock.trans h₁.hashBlock, hbase ▸ h₁.base⟩
  intro o ho
  rw [h₂.lookup_ne o ho, h₁.lookup_ne o ho]

/-! ## Fetching -/

/-- A clean entry for a coin read from the parent view. -/
def CCoinsCacheEntry.clean (coin : Coin) : CCoinsCacheEntry := ⟨coin, false, false⟩

/-- The entry that `FetchCoin` finds or makes. -/
def CCoinsViewCache.fetched (view : CCoinsViewCache) (outpoint : COutPoint) :
    Option CCoinsCacheEntry :=
  (view.cacheCoins.lookup outpoint).or
    ((view.base.visible outpoint).map CCoinsCacheEntry.clean)

theorem CCoinsViewCache.fetchFrom_spec (view : CCoinsViewCache) (outpoint : COutPoint)
    (hgot : (view.base.getCoin outpoint).1 = view.base.visible outpoint) :
    (view.fetchCoin outpoint).1 = view.fetched outpoint
      ∧ Replaced view outpoint (view.fetched outpoint) (view.fetchCoin outpoint).2 := by
  unfold fetchCoin fetchFrom fetched
  split
  · next entry hentry =>
      have hrefl := Replaced.refl view outpoint
      rw [hentry] at hrefl ⊢
      exact ⟨rfl, hrefl⟩
  · next hnone =>
      rw [hnone]
      split <;> rename_i hbase <;> rw [hbase] at hgot
      · rw [← hgot]
        exact ⟨rfl, hnone, fun _ _ => rfl, rfl, .inr (by rw [hbase])⟩
      · -- the coin comes from a view, so it is not spent and the entry is not FRESH
        rw [← hgot, view.base.isSpent_of_visible hgot.symm]
        exact ⟨rfl, lookup_insert _, fun o ho => lookup_insert_ne ho, rfl,
          .inr (by rw [hbase])⟩

/-- The entry that is fetched holds the coin that is visible. -/
theorem CCoinsViewCache.fetched_unspent (view : CCoinsViewCache) (outpoint : COutPoint) :
    ((view.fetched outpoint).bind fun entry => entry.coin.unspent) = view.visible outpoint := by
  unfold fetched
  cases hentry : view.cacheCoins.lookup outpoint with
  | some entry => exact (visible_of_lookup hentry).symm
  | none =>
    rw [visible_of_lookup_none hentry]
    cases hbelow : view.base.visible outpoint with
    | none => rfl
    | some coin => exact Coin.unspent_of_not_isSpent (view.base.isSpent_of_visible hbelow)

/-- Fetching changes nothing that can be seen, if reading below does not. -/
theorem CCoinsViewCache.visible_of_fetched
    (h : Replaced view outpoint (view.fetched outpoint) view')
    (hbase : ∀ o, view'.base.visible o = view.base.visible o) (o : COutPoint) :
    view'.visible o = view.visible o := by
  by_cases ho : o = outpoint
  · subst ho
    rw [← view.fetched_unspent o]
    cases hentry : view.fetched o with
    | some entry => exact visible_of_lookup (h.lookup_self.trans hentry)
    | none =>
      rw [visible_of_lookup_none (h.lookup_self.trans hentry), hbase]
      exact Option.map_eq_none_iff.mp (Option.or_eq_none_iff.mp hentry).2
  · exact visible_congr (h.lookup_ne o ho) (hbase o)

/-- **Reading a view.** `GetCoin` returns what is visible and changes nothing that can be seen. -/
theorem CCoinsView.getCoin_spec (v : CCoinsView) (outpoint : COutPoint) :
    (v.getCoin outpoint).1 = v.visible outpoint
      ∧ ∀ o, (v.getCoin outpoint).2.visible o = v.visible o := by
  induction v with
  | db d => exact ⟨rfl, fun _ => rfl⟩
  | cache cacheCoins hashBlock base ih =>
    let view : CCoinsViewCache := ⟨cacheCoins, hashBlock, base⟩
    obtain ⟨hentry, hview⟩ := view.fetchFrom_spec outpoint ih.1
    constructor
    · show ((view.fetchCoin outpoint).1.bind fun entry => entry.coin.unspent) = _
      rw [hentry]
      exact view.fetched_unspent outpoint
    · refine CCoinsViewCache.visible_of_fetched hview fun o => ?_
      rcases hview.base with hbase | hbase
      · rw [hbase]
      · exact hbase ▸ ih.2 o

theorem CCoinsViewCache.fetchCoin_spec (view : CCoinsViewCache) (outpoint : COutPoint) :
    (view.fetchCoin outpoint).1 = view.fetched outpoint
      ∧ Replaced view outpoint (view.fetched outpoint) (view.fetchCoin outpoint).2 :=
  view.fetchFrom_spec outpoint (view.base.getCoin_spec outpoint).1

section

variable {slot : Option CCoinsCacheEntry} (h : Replaced view outpoint slot view')

include h

theorem Replaced.base_visible (o : COutPoint) : view'.base.visible o = view.base.visible o := by
  rcases h.base with hbase | hbase
  · rw [hbase]
  · simp [hbase, (view.base.getCoin_spec outpoint).2 o]

theorem Replaced.visible_ne {o : COutPoint} (ho : o ≠ outpoint) : view'.visible o = view.visible o :=
  CCoinsViewCache.visible_congr (h.lookup_ne o ho) (h.base_visible o)

end

theorem CCoinsViewCache.accessCoin_unspent (view : CCoinsViewCache) (outpoint : COutPoint) :
    (view.accessCoin outpoint).1.unspent = view.visible outpoint := by
  rw [← view.fetched_unspent outpoint, ← (view.fetchCoin_spec outpoint).1]
  unfold accessCoin
  simp only
  cases (view.fetchCoin outpoint).1 <;> rfl

theorem CCoinsViewCache.haveCoin_eq (view : CCoinsViewCache) (outpoint : COutPoint) :
    (view.haveCoin outpoint).1 = (view.visible outpoint).isSome := by
  rw [← view.fetched_unspent outpoint, ← (view.fetchCoin_spec outpoint).1]
  unfold haveCoin
  simp only
  cases (view.fetchCoin outpoint).1 with
  | none => rfl
  | some entry => cases hspent : entry.coin.isSpent <;> simp [Coin.unspent, hspent]

/-! ## Changing -/

/-- What `SpendCoin` leaves of an entry. -/
def CCoinsCacheEntry.spent (entry : CCoinsCacheEntry) : Option CCoinsCacheEntry :=
  if entry.fresh then none else some ⟨coinEmpty, true, entry.fresh⟩

theorem CCoinsViewCache.spendCoin_spec (view : CCoinsViewCache) (outpoint : COutPoint) :
    (view.spendCoin outpoint).1 = (view.fetched outpoint).map coin
      ∧ Replaced view outpoint ((view.fetched outpoint).bind spent)
        (view.spendCoin outpoint).2 := by
  obtain ⟨hentry, hview⟩ := view.fetchCoin_spec outpoint
  unfold spendCoin
  rw [← hentry] at hview ⊢
  split <;> rename_i hgot <;> rw [hgot] at hview ⊢
  · exact ⟨rfl, hview⟩
  · simp only [Option.bind_some, spent] at hview ⊢
    split
    · exact ⟨rfl, hview.trans (Replaced.erase _ outpoint) rfl⟩
    · exact ⟨rfl, hview.trans (Replaced.insert _ outpoint _) rfl⟩

/-- The entry that `AddCoin` finds or makes. -/
def CCoinsViewCache.emplaced (view : CCoinsViewCache) (outpoint : COutPoint) : CCoinsCacheEntry :=
  (view.cacheCoins.lookup outpoint).getD ⟨coinEmpty, false, false⟩

/-- What `AddCoin` leaves of an entry. -/
def CCoinsCacheEntry.added (entry : CCoinsCacheEntry) (coin : Coin) (possible_overwrite : Bool) :
    CCoinsCacheEntry :=
  ⟨coin, true, entry.fresh || (!possible_overwrite && !entry.dirty)⟩

/-- Every way `AddCoin` returns. -/
theorem CCoinsViewCache.addCoin_cases {coin : Coin} {possible_overwrite : Bool}
    (h : view.addCoin outpoint coin possible_overwrite = .ok view') : coin.isSpent = false
      ∧ ((coin.out.scriptPubKey.isUnspendable ∧ view' = view)
        ∨ (coin.out.scriptPubKey.isUnspendable = false
          ∧ (possible_overwrite ∨ (view.emplaced outpoint).coin.isSpent)
          ∧ view' = view.withCoins (view.cacheCoins.insert outpoint
            ((view.emplaced outpoint).added coin possible_overwrite)))) := by
  simp only [addCoin] at h
  split_ifs at h with hspent hscript hfree
  · cases h
    exact ⟨by simpa using hspent, .inl ⟨hscript, rfl⟩⟩
  · cases h
    refine ⟨by simpa using hspent, .inr ⟨by simpa using hscript, ?_, rfl⟩⟩
    cases possible_overwrite with
    | true => exact .inl rfl
    | false => exact .inr (by simpa [emplaced] using hfree)

end Binarium
