import Binarium.Coins.Slot

set_option autoImplicit false

/-! # Sound caches

A cache is sound when each of its slots agrees with the view below: clean entries are copies, and
`FRESH` entries have nothing below. Reading keeps that and changes nothing that can be seen; so do
spending and adding, which change one outpoint of what can be seen. -/

namespace Binarium

open Function CCoinsCacheEntry

/-- Every slot of a cache agrees with the view below, for some update the cache has made. -/
def CCoinsViewCache.Sound (view : CCoinsViewCache) : Prop :=
  ∀ o, ∃ update, SlotAgrees (view.cacheCoins.lookup o) update (view.base.visible o)

theorem CCoinsViewCache.sound_over (base : CCoinsView) : (CCoinsViewCache.over base).Sound :=
  fun o => ⟨none, .absent (base.visible o)⟩

theorem CCoinsViewCache.visible_eq_slotVisible (view : CCoinsViewCache) (o : COutPoint) :
    view.visible o = slotVisible (view.cacheCoins.lookup o) (view.base.visible o) := rfl

/-! ## Reading -/

/-- `view'` is `view` after some outpoints were read. -/
structure ReadsTo (view view' : CCoinsViewCache) : Prop where
  lookup : ∀ o, view'.cacheCoins.lookup o = view.cacheCoins.lookup o
    ∨ view'.cacheCoins.lookup o = view.fetched o
  base_visible : ∀ o, view'.base.visible o = view.base.visible o

variable {view view' : CCoinsViewCache} {o outpoint : COutPoint} {coin : Coin}

namespace ReadsTo

theorem refl (view : CCoinsViewCache) : ReadsTo view view := ⟨fun _ => .inl rfl, fun _ => rfl⟩

theorem fetched (h : ReadsTo view view') (o : COutPoint) : view'.fetched o = view.fetched o := by
  unfold CCoinsViewCache.fetched
  rw [h.base_visible o]
  rcases h.lookup o with hlookup | hlookup
  · rw [hlookup]
  · rw [hlookup, CCoinsViewCache.fetched]
    cases view.cacheCoins.lookup o <;> cases view.base.visible o <;> rfl

theorem trans {view₁ view₂ view₃ : CCoinsViewCache} (h₁ : ReadsTo view₁ view₂)
    (h₂ : ReadsTo view₂ view₃) : ReadsTo view₁ view₃ := by
  refine ⟨fun o => ?_, fun o => (h₂.base_visible o).trans (h₁.base_visible o)⟩
  rcases h₂.lookup o with hlookup | hlookup
  · exact hlookup ▸ h₁.lookup o
  · exact .inr (hlookup.trans (h₁.fetched o))

theorem fetchCoin (view : CCoinsViewCache) (outpoint : COutPoint) :
    ReadsTo view (view.fetchCoin outpoint).2 := by
  have hview := (view.fetchCoin_spec outpoint).2
  refine ⟨fun o => ?_, hview.base_visible⟩
  by_cases ho : o = outpoint
  · exact .inr (ho ▸ hview.lookup_self)
  · exact .inl (hview.lookup_ne o ho)

/-- What can be seen stays. -/
theorem visible (h : ReadsTo view view') (o : COutPoint) : view'.visible o = view.visible o := by
  rw [← view'.fetched_unspent o, ← view.fetched_unspent o, h.fetched o]

/-- A property of slots that fetching keeps is kept. -/
theorem slots (h : ReadsTo view view') {P : Option CCoinsCacheEntry → Option Coin → Prop}
    (hP : P (view.cacheCoins.lookup o) (view.base.visible o))
    (hfetch : P (view.fetched o) (view.base.visible o)) :
    P (view'.cacheCoins.lookup o) (view'.base.visible o) := by
  rw [h.base_visible o]
  rcases h.lookup o with hlookup | hlookup <;> rwa [hlookup]

theorem sound (h : ReadsTo view view') (hsound : view.Sound) : view'.Sound := by
  intro o
  obtain ⟨update, hslot⟩ := hsound o
  exact ⟨update, h.slots (P := fun slot below => SlotAgrees slot update below) hslot
    (hslot.fetch (fun _ => view.base.isSpent_of_visible))⟩

end ReadsTo

/-! ## The best block -/

theorem CCoinsView.visible_getBestBlock (v : CCoinsView) (o : COutPoint) :
    v.getBestBlock.2.visible o = v.visible o := by
  induction v with
  | db d => rfl
  | cache cacheCoins hashBlock base ih =>
    simp only [getBestBlock]
    split
    · simp only [visible, ih]
    · rfl

theorem CCoinsViewCache.readsTo_getBestBlock (view : CCoinsViewCache) :
    ReadsTo view view.getBestBlock.2 := by
  unfold getBestBlock
  split
  · exact ⟨fun _ => .inl rfl, view.base.visible_getBestBlock⟩
  · exact ReadsTo.refl view

theorem CCoinsViewCache.readsTo_setBestBlock (view : CCoinsViewCache) (hashBlock : Uint256) :
    ReadsTo view (view.setBestBlock hashBlock) := ⟨fun _ => .inl rfl, fun _ => rfl⟩

theorem CCoinsViewCache.getBestBlock_setBestBlock (view : CCoinsViewCache) {hashBlock : Uint256}
    (h : hashBlock ≠ 0) : (view.setBestBlock hashBlock).getBestBlock.1 = hashBlock := by
  rw [getBestBlock, if_neg (show (view.setBestBlock hashBlock).hashBlock ≠ 0 from h)]
  rfl

/-! ## Spending and adding -/

section

variable {slot : Option CCoinsCacheEntry} (h : Replaced view outpoint slot view')

include h

theorem Replaced.sound (hsound : view.Sound) {update : Option (Option Coin)}
    (hslot : SlotAgrees slot update (view.base.visible outpoint)) : view'.Sound := by
  intro o
  rw [h.base_visible o]
  by_cases ho : o = outpoint
  · exact ⟨update, by rwa [ho, h.lookup_self]⟩
  · simp [h.lookup_ne o ho, hsound o]

theorem Replaced.visible (o : COutPoint) : view'.visible o = update view.visible outpoint
      (slotVisible slot (view.base.visible outpoint)) o := by
  by_cases ho : o = outpoint
  · rw [ho, update_self, view'.visible_eq_slotVisible, h.lookup_self, h.base_visible]
  · simp [update_of_ne ho, h.visible_ne ho]

end

/-- **Spending.** In a sound cache the coin moved out is the one that is visible, if any, and
    afterwards none is. -/
theorem CCoinsViewCache.spendCoin_sound (hsound : view.Sound) (outpoint : COutPoint) :
    (view.spendCoin outpoint).2.Sound
      ∧ (view.spendCoin outpoint).2.visible = update view.visible outpoint none
      ∧ ∀ coin, view.visible outpoint = some coin → (view.spendCoin outpoint).1 = some coin := by
  obtain ⟨hcoin, hview⟩ := view.spendCoin_spec outpoint
  obtain ⟨update, hslot⟩ := hsound outpoint
  have hspent : SlotAgrees ((view.fetched outpoint).bind spent) _
    (view.base.visible outpoint) := hslot.spend
  refine ⟨hview.sound hsound hspent, ?_, fun coin hvisible => ?_⟩
  · funext o
    have hnone : slotVisible ((view.fetched outpoint).bind spent)
        (view.base.visible outpoint) = none := by
      rw [hspent.visible]
      cases hsome : update.getD (view.base.visible outpoint) with
      | none => exact hsome
      | some coin => rfl
    rw [hview.visible o, hnone]
  · have hunspent := view.fetched_unspent outpoint
    rw [hvisible] at hunspent
    obtain ⟨entry, hentry, hunspent⟩ := Option.bind_eq_some_iff.mp hunspent
    rw [hcoin, hentry, Option.map_some, Coin.eq_of_unspent hunspent]

/-- **Adding.** Where an overwrite is allowed or nothing unspent is in the way, a sound cache stays
    sound and shows the new coin, unless the coin is unspendable. -/
theorem CCoinsViewCache.addCoin_sound (hsound : view.Sound) {possible_overwrite : Bool}
    (h : view.addCoin outpoint coin possible_overwrite = .ok view')
    (hallowed : possible_overwrite ∨ view.visible outpoint = none) :
    view'.Sound ∧ view'.visible = if coin.out.scriptPubKey.isUnspendable then view.visible
      else update view.visible outpoint (some coin) := by
  obtain ⟨hspent, ⟨hscript, rfl⟩ | ⟨hscript, hfree, rfl⟩⟩ := addCoin_cases h
  · exact ⟨hsound, by rw [if_pos hscript]⟩
  · obtain ⟨update, hslot⟩ := hsound outpoint
    have hview := Replaced.insert view outpoint ((view.emplaced outpoint).added coin possible_overwrite)
    rw [view.visible_eq_slotVisible, hslot.visible] at hallowed
    have hadded : SlotAgrees (some ((view.emplaced outpoint).added coin possible_overwrite))
        (some (some coin)) (view.base.visible outpoint) :=
      hslot.add hspent (hallowed.imp_right .inr) hfree
    refine ⟨hview.sound hsound hadded, funext fun o => ?_⟩
    rw [hview.visible o, hadded.visible, hscript]
    rfl

theorem CCoinsViewCache.addCoin_of_visible_none (hspent : coin.isSpent = false)
    (hnone : view.visible outpoint = none) (possible_overwrite : Bool) :
    ∃ view', view.addCoin outpoint coin possible_overwrite = .ok view' := by
  have hempty : (view.emplaced outpoint).coin.isSpent := by
    unfold emplaced
    cases hentry : view.cacheCoins.lookup outpoint with
    | none => rfl
    | some entry =>
      rw [visible_of_lookup hentry] at hnone
      by_contra hcoin
      simp [Coin.unspent_of_not_isSpent (by simpa using hcoin)] at hnone
  unfold emplaced at hempty
  rw [addCoin, hspent]
  simp only [Bool.false_eq_true, if_false, hempty, Bool.not_true, Bool.and_false]
  split
  · exact ⟨view, rfl⟩
  · exact ⟨_, rfl⟩

/-! ## Outpoints that were looked up -/

/-- A cache without an entry at the outpoint has nothing below it there: the outpoint was looked up
    and was not found, or is cached. -/
def CCoinsViewCache.Known (view : CCoinsViewCache) (o : COutPoint) : Prop :=
  view.cacheCoins.lookup o = none → view.base.visible o = none

theorem CCoinsViewCache.known_of_visible_none (h : view.visible o = none) : view.Known o :=
  fun hnone => (visible_of_lookup_none hnone).symm.trans h

theorem ReadsTo.known (h : ReadsTo view view') (hknown : view.Known o) : view'.Known o :=
  h.slots (P := fun slot below => slot = none → below = none) hknown
    fun hnone => hknown (Option.or_eq_none_iff.mp hnone).1

/-- A spent entry is dropped only if nothing is below. -/
theorem CCoinsViewCache.known_spendCoin (hsound : view.Sound) (hknown : view.Known o)
    (outpoint : COutPoint) : (view.spendCoin outpoint).2.Known o := by
  have hview := (view.spendCoin_spec outpoint).2
  intro hnone
  rw [hview.base_visible o]
  by_cases ho : o = outpoint
  · subst ho
    obtain ⟨update, hslot⟩ := hsound o
    have hfetched : SlotAgrees (view.fetched o) update (view.base.visible o) :=
      hslot.fetch (fun _ => view.base.isSpent_of_visible)
    rw [hview.lookup_self] at hnone
    cases hentry : view.fetched o with
    | none => exact hknown (Option.or_eq_none_iff.mp hentry).1
    | some entry =>
      have hfresh := hfetched.fresh hentry
      grind [spent]
  · exact hknown (hview.lookup_ne o ho ▸ hnone)

theorem CCoinsViewCache.known_addCoin {possible_overwrite : Bool}
    (h : view.addCoin outpoint coin possible_overwrite = .ok view') (hknown : view.Known o) :
    view'.Known o := by
  obtain ⟨-, ⟨-, rfl⟩ | ⟨-, -, rfl⟩⟩ := addCoin_cases h
  · exact hknown
  · have hview := Replaced.insert view outpoint ((view.emplaced outpoint).added coin possible_overwrite)
    intro hnone
    by_cases ho : o = outpoint
    · subst ho
      simp [hview.lookup_self] at hnone
    · rw [hview.lookup_ne o ho] at hnone
      exact hknown hnone

theorem CCoinsViewCache.visible_none_of_addCoin (h : view.addCoin outpoint coin false = .ok view')
    (hscript : coin.out.scriptPubKey.isUnspendable = false) (hknown : view.Known outpoint) :
    view.visible outpoint = none := by
  obtain ⟨-, ⟨hscript', -⟩ | ⟨-, hfree, -⟩⟩ := addCoin_cases h
  · simp [hscript] at hscript'
  · have hempty : (view.emplaced outpoint).coin.isSpent := by simpa using hfree
    unfold emplaced at hempty
    cases hentry : view.cacheCoins.lookup outpoint with
    | none => exact (visible_of_lookup_none hentry).trans (hknown hentry)
    | some entry =>
      rw [hentry] at hempty
      exact (visible_of_lookup hentry).trans (Coin.unspent_of_isSpent hempty)

end Binarium
