import Binarium.Coins.Sound

set_option autoImplicit false

/-! # The value of the coins in a cache

The value of a set of coins is a sum over all outpoints. To follow it through `SpendCoin` and
`AddCoin`, every slot of a cache gets a weight: the value it shows, and for a `FRESH` entry also the
value of what is below, since the entry is erased when it is spent and what is below shows again.

In a sound cache nothing is below a `FRESH` entry, so the weight is the value that can be seen. But
`ConnectBlock` leaves the sound caches where BIP30 is not enforced and a transaction repeats an older
one; the weight accounts for that case as well. -/

namespace Binarium

open CCoinsCacheEntry Finset

/-- There are finitely many outpoints. -/
noncomputable instance : Fintype COutPoint :=
  Fintype.ofInjective (fun o : COutPoint => (o.hash.toFin, o.n.toFin)) (by
    rintro ⟨hash, n⟩ ⟨hash', n'⟩ h
    obtain ⟨hhash, hn⟩ := Prod.mk.inj h
    exact congrArg₂ COutPoint.mk (BitVec.toFin_inj.mp hhash) (BitVec.toFin_inj.mp hn))

/-- The value of a coin, if there is one. -/
def coinValue : Option Coin → ℤ
  | none => 0
  | some coin => coin.out.nValue.toInt

/-- The sum of the values of all coins. -/
noncomputable def totalValue (m : COutPoint → Option Coin) : ℤ := ∑ o, coinValue (m o)

variable {coin : Coin} {below : Option Coin} {slot : Option CCoinsCacheEntry}
  {view view' : CCoinsViewCache} {outpoint : COutPoint}

theorem coinValue_unspent_of_isSpent (h : coin.isSpent) : coinValue coin.unspent = 0 := by
  rw [Coin.unspent_of_isSpent h]
  rfl

theorem coinValue_unspent (h : coin.isSpent = false) :
    coinValue coin.unspent = coin.out.nValue.toInt := by
  rw [Coin.unspent_of_not_isSpent h]
  rfl

/-! ## Slots -/

/-- The weight of a slot. -/
def slotWeight : Option CCoinsCacheEntry → Option Coin → ℤ
  | none, below => coinValue below
  | some entry, below => coinValue entry.coin.unspent + if entry.fresh then coinValue below else 0

/-- No value of a slot is negative, and a clean entry is a copy of what is below. -/
structure SlotFunded (slot : Option CCoinsCacheEntry) (below : Option Coin) : Prop where
  visible : 0 ≤ coinValue (slotVisible slot below)
  hidden : ∀ entry, slot = some entry → entry.fresh = true → 0 ≤ coinValue below
  copy : ∀ entry, slot = some entry → entry.dirty = false → entry.fresh = false →
    entry.coin.unspent = below

theorem SlotFunded.visible_le (h : SlotFunded slot below) :
    coinValue (slotVisible slot below) ≤ slotWeight slot below := by
  cases slot with
  | none => exact le_refl _
  | some entry =>
    have := h.hidden entry rfl
    grind [slotVisible, slotWeight]

/-- In a slot that agrees with what is below, nothing is hidden. -/
theorem SlotAgrees.funded {update : Option (Option Coin)} (h : SlotAgrees slot update below)
    (hvisible : 0 ≤ coinValue (slotVisible slot below)) :
    SlotFunded slot below ∧ slotWeight slot below = coinValue (slotVisible slot below) := by
  cases h with
  | absent | dropped => exact ⟨⟨hvisible, by simp, by simp⟩, rfl⟩
  | cached coin hspent =>
    exact ⟨⟨hvisible, by simp [clean], by simp [clean, Coin.unspent_of_not_isSpent hspent]⟩, add_zero _⟩
  | updated coin fresh below hbelow =>
    refine ⟨⟨hvisible, ?_, by simp⟩, ?_⟩
    · rintro entry ⟨⟩ hfresh
      rw [hbelow hfresh]
      exact le_refl 0
    · cases fresh <;> simp_all [slotWeight, slotVisible, coinValue]

theorem SlotFunded.fetch (h : SlotFunded slot below)
    (hunspent : ∀ coin, below = some coin → coin.isSpent = false) :
    SlotFunded (slot.or (below.map .clean)) below
      ∧ slotWeight (slot.or (below.map .clean)) below = slotWeight slot below := by
  cases slot with
  | some entry => exact ⟨h, rfl⟩
  | none =>
    cases below with
    | none => exact ⟨h, rfl⟩
    | some coin =>
      have hcoin := coinValue_unspent (hunspent coin rfl)
      obtain ⟨hfunded, hweight⟩ :=
        (SlotAgrees.cached coin (hunspent coin rfl)).funded (hcoin ▸ h.visible)
      exact ⟨hfunded, hweight.trans hcoin⟩

theorem SlotFunded.spend {entry : CCoinsCacheEntry} (h : SlotFunded (some entry) below) :
    SlotFunded entry.spent below
      ∧ slotWeight entry.spent below
        = slotWeight (some entry) below - coinValue entry.coin.unspent := by
  unfold spent
  cases hfresh : entry.fresh with
  | true =>
    refine ⟨⟨h.hidden entry rfl hfresh, by simp, by simp⟩, ?_⟩
    simp [slotWeight, hfresh]
  | false =>
    refine ⟨⟨le_refl 0, by simp, by simp⟩, ?_⟩
    simp only [slotWeight, hfresh, Bool.false_eq_true, if_false]
    show coinValue none + 0 = _
    simp [coinValue]

theorem SlotFunded.add (h : SlotFunded slot below) (hspent : coin.isSpent = false)
    (hvalue : 0 ≤ coin.out.nValue.toInt) {possible_overwrite : Bool}
    (hfree : possible_overwrite ∨ (slot.getD ⟨coinEmpty, false, false⟩).coin.isSpent) :
    SlotFunded (some ((slot.getD ⟨coinEmpty, false, false⟩).added coin possible_overwrite)) below
      ∧ slotWeight (some ((slot.getD ⟨coinEmpty, false, false⟩).added coin possible_overwrite)) below
        ≤ slotWeight slot below + coin.out.nValue.toInt := by
  have hcoin := coinValue_unspent hspent
  cases slot with
  | none =>
    -- a new entry, FRESH unless it may overwrite
    have hbelow : 0 ≤ coinValue below := h.visible
    refine ⟨⟨hcoin ▸ hvalue, fun _ _ _ => hbelow, by simp [added]⟩, ?_⟩
    simp only [slotWeight, added, hcoin]
    cases possible_overwrite with
    | true => simpa using hbelow
    | false => simp [add_comm]
  | some entry =>
    have hvisible : 0 ≤ coinValue entry.coin.unspent := h.visible
    simp only [Option.getD_some] at hfree ⊢
    cases hfresh : entry.fresh with
    | true =>
      -- the entry stays FRESH
      have hbelow := h.hidden entry rfl hfresh
      refine ⟨⟨hcoin ▸ hvalue, fun _ _ _ => hbelow, by simp [added]⟩, ?_⟩
      simp only [slotWeight, added, hfresh, Bool.true_or, if_true, hcoin]
      omega
    | false =>
      -- a spent copy becomes FRESH, and then nothing is below
      have hcopy : (!possible_overwrite && !entry.dirty) → coinValue below = 0 := by
        have := h.copy entry rfl
        have := @coinValue_unspent_of_isSpent entry.coin
        grind
      refine ⟨⟨hcoin ▸ hvalue, ?_, by simp [added]⟩, ?_⟩
      · rintro entry' ⟨⟩ hfresh'
        simp only [added, hfresh] at hfresh'
        exact le_of_eq (hcopy hfresh').symm
      · simp only [slotWeight, added, hfresh, hcoin, Bool.false_eq_true, if_false]
        grind

/-! ## Caches -/

/-- Every slot of a cache is funded. -/
def CCoinsViewCache.Funded (view : CCoinsViewCache) : Prop :=
  ∀ o, SlotFunded (view.cacheCoins.lookup o) (view.base.visible o)

/-- The weight of all slots. -/
noncomputable def CCoinsViewCache.weight (view : CCoinsViewCache) : ℤ :=
  ∑ o, slotWeight (view.cacheCoins.lookup o) (view.base.visible o)

theorem CCoinsViewCache.Sound.funded (h : view.Sound)
    (hvalues : ∀ o, 0 ≤ coinValue (view.visible o)) :
    view.Funded ∧ view.weight = totalValue view.visible := by
  have hslot := fun o => (h o).elim fun _ hagrees => hagrees.funded (hvalues o)
  exact ⟨fun o => (hslot o).1, sum_congr rfl fun o _ => (hslot o).2⟩

theorem CCoinsViewCache.Funded.totalValue_le (h : view.Funded) :
    totalValue view.visible ≤ view.weight := sum_le_sum fun o _ => (h o).visible_le

theorem CCoinsViewCache.Funded.weight_nonneg (h : view.Funded) : 0 ≤ view.weight :=
  sum_nonneg fun o _ => le_trans (h o).visible (h o).visible_le

theorem ReadsTo.funded (h : ReadsTo view view') (hfunded : view.Funded) :
    view'.Funded ∧ view'.weight = view.weight := by
  have hslot : ∀ o, SlotFunded (view'.cacheCoins.lookup o) (view'.base.visible o)
      ∧ slotWeight (view'.cacheCoins.lookup o) (view'.base.visible o)
        = slotWeight (view.cacheCoins.lookup o) (view.base.visible o) := fun o =>
    h.slots (P := fun slot below => SlotFunded slot below ∧ slotWeight slot below = _)
      ⟨hfunded o, rfl⟩ ((hfunded o).fetch fun _ => view.base.isSpent_of_visible)
  exact ⟨fun o => (hslot o).1, sum_congr rfl fun o _ => (hslot o).2⟩

/-- Replacing one slot changes the weight by the difference of the two. -/
theorem Replaced.funded (h : Replaced view outpoint slot view') (hfunded : view.Funded)
    (hslot : SlotFunded slot (view.base.visible outpoint)) :
    view'.Funded ∧ view'.weight = view.weight + (slotWeight slot (view.base.visible outpoint)
      - slotWeight (view.cacheCoins.lookup outpoint) (view.base.visible outpoint)) := by
  constructor
  · intro o
    rw [h.base_visible o]
    by_cases ho : o = outpoint
    · rwa [ho, h.lookup_self]
    · simp [h.lookup_ne o ho, hfunded o]
  · rw [← sub_eq_iff_eq_add', CCoinsViewCache.weight, CCoinsViewCache.weight,
      ← sum_sub_distrib, Fintype.sum_eq_single outpoint]
    · rw [h.lookup_self, h.base_visible outpoint]
    · intro o ho
      rw [h.lookup_ne o ho, h.base_visible o, sub_self]

/-- **`SpendCoin`** moves out the visible coin and takes its value away. -/
theorem CCoinsViewCache.spendCoin_funded (hfunded : view.Funded)
    (hcoin : view.visible outpoint = some coin) :
    (view.spendCoin outpoint).1 = some coin ∧ (view.spendCoin outpoint).2.Funded
      ∧ (view.spendCoin outpoint).2.weight = view.weight - coin.out.nValue.toInt := by
  obtain ⟨hmoved, hview⟩ := view.spendCoin_spec outpoint
  obtain ⟨hfetched, hweight⟩ : SlotFunded (view.fetched outpoint) _
      ∧ slotWeight (view.fetched outpoint) _ = _ :=
    (hfunded outpoint).fetch fun _ => view.base.isSpent_of_visible
  have hunspent := view.fetched_unspent outpoint
  cases hentry : view.fetched outpoint with
  | none => simp [hentry, hcoin] at hunspent
  | some entry =>
    rw [hentry] at hmoved hview hfetched hweight hunspent
    have hentry' : entry.coin.unspent = some coin := hunspent.trans hcoin
    obtain ⟨hslot, hslotWeight⟩ := hfetched.spend
    obtain ⟨hfunded', hweight'⟩ := hview.funded hfunded hslot
    refine ⟨hmoved.trans (congrArg some (Coin.eq_of_unspent hentry')), hfunded', ?_⟩
    rw [hweight', Option.bind_some, hslotWeight, hweight, hentry']
    show _ = view.weight - coinValue (some coin)
    ring

/-- **`AddCoin`** adds at most the value of the coin. -/
theorem CCoinsViewCache.addCoin_funded {possible_overwrite : Bool} (hfunded : view.Funded)
    (hvalue : 0 ≤ coin.out.nValue.toInt)
    (h : view.addCoin outpoint coin possible_overwrite = .ok view') :
    view'.Funded ∧ view'.weight ≤ view.weight + coin.out.nValue.toInt := by
  obtain ⟨hspent, ⟨-, rfl⟩ | ⟨-, hfree, rfl⟩⟩ := addCoin_cases h
  · exact ⟨hfunded, by omega⟩
  · obtain ⟨hslot, hslotWeight⟩ := (hfunded outpoint).add hspent hvalue hfree
    obtain ⟨hfunded', hweight'⟩ := (Replaced.insert view outpoint _).funded hfunded hslot
    refine ⟨hfunded', ?_⟩
    rw [emplaced, hweight']
    omega

end Binarium
