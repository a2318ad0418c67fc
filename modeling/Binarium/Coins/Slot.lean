import Binarium.Coins.Visible

set_option autoImplicit false

/-! # One outpoint of a cache

At one outpoint a cache has an entry or none, and the view below shows a coin or none. `SlotAgrees`
relates the two to the update that the cache has made there since its last flush, if any: a clean
entry copies the coin below, a dirty one holds the updated coin, a `FRESH` one has nothing below.
There are four cases, and each operation of a cache moves between them. -/

namespace Binarium

open CCoinsCacheEntry Option AList Coin

/-- The entry of a cache at an outpoint, the update the cache made there and the coin below. -/
inductive SlotAgrees : Option CCoinsCacheEntry → Option (Option Coin) → Option Coin → Prop where
  /-- neither read nor updated -/
  | absent (below : Option Coin) : SlotAgrees none none below
  /-- read from below -/
  | cached (coin : Coin) (h : coin.isSpent = false) :
      SlotAgrees (some (.clean coin)) none (some coin)
  /-- created here and spent again, so that the entry was erased -/
  | dropped : SlotAgrees none (some none) none
  /-- updated -/
  | updated (coin : Coin) (fresh : Bool) (below : Option Coin) (h : fresh = true → below = none) :
      SlotAgrees (some ⟨coin, true, fresh⟩) (some coin.unspent) below

/-- What a slot shows. -/
def slotVisible (slot : Option CCoinsCacheEntry) (below : Option Coin) : Option Coin :=
  match slot with
  | some entry => entry.coin.unspent
  | none => below

namespace SlotAgrees

variable {slot : Option CCoinsCacheEntry} {update : Option (Option Coin)} {below : Option Coin}

section
variable (h : SlotAgrees slot update below)
include h

/-- A slot shows the update, or else the coin below. -/
theorem visible : slotVisible slot below = update.getD below := by
  cases h with
  | absent => rfl
  | cached coin hspent => exact unspent_of_not_isSpent hspent
  | dropped => rfl
  | updated coin fresh below h => rfl

theorem fresh {entry : CCoinsCacheEntry} (he : slot = some entry)
    (hfresh : entry.fresh) : below = none := by
  cases h with
  | absent => simp at he
  | cached coin hspent =>
    cases he
    simp [clean] at hfresh
  | dropped => rfl
  | updated coin fresh below h =>
    cases he
    exact h hfresh

theorem fetch (hbelow : ∀ coin, below = some coin → coin.isSpent = false) :
    SlotAgrees (slot.or (below.map clean)) update below := by
  cases h with
  | absent =>
    cases below with
    | none => exact .absent none
    | some coin => exact .cached coin (hbelow coin rfl)
  | cached coin hspent => exact .cached coin hspent
  | dropped => exact .dropped
  | updated coin fresh below h => exact .updated coin fresh below h

/-- Spending records a removal if there is a coin to remove. -/
theorem spend :
    SlotAgrees ((slot.or (below.map clean)).bind spent)
      (if (update.getD below).isSome then some none else update) below := by
  cases h with
  | absent =>
    cases below with
    | none => exact .absent none
    | some coin => exact .updated coinEmpty false (some coin) (by simp)
  | cached coin hspent => exact .updated coinEmpty false (some coin) (by simp)
  | dropped => exact .dropped
  | updated coin fresh below h =>
    -- if the coin was spent already, its update is a removal as well
    have hremoved : (if coin.unspent.isSome then some none else some coin.unspent)
        = (some none : Option (Option Coin)) := by
      cases coin.unspent <;> rfl
    simp only [some_or, getD_some, hremoved]
    cases fresh with
    | true =>
      rw [h rfl]
      exact .dropped
    | false => exact .updated coinEmpty false below (by simp)

/-- Adding a coin where an overwrite is allowed or nothing unspent is in the way. -/
theorem add {coin : Coin} (hcoin : coin.isSpent = false) {possible_overwrite : Bool}
    (hallowed : possible_overwrite ∨ below = none ∨ update.getD below = none)
    (hfree : possible_overwrite
      ∨ (slot.getD ⟨coinEmpty, false, false⟩).coin.isSpent) :
    SlotAgrees (some ((slot.getD ⟨coinEmpty, false, false⟩).added coin possible_overwrite))
      (some (some coin)) below := by
  rw [← unspent_of_not_isSpent hcoin]
  refine .updated coin _ below fun hfresh => ?_
  cases h with
  | absent => simp_all
  | cached old hspent =>
    -- a clean entry is not spent, so the overwrite was allowed and nothing becomes FRESH
    simp_all [clean]
  | dropped => rfl
  | updated old fresh below h => simp_all

/-- Where `AddCoin` does not throw, no overwrite goes unannounced. -/
theorem add_free {possible_overwrite : Bool}
    (hallowed : possible_overwrite ∨ below = none ∨ update.getD below = none)
    (hfree : possible_overwrite
      ∨ (slot.getD ⟨coinEmpty, false, false⟩).coin.isSpent) :
    (!possible_overwrite && (update.getD below).isSome) = false := by
  cases possible_overwrite with
  | true => rfl
  | false =>
    have hspent : (slot.getD ⟨coinEmpty, false, false⟩).coin.isSpent := by
      simpa using hfree
    have hnone : update.getD below = none := by
      rcases hallowed with hover | rfl | hvisible
      · simp at hover
      · cases h with
        | absent => rfl
        | dropped => rfl
        | updated coin fresh _ h => exact unspent_of_isSpent hspent
      · exact hvisible
    rw [hnone]
    rfl

/-- `AddCoin` throws only where the cache itself shows a coin. -/
theorem add_throws (hfree : (slot.getD ⟨coinEmpty, false, false⟩).coin.isSpent = false) :
    (update.getD below).isSome := by
  rw [← h.visible]
  cases slot with
  | none => simp at hfree
  | some entry =>
    rw [getD_some] at hfree
    simp only [slotVisible, unspent_of_not_isSpent hfree, isSome_some]

theorem uncache {entry : CCoinsCacheEntry}
    (he : slot = some entry) (hclean : entry.dirty = false) : SlotAgrees none update below := by
  cases h with
  | absent => exact .absent below
  | cached coin hspent => exact .absent (some coin)
  | dropped => exact .dropped
  | updated coin fresh below h =>
    cases he
    simp at hclean

end

/-- A child without an entry has nothing to write: where it dropped a coin there is none. -/
theorem merge_none {own : Option (Option Coin)}
    (hchild : SlotAgrees none update (own.getD below)) (h : SlotAgrees slot own below) :
    SlotAgrees slot (update.or own) below := by
  generalize hseen : own.getD below = seen at hchild
  cases hchild with
  | absent => exact h
  | dropped =>
    cases h with
    | absent => exact hseen ▸ .dropped
    | cached coin hspent => simp at hseen
    | dropped => exact .dropped
    | updated coin fresh below h => exact hseen ▸ .updated coin fresh below h

end SlotAgrees

/-! ## Writing an entry to the parent -/

/-- **`BatchWrite` of one entry.** It does not throw, it leaves a slot that agrees with the child's
    update written over the parent's, and it changes no other slot. -/
theorem batchWriteEntry_spec {cacheCoins : CCoinsMap} {outpoint : COutPoint}
    {child : CCoinsCacheEntry} {update own : Option (Option Coin)} {below : Option Coin}
    (hchild : SlotAgrees (some child) update (own.getD below))
    (h : SlotAgrees (cacheCoins.lookup outpoint) own below) :
    ∃ cacheCoins', batchWriteEntry cacheCoins outpoint child = .ok cacheCoins'
      ∧ SlotAgrees (cacheCoins'.lookup outpoint) (update.or own) below
      ∧ ∀ o, o ≠ outpoint → cacheCoins'.lookup o = cacheCoins.lookup o := by
  generalize hseen : own.getD below = seen at hchild
  unfold batchWriteEntry
  cases hchild with
  | cached coin hspent => exact ⟨cacheCoins, rfl, h, fun _ _ => rfl⟩
  | updated coin fresh _ hfresh =>
    have hinsert : ∀ entry : CCoinsCacheEntry, ∀ o, o ≠ outpoint →
        (cacheCoins.insert outpoint entry).lookup o = cacheCoins.lookup o :=
      fun _ _ ho => lookup_insert_ne ho
    generalize hslot : cacheCoins.lookup outpoint = slot at h
    have hvisible := h.visible.trans hseen
    simp only [if_true]
    cases slot with
    | none =>
      -- nothing cached here: what the child saw is what is below
      obtain rfl : below = _ := hvisible
      simp only
      split
      · next hdrop =>
          rw [Bool.and_eq_true] at hdrop
          rw [unspent_of_isSpent hdrop.2, hfresh hdrop.1]
          exact ⟨_, rfl, hslot ▸ .dropped, fun _ _ => rfl⟩
      · exact ⟨_, rfl, by rw [lookup_insert]; exact .updated coin fresh below hfresh, hinsert _⟩
    | some us =>
      simp only
      split_ifs with hmisapplied hdrop
      · -- FRESH in the child means that nothing unspent is visible here
        rw [Bool.and_eq_true, Bool.not_eq_true'] at hmisapplied
        rw [hfresh hmisapplied.1] at hvisible
        simp [slotVisible, unspent_of_not_isSpent hmisapplied.2] at hvisible
      · rw [Bool.and_eq_true] at hdrop
        refine ⟨_, rfl, ?_, fun _ ho => lookup_erase_ne ho⟩
        rw [lookup_erase, unspent_of_isSpent hdrop.2, h.fresh rfl hdrop.1]
        exact .dropped
      · refine ⟨_, rfl, ?_, hinsert _⟩
        rw [lookup_insert]
        exact .updated coin us.fresh below (h.fresh rfl)

theorem batchWriteDB_spec {coins : AList (fun _ : COutPoint => UnspentCoin)} {outpoint : COutPoint}
    {child : CCoinsCacheEntry} {update : Option (Option Coin)}
    (hchild : SlotAgrees (some child) update ((coins.lookup outpoint).map Subtype.val)) :
    ((batchWriteDB coins outpoint child).lookup outpoint).map Subtype.val
        = update.getD ((coins.lookup outpoint).map Subtype.val)
      ∧ ∀ o, o ≠ outpoint → (batchWriteDB coins outpoint child).lookup o = coins.lookup o := by
  generalize hbelow : (coins.lookup outpoint).map Subtype.val = below at hchild
  unfold batchWriteDB
  cases hchild with
  | cached coin hspent => exact ⟨hbelow, fun _ _ => rfl⟩
  | updated coin fresh below hfresh =>
    simp only [if_true]
    split
    · next hspent =>
        refine ⟨?_, fun _ ho => lookup_insert_ne ho⟩
        simp [unspent_of_not_isSpent hspent]
    · next hspent =>
        refine ⟨?_, fun _ ho => lookup_erase_ne ho⟩
        simp [unspent_of_isSpent (by simpa using hspent)]

end Binarium
