import Mathlib.Data.List.AList
import Binarium.Script.Script

set_option autoImplicit false

/-! # Coins views (`coins.h`, `coins.cpp`, `txdb.cpp`)

A coins view maps outpoints to unspent coins. The database (`CCoinsViewDB`) stores them; a
`CCoinsViewCache` keeps modified and recently read coins in front of another view, so caches stack to
any depth. Reading through a cache fills it, which is why the reading functions return the view as
well.

An entry of a cache carries two flags. `DIRTY` says that it may differ from what the parent view
has; only dirty entries are written by `Flush`. `FRESH` says that the parent view has no unspent coin
there, so that the entry may simply be dropped when the coin is spent. -/

namespace Binarium

/-! ## Coins -/

/-- `CTxOut::IsNull`. -/
def CTxOut.isNull (txout : CTxOut) : Bool := decide (txout.nValue = -1)

/-- `Coin`. -/
structure Coin where
  out : CTxOut
  fCoinBase : Bool
  nHeight : BitVec 31
deriving DecidableEq

/-- `Coin()`, which is also what `Coin::Clear` leaves. -/
def coinEmpty : Coin := ⟨⟨-1, []⟩, false, 0⟩

/-- `Coin::IsSpent`. -/
def Coin.isSpent (coin : Coin) : Bool := coin.out.isNull

/-- The coin, unless it is spent. -/
def Coin.unspent (coin : Coin) : Option Coin := if coin.isSpent then none else some coin

@[simp] theorem coinEmpty_isSpent : coinEmpty.isSpent := rfl

theorem Coin.unspent_of_isSpent {coin : Coin} (h : coin.isSpent) : coin.unspent = none :=
  if_pos h

theorem Coin.unspent_of_not_isSpent {coin : Coin} (h : coin.isSpent = false) :
    coin.unspent = some coin := by
  rw [Coin.unspent, h]
  rfl

theorem Coin.eq_of_unspent {coin coin' : Coin} (h : coin.unspent = some coin') : coin = coin' := by
  unfold Coin.unspent at h
  split at h
  · simp at h
  · exact Option.some.inj h

/-- What stops C++ code: a failed `assert`, an exception, or a null pointer that it follows. -/
inductive CppError where
  | assertion (expr : String)
  | logicError (what : String)
  | runtimeError (what : String)
  | nullPointer (expr : String)
deriving DecidableEq

/-! ## The views -/

/-- `CCoinsCacheEntry` with its flags `DIRTY` and `FRESH`. -/
structure CCoinsCacheEntry where
  coin : Coin
  dirty : Bool
  fresh : Bool
deriving DecidableEq

/-- `CCoinsMap`. -/
abbrev CCoinsMap := AList (fun _ : COutPoint => CCoinsCacheEntry)

/-- A coin that can be written to the database: `Coin::Serialize` asserts that it is not spent. -/
abbrev UnspentCoin := { coin : Coin // coin.isSpent = false }

/-- `CCoinsViewDB`: the coins and the best block, null if none is stored. -/
structure CCoinsViewDB where
  coins : AList (fun _ : COutPoint => UnspentCoin)
  bestBlock : Uint256

/-- A view: the database, or a cache with its `cacheCoins` and `hashBlock` over another view. -/
inductive CCoinsView where
  | db (d : CCoinsViewDB)
  | cache (cacheCoins : CCoinsMap) (hashBlock : Uint256) (base : CCoinsView)

/-- `CCoinsViewCache`. -/
structure CCoinsViewCache where
  cacheCoins : CCoinsMap
  hashBlock : Uint256
  base : CCoinsView

variable (view : CCoinsViewCache) (outpoint : COutPoint)

/-- A cache is a view. -/
def CCoinsViewCache.toView : CCoinsView :=
  .cache view.cacheCoins view.hashBlock view.base

/-- `CCoinsViewCache(&base)`. -/
def CCoinsViewCache.over (base : CCoinsView) : CCoinsViewCache := ⟨∅, 0, base⟩

/-- Replace the cached entries. -/
def CCoinsViewCache.withCoins (cacheCoins : CCoinsMap) : CCoinsViewCache :=
  { view with cacheCoins := cacheCoins }

/-! ## Reading -/

/-- `CCoinsViewDB::GetCoin`. -/
def CCoinsViewDB.getCoin (d : CCoinsViewDB) (outpoint : COutPoint) : Option Coin :=
  (d.coins.lookup outpoint).map Subtype.val

/-- `CCoinsViewCache::FetchCoin`, given what `base->GetCoin` returns and leaves. -/
def CCoinsViewCache.fetchFrom (got : Option Coin × CCoinsView) :
    Option CCoinsCacheEntry × CCoinsViewCache :=
  match view.cacheCoins.lookup outpoint with
  | some entry => (some entry, view)
  | none =>
    match got with
    | (none, base) => (none, { view with base := base })
    | (some tmp, base) =>
      -- a spent coin from the parent would make the entry FRESH
      let entry : CCoinsCacheEntry := ⟨tmp, false, tmp.isSpent⟩
      (some entry, { view with cacheCoins := view.cacheCoins.insert outpoint entry, base := base })

/-- `GetCoin` of any view. -/
def CCoinsView.getCoin : CCoinsView → COutPoint → Option Coin × CCoinsView
  | .db d, outpoint => (d.getCoin outpoint, .db d)
  | .cache cacheCoins hashBlock base, outpoint =>
    let got := CCoinsViewCache.fetchFrom ⟨cacheCoins, hashBlock, base⟩ outpoint
      (base.getCoin outpoint)
    (got.1.bind fun entry => entry.coin.unspent, got.2.toView)

/-- `CCoinsViewCache::FetchCoin`. -/
def CCoinsViewCache.fetchCoin : Option CCoinsCacheEntry × CCoinsViewCache :=
  view.fetchFrom outpoint (view.base.getCoin outpoint)

/-- `CCoinsViewCache::AccessCoin`. -/
def CCoinsViewCache.accessCoin : Coin × CCoinsViewCache :=
  let got := view.fetchCoin outpoint
  ((got.1.map CCoinsCacheEntry.coin).getD coinEmpty, got.2)

/-- `CCoinsViewCache::HaveCoin`. -/
def CCoinsViewCache.haveCoin : Bool × CCoinsViewCache :=
  let got := view.fetchCoin outpoint
  (got.1.any (fun entry => !entry.coin.isSpent), got.2)

/-- `GetBestBlock` of any view. -/
def CCoinsView.getBestBlock : CCoinsView → Uint256 × CCoinsView
  | .db d => (d.bestBlock, .db d)
  | .cache cacheCoins hashBlock base =>
    if hashBlock = 0 then
      let got := base.getBestBlock
      (got.1, .cache cacheCoins got.1 got.2)
    else (hashBlock, .cache cacheCoins hashBlock base)

/-- `CCoinsViewCache::GetBestBlock`. -/
def CCoinsViewCache.getBestBlock (view : CCoinsViewCache) : Uint256 × CCoinsViewCache :=
  if view.hashBlock = 0 then
    let got := view.base.getBestBlock
    (got.1, { view with hashBlock := got.1, base := got.2 })
  else (view.hashBlock, view)

/-! ## Changing -/

/-- `CCoinsViewCache::AddCoin`. -/
def CCoinsViewCache.addCoin (coin : Coin) (possible_overwrite : Bool) :
    Except CppError CCoinsViewCache :=
  if coin.isSpent then .error (.assertion "!coin.IsSpent()")
  else if coin.out.scriptPubKey.isUnspendable then .ok view
  else
    -- emplace: the entry that is there, or a new one with an empty coin
    let entry := (view.cacheCoins.lookup outpoint).getD ⟨coinEmpty, false, false⟩
    if !possible_overwrite && !entry.coin.isSpent then
      .error (.logicError "Adding new coin that replaces non-pruned entry")
    else
      let fresh := !possible_overwrite && !entry.dirty
      .ok (view.withCoins (view.cacheCoins.insert outpoint ⟨coin, true, entry.fresh || fresh⟩))

/-- `CCoinsViewCache::SpendCoin`: the coin moved out, or `none` for the result `false`. -/
def CCoinsViewCache.spendCoin : Option Coin × CCoinsViewCache :=
  match view.fetchCoin outpoint with
  | (none, view) => (none, view)
  | (some entry, view) =>
    if entry.fresh then (some entry.coin, view.withCoins (view.cacheCoins.erase outpoint))
    else
      (some entry.coin,
        view.withCoins (view.cacheCoins.insert outpoint ⟨coinEmpty, true, entry.fresh⟩))

/-- `CCoinsViewCache::Uncache`. -/
def CCoinsViewCache.uncache : CCoinsViewCache :=
  match view.cacheCoins.lookup outpoint with
  | some entry =>
    if entry.dirty || entry.fresh then view
    else view.withCoins (view.cacheCoins.erase outpoint)
  | none => view

/-- `CCoinsViewCache::SetBestBlock`. -/
def CCoinsViewCache.setBestBlock (hashBlock : Uint256) : CCoinsViewCache :=
  { view with hashBlock := hashBlock }

/-! ## Flushing -/

/-- The exception of `CCoinsViewCache::BatchWrite`. -/
def freshMisapplied : CppError :=
  .logicError
    "FRESH flag misapplied to cache entry for base transaction with spendable outputs"

/-- The body of the loop of `CCoinsViewCache::BatchWrite`, for one entry of the child. -/
def batchWriteEntry (cacheCoins : CCoinsMap) (outpoint : COutPoint) (child : CCoinsCacheEntry) :
    Except CppError CCoinsMap :=
  if child.dirty then
    match cacheCoins.lookup outpoint with
    | none =>
      -- both FRESH and spent in the child: nothing to write
      if child.fresh && child.coin.isSpent then .ok cacheCoins
      else .ok (cacheCoins.insert outpoint ⟨child.coin, true, child.fresh⟩)
    | some us =>
      if child.fresh && !us.coin.isSpent then .error freshMisapplied
      else if us.fresh && child.coin.isSpent then .ok (cacheCoins.erase outpoint)
      else .ok (cacheCoins.insert outpoint ⟨child.coin, true, us.fresh⟩)
  else .ok cacheCoins

/-- The body of the loop of `CCoinsViewDB::BatchWrite`. -/
def batchWriteDB (coins : AList (fun _ : COutPoint => UnspentCoin)) (outpoint : COutPoint)
    (child : CCoinsCacheEntry) : AList (fun _ : COutPoint => UnspentCoin) :=
  if child.dirty then
    if h : child.coin.isSpent = false then coins.insert outpoint ⟨child.coin, h⟩
    else coins.erase outpoint
  else coins

/-- `BatchWrite` of any view. -/
def CCoinsView.batchWrite (mapCoins : CCoinsMap) (hashBlock : Uint256) :
    CCoinsView → Except CppError CCoinsView
  | .db d => do
    let coins ← mapCoins.entries.foldlM
      (fun coins e => .ok (batchWriteDB coins e.1 e.2)) d.coins
    .ok (.db ⟨coins, if hashBlock = 0 then d.bestBlock else hashBlock⟩)
  | .cache cacheCoins _ base => do
    let cacheCoins ← mapCoins.entries.foldlM
      (fun cacheCoins e => batchWriteEntry cacheCoins e.1 e.2) cacheCoins
    .ok (.cache cacheCoins hashBlock base)

/-- `CCoinsViewCache::Flush`. -/
def CCoinsViewCache.flush : Except CppError CCoinsViewCache := do
  let base ← view.base.batchWrite view.cacheCoins view.hashBlock
  .ok { view with cacheCoins := ∅, base := base }

end Binarium
