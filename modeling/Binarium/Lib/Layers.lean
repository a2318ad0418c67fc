import Mathlib.Data.Nat.Notation
import Mathlib.Logic.Function.Basic

set_option autoImplicit false

/-! # Maps with layered updates

A partial map at the bottom and any number of layers of updates over it. A layer says for each key
whether it updates the key, and to what; a look-up at the top takes the update of the highest layer
that has one, and the map otherwise. Pushing a layer's updates one level down changes no look-up at
that layer or above it. -/

/-- A map under layers of updates: an update `some v` binds a key, an update `none` removes it. -/
inductive Layers (K V : Type) where
  | base (m : K → Option V)
  | layer (updates : K → Option (Option V)) (below : Layers K V)

namespace Layers

variable {K V : Type}

/-- What a key is bound to, seen from the top. -/
def lookup : Layers K V → K → Option V
  | .base m, k => m k
  | .layer updates below, k => (updates k).getD (below.lookup k)

/-- The map without its `i` topmost layers. -/
def level : ℕ → Layers K V → Layers K V
  | 0, L => L
  | _ + 1, .base m => .base m
  | i + 1, .layer _ below => below.level i

/-- Change what is left without the `i` topmost layers. -/
def modifyAt (g : Layers K V → Layers K V) : ℕ → Layers K V → Layers K V
  | 0, L => g L
  | _ + 1, .base m => .base m
  | i + 1, .layer updates below => .layer updates (below.modifyAt g i)

/-- Update a key in the top layer. -/
def set [DecidableEq K] (k : K) (x : Option V) : Layers K V → Layers K V
  | .base m => .base m
  | .layer updates below => .layer (Function.update updates k (some x)) below

/-- Write updates into the top layer, or into the map. -/
def push (updates : K → Option (Option V)) : Layers K V → Layers K V
  | .base m => .base (fun k => (updates k).getD (m k))
  | .layer own below => .layer (fun k => (updates k).or (own k)) below

/-- Write the top layer's updates one level down. -/
def flush : Layers K V → Layers K V
  | .base m => .base m
  | .layer updates below => .layer (fun _ => none) (below.push updates)

/-- `d` empty layers over a map. -/
def empty (m : K → Option V) : ℕ → Layers K V
  | 0 => .base m
  | d + 1 => .layer (fun _ => none) (empty m d)

theorem lookup_push (updates : K → Option (Option V)) (L : Layers K V) (k : K) :
    (L.push updates).lookup k = (updates k).getD (L.lookup k) := by
  cases L with
  | base m => rfl
  | layer own below =>
    simp [push, lookup]

/-- Flushing the top layer is invisible from the top. -/
theorem lookup_flush (L : Layers K V) (k : K) : L.flush.lookup k = L.lookup k := by
  cases L with
  | base m => rfl
  | layer updates below => exact lookup_push updates below k

theorem lookup_set_ne [DecidableEq K] {k k' : K} (h : k' ≠ k) (x : Option V) (L : Layers K V) :
    (L.set k x).lookup k' = L.lookup k' := by
  cases L with
  | base m => rfl
  | layer updates below => simp only [set, lookup, Function.update_of_ne h]

/-- A change deeper down that keeps a look-up there keeps it at the top. -/
theorem lookup_modifyAt {g : Layers K V → Layers K V} {k : K}
    (hg : ∀ L, (g L).lookup k = L.lookup k) (i : ℕ) (L : Layers K V) :
    (L.modifyAt g i).lookup k = L.lookup k := by
  induction i generalizing L with
  | zero => exact hg L
  | succ i ih =>
    cases L with
    | base m => rfl
    | layer updates below => simp only [modifyAt, lookup, ih]

end Layers
