import Mathlib.Data.Nat.Notation
import Binarium.Lib.Checks

set_option autoImplicit false

/-! # Computations that count and may fail

A `Counted` computation ends with a result or an error, and with the number of events on the way to
it, which also a failed computation has. In a sequence the counts add up, as far as it gets.

One computation implies another if the second has every result the first has. The relation goes through
sequences, so it can be shown part by part. -/

namespace Checks

variable {ε α β : Type}

/-- The second computation succeeds whenever the first one does, with the same result. -/
def Implies (x y : Except ε α) : Prop := ∀ a, x = .ok a → y = .ok a

theorem Implies.refl (x : Except ε α) : Implies x x := fun _ h => h

theorem Implies.bind {x y : Except ε α} {f g : α → Except ε β} (hx : Implies x y)
    (hf : ∀ a, Implies (f a) (g a)) : Implies (x >>= f) (y >>= g) := by
  intro b hb
  obtain ⟨a, ha, hb⟩ := bind_eq_ok_iff.mp hb
  exact bind_eq_ok_iff.mpr ⟨a, hx a ha, hf a b hb⟩

end Checks

/-- A result or an error, and how often something happened before. -/
structure Counted (ε α : Type) where
  count : ℕ
  result : Except ε α

namespace Counted

variable {ε α β : Type}

/-- A computation without events. -/
def lift (x : Except ε α) : Counted ε α := ⟨0, x⟩

/-- One event, with the result it has. -/
def event (a : α) : Counted ε α := ⟨1, .ok a⟩

/-- Stop with an error. -/
def fail (e : ε) : Counted ε α := ⟨0, .error e⟩

/-- Stop with an error unless a condition holds. -/
def ensure (c : Bool) (e : ε) : Counted ε Unit := lift (Checks.require c e)

instance : Monad (Counted ε) where
  pure a := ⟨0, .ok a⟩
  bind x f :=
    match x.result with
    | .error e => ⟨x.count, .error e⟩
    | .ok a => ⟨x.count + (f a).count, (f a).result⟩

@[simp] theorem count_lift (x : Except ε α) : (lift x).count = 0 := rfl

@[simp] theorem result_lift (x : Except ε α) : (lift x).result = x := rfl

@[simp] theorem count_pure (a : α) : (pure a : Counted ε α).count = 0 := rfl

@[simp] theorem result_pure (a : α) : (pure a : Counted ε α).result = .ok a := rfl

@[simp] theorem count_fail (e : ε) : (fail e : Counted ε α).count = 0 := rfl

@[simp] theorem result_fail (e : ε) : (fail e : Counted ε α).result = .error e := rfl

@[simp] theorem count_ensure (c : Bool) (e : ε) : (ensure c e).count = 0 := rfl

theorem result_bind (x : Counted ε α) (f : α → Counted ε β) :
    (x >>= f).result = x.result >>= fun a => (f a).result := by
  obtain ⟨n, x⟩ := x
  cases x <;> rfl

variable {f : α → Counted ε β} {x : Counted ε α}

theorem result_bind_of_ok {a : α} (h : x.result = .ok a) : (x >>= f).result = (f a).result := by
  obtain ⟨n, x⟩ := x
  cases h
  rfl

theorem result_bind_of_error {e : ε} (h : x.result = .error e) : (x >>= f).result = .error e := by
  obtain ⟨n, x⟩ := x
  cases h
  rfl

theorem result_bind_eq_ok {b : β} :
    (x >>= f).result = .ok b ↔ ∃ a, x.result = .ok a ∧ (f a).result = .ok b := by
  obtain ⟨n, x⟩ := x
  cases x with
  | error e => exact ⟨by simp, fun ⟨a, h, _⟩ => absurd h (by simp)⟩
  | ok a =>
    exact ⟨fun h => ⟨a, rfl, h⟩, fun ⟨a', ha, hb⟩ => by cases ha; exact hb⟩

theorem ensures_bind {Q : β → Prop} (hf : ∀ a, x.result = .ok a → Checks.Ensures (f a).result Q) :
    Checks.Ensures (x >>= f).result Q := by
  rw [result_bind]
  exact .bind hf

/-- The second part counts only if the first one has a result. -/
theorem count_bind_le {m n : ℕ} (hx : x.count ≤ m) (hf : ∀ a, x.result = .ok a → (f a).count ≤ n) :
    (x >>= f).count ≤ m + n := by
  obtain ⟨k, x⟩ := x
  cases x with
  | error e => exact Nat.le_trans hx (Nat.le_add_right m n)
  | ok a => exact Nat.add_le_add hx (hf a rfl)

/-- The same for a first part without events. -/
theorem count_bind_le_of_zero {n : ℕ} (hx : x.count = 0)
    (hf : ∀ a, x.result = .ok a → (f a).count ≤ n) : (x >>= f).count ≤ n :=
  Nat.zero_add n ▸ count_bind_le (Nat.le_of_eq hx) hf

/-- The same for a second part without events. -/
theorem count_bind_le_left {m : ℕ} (hx : x.count ≤ m) (hf : ∀ a, (f a).count = 0) :
    (x >>= f).count ≤ m :=
  count_bind_le hx fun a _ => Nat.le_of_eq (hf a)

/-- The second computation succeeds whenever the first one does, with the same result. -/
def Implies (x y : Counted ε α) : Prop := Checks.Implies x.result y.result

theorem Implies.refl (x : Counted ε α) : Implies x x := Checks.Implies.refl x.result

theorem Implies.lift {x y : Except ε α} (h : Checks.Implies x y) :
    Implies (lift x) (Counted.lift y) := h

theorem Implies.bind {y : Counted ε α} {g : α → Counted ε β} (hx : Implies x y)
    (hf : ∀ a, Implies (f a) (g a)) : Implies (x >>= f) (y >>= g) := by
  intro b hb
  obtain ⟨a, ha, hb⟩ := result_bind_eq_ok.mp hb
  exact result_bind_eq_ok.mpr ⟨a, hx a ha, hf a b hb⟩

end Counted
