import Mathlib.Tactic.Basic

set_option autoImplicit false

/-! # Chains of checks

A validation function is a chain of checks that stops at the first one that fails. These lemmas take
a chain that succeeded apart: each of its checks succeeded. -/

namespace Checks

open Except

variable {ε α β : Type}

/-- Go on if the condition holds, fail otherwise. -/
def require (c : Bool) (e : ε) : Except ε Unit := if c then .ok () else .error e

theorem require_eq_ok_iff {c : Bool} {e : ε} : require c e = .ok () ↔ c := by
  cases c with
  | true => exact ⟨fun _ => rfl, fun _ => rfl⟩
  | false => exact ⟨by simp [require], by simp⟩

theorem bind_eq_ok_iff {x : Except ε α} {f : α → Except ε β} {b : β} :
    (x >>= f) = .ok b ↔ ∃ a, x = .ok a ∧ f a = .ok b := by
  cases x with
  | error e =>
    refine ⟨by simp [bind, Except.bind], ?_⟩
    simp
  | ok a =>
    refine ⟨fun h => ⟨a, rfl, h⟩, ?_⟩
    rintro ⟨a', ha, h⟩
    cases ha
    exact h

theorem require_bind {c : Bool} {e : ε} {f : Unit → Except ε β} {b : β}
    (h : (require c e >>= f) = .ok b) : c ∧ f () = .ok b := by
  obtain ⟨_, hc, hf⟩ := bind_eq_ok_iff.mp h
  exact ⟨require_eq_ok_iff.mp hc, hf⟩

theorem bind_of_require {c : Bool} {e : ε} {f : Unit → Except ε β} (h : c) :
    (require c e >>= f) = f () := by
  subst h
  rfl

theorem mapError_eq_ok_iff {ε' : Type*} {x : Except ε α} {f : ε → ε'} {a : α} :
    x.mapError f = .ok a ↔ x = .ok a := by
  cases x with
  | error e =>
    refine ⟨?_, by simp⟩
    intro h
    cases h
  | ok b => exact ⟨fun h => congrArg ok (ok.inj h),
      fun h => congrArg ok (ok.inj h)⟩

theorem toOption_eq_some_iff {x : Except ε α} {a : α} : x.toOption = some a ↔ x = .ok a := by
  cases x with
  | error e => exact ⟨by simp [Except.toOption], by simp⟩
  | ok b => exact ⟨fun h => congrArg Except.ok (Option.some.inj h),
      fun h => congrArg some (Except.ok.inj h)⟩

theorem forM_eq_ok_iff {f : α → Except ε Unit} {l : List α} :
    l.forM f = .ok () ↔ ∀ a ∈ l, f a = .ok () := by
  induction l with
  | nil => exact ⟨fun _ => by simp, fun _ => rfl⟩
  | cons a rest ih =>
    show (f a >>= fun _ => rest.forM f) = .ok () ↔ _
    rw [bind_eq_ok_iff, List.forall_mem_cons, ← ih]
    exact ⟨fun ⟨_, ha, hrest⟩ => ⟨ha, hrest⟩, fun ⟨ha, hrest⟩ => ⟨(), ha, hrest⟩⟩

/-! ## Which results and errors there can be -/

/-- Every result of the chain is one of these. -/
def Ensures (x : Except ε α) (Q : α → Prop) : Prop := ∀ a, x = .ok a → Q a

section

variable {Q : α → Prop} {x y : Except ε α}

theorem Ensures.ok {a : α} (h : Q a) : Ensures (.ok a : Except ε α) Q :=
  fun _ ha => ok.inj ha ▸ h

theorem Ensures.error {e : ε} : Ensures (.error e) Q := fun _ ha => absurd ha (by simp)

theorem Ensures.ite {c : Prop} [Decidable c] (hx : Ensures x Q) (hy : Ensures y Q) :
    Ensures (if c then x else y) Q := by
  split
  · exact hx
  · exact hy

theorem Ensures.bind {x : Except ε β} {f : β → Except ε α} (hf : ∀ b, x = .ok b → Ensures (f b) Q) :
    Ensures (x >>= f) Q := by
  intro a ha
  obtain ⟨b, hb, ha⟩ := bind_eq_ok_iff.mp ha
  exact hf b hb a ha

/-- What every step of a loop keeps. -/
theorem Ensures.foldlM {f : α → β → Except ε α} (l : List β)
    (hf : ∀ a, Q a → ∀ b ∈ l, Ensures (f a b) Q) : ∀ a, Q a → Ensures (l.foldlM f a) Q := by
  induction l with
  | nil => exact fun a ha => .ok ha
  | cons b rest ih =>
    intro a ha
    exact .bind fun a' ha' => ih (fun a ha b hb => hf a ha b (List.mem_cons_of_mem _ hb)) a'
      (hf a ha b List.mem_cons_self a' ha')

end

/-- Every error of the chain is one of these. -/
def ErrorsIn (x : Except ε α) (P : ε → Prop) : Prop := ∀ e, x = .error e → P e

variable {P : ε → Prop}

theorem ErrorsIn.ok (a : α) : ErrorsIn (.ok a : Except ε α) P := fun _ h => absurd h (by simp)

theorem ErrorsIn.require {c : Bool} {e : ε} (h : P e) : ErrorsIn (require c e) P := by
  intro e' he'
  cases c with
  | true => simp [Checks.require] at he'
  | false => exact error.inj he' ▸ h

theorem ErrorsIn.bind {x : Except ε α} {f : α → Except ε β} (hx : ErrorsIn x P)
    (hf : ∀ a, ErrorsIn (f a) P) : ErrorsIn (x >>= f) P := by
  intro e he
  cases x with
  | error e' => exact hx e (congrArg error (error.inj he))
  | ok a => exact hf a e he

end Checks
