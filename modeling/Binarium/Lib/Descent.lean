import Mathlib.Data.Finset.Lattice.Lemmas

set_option autoImplicit false

/-! # Reaching in a changing graph

What the elements of a graph reach after the graph has changed: after an element without successors was
added (`reaches_addSink`), after elements were removed together with what is below them
(`reaches_remove`), and after successors were given to one element (`reaches_addNext`).

Loops add and remove single elements of a relation; `foldl_gains` and `foldl_loses` say what a whole loop
adds and removes, `foldl_keeps` what it leaves alone. `foldl_done` is for a loop whose invariant names
the elements it has been over. -/

namespace Descent

open Relation List ReflTransGen

variable {α : Type*} {R R' : α → α → Prop}

/-! ## An element without successors -/

section AddSink

variable {n : α} {P : α → Prop}

section

variable (hR' : ∀ x y, R' x y ↔ R x y ∨ (y = n ∧ P x)) (hsink : ∀ y, ¬ R n y) (hself : ¬ P n)

include hR' hsink hself

/-- **To reach something after a sink was added** is to reach it before, or to reach one of the
    predecessors of the sink. -/
theorem reaches_addSink {a b : α} :
    ReflTransGen R' a b ↔ ReflTransGen R a b ∨ (b = n ∧ ∃ p, P p ∧ ReflTransGen R a p) := by
  have hmono : ∀ {x y}, ReflTransGen R x y → ReflTransGen R' x y :=
    fun h => mono (fun x y hxy => (hR' x y).mpr (.inl hxy)) _ _ h
  constructor
  · intro h
    induction h with
    | refl => exact .inl .refl
    | @tail c b _ hcb ih =>
      rcases (hR' c b).mp hcb with hold | ⟨rfl, hp⟩
      · rcases ih with ih | ⟨rfl, -⟩
        · exact .inl (ih.tail hold)
        · exact absurd hold (hsink b)
      · rcases ih with ih | ⟨rfl, -⟩
        · exact .inr ⟨rfl, c, hp, ih⟩
        · exact absurd hp hself
  · rintro (h | ⟨rfl, p, hp, h⟩)
    · exact hmono h
    · exact (hmono h).tail ((hR' p b).mpr (.inr ⟨rfl, hp⟩))

theorem acyclic_addSink (hacyclic : ∀ a, ¬ TransGen R a a) (a : α) : ¬ TransGen R' a a := by
  intro hcycle
  obtain ⟨c, hreach, hlast⟩ := TransGen.tail'_iff.mp hcycle
  have hbefore := (reaches_addSink hR' hsink hself).mp hreach
  have hcycle : R c a → ¬ ReflTransGen R a c := fun h h' => hacyclic a (TransGen.tail' h' h)
  grind

end

end AddSink

/-! ## Removal -/

/-- What an element of `D` reaches is in `D` too, as soon as something outside precedes it. -/
def Entire (R : α → α → Prop) (D : α → Prop) : Prop :=
  ∀ x d, ¬ D x → D d → R x d → ∀ e, ReflTransGen R d e → D e

/-- **To reach something after elements were removed** is to reach it before and that it is not
    removed. -/
theorem reaches_remove {D : α → Prop} (hR' : ∀ x y, R' x y ↔ R x y ∧ ¬ D x ∧ ¬ D y)
    (hD : Entire R D) {a b : α} (ha : ¬ D a) :
    ReflTransGen R' a b ↔ ReflTransGen R a b ∧ ¬ D b := by
  constructor
  · intro h
    refine ⟨mono (fun x y hxy => ((hR' x y).mp hxy).1) _ _ h, ?_⟩
    rcases cases_tail h with rfl | ⟨c, -, hcb⟩
    · exact ha
    · exact ((hR' c b).mp hcb).2.2
  · rintro ⟨h, hb⟩
    -- a path stays outside, or it has entered the removed part for good
    have hpath : (¬ D b ∧ ReflTransGen R' a b) ∨ ∀ e, ReflTransGen R b e → D e := by
      clear hb
      induction h with
      | refl => exact .inl ⟨ha, .refl⟩
      | @tail c b _ hcb ih =>
        rcases ih with ⟨hc, hreach⟩ | hgone
        · by_cases hb : D b
          · exact .inr (hD c b hc hb hcb)
          · exact .inl ⟨hb, hreach.tail ((hR' c b).mpr ⟨hcb, hc, hb⟩)⟩
        · exact .inr fun e he => hgone e (he.head hcb)
    rcases hpath with ⟨-, hreach⟩ | hgone
    · exact hreach
    · exact absurd (hgone b .refl) hb

/-! ## More successors for one element -/

theorem reaches_addNext {n : α} {P : α → Prop} (hR' : ∀ x y, R' x y ↔ R x y ∨ (x = n ∧ P y)) {a b : α}
    (ha : ¬ ReflTransGen R a n) : ReflTransGen R' a b ↔ ReflTransGen R a b := by
  constructor
  · intro h
    induction h with
    | refl => exact .refl
    | @tail c b _ hcb ih =>
      rcases (hR' c b).mp hcb with hold | ⟨rfl, -⟩
      · exact ih.tail hold
      · exact absurd ih ha
  · exact fun h => mono (fun x y hxy => (hR' x y).mpr (.inl hxy)) _ _ h

theorem transGen_iff_of_ne {a b : α} (h : b ≠ a) : TransGen R a b ↔ ReflTransGen R a b := by
  rw [reflTransGen_iff_eq_or_transGen]
  exact (or_iff_right h).symm

/-! ## Circles -/

/-- On a circle every step can be gone back. -/
theorem transGen_of_circle {a b : α} (h : TransGen R a b) (hback : ReflTransGen R b a) :
    TransGen (fun x y => R x y ∧ ReflTransGen R y x) a b := by
  induction h with
  | single hab => exact .single ⟨hab, hback⟩
  | tail hac hcb ih => exact (ih (hback.head hcb)).tail ⟨hcb, hback.trans hac.to_reflTransGen⟩

/-! ## Loops -/

section Loops

variable {σ β : Type*} {f : σ → α → σ}

/-- A loop of steps that each leave something alone. -/
theorem foldl_keeps {g : σ → β} (hf : ∀ s a, g (f s a) = g s) (l : List α) :
    ∀ s, g (l.foldl f s) = g s := by
  induction l with
  | nil => exact fun s => rfl
  | cons a rest ih =>
    simp [foldl_cons, ih, hf]

/-- A loop of steps that each keep an invariant. -/
theorem foldl_invariant {Q : σ → Prop} (hf : ∀ s a, Q s → Q (f s a)) (l : List α) :
    ∀ {s}, Q s → Q (l.foldl f s) := by
  induction l with
  | nil => exact fun h => h
  | cons a rest ih => exact fun h => ih (hf _ a h)

/-- **A loop of steps that each add one element.** -/
theorem foldl_gains {Q : σ → β → Prop} {g : α → β} (hf : ∀ s a b, Q (f s a) b ↔ Q s b ∨ b = g a)
    {l : List α} {b : β} : ∀ {s}, Q (l.foldl f s) b ↔ Q s b ∨ ∃ a ∈ l, b = g a := by
  induction l with
  | nil => simp
  | cons a rest ih =>
    simp [ih, hf, or_assoc]

/-- **A loop of steps that each remove one element.** The steps may need an invariant that they
    keep. -/
theorem foldl_loses {Q : σ → β → Prop} {g : α → β} {I : σ → Prop} (hkeep : ∀ s a, I s → I (f s a))
    (hf : ∀ s a b, I s → (Q (f s a) b ↔ Q s b ∧ b ≠ g a)) {l : List α} {b : β} :
    ∀ {s}, I s → (Q (l.foldl f s) b ↔ Q s b ∧ ∀ a ∈ l, b ≠ g a) := by
  induction l with
  | nil => simp
  | cons a rest ih =>
    intro s hs
    rw [foldl_cons, ih (hkeep s a hs), hf s a b hs, forall_mem_cons, and_assoc]

/-- **A loop over the elements of a set**, with an invariant in terms of those it is done with. -/
theorem foldl_done [DecidableEq α] {Q : σ → Finset α → Prop} {l : List α} (hnodup : l.Nodup)
    (hstep : ∀ s done a, a ∈ l → a ∉ done → Q s done → Q (f s a) (insert a done)) {s : σ}
    (h : Q s ∅) : Q (l.foldl f s) l.toFinset := by
  have hrest : ∀ rest : List α, (∀ a ∈ rest, a ∈ l) → rest.Nodup → ∀ {s done},
      (∀ a ∈ rest, a ∉ done) → Q s done → Q (rest.foldl f s) (done ∪ rest.toFinset) := by
    intro rest
    induction rest with
    | nil =>
      simp
    | cons a rest ih =>
      intro hsub hnodup s done hfresh h
      obtain ⟨ha, hnodup⟩ := nodup_cons.mp hnodup
      obtain ⟨hin, hsub⟩ := forall_mem_cons.mp hsub
      obtain ⟨hnew, hfresh⟩ := forall_mem_cons.mp hfresh
      rw [toFinset_cons, Finset.union_insert, ← Finset.insert_union]
      refine ih hsub hnodup (fun b hb => ?_) (hstep s done a hin hnew h)
      rw [Finset.mem_insert, not_or]
      exact ⟨fun heq => ha (heq ▸ hb), hfresh b hb⟩
  have hall := hrest l (fun _ ha => ha) hnodup (fun a _ => Finset.notMem_empty a) h
  simpa using hall

end Loops

end Descent
