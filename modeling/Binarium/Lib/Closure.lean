import Mathlib.Data.Finset.Card
import Mathlib.Data.List.Sort

set_option autoImplicit false

/-! # Walking a graph with a worklist

A walk takes an element off a stage, puts it into the set of visited elements and stages its
successors that are not visited yet. `Walking` is what each round keeps, whatever the order in which
elements are taken and whatever else a round checks: an algorithm shows that it starts in such a state
(`Walking.nil`, `Walking.addRoot`) and that a round is `Walking.visit`. Once the stage is empty the
visited elements are those that a root reaches (`Walking.mem_iff`), and in a finite graph the stage is
empty after as many rounds as there are elements (`Walking.stage_eq_nil`).

Sets are lists without duplicates in an order, as `std::set` iterates over them. -/

namespace Closure

open List

variable {α : Type*} [DecidableEq α]

/-! ## Sets in an order -/

section Insert

variable (r : α → α → Prop) [DecidableRel r]

/-- Insertion into a set that is kept in the order `r`. -/
def insertSet (a : α) (l : List α) : List α := if a ∈ l then l else l.orderedInsert r a

theorem mem_insertSet {a b : α} {l : List α} : b ∈ insertSet r a l ↔ b = a ∨ b ∈ l := by
  unfold insertSet
  split_ifs
  · grind
  · simp

theorem nodup_insertSet {a : α} {l : List α} (hl : l.Nodup) : (insertSet r a l).Nodup := by
  unfold insertSet
  split_ifs with h
  · exact hl
  · exact (perm_orderedInsert r a l).nodup_iff.mpr (nodup_cons.mpr ⟨h, hl⟩)

theorem length_insertSet {a : α} {l : List α} (h : a ∉ l) :
    (insertSet r a l).length = l.length + 1 := by
  rw [insertSet, if_neg h, orderedInsert_length]

theorem mem_foldl_insertSet {β : Type*} (f : β → α) {l : List β} {a : α} : ∀ {s : List α},
    a ∈ l.foldl (fun s b => insertSet r (f b) s) s ↔ a ∈ s ∨ ∃ b ∈ l, f b = a := by
  induction l with
  | nil => simp
  | cons b rest ih =>
    simp [ih, mem_insertSet, or_assoc, @eq_comm _ a, or_left_comm]

/-- Stage those of some elements that are not visited. -/
def stageNew (visited stage : List α) (new : List α) : List α :=
  new.foldl (fun stage b => if b ∈ visited then stage else insertSet r b stage) stage

theorem stageNew_cons (visited stage rest : List α) (b : α) :
    stageNew r visited stage (b :: rest)
      = stageNew r visited (if b ∈ visited then stage else insertSet r b stage) rest := rfl

theorem mem_stageNew {visited new : List α} {b : α} : ∀ {stage : List α},
    b ∈ stageNew r visited stage new ↔ b ∈ stage ∨ (b ∈ new ∧ b ∉ visited) := by
  induction new with
  | nil => simp [stageNew]
  | cons c rest ih => grind [stageNew_cons, mem_insertSet]

theorem nodup_stageNew {visited new : List α} : ∀ {stage : List α}, stage.Nodup →
    (stageNew r visited stage new).Nodup := by
  induction new with
  | nil => exact fun h => h
  | cons c rest ih => grind [stageNew_cons, nodup_insertSet]

end Insert

/-! ## Reachability -/

/-- Some root reaches the element. -/
def Reached (next : α → List α) (roots : List α) (a : α) : Prop :=
  ∃ root ∈ roots, Relation.ReflTransGen (fun x y => y ∈ next x) root a

omit [DecidableEq α] in
theorem Reached.next {next : α → List α} {roots : List α} {a b : α} (h : Reached next roots a)
    (hb : b ∈ next a) : Reached next roots b := by
  obtain ⟨root, hroot, hreach⟩ := h
  exact ⟨root, hroot, hreach.tail hb⟩

omit [DecidableEq α] in
theorem Reached.mem_of_closed {next : α → List α} {roots : List α} {P : α → Prop}
    (hroots : ∀ root ∈ roots, P root) (hclosed : ∀ x, P x → ∀ y ∈ next x, P y) {a : α}
    (h : Reached next roots a) : P a := by
  obtain ⟨root, hroot, hreach⟩ := h
  induction hreach with
  | refl => exact hroots root hroot
  | tail _ hstep ih => exact hclosed _ ih _ hstep

/-! ## The invariant of a walk -/

/-- What every round of a walk from the roots keeps. -/
structure Walking (next : α → List α) (roots stage visited : List α) : Prop where
  nodupStage : stage.Nodup
  nodupVisited : visited.Nodup
  disjoint : ∀ a ∈ stage, a ∉ visited
  reached : ∀ a, a ∈ stage ∨ a ∈ visited → Reached next roots a
  rootsSeen : ∀ root ∈ roots, root ∈ stage ∨ root ∈ visited
  nextSeen : ∀ a ∈ visited, ∀ b ∈ next a, b ∈ stage ∨ b ∈ visited

namespace Walking

variable {next : α → List α} {roots stage visited : List α}

omit [DecidableEq α] in
/-- Nothing is staged and nothing is visited. -/
theorem nil (next : α → List α) : Walking next [] [] [] := by
  constructor <;> simp

/-- A finished walk goes on from one more root. -/
theorem addRoot {root : α} (h : Walking next roots [] visited) :
    Walking next (root :: roots) (if root ∈ visited then [] else [root]) visited := by
  have hweaken : ∀ a, Reached next roots a → Reached next (root :: roots) a :=
    fun a ⟨x, hx, hreach⟩ => ⟨x, mem_cons_of_mem _ hx, hreach⟩
  have hself : Reached next (root :: roots) root := ⟨root, by simp, .refl⟩
  obtain ⟨-, hnodup, -, hreached, hseen, hnext⟩ := h
  constructor <;> grind

omit [DecidableEq α] in
/-- Roots that are all staged at once. -/
theorem ofStage (h : stage.Nodup) : Walking next stage stage [] where
  nodupStage := h
  nodupVisited := nodup_nil
  disjoint := by simp
  reached := fun a ha => ⟨a, ha.resolve_right (by simp), .refl⟩
  rootsSeen := fun root hroot => .inl hroot
  nextSeen := by simp

/-- **One round.** An element is taken off the stage and visited, and its new successors are
    staged. -/
theorem visit {r : α → α → Prop} [DecidableRel r] {a : α}
    (h : Walking next roots (a :: stage) visited) :
    Walking next roots (stageNew r (insertSet r a visited) stage (next a))
      (insertSet r a visited) := by
  obtain ⟨ha, hstage⟩ := nodup_cons.mp h.nodupStage
  have hvisited : ∀ b, b ∈ insertSet r a visited ↔ b = a ∨ b ∈ visited :=
    fun b => mem_insertSet r
  have hstaged : ∀ b, b ∈ stageNew r (insertSet r a visited) stage (next a)
      ↔ b ∈ stage ∨ (b ∈ next a ∧ ¬ (b = a ∨ b ∈ visited)) := by
    simp [mem_stageNew, hvisited]
  have hreacha : Reached next roots a := h.reached a (.inl (by simp))
  have hreachnext := fun b => @Reached.next α next roots a b hreacha
  obtain ⟨-, hnodup, hdisjoint, hreached, hroots, hnext⟩ := h
  refine ⟨nodup_stageNew r hstage, nodup_insertSet r hnodup, ?_, ?_, ?_, ?_⟩ <;>
    simp only [hstaged] <;> grind

omit [DecidableEq α] in
/-- **With an empty stage the visited elements are those that a root reaches.** -/
theorem mem_iff (h : Walking next roots [] visited) (a : α) :
    a ∈ visited ↔ Reached next roots a := by
  refine ⟨fun ha => h.reached a (.inr ha), fun ha => ?_⟩
  refine ha.mem_of_closed (fun root hroot => ?_) fun x hx y hy => ?_
  · exact (h.rootsSeen root hroot).resolve_left (by simp)
  · exact (h.nextSeen x hx y hy).resolve_left (by simp)

/-- **As many visited elements as there are leave nothing to stage.** -/
theorem stage_eq_nil {s : Finset α} (h : Walking next roots stage visited)
    (hroots : ∀ root ∈ roots, root ∈ s) (hclosed : ∀ x ∈ s, ∀ y ∈ next x, y ∈ s)
    (hfull : s.card ≤ visited.length) : stage = [] := by
  by_contra hne
  obtain ⟨a, rest, rfl⟩ := exists_cons_of_ne_nil hne
  have hin : ∀ b, b ∈ a :: rest ∨ b ∈ visited → b ∈ s :=
    fun b hb => (h.reached b hb).mem_of_closed hroots hclosed
  have hfresh : a ∉ visited := h.disjoint a (by simp)
  have hsub : (a :: visited).toFinset ⊆ s := by
    intro b hb
    rcases mem_cons.mp (mem_toFinset.mp hb) with rfl | hb
    · exact hin b (.inl (by simp))
    · exact hin b (.inr hb)
  have hcard := Finset.card_le_card hsub
  rw [toFinset_card_of_nodup (nodup_cons.mpr ⟨hfresh, h.nodupVisited⟩)] at hcard
  rw [length_cons] at hcard
  omega

end Walking

end Closure
