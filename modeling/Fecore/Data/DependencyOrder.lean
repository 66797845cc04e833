import Mathlib.Logic.Relation
import Mathlib.Data.List.Nodup
import Mathlib.Data.List.Perm.Basic
import Mathlib.Tactic.Common

set_option relaxedAutoImplicit false
set_option autoImplicit false

/-!
# Lists in the order of dependencies

A relation `r a b` says that `a` depends on `b`. A list is in the order of the dependencies when it
lists nothing twice and everything after all it depends on.

## Main definitions

* `DependencyOrder.Acyclic` — nothing depends on itself, not even through others.
* `DependencyOrder.Ordered` — a list is in the order of the dependencies.
* `DependencyOrder.Grows` — a list goes on in the order of the dependencies.

## Main results

* `DependencyOrder.Ordered.snoc` — a list grows at its end by what has all its dependencies listed.
* `DependencyOrder.Ordered.idxOf_lt` — what is listed stands after what it depends on.
* `DependencyOrder.Ordered.acyclic` — a list of everything has an order only without cycles.
* `DependencyOrder.Ordered.map` — orders under an injection.
* `DependencyOrder.ordered_append_singleton_iff`, `DependencyOrder.Grows.ordered_iff` — when a list
  is in order that goes on by one item, or in the order of the dependencies.
-/

namespace DependencyOrder

variable {α β : Type*} {r : α → α → Prop} {l : List α} {a b : α}

/-- Nothing depends on itself, not even through others. -/
def Acyclic (r : α → α → Prop) : Prop := ∀ a, ¬ Relation.TransGen r a a

/-- Nothing is listed twice, and everything is listed after all it depends on. -/
structure Ordered (r : α → α → Prop) (l : List α) : Prop where
  nodup : l.Nodup
  before : ∀ l₁ a l₂, l = l₁ ++ a :: l₂ → ∀ b, r a b → b ∈ l₁

namespace Ordered

/-- No item is in order. -/
@[simp] lemma nil : Ordered r [] where
  nodup := List.nodup_nil
  before := by simp

/-- What has all its dependencies listed can be listed next. -/
theorem snoc (h : Ordered r l) (ha : a ∉ l) (hdeps : ∀ b, r a b → b ∈ l) :
    Ordered r (l ++ [a]) where
  nodup := by
    rw [List.nodup_append]
    refine ⟨h.nodup, List.nodup_singleton a, fun x hx y hy hxy => ?_⟩
    obtain rfl : y = a := by simpa using hy
    exact ha (hxy ▸ hx)
  before := by
    intro l₁ x l₂ heq y hy
    rcases List.eq_nil_or_concat l₂ with rfl | ⟨l₂, z, rfl⟩
    · obtain ⟨rfl, heq⟩ := List.append_inj' heq rfl
      obtain rfl : a = x := by simpa using heq
      exact hdeps y hy
    · have heq : l ++ [a] = (l₁ ++ x :: l₂) ++ [z] := by simpa using heq
      obtain ⟨heq, -⟩ := List.append_inj' heq rfl
      exact h.before l₁ x l₂ heq y hy

/-- What something listed depends on is listed. -/
lemma mem_of_rel (h : Ordered r l) (ha : a ∈ l) (hab : r a b) : b ∈ l := by
  obtain ⟨l₁, l₂, rfl⟩ := List.append_of_mem ha
  exact List.mem_append_left _ (h.before l₁ a l₂ rfl b hab)

/-- What something listed depends on stands before it. -/
theorem idxOf_lt [BEq α] [LawfulBEq α] (h : Ordered r l) (ha : a ∈ l) (hab : r a b) :
    l.idxOf b < l.idxOf a := by
  obtain ⟨l₁, l₂, rfl⟩ := List.append_of_mem ha
  have hb : b ∈ l₁ := h.before l₁ a l₂ rfl b hab
  have ha₁ : a ∉ l₁ := by
    intro ha₁
    exact (List.nodup_append.mp h.nodup).2.2 a ha₁ a (List.mem_cons_self ..) rfl
  rw [List.idxOf_append_of_mem hb, List.idxOf_append_of_notMem ha₁, List.idxOf_cons_self]
  exact Nat.lt_of_lt_of_le (List.idxOf_lt_length_of_mem hb) (Nat.le_add_right ..)

/-- The same through others. -/
lemma idxOf_lt_of_transGen [BEq α] [LawfulBEq α] (h : Ordered r l) (ha : a ∈ l)
    (hab : Relation.TransGen r a b) : b ∈ l ∧ l.idxOf b < l.idxOf a := by
  induction hab with
  | single hab => exact ⟨h.mem_of_rel ha hab, h.idxOf_lt ha hab⟩
  | tail _ hbc ih => exact ⟨h.mem_of_rel ih.1 hbc, Nat.lt_trans (h.idxOf_lt ih.1 hbc) ih.2⟩

/-- **A list of all that depends on something has an order only without cycles.** -/
theorem acyclic (h : Ordered r l) (hall : ∀ a b, r a b → a ∈ l) : Acyclic r := by
  classical
  intro a ha
  have hmem : a ∈ l := by
    rcases Relation.TransGen.head'_iff.mp ha with ⟨b, hab, -⟩
    exact hall a b hab
  exact Nat.lt_irrefl _ (h.idxOf_lt_of_transGen hmem ha).2

/-- Orders under a map that is injective on what is listed and reflects the dependencies. -/
theorem map {r' : β → β → Prop} (h : Ordered r l) {f : α → β}
    (hinj : ∀ x ∈ l, ∀ y ∈ l, f x = f y → x = y)
    (hrel : ∀ a ∈ l, ∀ y, r' (f a) y → ∃ b, r a b ∧ f b = y) : Ordered r' (l.map f) where
  nodup := h.nodup.map_on hinj
  before := by
    intro l₁ y l₂ heq z hz
    obtain ⟨m₁, m₂, rfl, rfl, hm₂⟩ := List.map_eq_append_iff.mp heq
    obtain ⟨a, m₃, rfl, rfl, rfl⟩ := List.map_eq_cons_iff.mp hm₂
    obtain ⟨b, hab, rfl⟩ := hrel a (by simp) z hz
    exact List.mem_map_of_mem (h.before m₁ a m₃ rfl b hab)

end Ordered

/-- The beginning of a list in order is in order. -/
lemma Ordered.of_append {l' : List α} (h : Ordered r (l ++ l')) : Ordered r l where
  nodup := h.nodup.of_append_left
  before := by
    rintro l₁ a l₂ rfl b hab
    exact h.before l₁ a (l₂ ++ l') (by simp) b hab

/-- A list that goes on by one new item is in order when the item comes after what it depends on. -/
lemma ordered_append_singleton_iff (ha : a ∉ l) :
    Ordered r (l ++ [a]) ↔ Ordered r l ∧ ∀ b, r a b → b ∈ l :=
  ⟨fun h => ⟨h.of_append, h.before l a [] rfl⟩, fun h => h.1.snoc ha h.2⟩

/-- The second list is the first one and goes on with new items, each after all it depends on. -/
inductive Grows (r : α → α → Prop) (l : List α) : List α → Prop
  | refl : Grows r l l
  | snoc {l' : List α} {a : α} (grows : Grows r l l') (new : a ∉ l') (deps : ∀ b, r a b → b ∈ l') :
    Grows r l (l' ++ [a])

namespace Grows

variable {l₁ l₂ l₃ : List α}

/-- What has grown out of a list that has grown has grown out of the first one. -/
lemma trans (h : Grows r l₁ l₂) (h' : Grows r l₂ l₃) : Grows r l₁ l₃ := by
  induction h' with
  | refl => exact h
  | snoc _ hnew hdeps ih => exact ih.snoc hnew hdeps

/-- Growing neither brings an order about nor destroys one. -/
lemma ordered_iff (h : Grows r l₁ l₂) : Ordered r l₂ ↔ Ordered r l₁ := by
  induction h with
  | refl => rfl
  | snoc _ hnew hdeps ih => rw [ordered_append_singleton_iff hnew, ih, and_iff_left hdeps]

end Grows

end DependencyOrder
