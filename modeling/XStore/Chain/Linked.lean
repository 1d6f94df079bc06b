import Mathlib.Data.List.Basic
import Mathlib.Data.List.Nodup

/-!
# Lists linked through the addresses of their nodes

A doubly linked list between two ends and a singly linked stack, over arbitrary addresses.  Nodes are
reached through functions for their links, so that only the nodes of a list matter for it.
-/

namespace XStore

open List

variable {α : Type*} {prev next prev' next' : α → α} {a b c x : α} {l A B : List α}

/-- The nodes are linked both ways in this order, between `a` and `b`. -/
def DoublyLinked (prev next : α → α) : α → List α → α → Prop
  | _, [], _ => True
  | a, x :: l, b => prev x = a ∧ next x = l.headD b ∧ DoublyLinked prev next x l b

/-- The nodes are linked forwards in this order, up to `b`. -/
def Stacked (next : α → α) : List α → α → Prop
  | [], _ => True
  | x :: l, b => next x = l.headD b ∧ Stacked next l b

theorem headD_append : (A ++ B).headD b = A.headD (B.headD b) := by
  cases A <;> rfl

theorem getLastD_append : (A ++ B).getLastD a = B.getLastD (A.getLastD a) := by
  induction A generalizing a with
  | nil => rfl
  | cons x A ih => rw [cons_append, getLastD_cons, ih, getLastD_cons]

theorem getLastD_mem_of_ne_nil (h : A ≠ []) : A.getLastD a ∈ A := by
  rw [getLastD_eq_getLast?, getLast?_eq_some_getLast h]
  exact getLast_mem h

theorem getLastD_congr (h : A ≠ []) : A.getLastD a = A.getLastD b := by
  cases A with
  | nil => exact absurd rfl h
  | cons x A => rw [getLastD_cons, getLastD_cons]

theorem headD_mem_of_ne_nil (h : A ≠ []) : A.headD b ∈ A := by
  cases A with
  | nil => exact absurd rfl h
  | cons x A => exact mem_cons_self ..

theorem doublyLinked_append : DoublyLinked prev next a (A ++ B) b ↔
    DoublyLinked prev next a A (B.headD b) ∧ DoublyLinked prev next (A.getLastD a) B b := by
  induction A generalizing a with
  | nil => simp [DoublyLinked]
  | cons x A ih =>
    rw [cons_append, getLastD_cons]
    simp only [DoublyLinked, ih, headD_append, and_assoc]

section

variable (h : DoublyLinked prev next a A b)

include h

theorem DoublyLinked.next_last (hA : A ≠ []) :
    next (A.getLastD a) = b := by
  induction A generalizing a with
  | nil => exact absurd rfl hA
  | cons x A ih =>
    rw [getLastD_cons]
    cases A with
    | nil => exact h.2.1
    | cons y A => exact ih h.2.2 (cons_ne_nil y A)

/-- Another node is put behind the last one. -/
theorem DoublyLinked.relink_end [DecidableEq α] (hn : A.Nodup)
    (hprev : ∀ x ∈ A, prev' x = prev x)
    (hnext : ∀ x ∈ A, next' x = if x = A.getLastD a then c else next x) :
    DoublyLinked prev' next' a A c := by
  induction A generalizing a with
  | nil => trivial
  | cons x A ih =>
    obtain ⟨hp, hx, hrest⟩ := h
    obtain ⟨hxA, hnA⟩ := nodup_cons.mp hn
    rw [getLastD_cons] at hnext
    refine ⟨(hprev x (mem_cons_self ..)).trans hp, ?_,
      ih hrest hnA (fun y hy => hprev y (mem_cons_of_mem x hy))
        fun y hy => hnext y (mem_cons_of_mem x hy)⟩
    rw [hnext x (mem_cons_self ..)]
    cases A with
    | nil => exact if_pos rfl
    | cons y A =>
      have hlast : x ≠ (y :: A).getLastD x := fun heq =>
        hxA (heq.symm ▸ getLastD_mem_of_ne_nil (cons_ne_nil y A))
      rw [if_neg hlast, hx]
      rfl

theorem DoublyLinked.congr (hprev : ∀ x ∈ A, prev' x = prev x)
    (hnext : ∀ x ∈ A, next' x = next x) : DoublyLinked prev' next' a A b := by
  induction A generalizing a with
  | nil => trivial
  | cons x A ih =>
    obtain ⟨hp, hx, hrest⟩ := h
    exact ⟨(hprev x (mem_cons_self ..)).trans hp, (hnext x (mem_cons_self ..)).trans hx,
      ih hrest (fun y hy => hprev y (mem_cons_of_mem x hy))
        fun y hy => hnext y (mem_cons_of_mem x hy)⟩

end

/-- Another node is put in front of the first one. -/
theorem DoublyLinked.relink_front [DecidableEq α] (h : DoublyLinked prev next a B b) (hn : B.Nodup)
    (hprev : ∀ x ∈ B, prev' x = if x = B.headD b then c else prev x)
    (hnext : ∀ x ∈ B, next' x = next x) : DoublyLinked prev' next' c B b := by
  cases B with
  | nil => trivial
  | cons x B =>
    obtain ⟨-, hx, hrest⟩ := h
    obtain ⟨hxB, -⟩ := nodup_cons.mp hn
    refine ⟨?_, (hnext x (mem_cons_self ..)).trans hx, hrest.congr (fun y hy => ?_)
      fun y hy => hnext y (mem_cons_of_mem x hy)⟩
    · rw [hprev x (mem_cons_self ..), headD_cons, if_pos rfl]
    · have hne : y ≠ x := fun heq => hxB (heq ▸ hy)
      rw [hprev y (mem_cons_of_mem x hy), headD_cons, if_neg hne]

theorem Stacked.congr (h : Stacked next l b) (hnext : ∀ x ∈ l, next' x = next x) :
    Stacked next' l b := by
  induction l with
  | nil => trivial
  | cons x l ih =>
    exact ⟨(hnext x (mem_cons_self ..)).trans h.1,
      ih h.2 fun y hy => hnext y (mem_cons_of_mem x hy)⟩

end XStore
