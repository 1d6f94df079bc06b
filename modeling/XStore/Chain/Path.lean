import Mathlib.Data.List.Basic

/-!
# Paths along a relation

The list of elements on the way from one element to another, both ends included.
-/
namespace XStore

variable {α : Type*} {R S : α → α → Prop} {a b c : α} {L M : List α}

inductive Path (R : α → α → Prop) : α → List α → α → Prop
  | refl (a : α) : Path R a [a] a
  | step {a b c : α} {L : List α} : R a b → Path R b L c → Path R a (a :: L) c

namespace Path

section

variable (h : Path R a L b)

include h

theorem head : ∃ M, L = a :: M := by
  cases h with
  | refl => exact ⟨[], rfl⟩
  | step _ _ => exact ⟨_, rfl⟩

theorem mem_first : a ∈ L := by
  obtain ⟨M, rfl⟩ := h.head
  exact List.mem_cons_self

theorem getLast? : L.getLast? = some b := by
  induction h with
  | refl => rfl
  | step _ hp ih =>
    obtain ⟨M, rfl⟩ := hp.head
    rw [List.getLast?_cons_cons, ih]

theorem mem_last : b ∈ L := List.mem_of_getLast? h.getLast?

theorem trans (h' : Path R b M c) :
    ∃ N, Path R a N c ∧ ∀ x, x ∈ N ↔ x ∈ L ∨ x ∈ M := by
  induction h with
  | refl a =>
    refine ⟨M, h', fun x => ?_⟩
    obtain ⟨M', rfl⟩ := h'.head
    simp
  | step hr _ ih =>
    obtain ⟨N, hN, hmem⟩ := ih h'
    exact ⟨_, .step hr hN, fun x => by simp [hmem, or_assoc]⟩

end

/-- Along a transitive relation every element is related to all behind it. -/
theorem pairwise (htrans : ∀ {x y z}, S x y → S y z → S x z) (hRS : ∀ {x y}, R x y → S x y)
    (h : Path R a L b) : L.Pairwise S := by
  have hkey : L.Pairwise S ∧ ∀ x ∈ L, x = a ∨ S a x := by
    induction h with
    | refl => simp
    | @step a b c L hr hp ih =>
      obtain ⟨hpair, hfrom⟩ := ih
      have hall : ∀ x ∈ L, S a x := by
        intro x hx
        rcases hfrom x hx with rfl | hs
        · exact hRS hr
        · exact htrans (hRS hr) hs
      refine ⟨List.pairwise_cons.mpr ⟨hall, hpair⟩, fun x hx => ?_⟩
      rcases List.mem_cons.mp hx with rfl | hx
      · exact .inl rfl
      · exact .inr (hall x hx)
  exact hkey.1

end Path

end XStore
