import Mathlib.Logic.Equiv.Basic
import Mathlib.Data.List.Nodup
import Mathlib.Data.List.Range

/-!
# Rearrangements and order on a segment of an array

An array is read by index and changed by exchanging two cells.  A segment `[a, a + n)` is rearranged by a
permutation that fixes every index outside it, and a three-way comparator is judged on distinct positions
of a segment only, since a sorting routine never compares a position with itself.
-/
namespace XStore.Sort

variable {α : Type*}

structure Cells (α : Type*) where
  size : Nat
  get : Nat → α

instance : CoeFun (Cells α) (fun _ => Nat → α) := ⟨Cells.get⟩

/-- Index `k` lies in the segment of length `n` that starts at `a`. -/
def InSeg (a n k : Nat) : Prop := a ≤ k ∧ k < a + n

def swapCells (A : Cells α) (i j : Nat) : Cells α := ⟨A.size, fun k => A (Equiv.swap i j k)⟩

theorem swapCells_left (A : Cells α) (i j : Nat) : swapCells A i j i = A j := by
  simp [swapCells]

theorem swapCells_right (A : Cells α) (i j : Nat) : swapCells A i j j = A i := by
  simp [swapCells]

theorem swapCells_of_ne (A : Cells α) {i j k : Nat} (hi : k ≠ i) (hj : k ≠ j) :
    swapCells A i j k = A k := by
  simp [swapCells, Equiv.swap_apply_of_ne_of_ne hi hj]

theorem swapCells_self (A : Cells α) (i : Nat) : swapCells A i i = A := by
  simp [swapCells]

/-- `A'` is `A` with the cells of the segment rearranged. -/
def PermOn (a n : Nat) (A A' : Cells α) : Prop :=
  ∃ σ : Equiv.Perm Nat, (∀ k, ¬ InSeg a n k → σ k = k) ∧ A' = ⟨A.size, A ∘ σ⟩

namespace PermOn

variable {a n b m : Nat} {A B C : Cells α} {k : Nat}

theorem refl (a n : Nat) (A : Cells α) : PermOn a n A A := ⟨Equiv.refl _, fun _ _ => rfl, rfl⟩

theorem trans (h : PermOn a n A B) (h' : PermOn a n B C) : PermOn a n A C := by
  obtain ⟨σ, hσ, rfl⟩ := h
  obtain ⟨τ, hτ, rfl⟩ := h'
  refine ⟨τ.trans σ, fun k hk => ?_, rfl⟩
  rw [Equiv.trans_apply, hτ k hk, hσ k hk]

theorem swap {i j : Nat} (A : Cells α) (hi : InSeg a n i) (hj : InSeg a n j) :
    PermOn a n A (swapCells A i j) := by
  refine ⟨Equiv.swap i j, fun k hk => Equiv.swap_apply_of_ne_of_ne ?_ ?_, rfl⟩
  · rintro rfl; exact hk hi
  · rintro rfl; exact hk hj

theorem mono (h : PermOn b m A B) (hab : a ≤ b) (hbm : b + m ≤ a + n) : PermOn a n A B := by
  obtain ⟨σ, hσ, rfl⟩ := h
  refine ⟨σ, fun k hk => hσ k fun hin => hk ?_, rfl⟩
  unfold InSeg at hin ⊢
  omega

theorem outside (h : PermOn a n A B) (hk : ¬ InSeg a n k) : B k = A k := by
  obtain ⟨σ, hσ, rfl⟩ := h
  simp [hσ k hk]

theorem inSeg_of_fixes {σ : Equiv.Perm Nat} (hσ : ∀ k, ¬ InSeg a n k → σ k = k)
    (hk : InSeg a n k) : InSeg a n (σ k) := by
  by_contra hout
  have hfix := hσ (σ k) hout
  rw [σ.injective hfix] at hout
  exact hout hk

/-- Whatever holds of every cell of a segment still holds of every cell once it is rearranged. -/
theorem forall_cells (h : PermOn a n A B) {P : α → Prop} (hP : ∀ k, InSeg a n k → P (A k))
    (hk : InSeg a n k) : P (B k) := by
  obtain ⟨σ, hσ, rfl⟩ := h
  exact hP _ (inSeg_of_fixes hσ hk)

/-- The cells of a rearranged segment, listed, are a permutation of the original cells. -/
theorem map_range_perm (h : PermOn 0 n A B) :
    ((List.range n).map B).Perm ((List.range n).map A) := by
  obtain ⟨σ, hσ, rfl⟩ := h
  rw [← List.map_map]
  apply List.Perm.map
  refine (List.perm_ext_iff_of_nodup (List.Nodup.map σ.injective List.nodup_range)
    List.nodup_range).mpr fun k => ?_
  simp only [List.mem_map, List.mem_range]
  constructor
  · rintro ⟨j, hj, rfl⟩
    exact (by simpa [InSeg] using inSeg_of_fixes (a := 0) hσ (by simpa [InSeg] using hj))
  · intro hk
    refine ⟨σ.symm k, ?_, σ.apply_symm_apply k⟩
    by_contra hout
    have hfix := hσ (σ.symm k) (by simpa [InSeg] using hout)
    rw [σ.apply_symm_apply] at hfix
    rw [← hfix] at hout
    exact hout hk

end PermOn

/-- On the segment the comparator is a strict total order of the cells: distinct positions compare
one way or the other, swapping the arguments flips the sign, and "less" is transitive. -/
structure StrictOn (cmp : α → α → Int) (a n : Nat) (A : Cells α) : Prop where
  total : ∀ i j, InSeg a n i → InSeg a n j → i ≠ j → cmp (A i) (A j) < 0 ∨ cmp (A j) (A i) < 0
  flip : ∀ i j, InSeg a n i → InSeg a n j → i ≠ j → (0 < cmp (A i) (A j) ↔ cmp (A j) (A i) < 0)
  trans : ∀ i j k, InSeg a n i → InSeg a n j → InSeg a n k → i ≠ j → j ≠ k → i ≠ k →
    cmp (A i) (A j) < 0 → cmp (A j) (A k) < 0 → cmp (A i) (A k) < 0

namespace StrictOn

variable {cmp : α → α → Int} {a n b m : Nat} {A B : Cells α}

variable (h : StrictOn cmp a n A) {i j : Nat}

include h

theorem perm (hp : PermOn a n A B) : StrictOn cmp a n B := by
  obtain ⟨σ, hσ, rfl⟩ := hp
  have hin : ∀ k, InSeg a n k → InSeg a n (σ k) := fun k => PermOn.inSeg_of_fixes hσ
  have hne : ∀ i j, i ≠ j → σ i ≠ σ j := fun i j hij hs => hij (σ.injective hs)
  exact ⟨fun i j hi hj hij => h.total _ _ (hin i hi) (hin j hj) (hne i j hij),
    fun i j hi hj hij => h.flip _ _ (hin i hi) (hin j hj) (hne i j hij),
    fun i j k hi hj hk hij hjk hik =>
      h.trans _ _ _ (hin i hi) (hin j hj) (hin k hk) (hne i j hij) (hne j k hjk) (hne i k hik)⟩

theorem sub (hab : a ≤ b) (hbm : b + m ≤ a + n) : StrictOn cmp b m A := by
  have hin : ∀ k, InSeg b m k → InSeg a n k := fun k hk => by unfold InSeg at hk ⊢; omega
  exact ⟨fun i j hi hj => h.total i j (hin i hi) (hin j hj),
    fun i j hi hj => h.flip i j (hin i hi) (hin j hj),
    fun i j k hi hj hk => h.trans i j k (hin i hi) (hin j hj) (hin k hk)⟩

/-- Distinct positions never compare equal, so "not greater" is "less". -/
theorem neg_of_not_pos (hi : InSeg a n i) (hj : InSeg a n j)
    (hij : i ≠ j) (hc : ¬ 0 < cmp (A i) (A j)) : cmp (A i) (A j) < 0 := by
  rcases h.total i j hi hj hij with hlt | hgt
  · exact hlt
  · exact absurd ((h.flip i j hi hj hij).mpr hgt) hc

theorem pos_of_not_neg (hi : InSeg a n i) (hj : InSeg a n j)
    (hij : i ≠ j) (hc : ¬ cmp (A i) (A j) < 0) : 0 < cmp (A i) (A j) := by
  rcases h.total i j hi hj hij with hlt | hgt
  · exact absurd hlt hc
  · exact (h.flip i j hi hj hij).mpr hgt

end StrictOn

def SortedOn (cmp : α → α → Int) (a n : Nat) (A : Cells α) : Prop :=
  ∀ i j, a ≤ i → i < j → j < a + n → cmp (A i) (A j) < 0

end XStore.Sort
