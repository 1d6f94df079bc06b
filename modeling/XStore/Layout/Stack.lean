import Mathlib.Algebra.Order.BigOperators.Group.List
import Mathlib.Algebra.Order.Ring.Nat

/-!
# Stacking blocks below a limit

Blocks with a size are put one below the other in the order of their old positions, highest first.
A block then begins below the limit by the sizes of the blocks from it upwards.
-/
namespace XStore

open List

variable {α : Type*} (pos size : α → Nat)

/-- The space that the blocks at or above `x` take. -/
def aboveLen (as : List α) (x : α) : Nat :=
  (as.map fun y => if pos x ≤ pos y then size y else 0).sum

def totalLen (as : List α) : Nat := (as.map size).sum

variable {pos size} {as bs : List α}

theorem aboveLen_le_totalLen (as : List α) (x : α) : aboveLen pos size as x ≤ totalLen size as := by
  apply sum_le_sum
  intro y _
  split
  · exact le_rfl
  · exact Nat.zero_le _

theorem aboveLen_perm (h : as.Perm bs) (x : α) :
    aboveLen pos size as x = aboveLen pos size bs x :=
  (h.map _).sum_eq

theorem totalLen_perm (h : as.Perm bs) : totalLen size as = totalLen size bs :=
  (h.map _).sum_eq

/-- Blocks that lie apart, each below the one before it. -/
abbrev Descending (pos size : α → Nat) (as : List α) : Prop :=
  as.Pairwise fun x y => pos y + size y ≤ pos x

section Descending

variable {a x : α} {as : List α}

theorem aboveLen_head (h : Descending pos size (a :: as)) (hpos : ∀ y ∈ as, 0 < size y) :
    aboveLen pos size (a :: as) a = size a := by
  have hzero : ∀ y ∈ as, (if pos a ≤ pos y then size y else 0) = 0 := by
    intro y hy
    have hlow := rel_of_pairwise_cons h hy
    have := hpos y hy
    exact if_neg (by omega)
  have hsum : (as.map fun y => if pos a ≤ pos y then size y else 0).sum = 0 :=
    sum_eq_zero (by simpa using hzero)
  simp [aboveLen, hsum]

theorem aboveLen_tail (h : Descending pos size (a :: as)) (hx : x ∈ as) :
    aboveLen pos size (a :: as) x = size a + aboveLen pos size as x := by
  have hlow := rel_of_pairwise_cons h hx
  have hle : pos x ≤ pos a := by omega
  simp [aboveLen, hle]

end Descending

/-- Two blocks at different positions do not meet in the stack. -/
theorem aboveLen_add_size_le {x z : α} {as : List α} (hz : z ∈ as) (hlt : pos z < pos x) :
    aboveLen pos size as x + size z ≤ aboveLen pos size as z := by
  have hle : ∀ y, (if pos x ≤ pos y then size y else 0) ≤ if pos z ≤ pos y then size y else 0 := by
    intro y
    by_cases hy : pos x ≤ pos y
    · simp [hy, (by omega : pos z ≤ pos y)]
    · simp [hy]
  induction as with
  | nil => cases hz
  | cons a as ih =>
    simp only [aboveLen, map_cons, sum_cons] at ih ⊢
    rcases mem_cons.mp hz with rfl | hmem
    · have hrest : (as.map fun y => if pos x ≤ pos y then size y else 0).sum ≤
          (as.map fun y => if pos z ≤ pos y then size y else 0).sum :=
        sum_le_sum fun y _ => hle y
      simp only [Nat.not_le.mpr hlt, if_false, le_refl, if_true]
      omega
    · have := ih hmem
      have := hle a
      omega

theorem size_le_aboveLen {x : α} {as : List α} (hx : x ∈ as) : size x ≤ aboveLen pos size as x := by
  apply single_le_sum (fun _ _ => Nat.zero_le _)
  exact mem_map.mpr ⟨x, hx, by simp⟩

end XStore
