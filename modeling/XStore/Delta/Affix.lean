import Mathlib.Data.List.Basic
import Mathlib.Data.List.TakeDrop

/-!
# Deltas that leave out a shared prefix and suffix

An old list is stored as what remains of it between a prefix and a suffix it shares with a new
list, and is read back from the new one.
-/
namespace XStore.Delta

open List

variable {α : Type*} [DecidableEq α]

def commonPrefixLen : List α → List α → Nat
  | x :: xs, y :: ys => if x = y then commonPrefixLen xs ys + 1 else 0
  | _, _ => 0

theorem commonPrefixLen_le_left (xs ys : List α) : commonPrefixLen xs ys ≤ xs.length := by
  induction xs generalizing ys with
  | nil => simp [commonPrefixLen]
  | cons x xs ih =>
    cases ys with
    | nil => simp [commonPrefixLen]
    | cons y ys =>
      rw [commonPrefixLen]
      split
      · simpa using ih ys
      · simp

theorem commonPrefixLen_le_right (xs ys : List α) : commonPrefixLen xs ys ≤ ys.length := by
  induction xs generalizing ys with
  | nil => simp [commonPrefixLen]
  | cons x xs ih =>
    cases ys with
    | nil => simp [commonPrefixLen]
    | cons y ys =>
      rw [commonPrefixLen]
      split
      · simpa using ih ys
      · simp

theorem take_commonPrefixLen (xs ys : List α) :
    xs.take (commonPrefixLen xs ys) = ys.take (commonPrefixLen xs ys) := by
  induction xs generalizing ys with
  | nil => simp [commonPrefixLen]
  | cons x xs ih =>
    cases ys with
    | nil => simp [commonPrefixLen]
    | cons y ys =>
      rw [commonPrefixLen]
      split
      · rename_i hxy
        simp [hxy, ih ys]
      · simp

/-- The length of the longest common suffix that is at most `limit` long. -/
def commonSuffixLen (limit : Nat) (xs ys : List α) : Nat :=
  commonPrefixLen (xs.reverse.take limit) (ys.reverse.take limit)

theorem commonSuffixLen_le (limit : Nat) (xs ys : List α) :
    commonSuffixLen limit xs ys ≤ limit := by
  refine Nat.le_trans (commonPrefixLen_le_left _ _) ?_
  rw [length_take]
  exact Nat.min_le_left _ _

theorem drop_commonSuffixLen (limit : Nat) (xs ys : List α) :
    xs.drop (xs.length - commonSuffixLen limit xs ys) =
      ys.drop (ys.length - commonSuffixLen limit xs ys) := by
  have h := take_commonPrefixLen (xs.reverse.take limit) (ys.reverse.take limit)
  have hle := commonSuffixLen_le limit xs ys
  rw [take_take, take_take] at h
  change xs.reverse.take (min (commonSuffixLen limit xs ys) limit) =
    ys.reverse.take (min (commonSuffixLen limit xs ys) limit) at h
  rw [Nat.min_eq_left hle, take_reverse, take_reverse] at h
  exact reverse_injective h

omit [DecidableEq α] in
/-- A list is rebuilt from its middle and a prefix and a suffix taken from another list that
shares them. -/
theorem rebuild {old new : List α} {p s : Nat} (hold : p + s ≤ old.length)
    (hp : old.take p = new.take p)
    (hs : old.drop (old.length - s) = new.drop (new.length - s)) :
    new.take p ++ (old.drop p).take (old.length - p - s) ++ new.drop (new.length - s) = old := by
  rw [← hp, ← hs]
  have hmid : (old.drop p).take (old.length - p - s) ++ old.drop (old.length - s) = old.drop p := by
    have hsplit : old.drop (old.length - s) = (old.drop p).drop (old.length - p - s) := by
      rw [drop_drop]
      congr 1
      omega
    rw [hsplit, take_append_drop]
  rw [append_assoc, hmid, take_append_drop]

end XStore.Delta
