import XStore.Undo.Widths

/-!
# Slots that meet end to end

The slots of a log are handed out in the order of the undo they cover: each begins where the one
before it ends, and only the last one grows.
-/
namespace XStore

open Function

theorem nextSlotOffset_slotOffset (k : Nat) : nextSlotOffset (slotOffset k) = slotOffset (k + 1) := by
  rw [nextSlotOffset, slotOffset_mod, slotOffset_div]
  unfold slotOffset slotsPerBlock undoLogBlockHeaderSize sizeOfUndoSlot blcksz
  split_ifs <;> omega

variable {j k : Nat}

theorem slotOffset_le : slotOffset j ≤ slotOffset k ↔ j ≤ k := by
  constructor
  · intro h
    by_contra hlt
    exact absurd (slotOffset_lt (Nat.lt_of_not_le hlt)) (Nat.not_lt.mpr h)
  · intro h
    rcases Nat.lt_or_eq_of_le h with hlt | rfl
    · exact Nat.le_of_lt (slotOffset_lt hlt)
    · exact Nat.le_refl _

theorem slotOffset_lt_iff : slotOffset j < slotOffset k ↔ j < k := by
  rw [← Nat.not_le, slotOffset_le, Nat.not_le]

theorem slotOffset_inj (h : slotOffset j = slotOffset k) : j = k :=
  Nat.le_antisymm (slotOffset_le.mp (Nat.le_of_eq h)) (slotOffset_le.mp (Nat.le_of_eq h.symm))

/-- The slots from `r` to `n` meet end to end: slot `k` has the undo from `b k` to `b (k + 1)`. -/
structure SlotsTile (slots : Nat → UndoSlot) (logno r n : Nat) (b : Nat → Nat) : Prop where
  le : r ≤ n
  pos : 0 < b r
  slot : ∀ k, r ≤ k → k < n → (slots (slotOffset k)).startUndoPtr = ⟨logno, b k⟩ ∧
    (slots (slotOffset k)).endUndoPtr = ⟨logno, b (k + 1)⟩ ∧ b k < b (k + 1)

namespace SlotsTile

variable {slots slots' : Nat → UndoSlot} {logno r n : Nat} {b : Nat → Nat} {j k : Nat}

variable (h : SlotsTile slots logno r n b) {stop : Nat}

include h

theorem bound_le (hj : r ≤ j) (hjk : j ≤ k) (hk : k ≤ n) : b j ≤ b k := by
  induction k with
  | zero =>
    obtain rfl : j = 0 := by omega
    exact Nat.le_refl _
  | succ k ih =>
    rcases Nat.lt_or_eq_of_le hjk with hlt | rfl
    · have hstep := (h.slot k (by omega) (by omega)).2.2
      exact Nat.le_trans (ih (by omega) (by omega)) (Nat.le_of_lt hstep)
    · exact Nat.le_refl _

theorem bound_pos (hrk : r ≤ k) (hk : k ≤ n) : 0 < b k :=
  Nat.lt_of_lt_of_le h.pos (h.bound_le (Nat.le_refl r) hrk hk)

theorem bound_ne_invalid (hrk : r ≤ k) (hk : k ≤ n) :
    (⟨logno, b k⟩ : UndoPtr) ≠ .invalid := by
  intro hinv
  exact absurd (congrArg UndoPtr.offset hinv) (Nat.ne_of_gt (h.bound_pos hrk hk))

theorem unique {start stop : Nat} (hlt : start < stop)
    (hrj : r ≤ j) (hj : j < n) (hrk : r ≤ k) (hk : k < n) (hsj : b j ≤ start ∧ stop ≤ b (j + 1))
    (hsk : b k ≤ start ∧ stop ≤ b (k + 1)) : j = k := by
  rcases Nat.lt_trichotomy j k with hjk | heq | hkj
  · have hle : b (j + 1) ≤ b k := h.bound_le (Nat.le_succ_of_le hrj) hjk (Nat.le_of_lt hk)
    omega
  · exact heq
  · have hle : b (k + 1) ≤ b j := h.bound_le (Nat.le_succ_of_le hrk) hkj (Nat.le_of_lt hj)
    omega

theorem congr
    (hslots : ∀ k < n, slots' (slotOffset k) = slots (slotOffset k)) : SlotsTile slots' logno r n b := by
  refine ⟨h.le, h.pos, ?_⟩
  intro k hrk hk
  rw [hslots k hk]
  exact h.slot k hrk hk

theorem write (hrk : r ≤ k) (hk : k ≤ n)
    (hkeep : ∀ j < k, slots' (slotOffset j) = slots (slotOffset j))
    (hstart : (slots' (slotOffset k)).startUndoPtr = ⟨logno, b k⟩)
    (hstop : (slots' (slotOffset k)).endUndoPtr = ⟨logno, stop⟩) (hlt : b k < stop) :
    SlotsTile slots' logno r (k + 1) (Function.update b (k + 1) stop) := by
  have hold : ∀ j ≤ k, Function.update b (k + 1) stop j = b j :=
    fun j hj => update_of_ne (by omega) _ _
  refine ⟨by omega, ?_, ?_⟩
  · rw [hold r hrk]
    exact h.pos
  · intro j hrj hj
    rw [hold j (by omega)]
    rcases Nat.lt_or_eq_of_le (Nat.le_of_lt_succ hj) with hjk | rfl
    · rw [hold (j + 1) hjk, hkeep j hjk]
      exact h.slot j hrj (by omega)
    · rw [update_self]
      exact ⟨hstart, hstop, hlt⟩

end SlotsTile

end XStore
