import XStore.Bytes.Memory
import Mathlib.Data.Nat.Bitwise

/-!
# Bitmaps in byte lists

The bits of a byte list, the low bit of each byte first, and a cursor that goes over them with the
address of a byte and a mask of one bit.
-/
namespace XStore

open List

/-- Bit `k` of the bytes; past their end all bits are clear. -/
def bitAt (bs : List UInt8) (k : Nat) : Bool := (bs.getD (k / 8) 0).toNat.testBit (k % 8)

structure BitCursor where
  byte : Nat
  mask : UInt8
  deriving DecidableEq

namespace BitCursor

def next (c : BitCursor) : BitCursor :=
  if c.mask ≠ 0x80 then { c with mask := c.mask <<< 1 } else ⟨c.byte + 1, 1⟩

/-- Set the bit in a bitmap that starts at address `base`. -/
def set (base : Nat) (c : BitCursor) (bs : List UInt8) : List UInt8 :=
  bs.modify (c.byte - base) (· ||| c.mask)

/-- The cursor is at bit `k` of a bitmap that starts at address `base`. -/
structure At (base : Nat) (c : BitCursor) (k : Nat) : Prop where
  byte : c.byte = base + k / 8
  mask : c.mask.toNat = 2 ^ (k % 8)

variable {base k : Nat} {c : BitCursor}

/-- The cursor before a bitmap stands at the last bit of the byte before it. -/
theorem next_before (h : 0 < base) : (BitCursor.next ⟨base - 1, 0x80⟩).At base 0 := by
  refine ⟨?_, rfl⟩
  show base - 1 + 1 = base + 0 / 8
  omega

theorem At.next (h : c.At base k) : c.next.At base (k + 1) := by
  have hlt : k % 8 < 8 := Nat.mod_lt k (by decide)
  obtain ⟨hbyte, hmask⟩ := h
  have hiff : c.mask ≠ 0x80 ↔ k % 8 ≠ 7 := by
    rw [not_iff_not, ← UInt8.toNat_inj, hmask]
    exact ⟨fun h => Nat.pow_right_injective (le_refl 2) h, fun h => by rw [h]; rfl⟩
  unfold BitCursor.next
  split
  case isTrue hne =>
    have hlow := hiff.mp hne
    refine ⟨by rw [hbyte]; omega, ?_⟩
    have hpow : 2 ^ (k % 8) * 2 < 256 :=
      calc 2 ^ (k % 8) * 2 = 2 ^ (k % 8 + 1) := (pow_succ 2 _).symm
        _ ≤ 2 ^ 7 := Nat.pow_le_pow_right (by decide) (by omega)
        _ < 256 := by decide
    have hk : (k + 1) % 8 = k % 8 + 1 := by omega
    have hshift : UInt8.toNat 1 % 8 = 1 := rfl
    rw [hk, pow_succ, UInt8.toNat_shiftLeft, hmask, hshift, Nat.shiftLeft_eq, pow_one]
    exact Nat.mod_eq_of_lt hpow
  case isFalse heq =>
    have hhigh : k % 8 = 7 := not_not.mp fun hne => heq (hiff.mpr hne)
    refine ⟨?_, ?_⟩
    · show c.byte + 1 = base + (k + 1) / 8
      rw [hbyte]
      omega
    · have hk : (k + 1) % 8 = 0 := by omega
      rw [hk]
      rfl

@[simp] theorem set_length (bs : List UInt8) : (c.set base bs).length = bs.length := by
  simp [set]

theorem At.bitAt_set (h : c.At base k) {bs : List UInt8} (hk : k / 8 < bs.length) (j : Nat) :
    bitAt (c.set base bs) j = (bitAt bs j || decide (j = k)) := by
  have hbyte : c.byte - base = k / 8 := by
    rw [h.byte]
    omega
  unfold bitAt set
  rw [hbyte, getD_eq_getElem?_getD, getD_eq_getElem?_getD, getElem?_modify]
  rcases eq_or_ne (j / 8) (k / 8) with heq | hne
  · rw [heq, getElem?_eq_getElem hk]
    have hiff : k % 8 = j % 8 ↔ j = k := by omega
    simp [h.mask, Nat.testBit_two_pow, hiff]
  · have hjk : j ≠ k := fun h => hne (by rw [h])
    simp [hne.symm, hjk]

end BitCursor

theorem bitAt_replicate_zero (n k : Nat) : bitAt (List.replicate n 0) k = false := by
  unfold bitAt
  rw [getD_eq_getElem?_getD, getElem?_replicate]
  split <;> simp

theorem bitAt_append_left {bs : List UInt8} (cs : List UInt8) {k : Nat} (h : k / 8 < bs.length) :
    bitAt (bs ++ cs) k = bitAt bs k := by
  unfold bitAt
  rw [getD_append _ _ _ _ h]

/-- Bit `j` of a bitmap whose bits from `start` on are `bs`, and which has no other. -/
def bitsFrom (bs : List Bool) (start j : Nat) : Bool := decide (start ≤ j) && bs.getD (j - start) false

@[simp] theorem bitsFrom_nil (start j : Nat) : bitsFrom [] start j = false := by simp [bitsFrom]

theorem bitsFrom_of_lt {bs : List Bool} {start j : Nat} (h : j < start) : bitsFrom bs start j = false := by
  simp [bitsFrom, h]

theorem bitsFrom_of_ge {bs : List Bool} {start j : Nat} (h : start + bs.length ≤ j) :
    bitsFrom bs start j = false := by
  have hlen : bs.length ≤ j - start := by omega
  simp [bitsFrom, getD_eq_getElem?_getD, getElem?_eq_none hlen]

@[simp] theorem bitsFrom_cons_self (b : Bool) (bs : List Bool) (start : Nat) :
    bitsFrom (b :: bs) start start = b := by
  simp [bitsFrom]

theorem bitsFrom_cons (b : Bool) (bs : List Bool) (start j : Nat) :
    bitsFrom (b :: bs) start j = ((b && decide (j = start)) || bitsFrom bs (start + 1) j) := by
  unfold bitsFrom
  rcases Nat.lt_trichotomy j start with hlt | rfl | hgt
  · have h₁ : ¬ start ≤ j := by omega
    have h₂ : ¬ start + 1 ≤ j := by omega
    have h₃ : j ≠ start := by omega
    simp [h₁, h₂, h₃]
  · simp
  · obtain ⟨d, rfl⟩ : ∃ d, j = start + 1 + d := ⟨j - (start + 1), by omega⟩
    have h₁ : start ≤ start + 1 + d := by omega
    have h₂ : start + 1 + d - start = d + 1 := by omega
    have h₃ : start + 1 + d ≠ start := by omega
    simp [h₁, h₂, h₃]

end XStore
