import XStore.Bytes.Memory
import Mathlib.Order.Monotone.Basic

/-!
# A byte stream laid over pages

Every block of the memory begins with a header; the bytes behind the headers are numbered through
and make one stream.  `addr` gives the address of a byte of the stream, `index` its number.
-/
namespace XStore

structure Paging where
  block : Nat
  head : Nat
  head_lt : head < block

namespace Paging

variable (P : Paging) {a : Nat} {i j : Nat}

def usable : Nat := P.block - P.head

def addr (i : Nat) : Nat := i / P.usable * P.block + P.head + i % P.usable

def index (a : Nat) : Nat := a % P.block - P.head + a / P.block * P.usable

/-- The bytes from stream byte `i` to the end of its block. -/
def room (i : Nat) : Nat := P.usable - i % P.usable

theorem usable_pos : 0 < P.usable := Nat.sub_pos_of_lt P.head_lt

theorem head_add_usable : P.head + P.usable = P.block := Nat.add_sub_of_le (Nat.le_of_lt P.head_lt)

theorem mod_lt (i : Nat) : i % P.usable < P.usable := Nat.mod_lt i P.usable_pos

theorem room_pos (i : Nat) : 0 < P.room i := Nat.sub_pos_of_lt (P.mod_lt i)

theorem addr_eq (i : Nat) : P.addr i = P.head + i % P.usable + P.block * (i / P.usable) := by
  rw [addr, Nat.mul_comm]
  omega

theorem addr_mod (i : Nat) : P.addr i % P.block = P.head + i % P.usable := by
  have hlt : P.head + i % P.usable < P.block := by
    have := P.mod_lt i
    have := P.head_add_usable
    omega
  rw [addr_eq, Nat.add_mul_mod_self_left, Nat.mod_eq_of_lt hlt]

theorem addr_div (i : Nat) : P.addr i / P.block = i / P.usable := by
  have hlt : P.head + i % P.usable < P.block := by
    have := P.mod_lt i
    have := P.head_add_usable
    omega
  rw [addr_eq, Nat.add_mul_div_left _ _ (by omega), Nat.div_eq_of_lt hlt, Nat.zero_add]

theorem index_mod (h : P.head ≤ a % P.block) : P.index a % P.usable = a % P.block - P.head := by
  have hlt : a % P.block < P.block := Nat.mod_lt _ (by have := P.head_lt; omega)
  have := P.head_add_usable
  rw [index, Nat.add_mul_mod_self_right, Nat.mod_eq_of_lt (by omega)]

theorem index_div (h : P.head ≤ a % P.block) : P.index a / P.usable = a / P.block := by
  have hlt : a % P.block < P.block := Nat.mod_lt _ (by have := P.head_lt; omega)
  have := P.head_add_usable
  rw [index, Nat.add_mul_div_right _ _ P.usable_pos, Nat.div_eq_of_lt (by omega), Nat.zero_add]

theorem addr_index (h : P.head ≤ a % P.block) : P.addr (P.index a) = a := by
  have hdiv := Nat.mod_add_div a P.block
  rw [addr_eq, P.index_mod h, P.index_div h]
  omega

theorem addr_add (h : j < P.room i) : P.addr (i + j) = P.addr i + j := by
  have hlt : i % P.usable + j < P.usable := by
    unfold room at h
    omega
  have hi := Nat.mod_add_div i P.usable
  have hsplit : i + j = i % P.usable + j + P.usable * (i / P.usable) := by omega
  have hmod : (i + j) % P.usable = i % P.usable + j := by
    rw [hsplit, Nat.add_mul_mod_self_left, Nat.mod_eq_of_lt hlt]
  have hdiv : (i + j) / P.usable = i / P.usable := by
    rw [hsplit, Nat.add_mul_div_left _ _ P.usable_pos, Nat.div_eq_of_lt hlt, Nat.zero_add]
  rw [addr_eq, addr_eq, hmod, hdiv]
  omega

theorem add_room (i : Nat) : i + P.room i = P.usable * (i / P.usable + 1) := by
  have hi := Nat.mod_add_div i P.usable
  have hlt := P.mod_lt i
  rw [Nat.mul_add]
  unfold room
  omega

theorem add_room_div (i : Nat) : (i + P.room i) / P.usable = i / P.usable + 1 := by
  rw [add_room, Nat.mul_div_cancel_left _ P.usable_pos]

/-- The byte behind the last of a block is the first of the next. -/
theorem addr_add_room (i : Nat) : P.addr (i + P.room i) = (i / P.usable + 1) * P.block + P.head := by
  rw [addr_eq, add_room_div, add_room, Nat.mul_mod_right, Nat.mul_comm]
  omega

theorem addr_add_room_eq_end (i : Nat) : P.addr i + P.room i = (i / P.usable + 1) * P.block := by
  have := P.mod_lt i
  have := P.head_add_usable
  rw [addr_eq, Nat.add_mul, Nat.mul_comm P.block]
  unfold room
  omega

theorem addr_lt_of_lt (h : i < j) : P.addr i < P.addr j := by
  rcases Nat.lt_or_ge (j - i) (P.room i) with hin | hout
  · have hj := P.addr_add hin
    rw [Nat.add_sub_of_le (Nat.le_of_lt h)] at hj
    omega
  · -- `j` is on a later block
    have hdiv : i / P.usable + 1 ≤ j / P.usable := by
      rw [Nat.le_div_iff_mul_le P.usable_pos, Nat.add_mul, Nat.one_mul, Nat.mul_comm]
      have hi := Nat.mod_add_div i P.usable
      unfold room at hout
      have := P.mod_lt i
      omega
    have hlow := Nat.mul_le_mul_left P.block hdiv
    have hi := P.mod_lt i
    have hu := P.head_add_usable
    rw [addr_eq, addr_eq]
    rw [Nat.mul_add] at hlow
    omega

/-- Each byte of the stream is moved up by the headers of its own and all earlier blocks. -/
theorem addr_eq_add (i : Nat) : P.addr i = i + P.head * (i / P.usable + 1) := by
  have hi := Nat.mod_add_div i P.usable
  have hblock : P.block * (i / P.usable) = P.head * (i / P.usable) + P.usable * (i / P.usable) := by
    rw [← P.head_add_usable, Nat.add_mul]
  rw [addr_eq, hblock, Nat.mul_add, Nat.mul_one]
  omega

/-- The offset in the block falls below the distance when a block boundary was crossed. -/
theorem add_mod_lt_iff (i n : Nat) : (i + n) % P.usable < n ↔ i / P.usable < (i + n) / P.usable := by
  have hi := Nat.mod_add_div i P.usable
  have hn := Nat.mod_add_div (i + n) P.usable
  have hlt := P.mod_lt i
  have hle : i / P.usable ≤ (i + n) / P.usable := Nat.div_le_div_right (Nat.le_add_right i n)
  obtain ⟨k, hk⟩ := Nat.exists_eq_add_of_le hle
  rw [hk, Nat.mul_add] at hn
  rw [hk]
  rcases Nat.eq_zero_or_pos k with rfl | hpos
  · omega
  · have hu : P.usable ≤ P.usable * k := Nat.le_mul_of_pos_right _ hpos
    omega

theorem add_div_le_iff (i n : Nat) :
    (i + n) / P.usable ≤ i / P.usable + 1 ↔ n < P.room i + P.usable := by
  have hroom := P.add_room i
  rw [← Nat.lt_succ_iff, Nat.div_lt_iff_lt_mul P.usable_pos, Nat.succ_mul, Nat.mul_comm, ← hroom]
  omega

/-- Going back by a distance, and by one header when a block boundary lies within it, leads to where
the distance began if no more than one does. -/
theorem addr_sub_eq_iff (hhead : 0 < P.head) (i n : Nat) :
    P.addr (i + n) - (if (i + n) % P.usable < n then n + P.head else n) = P.addr i ↔
      n < P.room i + P.usable := by
  have hle : i / P.usable ≤ (i + n) / P.usable := Nat.div_le_div_right (Nat.le_add_right i n)
  obtain ⟨k, hk⟩ := Nat.exists_eq_add_of_le hle
  simp only [P.add_mod_lt_iff]
  rw [← P.add_div_le_iff, P.addr_eq_add, P.addr_eq_add, hk]
  rcases k with _ | _ | k
  · rw [if_neg (by omega)]
    simp only [Nat.add_zero]
    omega
  · rw [if_pos (by omega)]
    simp only [Nat.mul_add]
    omega
  · rw [if_pos (by omega)]
    have hpos : P.head ≤ P.head * (k + 1) := Nat.le_mul_of_pos_right _ (Nat.succ_pos k)
    simp only [Nat.mul_add] at hpos ⊢
    omega

/-- The stream holds the bytes `bs` from number `i` on. -/
def Holds (m : Memory) (i : Nat) (bs : List UInt8) : Prop :=
  ∀ j, j < bs.length → some (m (P.addr (i + j))) = bs[j]?

end Paging

end XStore
