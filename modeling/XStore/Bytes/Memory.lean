import Mathlib.Data.List.Basic
import Mathlib.Tactic.Ring

/-!
# Byte memory

A memory gives a byte at every address.  `load` and `store` are block copies out of and into it,
and a number stands in it with its low byte first.
-/
namespace XStore

abbrev Memory := Nat → UInt8

namespace Memory

def load (m : Memory) (a n : Nat) : List UInt8 := (List.range n).map fun i => m (a + i)

def store (m : Memory) (a : Nat) (bs : List UInt8) : Memory := fun i =>
  if a ≤ i then (bs[i - a]?).getD (m i) else m i

/-- `memmove` reads the whole source before it writes. -/
def move (m : Memory) (dst src n : Nat) : Memory := m.store dst (m.load src n)

variable (m : Memory) (a b n : Nat) (bs : List UInt8) {dst src i : Nat}

@[simp] theorem load_length : (m.load a n).length = n := by simp [load]

theorem load_getElem? (i : Nat) : (m.load a n)[i]? = if i < n then some (m (a + i)) else none := by
  by_cases h : i < n <;> simp [load, h]

theorem load_eq_iff (m' : Memory) :
    m.load a n = m'.load b n ↔ ∀ i < n, m (a + i) = m' (b + i) := by
  simp [load]

theorem store_outside {i : Nat} (h : i < a ∨ a + bs.length ≤ i) : m.store a bs i = m i := by
  unfold store
  by_cases ha : a ≤ i
  · have hi : bs.length ≤ i - a := by omega
    simp [List.getElem?_eq_none hi]
  · simp [ha]

theorem store_inside {i : Nat} (h : i < bs.length) : m.store a bs (a + i) = bs[i] := by
  simp [store, h]

theorem load_store_of_disjoint (h : b + n ≤ a ∨ a + bs.length ≤ b) :
    (m.store a bs).load b n = m.load b n := by
  rw [load_eq_iff]
  intro i hi
  exact store_outside m a bs (by omega)

theorem load_store_self : (m.store a bs).load a bs.length = bs := by
  apply List.ext_getElem?
  intro i
  rw [load_getElem?]
  by_cases h : i < bs.length
  · rw [if_pos h, store_inside m a bs h, List.getElem?_eq_getElem h]
  · rw [if_neg h, List.getElem?_eq_none (by omega)]

theorem store_nil : m.store a [] = m := by
  funext i
  exact store_outside m a [] (by simp; omega)

theorem store_append (cs : List UInt8) :
    (m.store a bs).store (a + bs.length) cs = m.store a (bs ++ cs) := by
  funext i
  rcases Nat.lt_or_ge i (a + bs.length) with h | h
  · rw [store_outside _ _ _ (.inl h)]
    by_cases ha : a ≤ i
    · simp [store, ha, List.getElem?_append_left (by omega : i - a < bs.length)]
    · simp [store, ha]
  · have hge : bs.length ≤ i - a := by omega
    have ha : a ≤ i := by omega
    simp [store, h, ha, List.getElem?_append_right hge, List.getElem?_eq_none hge, Nat.sub_sub]

theorem move_outside (h : i < dst ∨ dst + n ≤ i) : m.move dst src n i = m i :=
  store_outside m dst _ (by simpa using h)

theorem move_inside (h : i < n) : m.move dst src n (dst + i) = m (src + i) := by
  have hi : i < (m.load src n).length := by simpa using h
  rw [move, store_inside m dst _ hi]
  simp [load]

end Memory

/-- The `w` low bytes of a number, low byte first. -/
def leBytes : Nat → Nat → List UInt8
  | 0, _ => []
  | w + 1, v => UInt8.ofNat v :: leBytes w (v / 256)

def leNat : List UInt8 → Nat
  | [] => 0
  | b :: bs => b.toNat + 256 * leNat bs

@[simp] theorem leBytes_length (w v : Nat) : (leBytes w v).length = w := by
  induction w generalizing v with
  | zero => rfl
  | succ w ih => simp [leBytes, ih]

/-- A field of `w` bytes holds every number below `256 ^ w`. -/
theorem leNat_leBytes {w v : Nat} (h : v < 256 ^ w) : leNat (leBytes w v) = v := by
  induction w generalizing v with
  | zero =>
    have hv : v = 0 := by simpa using h
    simp [leBytes, leNat, hv]
  | succ w ih =>
    have hdiv : v / 256 < 256 ^ w := by
      rw [Nat.div_lt_iff_lt_mul (by decide)]
      rwa [pow_succ] at h
    simp only [leBytes, leNat, ih hdiv, UInt8.toNat_ofNat']
    exact Nat.mod_add_div v 256

end XStore
