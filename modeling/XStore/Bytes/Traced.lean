import XStore.Bytes.Memory

/-!
# Programs on a byte memory that record what they touch

A program loads and stores blocks of bytes; every access is noted.  `Within lo hi` says that a
program touches nothing outside `[lo, hi)`, and has one rule for each way to build a program.
-/
namespace XStore

/-- A block of `len` bytes at `addr` that was read or written. -/
structure Access where
  isWrite : Bool
  addr : Nat
  len : Nat
  deriving DecidableEq

def Access.Inside (x : Access) (lo hi : Nat) : Prop := ∀ i < x.len, lo ≤ x.addr + i ∧ x.addr + i < hi

structure TracedMemory where
  bytes : Memory
  trace : List Access

abbrev MemoryM := StateM TracedMemory

def loadAt (a n : Nat) : MemoryM (List UInt8) := fun s =>
  (s.bytes.load a n, { s with trace := s.trace ++ [⟨false, a, n⟩] })

def storeAt (a : Nat) (bs : List UInt8) : MemoryM Unit := fun s =>
  ((), ⟨s.bytes.store a bs, s.trace ++ [⟨true, a, bs.length⟩]⟩)

variable {α β : Type} {lo hi : Nat}

/-- The program touches only bytes of `[lo, hi)`. -/
def Within (lo hi : Nat) (c : MemoryM α) : Prop := ∀ s : TracedMemory,
  (∃ t, (c.run s).2.trace = s.trace ++ t ∧ ∀ x ∈ t, x.Inside lo hi) ∧
    ∀ i, i < lo ∨ hi ≤ i → (c.run s).2.bytes i = s.bytes i

namespace Within

theorem pure (v : α) : Within lo hi (pure v : MemoryM α) := by
  intro s
  exact ⟨⟨[], (List.append_nil _).symm, by simp⟩, fun _ _ => rfl⟩

theorem bind {c : MemoryM α} {f : α → MemoryM β} (hc : Within lo hi c)
    (hf : ∀ v, Within lo hi (f v)) : Within lo hi (c >>= f) := by
  intro s
  obtain ⟨⟨t, ht, htin⟩, hout⟩ := hc s
  obtain ⟨⟨u, hu, huin⟩, hout'⟩ := hf (c.run s).1 (c.run s).2
  refine ⟨⟨t ++ u, ?_, ?_⟩, ?_⟩
  · refine hu.trans ?_
    rw [ht, List.append_assoc]
  · intro x hx
    rcases List.mem_append.mp hx with hx | hx
    · exact htin x hx
    · exact huin x hx
  · intro i hi
    exact (hout' i hi).trans (hout i hi)

theorem loadAt {a n : Nat} (h : ∀ i < n, lo ≤ a + i ∧ a + i < hi) : Within lo hi (loadAt a n) := by
  intro s
  refine ⟨⟨[⟨false, a, n⟩], rfl, ?_⟩, fun _ _ => rfl⟩
  intro x hx
  cases List.mem_singleton.mp hx
  exact h

theorem storeAt {a : Nat} {bs : List UInt8} (hlo : lo ≤ a) (hhi : a + bs.length ≤ hi) :
    Within lo hi (storeAt a bs) := by
  intro s
  refine ⟨⟨[⟨true, a, bs.length⟩], rfl, ?_⟩, ?_⟩
  · intro x hx i hi'
    cases List.mem_singleton.mp hx
    dsimp only at hi' ⊢
    omega
  · intro i hi'
    exact s.bytes.store_outside a bs (by omega)

theorem ite {P : Prop} [Decidable P] {c d : MemoryM α} (hc : Within lo hi c)
    (hd : Within lo hi d) : Within lo hi (if P then c else d) := by
  split
  · exact hc
  · exact hd

end Within

theorem Within.trace_subset {c : MemoryM α} (h : Within lo hi c) (s : TracedMemory) {x : Access}
    (hx : x ∈ s.trace) : x ∈ (c.run s).2.trace := by
  obtain ⟨⟨t, ht, -⟩, -⟩ := h s
  rw [ht]
  exact List.mem_append_left t hx

end XStore
