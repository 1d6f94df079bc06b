import XStore.Heap.Compaction

/-!
# Rows put on the page and overwritten in place

The changes to the page bytes other than compaction, and that they keep a page sound.
-/
namespace XStore

open List

namespace PageImage

/-- A new row below `pd_upper`, with its row pointer in line `i` or behind the array. -/
def addItem (p : PageImage) (i : Nat) (tuple : List UInt8) : PageImage :=
  let upper := p.pdUpper - shortAlign tuple.length
  let r : RowPtr := ⟨upper, .normal, tuple.length⟩
  { p with
    bytes := p.bytes.store upper tuple
    rps := if i = p.rps.length then p.rps ++ [r] else p.rps.set i r
    pdUpper := upper }

/-- A new row whose row pointer goes into line `i`; the lines from there on move up by one. -/
def insertItem (p : PageImage) (i : Nat) (tuple : List UInt8) : PageImage :=
  let upper := p.pdUpper - shortAlign tuple.length
  { p with
    bytes := p.bytes.store upper tuple
    rps := p.rps.insertIdx i ⟨upper, .normal, tuple.length⟩
    pdUpper := upper }

def rewriteRow (p : PageImage) (i len : Nat) (tuple : List UInt8) : PageImage :=
  { p.setLine i { p.line i with len := len } with
    bytes := p.bytes.store (p.line i).offset tuple }

section Lines

variable {p : PageImage} {i : Nat} {tuple : List UInt8}

theorem line_addItem (hle : i ≤ p.rps.length) (j : Nat) :
    (p.addItem i tuple).line j =
      if j = i then ⟨p.pdUpper - shortAlign tuple.length, .normal, tuple.length⟩ else p.line j := by
  by_cases hi : i = p.rps.length
  · subst hi
    rcases Nat.lt_trichotomy j p.rps.length with hlt | rfl | hgt
    · simp [line, addItem, getD_eq_getElem?_getD, getElem?_append_left hlt, Nat.ne_of_lt hlt]
    · simp [line, addItem, getD_eq_getElem?_getD]
    · have hnone : (p.rps ++ [(⟨p.pdUpper - shortAlign tuple.length, .normal, tuple.length⟩ : RowPtr)])[j]? =
          none := getElem?_eq_none (by simp; omega)
      simp [line, addItem, getD_eq_getElem?_getD, hnone, Nat.ne_of_gt hgt,
        getElem?_eq_none (Nat.le_of_lt hgt)]
  · have hlt : i < p.rps.length := by omega
    by_cases hj : j = i
    · subst hj
      simp [line, addItem, getD_eq_getElem?_getD, hi, hlt]
    · simp [line, addItem, getD_eq_getElem?_getD, hi, hj, getElem?_set_ne (Ne.symm hj)]

theorem line_insertItem_self (hle : i ≤ p.rps.length) : (p.insertItem i tuple).line i =
    ⟨p.pdUpper - shortAlign tuple.length, .normal, tuple.length⟩ := by
  simp [line, insertItem, getD_eq_getElem?_getD, getElem?_insertIdx_self, hle]

/-- The line that held, before the others were moved up, what line `j` holds now. -/
def shiftedFrom (i j : Nat) : Nat := if j < i then j else j - 1

theorem line_insertItem_of_ne {j : Nat} (hj : j ≠ i) :
    (p.insertItem i tuple).line j = p.line (shiftedFrom i j) := by
  rcases Nat.lt_or_gt_of_ne hj with hlt | hgt
  · simp [line, insertItem, getD_eq_getElem?_getD, getElem?_insertIdx_of_lt hlt,
      shiftedFrom, hlt]
  · simp [line, insertItem, getD_eq_getElem?_getD, getElem?_insertIdx_of_gt hgt,
      shiftedFrom, Nat.not_lt_of_gt hgt]

theorem shiftedFrom_injective {j k : Nat} (hj : j ≠ i) (hk : k ≠ i) (hjk : j ≠ k) :
    shiftedFrom i j ≠ shiftedFrom i k := by
  unfold shiftedFrom
  split_ifs <;> omega

end Lines

section Sound

variable {p q : PageImage} {i : Nat}

/-- The lines of `q` are those of `p`, renumbered by `old`, and line `i` with a row put just below
the others. -/
structure Grown (p q : PageImage) (i : Nat) (old : Nat → Nat) (n : Nat) : Prop where
  special_eq : q.pdSpecial = p.pdSpecial
  upper_add : q.pdUpper + shortAlign n = p.pdUpper
  lower_le : q.pdLower ≤ q.pdUpper
  here : q.line i = ⟨q.pdUpper, .normal, n⟩
  elsewhere : ∀ j, j ≠ i → q.line j = p.line (old j)
  injective : ∀ j k, j ≠ i → k ≠ i → j ≠ k → old j ≠ old k

theorem Grown.sound {i n : Nat} {old : Nat → Nat} (hq : Grown p q i old n) (h : p.Sound)
    (hsize : sizeOfXHeapDiskTupleData ≤ n) : q.Sound := by
  have hsum := hq.upper_add
  have hupper := h.upper_le
  have hspecial := hq.special_eq
  have hbelow : ∀ j, j ≠ i → (q.line j).isUsed = true →
      q.pdUpper + shortAlign n ≤ (q.line j).offset := by
    intro j hj hused
    rw [hq.elsewhere j hj] at hused ⊢
    have := (h.inside _ hused).1
    omega
  refine ⟨hq.lower_le, by omega, hspecial ▸ h.special_le, hspecial ▸ h.special_aligned, ?_, ?_, ?_⟩
  · intro j hj
    by_cases hji : j = i
    · rw [hji, hq.here]
      exact hsize
    · rw [hq.elsewhere j hji] at hj ⊢
      exact h.header _ hj
  · intro j hj
    by_cases hji : j = i
    · rw [hji, hq.here]
      dsimp only
      omega
    · rw [hq.elsewhere j hji] at hj ⊢
      have := h.inside _ hj
      omega
  · intro j k hjk hj hk
    by_cases hji : j = i
    · have hki : k ≠ i := fun hki => hjk (hji.trans hki.symm)
      rw [hji, hq.here]
      exact .inl (hbelow k hki hk)
    · by_cases hki : k = i
      · rw [hki, hq.here]
        exact .inr (hbelow j hji hj)
      · rw [hq.elsewhere j hji] at hj ⊢
        rw [hq.elsewhere k hki] at hk ⊢
        exact h.apart _ _ (hq.injective j k hji hki hjk) hj hk

theorem grown_addItem {tuple : List UInt8} (hle : i ≤ p.rps.length)
    (hroom : p.pdLower + (if i = p.rps.length then 4 else 0) + shortAlign tuple.length ≤ p.pdUpper) :
    Grown p (p.addItem i tuple) i id tuple.length where
  special_eq := rfl
  upper_add := by
    change p.pdUpper - shortAlign tuple.length + shortAlign tuple.length = p.pdUpper
    omega
  lower_le := by
    by_cases hi : i = p.rps.length
    · simp [pdLower, addItem, hi] at hroom ⊢
      omega
    · simp [pdLower, addItem, hi] at hroom ⊢
      omega
  here := by
    rw [line_addItem hle, if_pos rfl]
    rfl
  elsewhere := by
    intro j hj
    rw [line_addItem hle, if_neg hj]
    rfl
  injective := fun j k _ _ hjk => hjk

theorem grown_insertItem {tuple : List UInt8} (hle : i ≤ p.rps.length)
    (hroom : p.pdLower + 4 + shortAlign tuple.length ≤ p.pdUpper) :
    Grown p (p.insertItem i tuple) i (shiftedFrom i) tuple.length where
  special_eq := rfl
  upper_add := by
    change p.pdUpper - shortAlign tuple.length + shortAlign tuple.length = p.pdUpper
    omega
  lower_le := by
    simp [pdLower, insertItem, length_insertIdx, hle] at hroom ⊢
    omega
  here := line_insertItem_self hle
  elsewhere := fun j hj => line_insertItem_of_ne hj
  injective := fun j k hj hk hjk => shiftedFrom_injective hj hk hjk

/-- A row that is overwritten in place, perhaps with another length, stays clear of the others. -/
theorem sound_rewriteRow (h : p.Sound) {i len : Nat} (tuple : List UInt8)
    (hused : (p.line i).isUsed = true) (hlen : sizeOfXHeapDiskTupleData ≤ len)
    (hroom : (p.line i).offset + shortAlign len ≤ p.pdSpecial)
    (hapart : ∀ j, j ≠ i → (p.line j).isUsed = true →
      (p.line i).offset + shortAlign len ≤ (p.line j).offset ∨
        (p.line j).offset + shortAlign (p.line j).len ≤ (p.line i).offset) :
    (p.rewriteRow i len tuple).Sound := by
  have hself : (p.rewriteRow i len tuple).line i = { p.line i with len := len } :=
    p.line_setLine_self _ (lt_of_isUsed hused)
  have hother : ∀ j, j ≠ i → (p.rewriteRow i len tuple).line j = p.line j := fun j hj =>
    p.line_setLine_of_ne _ hj
  have hlower : (p.rewriteRow i len tuple).pdLower = p.pdLower := by
    simp [pdLower, rewriteRow]
  refine ⟨hlower ▸ h.lower_le, h.upper_le, h.special_le, h.special_aligned, ?_, ?_, ?_⟩
  · intro j hj
    by_cases hji : j = i
    · rw [hji, hself]
      exact hlen
    · rw [hother j hji] at hj ⊢
      exact h.header j hj
  · intro j hj
    by_cases hji : j = i
    · rw [hji, hself]
      exact ⟨(h.inside i hused).1, hroom⟩
    · rw [hother j hji] at hj ⊢
      exact h.inside j hj
  · intro j k hjk hj hk
    by_cases hji : j = i
    · have hki : k ≠ i := fun hki => hjk (hji.trans hki.symm)
      rw [hother k hki] at hk ⊢
      rw [hji, hself]
      exact hapart k hki hk
    · rw [hother j hji] at hj ⊢
      by_cases hki : k = i
      · rw [hki, hself]
        exact (hapart j hji hj).symm
      · rw [hother k hki] at hk ⊢
        exact h.apart j k hjk hj hk

end Sound

end PageImage

end XStore
