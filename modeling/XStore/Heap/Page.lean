import XStore.Heap.Tuple

/-!
# The xheap page

A page is its header and its line-pointer array.  Offset numbers start at one, and a row pointer
past the array reads as zeroed memory.
-/
namespace XStore

open List

structure XPage where
  pdFlags : Flag
  pdUpper : Nat
  pdSpecial : Nat
  pdPruneXid : Nat
  potentialFreespace : Nat
  rows : List Row
  deriving DecidableEq

def xheapHasFreeLines : Flag := 0x0001#16

namespace XPage

/-- `xheap_page_get_max_offset_number` -/
def maxOffset (p : XPage) : Nat := p.rows.length

/-- `XPageGetRowPtr` together with the storage behind it. -/
def row (p : XPage) (off : Nat) : Row := p.rows.getD (off - 1) Row.zero

/-- Overwrite one line; a line past the array is left alone. -/
def setRow (p : XPage) (off : Nat) (r : Row) : XPage := { p with rows := p.rows.set (off - 1) r }

/-- `XPageSetPrunable` -/
def setPrunable (p : XPage) (xid : Nat) : XPage :=
  if p.pdPruneXid = invalidXid ∨ xid < p.pdPruneXid then { p with pdPruneXid := xid } else p

/-- `PageSetHasFreeLinePointers` -/
def setHasFreeLinePointers (p : XPage) : XPage :=
  { p with pdFlags := p.pdFlags ||| xheapHasFreeLines }

/-- `xheap_record_potential_free_space`: the sum is unsigned, so a negative one wraps around and
the minimum takes the largest writable space instead. -/
def recordPotentialFreeSpace (p : XPage) (delta : Int) : XPage :=
  let maxWritableSpc := p.pdSpecial - sizeOfXHeapPageHeaderData
  let sum := (p.potentialFreespace : Int) + delta
  { p with potentialFreespace := if sum < 0 then maxWritableSpc else min sum.toNat maxWritableSpc }

/-- `xpage_init` on a heap or toast page. -/
def init : XPage where
  pdFlags := 0#16
  pdUpper := blcksz
  pdSpecial := blcksz
  pdPruneXid := invalidXid
  potentialFreespace := blcksz - sizeOfXHeapPageHeaderData
  rows := []

/-- The scan `for (o = FirstOffsetNumber; o <= nline; o++)` that stops at the first used row
pointer: the value of its counter when it is left. -/
def firstUsed (p : XPage) : Nat := p.rows.findIdx (fun r => r.rp.isUsed) + firstOffsetNumber

def allUnused (p : XPage) : Bool := p.rows.all (fun r => !r.rp.isUsed)

variable (p : XPage) (o o' : Nat) (r : Row) (x : Nat) (d : Int)

@[simp] theorem setRow_rows_length : (p.setRow o r).rows.length = p.rows.length := by
  simp [setRow]

@[simp] theorem setPrunable_rows : (p.setPrunable x).rows = p.rows := by
  unfold setPrunable; split <;> rfl

@[simp] theorem setHasFreeLinePointers_rows : p.setHasFreeLinePointers.rows = p.rows := rfl

@[simp] theorem recordPotentialFreeSpace_rows : (p.recordPotentialFreeSpace d).rows = p.rows := rfl

theorem row_eq_of_rows_eq {p q : XPage} (h : p.rows = q.rows) (o : Nat) : p.row o = q.row o := by
  simp [row, h]

theorem row_setRow_self (h1 : 1 ≤ o) (h2 : o ≤ p.rows.length) : (p.setRow o r).row o = r := by
  have hlt : o - 1 < p.rows.length := by omega
  simp [row, setRow, getD_eq_getElem?_getD, hlt]

theorem row_setRow_of_ne (h1 : 1 ≤ o) (h1' : 1 ≤ o') (h : o' ≠ o) :
    (p.setRow o r).row o' = p.row o' := by
  have hne : o - 1 ≠ o' - 1 := by omega
  simp [row, setRow, getD_eq_getElem?_getD, getElem?_set_ne hne]

theorem row_of_length_lt (h : p.rows.length < o) : p.row o = Row.zero := by
  have hle : p.rows.length ≤ o - 1 := by omega
  simp [row, getD_eq_getElem?_getD, getElem?_eq_none hle]

/-- What holds of all rows and of zeroed memory holds at every offset. -/
theorem forall_row {p : XPage} {P : Row → Prop} (h : ∀ r ∈ p.rows, P r) (h0 : P Row.zero) {o : Nat}
    (ho : 1 ≤ o) : P (p.row o) := by
  rcases Nat.lt_or_ge (o - 1) p.rows.length with hlt | hge
  · simpa [row, getD_eq_getElem?_getD, hlt] using h _ (getElem_mem hlt)
  · rw [p.row_of_length_lt o (by omega)]
    exact h0

@[simp] theorem init_row : init.row o = Row.zero := by
  simp [row, init]

theorem allUnused_iff_row : p.allUnused = true ↔ ∀ o, 1 ≤ o → (p.row o).rp.isUsed = false := by
  simp only [allUnused, all_eq_true, Bool.not_eq_true', mem_iff_getElem]
  constructor
  · intro h o ho
    rcases Nat.lt_or_ge (o - 1) p.rows.length with hlt | hge
    · simpa [row, getD_eq_getElem?_getD, hlt] using h p.rows[o - 1] ⟨o - 1, hlt, rfl⟩
    · rw [p.row_of_length_lt o (by omega)]
      rfl
  · rintro h _ ⟨i, hi, rfl⟩
    simpa [row, getD_eq_getElem?_getD, hi] using h (i + 1) (by omega)

/-- One line changed and nothing else; the array may have grown to hold it. -/
structure ChangedAt (p p' : XPage) (off : Nat) (r : Row) : Prop where
  off_pos : 1 ≤ off
  off_le : off ≤ p'.rows.length
  length_le : p.rows.length ≤ p'.rows.length
  here : p'.row off = r
  elsewhere : ∀ o, 1 ≤ o → o ≠ off → p'.row o = p.row o

namespace ChangedAt

variable {p p' q q' : XPage} {off : Nat} {r : Row}

theorem setRow (h1 : 1 ≤ off) (h2 : off ≤ p.rows.length) (r : Row) :
    ChangedAt p (p.setRow off r) off r where
  off_pos := h1
  off_le := by simpa using h2
  length_le := by simp
  here := p.row_setRow_self off r h1 h2
  elsewhere := fun o ho hne => p.row_setRow_of_ne off o r h1 ho hne

theorem append (p : XPage) (r : Row) :
    ChangedAt p { p with rows := p.rows ++ [r] } (p.rows.length + 1) r where
  off_pos := by omega
  off_le := by simp
  length_le := by simp
  here := by simp [row]
  elsewhere := by
    intro o ho hne
    rcases Nat.lt_or_ge (o - 1) p.rows.length with hlt | hge
    · simp [row, getD_eq_getElem?_getD, getElem?_append_left hlt]
    · have hgt : (p.rows ++ [r]).length ≤ o - 1 := by simp; omega
      simp only [row, getD_eq_getElem?_getD, getElem?_eq_none hge,
        getElem?_eq_none hgt]

theorem congr_rows (h : ChangedAt p p' off r) (hp : q.rows = p.rows) (hp' : q'.rows = p'.rows) :
    ChangedAt q q' off r where
  off_pos := h.off_pos
  off_le := hp' ▸ h.off_le
  length_le := hp ▸ hp' ▸ h.length_le
  here := (row_eq_of_rows_eq hp' off).trans h.here
  elsewhere := fun o ho hne => by
    rw [row_eq_of_rows_eq hp', row_eq_of_rows_eq hp, h.elsewhere o ho hne]

end ChangedAt

end XPage

end XStore
