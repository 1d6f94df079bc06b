import XStore.Sort.Arrays

/-!
# The quicksort of `sort_template.h`

Bentley and McIlroy's quicksort as the template instantiates it for `qsort`: insertion sort below
seven elements, a check for input that is already in order, a median pivot, three-way partition,
and recursion into both parts, the smaller one first.
-/
namespace XStore.Sort

variable {α : Type*} (cmp : α → α → Int)

/-- The inner loop of the insertion sort, with `pl = a + k`. -/
def insertDown (a : Nat) : Nat → Cells α → Cells α
  | 0, A => A
  | k + 1, A =>
    if 0 < cmp (A (a + k)) (A (a + k + 1)) then insertDown a k (swapCells A (a + k + 1) (a + k))
    else A

/-- The insertion sort of the first `m + 1` elements. -/
def insertionSort (a : Nat) : Nat → Cells α → Cells α
  | 0, A => A
  | m + 1, A => insertDown cmp a (m + 1) (insertionSort a m A)

def presorted (a n : Nat) (A : Cells α) : Bool :=
  (List.range (n - 1)).all fun k => !decide (0 < cmp (A (a + k)) (A (a + k + 1)))

/-- `ST_MED3`, on positions. -/
def med3 (A : Cells α) (i j k : Nat) : Nat :=
  if cmp (A i) (A j) < 0 then
    if cmp (A j) (A k) < 0 then j else if cmp (A i) (A k) < 0 then k else i
  else if 0 < cmp (A j) (A k) then j else if cmp (A i) (A k) < 0 then i else k

def pivotPos (a n : Nat) (A : Cells α) : Nat :=
  let pm := a + n / 2
  if 7 < n then
    let pl := a
    let pn := a + (n - 1)
    if 40 < n then
      let d := n / 8
      med3 cmp A (med3 cmp A pl (pl + d) (pl + 2 * d)) (med3 cmp A (pm - d) pm (pm + d))
        (med3 cmp A (pn - 2 * d) (pn - d) pn)
    else med3 cmp A pl pm pn
  else pm

structure PartState (α : Type*) where
  A : Cells α
  pa : Nat
  pb : Nat
  pc : Nat
  pd : Nat

/-- `while (pb <= pc && (r = cmp(pb, a)) <= 0)`; the argument counts `pc + 1 - pb` down. -/
def scanUp (a : Nat) : Nat → PartState α → PartState α
  | 0, s => s
  | k + 1, s =>
    if cmp (s.A s.pb) (s.A a) ≤ 0 then
      scanUp a k
        (if cmp (s.A s.pb) (s.A a) = 0 then
          { s with A := swapCells s.A s.pa s.pb, pa := s.pa + 1, pb := s.pb + 1 }
         else { s with pb := s.pb + 1 })
    else s

/-- `while (pb <= pc && (r = cmp(pc, a)) >= 0)` -/
def scanDown (a : Nat) : Nat → PartState α → PartState α
  | 0, s => s
  | k + 1, s =>
    if 0 ≤ cmp (s.A s.pc) (s.A a) then
      scanDown a k
        (if cmp (s.A s.pc) (s.A a) = 0 then
          { s with A := swapCells s.A s.pc s.pd, pd := s.pd - 1, pc := s.pc - 1 }
         else { s with pc := s.pc - 1 })
    else s

def scanBoth (a : Nat) (s : PartState α) : PartState α :=
  let s := scanUp cmp a (s.pc + 1 - s.pb) s
  scanDown cmp a (s.pc + 1 - s.pb) s

def partitionLoop (a : Nat) : Nat → PartState α → PartState α
  | 0, s => s
  | fuel + 1, s =>
    let s := scanBoth cmp a s
    if s.pc < s.pb then s
    else partitionLoop a fuel
      { s with A := swapCells s.A s.pb s.pc, pb := s.pb + 1, pc := s.pc - 1 }

/-- `ST_SWAPN` -/
def swapN (A : Cells α) (i j : Nat) : Nat → Cells α
  | 0 => A
  | k + 1 => swapCells (swapN A i j k) (i + k) (j + k)

/-- The partition of the segment, with the pivot and the elements equal to it moved between the
two parts. -/
def partitioned (a n : Nat) (A : Cells α) : PartState α :=
  let s := partitionLoop cmp a n
    ⟨swapCells A a (pivotPos cmp a n A), a + 1, a + 1, a + (n - 1), a + (n - 1)⟩
  let pn := a + n
  let d1 := min (s.pa - a) (s.pb - s.pa)
  let A := swapN s.A a (s.pb - d1) d1
  let d1 := min (s.pd - s.pc) (pn - s.pd - 1)
  { s with A := swapN A s.pb (pn - d1) d1 }

/-- `pg_qsort` on the segment of length `n` at `a`; `fuel` bounds the depth of the recursion. -/
def pgQsort : Nat → Nat → Nat → Cells α → Cells α
  | 0, _, _, A => A
  | fuel + 1, a, n, A =>
    if n < 7 then insertionSort cmp a (n - 1) A
    else if presorted cmp a n A then A
    else
      let s := partitioned cmp a n A
      let pn := a + n
      let d1 := s.pb - s.pa
      let d2 := s.pd - s.pc
      let left := fun B => if 1 < d1 then pgQsort fuel a d1 B else B
      let right := fun B => if 1 < d2 then pgQsort fuel (pn - d2) d2 B else B
      if d1 ≤ d2 then right (left s.A) else left (right s.A)

def Cells.toList (A : Cells α) : List α := (List.range A.size).map A

def Cells.ofList [Inhabited α] (l : List α) : Cells α := ⟨l.length, fun k => l.getD k default⟩

/-- `qsort` of a whole array. -/
def qsort (A : Cells α) : Cells α := pgQsort cmp A.size 0 A.size A

end XStore.Sort
