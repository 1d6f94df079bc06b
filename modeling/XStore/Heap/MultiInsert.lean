import XStore.Heap.Operations

/-!
# Inserting many tuples into a page

One round of the loop of `xheap_multi_insert`: the free offsets of the page as ranges, and the
tuples put into them.  A range has one undo record, and the tuples of the range point to it.
-/
namespace XStore

structure OffsetRange where
  startOffset : Nat
  endOffset : Nat
  deriving DecidableEq

namespace XPage

/-- `page_get_exact_xheap_free_space` -/
def exactFreeSpace (p : XPage) : Nat := p.pdUpper - p.pdLower

/-- `page_get_xheap_free_space` -/
def freeSpace (p : XPage) : Nat :=
  let space := if p.pdUpper < p.pdLower + 4 then 0 else p.pdUpper - p.pdLower - 4
  if p.maxOffset < calculatedMaxXHeapTuplesPerPage then space
  else if p.pdFlags.has xheapHasFreeLines && p.rows.any (fun r => !r.rp.isUsed) then space
  else 0

end XPage

/-- The variables of `locate_usable_item_ids`. -/
structure RangeScan where
  tuples : List XHeapDiskTuple
  usedSpace : Nat
  inRange : Bool
  isFirstInsert : Bool
  ranges : List OffsetRange

/-- One more free offset: a new range, or the end of the last one. -/
def addOffset (inRange : Bool) (off : Nat) (ranges : List OffsetRange) : List OffsetRange :=
  match inRange, ranges.getLast? with
  | true, some r => ranges.dropLast ++ [⟨r.startOffset, off⟩]
  | _, _ => ranges ++ [⟨off, off⟩]

/-- `locate_usable_item_ids` over the offsets still to be looked at. -/
def locateUsableItemIds (p : XPage) (saveFreeSpace : Nat) : List Nat → RangeScan → RangeScan
  | [], s => s
  | off :: offs, s =>
    match s.tuples with
    | [] => s
    | t :: ts =>
      if !(p.row off).rp.isUsed && !(p.row off).rp.hasStorage then
        let needed := s.usedSpace + t.size + if s.isFirstInsert then 0 else saveFreeSpace
        if p.exactFreeSpace < needed then s
        else locateUsableItemIds p saveFreeSpace offs
          ⟨ts, s.usedSpace + t.size, true, false, addOffset s.inRange off s.ranges⟩
      else locateUsableItemIds p saveFreeSpace offs { s with inRange := false }

/-- `xheap_get_usable_offset_ranges`; no range at all is an error. -/
def getUsableOffsetRanges (p : XPage) (saveFreeSpace : Nat) (tuples : List XHeapDiskTuple) :
    Except Panic (List OffsetRange) :=
  let limit := p.maxOffset + 1
  let start : RangeScan := ⟨tuples, 0, false, true, []⟩
  let s := if p.pdFlags.has xheapHasFreeLines then
    locateUsableItemIds p saveFreeSpace (List.range' 1 p.maxOffset) start else start
  let ranges := match s.tuples with
    | [] => s.ranges
    | t :: _ =>
      let needed := s.usedSpace + 4 + t.size + if s.ranges.isEmpty then 0 else saveFreeSpace
      if limit ≤ calculatedMaxXHeapTuplesPerPage ∧ needed ≤ p.exactFreeSpace then
        s.ranges ++ [⟨limit, min maxOffsetNumber (limit + s.tuples.length)⟩]
      else s.ranges
  if ranges.isEmpty then .error .failedToAddTuple else .ok ranges

structure MultiInsertState where
  page : XPage
  rest : List XHeapDiskTuple
  /-- The tuples put so far, with their offsets. -/
  done : List (Nat × XHeapDiskTuple)

/-- The tuple fits, and leaves `saveFreeSpace` behind unless it is the first one. -/
def fitsPage (p : XPage) (saveFreeSpace firstOffset off : Nat) (t : XHeapDiskTuple) : Bool :=
  decide (t.size + (if off = firstOffset then 0 else saveFreeSpace) ≤ p.freeSpace)

def rangeTuple (c : OpCtx) (urp : Nat) (newtup : XHeapDiskTuple) : XHeapDiskTuple :=
  newTuple c urp { newtup with lockerXid := invalidXid }

/-- The inner loop over the offsets of one range, with the value of its counter when it is left. -/
def fillRange (c : OpCtx) (saveFreeSpace firstOffset endOffset urp : Nat) :
    List XHeapDiskTuple → Nat → XPage → List (Nat × XHeapDiskTuple) →
      Except Panic (Nat × MultiInsertState)
  | [], off, p, done => .ok (off, ⟨p, [], done⟩)
  | newtup :: rest, off, p, done =>
    if off ≤ endOffset ∧ fitsPage p saveFreeSpace firstOffset off newtup = true then
      (putNewRow p (rangeTuple c urp newtup)).bind fun (at_, p) =>
        fillRange c saveFreeSpace firstOffset endOffset urp rest (off + 1) p
          (done ++ [(at_, rangeTuple c urp newtup)])
    else .ok (off, ⟨p, newtup :: rest, done⟩)

/-- The outer loop: every range gets its record, and its end offset is the last one used. -/
def fillRanges (c : OpCtx) (saveFreeSpace firstOffset : Nat) :
    List (OffsetRange × Nat) → MultiInsertState → Except Panic (List OffsetRange × MultiInsertState)
  | [], s => .ok ([], s)
  | (range, urp) :: ranges, s =>
    (fillRange c saveFreeSpace firstOffset range.endOffset urp s.rest range.startOffset s.page
      s.done).bind fun (off, s) =>
        (fillRanges c saveFreeSpace firstOffset ranges s).map fun (filled, s) =>
          (⟨range.startOffset, off - 1⟩ :: filled, s)

section Ranges

variable {p : XPage} {saveFreeSpace : Nat} {tuples : List XHeapDiskTuple} {ranges : List OffsetRange}

theorem getUsableOffsetRanges_ne_nil (h : getUsableOffsetRanges p saveFreeSpace tuples = .ok ranges) :
    ranges ≠ [] := by
  unfold getUsableOffsetRanges at h
  dsimp only at h
  rintro rfl
  split_ifs at h with hempty
  all_goals simp_all

end Ranges

section Fill

variable {c : OpCtx} {save first : Nat} {ranges : List (OffsetRange × Nat)}
  {filled : List OffsetRange} {s s' : MultiInsertState}

theorem fillRanges_starts (h : fillRanges c save first ranges s = .ok (filled, s')) :
    filled.map (·.startOffset) = ranges.map (·.1.startOffset) := by
  induction ranges generalizing s filled s' with
  | nil =>
    cases h
    rfl
  | cons r ranges ih =>
    obtain ⟨range, urp⟩ := r
    rw [fillRanges] at h
    obtain ⟨⟨off, t⟩, -, h⟩ := bind_ok h
    obtain ⟨⟨filled', t'⟩, hrest, heq⟩ := map_ok h
    cases heq
    simpa using ih hrest

end Fill

end XStore
