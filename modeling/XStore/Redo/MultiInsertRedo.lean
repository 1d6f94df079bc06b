import XStore.Heap.MultiInsert
import XStore.Redo.HeapLog

/-!
# Replaying a multi-insert

The WAL record of one round of `xheap_multi_insert`, and `xheap_xlog_multi_insert`.  The undo
pointers of the ranges are logged as an array.  `extract_undo_info_for_multi_insert` finds the array
in the record but has the caller's pointer by value, so that the caller goes on without it.
-/
namespace XStore

/-- `XlMultiInsertXTuple` with the bytes behind it. -/
structure XlMultiInsertTuple where
  xid : Nat
  flag : Flag
  flag2 : Flag
  tHoff : Nat
  data : List UInt8
  deriving DecidableEq

structure MultiInsertWal where
  fullXid : Nat
  relNumber : Nat
  spcOid : Nat
  blkno : Nat
  undo : XlUndoHeader
  /-- `urec_ptr`, the record of the last range. -/
  lastUrecptr : Nat
  undoMeta : XlUndoMeta
  /-- `XLOG_XHEAP_INIT_PAGE` -/
  initPage : Bool
  urpvec : List Nat
  ranges : List OffsetRange
  tuples : List XlMultiInsertTuple

namespace WriteCtx

/-- The record of a range.  Its size does not depend on the offsets in it. -/
def rangeRecord (c : WriteCtx) (range : OffsetRange) : HeapRecord :=
  c.record 0 c.urecptr invalidXid invalidUndoRecPtr 0#16
    (.multiInsert range.startOffset range.endOffset)

/-- `xheap_prepare_undo_multi_insert` -/
def rangeUndo (c : WriteCtx) (ranges : List OffsetRange) : List (Nat × RawUndoRecord) :=
  prepareUndo c.urecptr c.txnUrp c.needSwitch (ranges.map c.rangeRecord)

def urpvec (c : WriteCtx) (ranges : List OffsetRange) : List Nat := (c.rangeUndo ranges).map (·.1)

end WriteCtx

/-- A round: the ranges as they were filled, and the state it leaves. -/
def multiInsert (c : WriteCtx) (saveFreeSpace : Nat) (ranges : List OffsetRange)
    (tuples : List XHeapDiskTuple) (p : XPage) : Except Panic (List OffsetRange × MultiInsertState) :=
  fillRanges c.toOpCtx saveFreeSpace (ranges.head?.elim 0 (·.startOffset))
    (ranges.zip (c.urpvec ranges)) ⟨p, tuples, []⟩

def XHeapDiskTuple.multiInsertTuple (t : XHeapDiskTuple) : XlMultiInsertTuple :=
  ⟨t.modifiedXid, t.flag, t.flag2, t.tHoff, t.body⟩

def logMultiInsert (c : WriteCtx) (filled : List OffsetRange) (s : MultiInsertState) :
    MultiInsertWal where
  fullXid := c.xact.currentXid
  relNumber := c.relfilenode
  spcOid := c.tablespace
  blkno := c.blkno
  undo := ⟨c.urecptr, c.reloid, none, if c.needSwitch then some c.txnUrp else none,
    if c.xact.isSubTransaction then some c.fxid else none⟩
  lastUrecptr := (c.urpvec filled).getLastD invalidUndoRecPtr
  undoMeta :=
    { c.undoMeta with isSwitch := c.needSwitch, lastRecordSize := lastRecordSize (c.rangeUndo filled) }
  initPage := s.done.head?.any (·.1 = firstOffsetNumber) && decide (s.page.maxOffset = s.done.length)
  urpvec := c.urpvec filled
  ranges := filled
  tuples := s.done.map (·.2.multiInsertTuple)

namespace MultiInsertWal

def rangeRecord (w : MultiInsertWal) (range : OffsetRange) : HeapRecord where
  uurXid := w.undo.topXid.getD w.fullXid
  uurCid := 2 ^ 32 - 1
  uurReloid := w.undo.relOid
  uurRelfilenode := w.relNumber
  uurTablespace := w.spcOid
  uurBlkno := w.blkno
  uurOffset := 0
  uurTpprevurp := invalidUndoRecPtr
  uurPrevxid := invalidXid
  uurDataheaderflag := 0#16
  uurSubxid := none
  body := .multiInsert range.startOffset range.endOffset
  uurUrp := w.undo.urecptr
  bufferIdx := 0

/-- `xheap_prepare_undo_multi_insert` during replay: the pointer of each record is first taken from
`urpvec`. -/
def prepareRanges (w : MultiInsertWal) (urpvec : Option (List Nat)) :
    Except Panic (List (Nat × RawUndoRecord)) :=
  let recs := prepareUndo w.undo.urecptr (w.undo.prevurp.getD invalidUndoRecPtr) w.undoMeta.isSwitch
    (w.ranges.map w.rangeRecord)
  if urpvec = none ∧ w.ranges ≠ [] then .error .nullPointer
  else if lastRecordSize recs = w.undoMeta.lastRecordSize then .ok recs
  else .error (.lastRecordSize (lastRecordSize recs) w.undoMeta.lastRecordSize)

/-- `xheap_xlog_undo_for_multi_insert`, whose own `urpvec` is never set. -/
def redoUndo (w : MultiInsertWal) : Except Panic (List (Nat × RawUndoRecord)) := w.prepareRanges none

def range (w : MultiInsertWal) (j : Nat) : OffsetRange := w.ranges.getD j ⟨0, 0⟩

/-- `get_xheap_disk_tuple_from_multi_insert_redo_data` -/
def tuple (w : MultiInsertWal) (x : XlMultiInsertTuple) : XHeapDiskTuple :=
  ⟨x.xid, invalidXid, w.lastUrecptr, x.flag, x.flag2, x.tHoff, x.data⟩

def nextOffset (w : MultiInsertWal) (i j off : Nat) : Nat × Nat :=
  if w.initPage then (j, firstOffsetNumber + i)
  else if (w.range j).endOffset < off then (j + 1, (w.range (j + 1)).startOffset)
  else (j, off)

/-- The loop of `xheap_xlog_multi_insert`. -/
def redoTuples (w : MultiInsertWal) : List XlMultiInsertTuple → Nat → Nat → Nat → XPage →
    Except Panic XPage
  | [], _, _, _, p => .ok p
  | x :: xs, i, j, off, p =>
    (redoAddItem p (w.nextOffset i j off).2 (w.tuple x)).bind fun p =>
      w.redoTuples xs (i + 1) (w.nextOffset i j off).1 ((w.nextOffset i j off).2 + 1)
        (p.recordPotentialFreeSpace (shortAlign (w.tuple x).size))

/-- The page part of `xheap_xlog_multi_insert`, on a block that needs it. -/
def redoPage (w : MultiInsertWal) (p : XPage) : Except Panic XPage :=
  w.redoTuples w.tuples 0 0 (w.range 0).startOffset (if w.initPage then XPage.init else p)

/-- `xheap_xlog_multi_insert` -/
def redo (w : MultiInsertWal) (p : XPage) : Except Panic (List (Nat × RawUndoRecord) × XPage) :=
  w.redoUndo.bind fun recs => (w.redoPage p).map fun p => (recs, p)

end MultiInsertWal

/-- Replay rebuilds the records of the ranges, and leaves the inserted tuples and the potential free
space of the primary. -/
def MultiInsertReplays (c : WriteCtx) (filled : List OffsetRange) (s : MultiInsertState) (p : XPage) :
    Prop :=
  ∃ recs q, (logMultiInsert c filled s).redo p = .ok (recs, q) ∧
    List.Forall₂ SameRecord (c.rangeUndo filled) recs ∧
    (∀ x ∈ s.done, (q.row x.1).tup = (s.page.row x.1).tup) ∧
    q.potentialFreespace = s.page.potentialFreespace

/-- With a range there is a record to prepare, and its pointer is read from nowhere. -/
theorem redo_multiInsert_of_ranges (w : MultiInsertWal) (h : w.ranges ≠ []) (p : XPage) :
    w.redo p = .error .nullPointer := by
  rw [MultiInsertWal.redo, MultiInsertWal.redoUndo, MultiInsertWal.prepareRanges, if_pos ⟨rfl, h⟩]
  rfl

theorem multiInsert_length {c : WriteCtx} {saveFreeSpace : Nat} {ranges filled : List OffsetRange}
    {tuples : List XHeapDiskTuple} {p : XPage} {s : MultiInsertState}
    (h : multiInsert c saveFreeSpace ranges tuples p = .ok (filled, s)) :
    filled.length = ranges.length := by
  have hstarts := congrArg List.length (fillRanges_starts h)
  have hurps : (c.urpvec ranges).length = ranges.length := by
    simp [WriteCtx.urpvec, WriteCtx.rangeUndo, prepareUndo_length]
  simpa [hurps] using hstarts

/-- Replay of a round reproduces it only if the round uses no range at all. -/
theorem multi_insert_replays_iff (c : WriteCtx) (saveFreeSpace : Nat) (ranges : List OffsetRange)
    (tuples : List XHeapDiskTuple) (p : XPage) (filled : List OffsetRange) (s : MultiInsertState)
    (h : multiInsert c saveFreeSpace ranges tuples p = .ok (filled, s)) :
    MultiInsertReplays c filled s p ↔ ranges = [] := by
  have hlen := multiInsert_length h
  constructor
  · rintro ⟨recs, q, hredo, -⟩
    by_contra hne
    have hfilled : (logMultiInsert c filled s).ranges ≠ [] := by
      intro hnil
      apply hne
      rw [← List.length_eq_zero_iff, ← hlen]
      exact List.length_eq_zero_iff.mpr hnil
    rw [redo_multiInsert_of_ranges _ hfilled] at hredo
    cases hredo
  · rintro rfl
    cases h
    exact ⟨[], p, rfl, .nil, by simp, rfl⟩

/-- A page whose first line is free and whose second one is not. -/
def pageWithHole : XPage where
  pdFlags := xheapHasFreeLines
  pdUpper := 8000
  pdSpecial := blcksz
  pdPruneXid := 0
  potentialFreespace := 1000
  rows := [Row.zero, frozenRow 0#16 0]

def twoTuples : List XHeapDiskTuple :=
  [⟨0, 0, 0, 0#16, 1#16, 32, [0, 0, 0, 42]⟩, ⟨0, 0, 0, 0#16, 1#16, 32, [0, 0, 0, 43]⟩]

/-- Two tuples go to offsets 1 and 3.  Replay reads through the null pointer; and its page part,
taken by itself, gives both tuples the record of the second range and adds their space instead of
taking it off. -/
theorem multi_insert_redo_reads_null_pointer :
    ∃ ranges filled s q,
      getUsableOffsetRanges pageWithHole 0 twoTuples = .ok ranges ∧
      multiInsert (writeBySeventh [] (by simp) 4) 0 ranges twoTuples pageWithHole = .ok (filled, s) ∧
      s.done.map (·.1) = [1, 3] ∧
      (logMultiInsert (writeBySeventh [] (by simp) 4) filled s).redo pageWithHole =
        .error .nullPointer ∧
      (logMultiInsert (writeBySeventh [] (by simp) 4) filled s).redoPage pageWithHole = .ok q ∧
      (s.page.row 1).tup.urec < (q.row 1).tup.urec ∧
      s.page.potentialFreespace = 932 ∧ q.potentialFreespace = 1068 :=
  ⟨_, _, _, _, rfl, rfl, rfl, rfl, rfl, by decide, rfl, rfl⟩

/-- Replay does not get through a round with two ranges. -/
theorem two_ranges_are_not_replayed :
    ∃ ranges filled s, getUsableOffsetRanges pageWithHole 0 twoTuples = .ok ranges ∧ ranges.length = 2 ∧
      multiInsert (writeBySeventh [] (by simp) 4) 0 ranges twoTuples pageWithHole = .ok (filled, s) ∧
      ¬ MultiInsertReplays (writeBySeventh [] (by simp) 4) filled s pageWithHole :=
  ⟨_, _, _, rfl, rfl, rfl, fun h => nomatch
    (multi_insert_replays_iff (writeBySeventh [] (by simp) 4) 0 [⟨1, 1⟩, ⟨3, 3⟩] twoTuples pageWithHole _ _ rfl).mp h⟩

end XStore
