import XStore.Undo.Record

/-!
# Undo logs and their transaction slots

The part of `undolog.c` that gives a transaction its slot: `allocate_undo_space` before an
operation writes its undo records and `update_undolog_meta` after, with the metadata they put on
the WAL record of the operation.  Only the permanent level is logged, so only that one is modelled.
-/
namespace XStore

def undoLogBlockHeaderSize : Nat := 24
def undoLogUsableBytesPerPage : Nat := blcksz - undoLogBlockHeaderSize
def sizeOfUndoSlot : Nat := 32
/-- `UNDO_LOG_MAX_SIZE` without `undo_max_segno_per_log`. -/
def undoLogMaxSize : Nat := 2 ^ 46

/-- `UNDO_LOG_OFFSET_PLUS_USABLE_BYTES` -/
def offsetPlusUsableBytes (offset n : Nat) : Nat :=
  -- the header is taken off in unsigned numbers, so that an offset in it counts from the page before
  let i := offset % blcksz + offset / blcksz * undoLogUsableBytesPerPage + n - undoLogBlockHeaderSize
  i / undoLogUsableBytesPerPage * blcksz + undoLogBlockHeaderSize + i % undoLogUsableBytesPerPage

/-- A log number and an offset, as `MAKE_UNDO_REC_PTR` packs them. -/
structure UndoPtr where
  logno : Nat
  offset : Nat
  deriving DecidableEq

def UndoPtr.invalid : UndoPtr := ⟨0, 0⟩

structure UndoSlot where
  xid : Nat
  startUndoPtr : UndoPtr
  endUndoPtr : UndoPtr
  info : BitVec 8
  dbOid : Nat
  deriving DecidableEq

namespace UndoSlot

def zero : UndoSlot := ⟨0, .invalid, .invalid, 0#8, 0⟩

/-- `init_undo_slot`; `UNDOSLOT_INIT` is zero. -/
def init (slot : UndoSlot) (xid dbid : Nat) : UndoSlot :=
  { slot with xid := xid, startUndoPtr := .invalid, endUndoPtr := .invalid, dbOid := dbid }

/-- `update_undo_slot` -/
def update (slot : UndoSlot) (start stop : UndoPtr) : UndoSlot :=
  { slot with
    endUndoPtr := stop
    startUndoPtr := if slot.startUndoPtr = .invalid then start else slot.startUndoPtr }

@[simp] theorem init_xid (slot : UndoSlot) (x d : Nat) : (slot.init x d).xid = x := rfl
@[simp] theorem update_xid (slot : UndoSlot) (a b : UndoPtr) : (slot.update a b).xid = slot.xid := rfl

end UndoSlot

/-- A page of transaction slots; a slot is found by its byte offset in the page. -/
structure SlotPage where
  lsn : Nat
  pdLower : Nat
  slots : Nat → UndoSlot

/-- `PageInit` on a zeroed page. -/
def SlotPage.init : SlotPage := ⟨0, undoLogBlockHeaderSize, fun _ => .zero⟩

/-- `UndoLogControl` with the slot pages of the log.  A block without a page is new. -/
structure UndoLog where
  insertOffset : Nat
  forceDiscard : Nat
  allocSlotOffset : Nat
  lsn : Nat
  txnHead : Nat
  txnTail : Nat
  /-- The block in `txn_slot_buffer`. -/
  slotBlkno : Option Nat
  /-- `txn_slot_buffer.zero` -/
  slotZero : Bool
  pages : Nat → Option SlotPage

abbrev UndoLogs := Nat → Option UndoLog

/-- `get_next_slotptr` below 4 GB, where its products do not overflow; the space left on the block is an
unsigned difference. -/
def nextSlotOffset (slotOffset : Nat) : Nat :=
  let offset := slotOffset % blcksz + sizeOfUndoSlot
  if offset ≤ blcksz ∧ blcksz - offset < sizeOfUndoSlot then
    (slotOffset / blcksz + 1) * blcksz + undoLogBlockHeaderSize
  else offset + slotOffset / blcksz * blcksz

namespace UndoLog

def page (u : UndoLog) (blkno : Nat) : SlotPage := (u.pages blkno).getD SlotPage.init

/-- `get_undo_slot_from_buffer` on the block of the offset. -/
def slotAt (u : UndoLog) (off : Nat) : UndoSlot := (u.page (off / blcksz)).slots (off % blcksz)

def setPage (u : UndoLog) (blkno : Nat) (pg : Option SlotPage) : UndoLog :=
  { u with pages := Function.update u.pages blkno pg }

def setSlot (u : UndoLog) (off : Nat) (slot : UndoSlot) : UndoLog :=
  let pg := u.page (off / blcksz)
  u.setPage (off / blcksz)
    (some { pg with slots := Function.update pg.slots (off % blcksz) slot })

/-- `advance_undo_slot_page_lower` -/
def advancePageLower (u : UndoLog) (off : Nat) : UndoLog :=
  u.setPage (off / blcksz)
    (some { u.page (off / blcksz) with pdLower := off % blcksz + sizeOfUndoSlot })

/-- `undolog_advance_insert_urecptr` -/
def advanceInsert (u : UndoLog) (oldInsert size : Nat) : UndoLog :=
  { u with insertOffset := offsetPlusUsableBytes oldInsert size }

/-- `undolog_alloc_slot_space`: the first slot of a block is given a zeroed page. -/
def allocSlotSpace (u : UndoLog) : UndoLog :=
  let blkno := u.allocSlotOffset / blcksz
  let u := { u with slotBlkno := some blkno }
  if u.allocSlotOffset % blcksz = undoLogBlockHeaderSize then u.setPage blkno none else u

/-- `undolog_alloc_undo_slot` -/
def allocUndoSlot (u : UndoLog) (off xid dbid : Nat) : UndoLog :=
  { u.setSlot off ((u.slotAt off).init xid dbid) with
    slotZero := u.slotZero || (u.pages (off / blcksz)).isNone
    allocSlotOffset := nextSlotOffset off }

/-- The LSN of the WAL record on the log and on the page of the slot; the mark of a fresh page was
cleared when its buffer was registered for the record. -/
def setSlotLsn (u : UndoLog) (off lsn : Nat) : UndoLog :=
  { u.setPage (off / blcksz) (some { u.page (off / blcksz) with lsn := lsn }) with
    lsn := lsn, slotZero := false }

end UndoLog

/-- `undo_log_ctx` of a backend. -/
structure UndoLogContext where
  logno : Nat
  prevXid : Nat
  /-- `slot_ptr` -/
  slotPtr : UndoPtr
  /-- `slots`, as the address of the slot it points to. -/
  slot : UndoPtr
  deriving DecidableEq

structure UndoWriter where
  ctx : UndoLogContext
  ulogs : UndoLogs

structure XlUndoMeta where
  slotAlloc : Bool
  slotInit : Bool
  isSwitch : Bool
  slotPtr : Nat
  lastRecordSize : Nat
  dbid : Nat
  deriving DecidableEq

/-- The undo part of a WAL record, with the full-page image of the slot page if it carries one. -/
structure UndoMetaWal where
  /-- `XLogRecGetFullXid` -/
  fullXid : Nat
  /-- `EndRecPtr` -/
  lsn : Nat
  urecptr : UndoPtr
  lastRecord : Nat
  undoMeta : XlUndoMeta
  slotImage : Option SlotPage

def UndoMetaWal.slot (w : UndoMetaWal) : UndoPtr := ⟨w.urecptr.logno, w.undoMeta.slotPtr⟩

structure UndoWrite where
  xact : XactState
  /-- The log it switches to when the current one is full. -/
  switchTo : Option Nat
  /-- `MyDatabaseId` -/
  dbid : Nat
  /-- The offset of its last undo record. -/
  lastRecord : Nat
  lastRecordSize : Nat
  /-- The WAL record takes a full-page image of the slot page. -/
  fullPage : Bool
  /-- The end of its WAL record. -/
  lsn : Nat

namespace UndoLogs

def modify (ulogs : UndoLogs) (logno : Nat) (f : UndoLog → UndoLog) : UndoLogs :=
  Function.update ulogs logno ((ulogs logno).map f)

def slot (ulogs : UndoLogs) (a : UndoPtr) : UndoSlot :=
  (ulogs a.logno).elim UndoSlot.zero fun u => u.slotAt a.offset

end UndoLogs

namespace UndoWriter

/-- `undolog_switch`: the old log is closed and the new one has no slot buffer yet. -/
def switchLog (s : UndoWriter) : Option Nat → UndoWriter
  | none => s
  | some logno =>
    { ctx := { s.ctx with logno := logno }
      ulogs := (s.ulogs.modify s.ctx.logno fun u => { u with insertOffset := undoLogMaxSize }).modify
        logno fun u => { u with slotBlkno := none } }

/-- The operation needs a slot of its own: it is the first of its transaction or opens a log. -/
def needsSlot (s : UndoWriter) (op : UndoWrite) : Bool :=
  decide (op.xact.topXid ≠ s.ctx.prevXid) || op.switchTo.isSome

def allocateUndoSpace (s : UndoWriter) (op : UndoWrite) : Except Panic UndoWriter :=
  let t := s.switchLog op.switchTo
  match t.ulogs t.ctx.logno with
  | none => .error (.ulogIsNull t.ctx.logno)
  | some u =>
    if s.needsSlot op || u.slotBlkno.isNone then
      .ok { ctx := { t.ctx with slotPtr := ⟨t.ctx.logno, u.allocSlotOffset⟩ }
            ulogs := t.ulogs.modify t.ctx.logno UndoLog.allocSlotSpace }
    else .ok t

/-- `alloc_undo_slot`, with the page it was given marked as used up to the slot. -/
def allocUndoSlot (s : UndoWriter) (op : UndoWrite) : UndoWriter :=
  let off := s.ctx.slotPtr.offset
  { ctx := { s.ctx with prevXid := op.xact.topXid, slot := s.ctx.slotPtr }
    ulogs := s.ulogs.modify s.ctx.logno fun u =>
      (u.allocUndoSlot off op.xact.topXid op.dbid).advancePageLower off }

/-- The checks at the start of `update_undolog_meta`. -/
def checkUndologMeta (s : UndoWriter) (op : UndoWrite) (u : UndoLog) (start : UndoPtr) :
    Except Panic Unit :=
  if u.insertOffset < u.forceDiscard then
    .error (.forceDiscardPastInsert u.forceDiscard u.insertOffset)
  else if u.slotBlkno ≠ some (s.ctx.slotPtr.offset / blcksz) then
    .error (.invalidCachedSlotBuffer s.ctx.slotPtr.offset)
  else if op.xact.topXid ≤ frozenXid ∨ start = .invalid then
    .error (.updateSlotFailed op.xact.topXid)
  else .ok ()

/-- The slot part of `update_undolog_meta`. -/
def updateSlot (s : UndoWriter) (op : UndoWrite) (start stop : UndoPtr) : Except Panic UndoWriter :=
  let slot := s.ulogs.slot s.ctx.slot
  if slot.xid ≠ op.xact.topXid ∨ slot.dbOid ≠ op.dbid then
    .error (.slotCheckInvalid slot.xid op.xact.topXid slot.dbOid op.dbid)
  else
    .ok { s with
      ulogs := s.ulogs.modify s.ctx.slot.logno fun u =>
        u.setSlot s.ctx.slot.offset (slot.update start stop) }

def advanceInsert (s : UndoWriter) (op : UndoWrite) : UndoWriter :=
  { s with
    ulogs := s.ulogs.modify s.ctx.logno fun u => u.advanceInsert op.lastRecord op.lastRecordSize }

/-- `update_undolog_meta`; `alloc` says that the operation was given a new slot. -/
def updateUndologMeta (s : UndoWriter) (op : UndoWrite) (alloc : Bool) (u : UndoLog) :
    Except Panic UndoWriter :=
  let start : UndoPtr := ⟨s.ctx.logno, u.insertOffset⟩
  let u := u.advanceInsert op.lastRecord op.lastRecordSize
  let s := s.advanceInsert op
  (s.checkUndologMeta op u start).bind fun _ =>
    (if alloc then s.allocUndoSlot op else s).updateSlot op start ⟨s.ctx.logno, u.insertOffset⟩

def setUndologMetaLsn (s : UndoWriter) (lsn : Nat) : UndoWriter :=
  { s with ulogs := s.ulogs.modify s.ctx.logno fun u => u.setSlotLsn s.ctx.slotPtr.offset lsn }

/-- The undo part of the WAL record, from the log as the operation leaves it.  A page that the
record initialises is not logged in full. -/
def logUndo (s : UndoWriter) (op : UndoWrite) (alloc : Bool) (start : UndoPtr) (u : UndoLog) :
    UndoMetaWal where
  fullXid := op.xact.currentXid
  lsn := op.lsn
  urecptr := start
  lastRecord := op.lastRecord
  undoMeta :=
    { slotAlloc := alloc
      slotInit := alloc && u.slotZero
      isSwitch := op.switchTo.isSome
      slotPtr := s.ctx.slotPtr.offset
      lastRecordSize := op.lastRecordSize
      dbid := if alloc then op.dbid else 0 }
  slotImage :=
    if op.fullPage && !u.slotZero then some (u.page (s.ctx.slotPtr.offset / blcksz)) else none

/-- An operation from the allocation of its undo space to the LSN on the slot page. -/
def writeUndo (s : UndoWriter) (op : UndoWrite) : Except Panic (UndoWriter × UndoMetaWal) :=
  (s.allocateUndoSpace op).bind fun t =>
    match t.ulogs t.ctx.logno with
    | none => .error (.ulogIsNull t.ctx.logno)
    | some u => (t.updateUndologMeta op (s.needsSlot op) u).bind fun v =>
        match v.ulogs v.ctx.logno with
        | none => .error (.ulogIsNull v.ctx.logno)
        | some u' => .ok (v.setUndologMetaLsn op.lsn,
            v.logUndo op (s.needsSlot op) ⟨t.ctx.logno, u.insertOffset⟩ u')

end UndoWriter

end XStore
