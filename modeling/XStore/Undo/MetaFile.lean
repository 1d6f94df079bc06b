import XStore.Bytes.CheckedPages
import XStore.Undo.UndoLog

/-!
# The undo metadata file

`undo/undolog.meta` holds three tables, one record for every persistent undo log in each: the pointers
of the log, its data segment and its transaction segment. `init_undo_meta` creates the file,
`checkpoint_undo_meta` writes the groups of eight pages that have a changed record, and
`recovery_undo_meta` reads all of it at a restart.
-/
namespace XStore

def undoMetaPageSize : Nat := 512

def undoWriteSize : Nat := undoMetaPageSize * 8

def pagesReadNum : Nat := 1024 * 16

def undologTotalCount : Nat := 256 * 1024

def persistUndologCount : Nat := undologTotalCount / 2

def undoPtrGetOffset (urp : UInt64) : UInt64 := urp &&& 0x3FFFFFFFFFFF

def makeUndoRecPtr (logno : Nat) (offset : UInt64) : UInt64 := (UInt64.ofNat logno <<< 46) ||| offset

structure UndoSegment where
  lsn : UInt64
  head : UInt64
  tail : UInt64
  dirty : Bool
  deriving DecidableEq

structure UndoLogControl where
  lsn : UInt64
  allocSlotOffset : UInt64
  recycleSlotOffset : UInt64
  insertOffset : UInt64
  discardOffset : UInt64
  forceDiscardOffset : UInt64
  recycleXid : UInt64
  dirty : Bool
  frozen : Bool
  undoDataSeg : UndoSegment
  undoTxnSeg : UndoSegment
  deriving DecidableEq

structure UndoSys where
  ulogs : Nat → UndoLogControl
  undoLogUsedCount : Nat
  undoLogMaxSize : UInt64

/-- `UNDO_LOG_BLOCK_HEADER_SIZE` as an offset. -/
def firstUndoOffset : UInt64 := 24

def initUndoLog : UndoLogControl :=
  ⟨0, firstUndoOffset, firstUndoOffset, firstUndoOffset, firstUndoOffset, firstUndoOffset, 0, false,
    false, ⟨0, 0, 0, false⟩, ⟨0, 0, 0, false⟩⟩

def xstoreUndoVersion : UInt32 := 1

structure UndoLogMeta where
  version : UInt32
  lsn : UInt64
  allocateSlotOffset : UInt64
  recycleSlotOffset : UInt64
  insertRecPtr : UInt64
  discardRecPtr : UInt64
  foreceDiscardRecPtr : UInt64
  recycleXid : UInt64
  deriving DecidableEq

/-- The bytes of the record; four zero bytes pad the version. -/
def UndoLogMeta.bytes (r : UndoLogMeta) : List UInt8 :=
  wordBytes [r.version.toUInt64, r.lsn, r.allocateSlotOffset, r.recycleSlotOffset, r.insertRecPtr,
    r.discardRecPtr, r.foreceDiscardRecPtr, r.recycleXid]

def UndoLogMeta.ofBytes (bs : List UInt8) : UndoLogMeta :=
  ⟨(wordAt bs 0).toUInt32, wordAt bs 1, wordAt bs 2, wordAt bs 3, wordAt bs 4, wordAt bs 5, wordAt bs 6,
    wordAt bs 7⟩

structure UndoSegmentMeta where
  version : UInt32
  lsn : UInt64
  head : UInt64
  tail : UInt64
  deriving DecidableEq

def UndoSegmentMeta.bytes (r : UndoSegmentMeta) : List UInt8 :=
  wordBytes [r.version.toUInt64, r.lsn, r.head, r.tail]

def UndoSegmentMeta.ofBytes (bs : List UInt8) : UndoSegmentMeta :=
  ⟨(wordAt bs 0).toUInt32, wordAt bs 1, wordAt bs 2, wordAt bs 3⟩

namespace UndoLogControl

variable (u : UndoLogControl)

/-- `get_undo_meta_from_undolog` -/
def getUndoMeta : UndoLogMeta :=
  ⟨xstoreUndoVersion, u.lsn, undoPtrGetOffset u.allocSlotOffset, undoPtrGetOffset u.recycleSlotOffset,
    undoPtrGetOffset u.insertOffset, undoPtrGetOffset u.discardOffset,
    undoPtrGetOffset u.forceDiscardOffset, u.recycleXid⟩

/-- `recovery_undo_log` -/
def recovery (r : UndoLogMeta) : UndoLogControl :=
  { u with
    lsn := r.lsn
    insertOffset := undoPtrGetOffset r.insertRecPtr
    discardOffset := undoPtrGetOffset r.discardRecPtr
    forceDiscardOffset := undoPtrGetOffset r.foreceDiscardRecPtr
    allocSlotOffset := undoPtrGetOffset r.allocateSlotOffset
    recycleSlotOffset := undoPtrGetOffset r.recycleSlotOffset
    recycleXid := r.recycleXid }

def isDone (logno : Nat) (undoLogMaxSize : UInt64) : Bool :=
  undoLogMaxSize ≤ undoPtrGetOffset (makeUndoRecPtr logno u.insertOffset) &&
    makeUndoRecPtr logno u.allocSlotOffset == makeUndoRecPtr logno u.recycleSlotOffset

end UndoLogControl

def UndoSegment.getMeta (usp : UndoSegment) : UndoSegmentMeta :=
  ⟨xstoreUndoVersion, usp.lsn, usp.head, usp.tail⟩

inductive UndoSegmentType where
  | undoLogSegment
  | undoSlotSegment
  deriving DecidableEq

namespace UndoLogControl

def segment (u : UndoLogControl) : UndoSegmentType → UndoSegment
  | .undoLogSegment => u.undoDataSeg
  | .undoSlotSegment => u.undoTxnSeg

def setSegment (u : UndoLogControl) (usp : UndoSegment) : UndoSegmentType → UndoLogControl
  | .undoLogSegment => { u with undoDataSeg := usp }
  | .undoSlotSegment => { u with undoTxnSeg := usp }

end UndoLogControl

def UndoSys.setLog (sys : UndoSys) (logno : Nat) (u : UndoLogControl) : UndoSys :=
  { sys with ulogs := Function.update sys.ulogs logno u }

def undologCountPerPage : Nat := (undoMetaPageSize - 4) / 64

def undosegmentCountPerPage : Nat := (undoMetaPageSize - 4) / 32

/-- Pages of `UndoLogMeta`. -/
def undoLogPages (logCount : Nat) : RecordPages :=
  ⟨undoMetaPageSize, 64, undologCountPerPage, logCount, by decide, by decide⟩

/-- Pages of `UndoSegmentMeta`. -/
def undoSegmentPages (logCount : Nat) : RecordPages :=
  ⟨undoMetaPageSize, 32, undosegmentCountPerPage, logCount, by decide, by decide⟩

/-- `UNDO_LOG_META_PAGE_COUNT` and `UNDOSEGMENT_META_PAGE_COUNT` -/
def metaPageCount (total unit : Nat) : Nat :=
  if total % unit = 0 then total / unit else total / unit + 1

structure MetaTable where
  pages : RecordPages
  /-- Where the table starts in the file. -/
  pageBegin : Nat
  /-- The size of the last write, for the number of logs that are left. -/
  lastWriteSize : Nat → Nat
  dirty : UndoLogControl → Bool
  record : UndoLogControl → List UInt8
  /-- The log and the number of used logs after the record has been taken. -/
  written : UndoSys → Nat → UndoSys

def undoLogTable (logCount : Nat) : MetaTable where
  pages := undoLogPages logCount
  pageBegin := 0
  lastWriteSize := fun left => (left / undologCountPerPage + 1) * undoMetaPageSize
  dirty := fun u => u.dirty
  record := fun u => u.getUndoMeta.bytes
  written := fun sys logno =>
    let u := { sys.ulogs logno with dirty := false }
    if u.isDone logno sys.undoLogMaxSize && !u.frozen then
      { sys.setLog logno { u with frozen := true } with undoLogUsedCount := sys.undoLogUsedCount - 1 }
    else sys.setLog logno u

/-- Where the segment records start: behind the pages of the logs, and for the transaction segments behind
those of the data segments. -/
def segmentPageBegin (logCount : Nat) : UndoSegmentType → Nat
  | .undoLogSegment => metaPageCount logCount undologCountPerPage * undoMetaPageSize
  | .undoSlotSegment => metaPageCount logCount undologCountPerPage * undoMetaPageSize +
      metaPageCount logCount undosegmentCountPerPage * undoMetaPageSize

/-- The last write is computed with the number of records of a whole group, not of a page. -/
def undoSegmentTable (logCount : Nat) (stype : UndoSegmentType) : MetaTable where
  pages := undoSegmentPages logCount
  pageBegin := segmentPageBegin logCount stype
  lastWriteSize := fun left => (left / (undosegmentCountPerPage * 8) + 1) * undoMetaPageSize
  dirty := fun u => (u.segment stype).dirty
  record := fun u => (u.segment stype).getMeta.bytes
  written := fun sys logno =>
    let u := sys.ulogs logno
    sys.setLog logno (u.setSegment { u.segment stype with dirty := false } stype)

structure MetaFile where
  bytes : Memory
  size : Nat

/-- `lseek` and `write` -/
def MetaFile.write (f : MetaFile) (pos : Nat) (bs : List UInt8) : MetaFile :=
  ⟨f.bytes.store pos bs, max f.size (pos + bs.length)⟩

def zeroBuffer : Memory := fun _ => 0

inductive MetaError where
  | shortRead (expectSize realSize : Nat)
  | crcDifferent (computed recorded : Nat)
  deriving DecidableEq

section Checkpoint

variable (crc : List UInt8 → UInt32)

/-- The variables of `checkpoint_undo_logs` and `checkpoint_undo_segment`. -/
structure MetaWrite where
  sys : UndoSys
  file : MetaFile
  buffer : Memory
  cycle : Nat
  writeSize : Nat
  needFlushMetaPage : Bool

namespace MetaTable

variable (t : MetaTable)

def countPerWrite : Nat := t.pages.perPage * 8

/-- The record of a log is put into the buffer, and behind the last record of a page the checksum. -/
def fillBuffer (buffer : Memory) (cycle : Nat) (record : List UInt8) : Memory :=
  let pageOffset := cycle % t.countPerWrite / t.pages.perPage * undoMetaPageSize
  let buffer := buffer.store (pageOffset + cycle % t.pages.perPage * t.pages.size) record
  if (cycle + 1) % t.pages.perPage = 0 ∨ cycle = t.pages.total - 1 then
    let crcSize := if cycle = t.pages.total - 1 then
        t.pages.total % t.pages.perPage * t.pages.size
      else t.pages.perPage * t.pages.size
    buffer.store (pageOffset + crcSize) (leBytes 4 (crc (buffer.load pageOffset crcSize)).toNat)
  else buffer

/-- One round of the inner loop; at the end of the group the buffer is written. -/
def flushStep (w : MetaWrite) (cycle : Nat) : MetaWrite :=
  let buffer := t.fillBuffer crc w.buffer cycle (t.record (w.sys.ulogs cycle))
  let w := { w with buffer := buffer, sys := t.written w.sys cycle, cycle := cycle + 1 }
  if (cycle + 1) % t.countPerWrite = 0 ∨ cycle = t.pages.total - 1 then
    { w with
      file := w.file.write (t.pageBegin + cycle / t.countPerWrite * undoWriteSize)
        (w.buffer.load 0 w.writeSize)
      needFlushMetaPage := false }
  else w

def startGroup (w : MetaWrite) (loop : Nat) : MetaWrite :=
  if loop % t.countPerWrite = 0 then
    { w with
      cycle := loop
      buffer := zeroBuffer
      writeSize := if t.pages.total - loop < t.countPerWrite then
          t.lastWriteSize (t.pages.total - loop)
        else undoWriteSize }
  else w

/-- One round of the outer loop: the groups with a changed record are written. -/
def checkpointStep (w : MetaWrite) (loop : Nat) : MetaWrite :=
  let w := t.startGroup w loop
  let w := if t.dirty (w.sys.ulogs loop) then { w with needFlushMetaPage := true } else w
  if w.needFlushMetaPage ∧ ((loop + 1) % t.countPerWrite = 0 ∨ loop + 1 = t.pages.total) then
    (List.range' w.cycle (loop + 1 - w.cycle)).foldl (t.flushStep crc) w
  else w

def checkpoint (sys : UndoSys) (file : MetaFile) : MetaWrite :=
  (List.range t.pages.total).foldl (t.checkpointStep crc)
    ⟨sys, file, zeroBuffer, 0, 0, false⟩

end MetaTable

variable (logCount : Nat)

def checkpointUndoLogs (sys : UndoSys) (file : MetaFile) : UndoSys × MetaFile :=
  let w := (undoLogTable logCount).checkpoint crc sys file
  (w.sys, w.file)

def checkpointUndoSegment (stype : UndoSegmentType) (sys : UndoSys) (file : MetaFile) :
    UndoSys × MetaFile :=
  let w := (undoSegmentTable logCount stype).checkpoint crc sys file
  (w.sys, w.file)

def checkpointUndoMeta (sys : UndoSys) (file : MetaFile) : UndoSys × MetaFile :=
  if sys.undoLogUsedCount = 0 then (sys, file)
  else
    let logs := checkpointUndoLogs crc logCount sys file
    let data := checkpointUndoSegment crc logCount .undoLogSegment logs.1 logs.2
    checkpointUndoSegment crc logCount .undoSlotSegment data.1 data.2

end Checkpoint

section Init

variable (crc : List UInt8 → UInt32)

/-- The variables of `InitUndoLogMeta` and `InitSegmentMeta`. -/
structure MetaInit where
  file : MetaFile
  buffer : Memory
  writeSize : Nat
  pos : Nat

/-- One round of the loop, with the same record for every log. -/
def initMetaStep (T : RecordPages) (record : List UInt8) (w : MetaInit) (logno : Nat) : MetaInit :=
  let totalPageCnt := metaPageCount T.total T.perPage
  let w := if logno % T.perPage = 0 then
      { w with
        buffer := zeroBuffer
        writeSize := if logno / T.perPage + 1 = totalPageCnt then
            (T.total - (totalPageCnt - 1) * T.perPage) * T.size
          else T.size * T.perPage }
    else w
  let buffer := w.buffer.store (logno % T.perPage * T.size) record
  if (logno + 1) % T.perPage = 0 ∨
      (logno = T.total - 1 ∧ logno / T.perPage + 1 = totalPageCnt) then
    let buffer := buffer.store w.writeSize (leBytes 4 (crc (buffer.load 0 w.writeSize)).toNat)
    { w with
      buffer := buffer
      file := w.file.write w.pos (buffer.load 0 undoMetaPageSize)
      pos := w.pos + undoMetaPageSize }
  else { w with buffer := buffer }

def initMetaTable (T : RecordPages) (record : List UInt8) (file : MetaFile) (pos : Nat) : MetaInit :=
  (List.range T.total).foldl (initMetaStep crc T record)
    ⟨file, zeroBuffer, 0, pos⟩

/-- `init_undo_meta`: `InitUndoLogMeta` and, for both kinds of segments, `InitSegmentMeta`. -/
def initUndoMeta (logCount : Nat) : MetaInit :=
  let w := initMetaTable crc (undoLogPages logCount) initUndoLog.getUndoMeta.bytes
    ⟨zeroBuffer, 0⟩ 0
  let segment := (UndoSegment.getMeta ⟨0, 0, 0, false⟩).bytes
  let w := initMetaTable crc (undoSegmentPages logCount) segment w.file w.pos
  initMetaTable crc (undoSegmentPages logCount) segment w.file w.pos

end Init

section Recovery

variable (crc : List UInt8 → UInt32)

/-- The variables of `recovery_undo_logs` and `recovery_undo_segment`. -/
structure MetaRead where
  sys : UndoSys
  pos : Nat
  persistBlock : Memory
  /-- Where the page of the log starts in `persistBlock`. -/
  uspMetaBuffer : Nat

/-- `read` at the position of the file. -/
def MetaRead.fill (w : MetaRead) (file : MetaFile) (readSize : Nat) : Except MetaError MetaRead :=
  let ret := min readSize (file.size - w.pos)
  if ret ≠ readSize then .error (.shortRead readSize ret)
  else .ok { w with
    persistBlock := zeroBuffer.store 0 (file.bytes.load w.pos readSize)
    pos := w.pos + readSize }

/-- The checksum of the page of a log is compared with the one behind its records. -/
def MetaRead.checkPage (w : MetaRead) (T : RecordPages) (logno : Nat) : Except MetaError MetaRead :=
  let uspMetaBuffer := logno % (T.perPage * pagesReadNum) / T.perPage * undoMetaPageSize
  let count := if T.total - logno < T.perPage then T.total - logno else T.perPage
  let pageCrcVal := leNat (w.persistBlock.load (uspMetaBuffer + T.size * count) 4)
  let comCrcVal := (crc (w.persistBlock.load uspMetaBuffer (T.size * count))).toNat
  if pageCrcVal ≠ comCrcVal then .error (.crcDifferent comCrcVal pageCrcVal)
  else .ok { w with uspMetaBuffer := uspMetaBuffer }

/-- One round of the loop over the logs; `restore` takes the record over. -/
def recoveryStep (T : RecordPages) (restore : UndoSys → Nat → List UInt8 → UndoSys) (file : MetaFile)
    (w : MetaRead) (logno : Nat) : Except MetaError MetaRead :=
  (if logno % (T.perPage * pagesReadNum) = 0 then
    w.fill file (if T.total - logno < T.perPage * pagesReadNum then
        ((T.total - logno) / T.perPage + 1) * undoMetaPageSize
      else undoMetaPageSize * pagesReadNum)
  else .ok w).bind fun w =>
    (if logno % T.perPage = 0 then w.checkPage crc T logno else .ok w).map fun w =>
      { w with
        sys := restore w.sys logno
          (w.persistBlock.load (w.uspMetaBuffer + logno % T.perPage * T.size) T.size) }

def recoveryLoop (T : RecordPages) (restore : UndoSys → Nat → List UInt8 → UndoSys) (file : MetaFile)
    (pos : Nat) (sys : UndoSys) : Except MetaError UndoSys :=
  ((List.range T.total).foldlM (recoveryStep crc T restore file)
    ⟨sys, pos, zeroBuffer, 0⟩).map MetaRead.sys

/-- A record with the insert pointer of a new log is passed over. -/
def restoreUndoLog (sys : UndoSys) (logno : Nat) (bs : List UInt8) : UndoSys :=
  let r := UndoLogMeta.ofBytes bs
  if r.insertRecPtr ≠ firstUndoOffset then sys.setLog logno ((sys.ulogs logno).recovery r) else sys

def restoreUndoSegment (stype : UndoSegmentType) (sys : UndoSys) (logno : Nat) (bs : List UInt8) :
    UndoSys :=
  let r := UndoSegmentMeta.ofBytes bs
  let u := (sys.ulogs logno).setSegment ⟨r.lsn, r.head, r.tail, false⟩ stype
  match stype with
  | .undoLogSegment =>
    if 0 < r.tail then
      if u.isDone logno sys.undoLogMaxSize then sys.setLog logno { u with frozen := true }
      else { sys.setLog logno u with undoLogUsedCount := sys.undoLogUsedCount + 1 }
    else sys.setLog logno u
  | .undoSlotSegment => sys.setLog logno u

variable (logCount : Nat)

def recoveryUndoLogs (file : MetaFile) (sys : UndoSys) : Except MetaError UndoSys :=
  recoveryLoop crc (undoLogPages logCount) restoreUndoLog file 0 sys

def recoveryUndoSegment (stype : UndoSegmentType) (file : MetaFile) (sys : UndoSys) :
    Except MetaError UndoSys :=
  recoveryLoop crc (undoSegmentPages logCount) (restoreUndoSegment stype) file
    (segmentPageBegin logCount stype) sys

/-- `recovery_undo_meta`, with the logs as `xundo_sys_shmems_init` leaves them. -/
def recoveryUndoMeta (undoLogMaxSize : UInt64) (file : MetaFile) : Except MetaError UndoSys :=
  (recoveryUndoLogs crc logCount file ⟨fun _ => initUndoLog, 0, undoLogMaxSize⟩).bind
    fun sys => (recoveryUndoSegment crc logCount .undoLogSegment file sys).bind
      fun sys => recoveryUndoSegment crc logCount .undoSlotSegment file sys

end Recovery

end XStore
