import XStore.Heap.RowLock
import XStore.Redo.HeapRedo
import XStore.Undo.Prepare

/-!
# What single-row heap changes write

The undo records of `xheap_insert`, `xheap_delete` and `xheap_update` at any nesting depth, and the
WAL record that goes with them.  Where the code keeps a value in two variables, one for the undo
record and one for the WAL record, both are modelled.
-/
namespace XStore

/-- The surroundings of an operation inside a transaction: beside those of the operation, the
nesting of the transaction, its view of row locks, and the answers of the undo log. -/
structure WriteCtx extends OpCtx where
  xact : XactState
  fxid_eq : fxid = xact.topXid
  locker : LockerEnv
  /-- `get_current_tansaction_undorec_ptr` -/
  txnUrp : Nat
  /-- `check_need_switch_undolog` -/
  needSwitch : Bool
  undoMeta : XlUndoMeta

/-- A change of one row.  `maxOffset` is the number of lines of the page that the new tuple is on,
`needsBackup` the answer of `XLogCheckBufferNeedsBackup` for it. -/
inductive SingleRowOp where
  | insert (newtup : XHeapDiskTuple) (off maxOffset : Nat)
  | delete (off : Nat) (changingPart : Bool) (r : Row)
  | inplaceUpdate (off : Nat) (r : Row) (newtup : XHeapDiskTuple) (needsBackup : Bool)
  | update (off : Nat) (r : Row) (lockerIsUs : Bool) (newtup : XHeapDiskTuple)
      (newBlkno newOff maxOffset : Nat) (needsBackup : Bool)
  deriving DecidableEq

/-- The operation asks for the id of the current subtransaction. -/
def SingleRowOp.needsSubxid : SingleRowOp → Bool
  | insert _ _ _ => false
  | _ => true

/-- A change with its surroundings; `GetCurrentFullTransactionId` has assigned the id it is asked
for. -/
structure HeapWrite extends WriteCtx where
  op : SingleRowOp
  assigned : op.needsSubxid = true → xact.currentXid ≠ invalidXid

namespace WriteCtx

/-- `subxid`, which stays invalid at top level. -/
def subxid (c : WriteCtx) : Nat := if c.xact.isSubTransaction then c.xact.currentXid else invalidXid

/-- `UREC_INFO_SUBXACT` with its field. -/
def recordSubxid (c : WriteCtx) : Option Nat :=
  if c.subxid = invalidXid then none else some c.subxid

/-- `txactinfo.xid` of `xheap_update`, which goes into the WAL record; the undo record takes
`old_updater_xid`. -/
def walOldXid (c : WriteCtx) (modifiedXid : Nat) : Nat :=
  let xid := if modifiedXid < c.globalFrozenXid then invalidXid else modifiedXid
  if xid < c.globalRecycleXid then frozenXid else xid

/-- `XHeapTupleHeaderClearAllLocker`, or `xheap_keep_subtxn_lock` inside a subtransaction. -/
def dropLocks (c : WriteCtx) (t : XHeapDiskTuple) : XHeapDiskTuple :=
  if c.xact.isSubTransaction then
    let kept := xheapKeepSubtxnLock c.locker t.flag t.lockerXid
    { t with flag := kept.1, lockerXid := kept.2.getD t.lockerXid }
  else t.clearAllLocker

def markOld (c : WriteCtx) (mark : Flag) (t : XHeapDiskTuple) : XHeapDiskTuple :=
  let t := c.dropLocks { t with urec := c.urecptr }
  { t with flag := (t.flag &&& ~~~xheapVisStatusUnlockMask) ||| mark, modifiedXid := c.fxid }

/-- `xheap_execute_lock_tuple` in exclusive mode. -/
def executeLockTuple (c : WriteCtx) (t : XHeapDiskTuple) : XHeapDiskTuple :=
  { t with
    flag := (t.flag &&& ~~~xheapLockStatusMask) ||| xheapXidExclLock
    lockerXid := if c.xact.isSubTransaction && isParentHoldShareLock c.locker t.flag t.lockerXid
      then c.xact.topXid else c.xact.currentXid }

/-- The old row of a non-in-place update when its undo record is prepared. -/
def lockOld (c : WriteCtx) (lockerIsUs : Bool) (t : XHeapDiskTuple) : XHeapDiskTuple :=
  if lockerIsUs && t.isExclLocked then t else c.executeLockTuple t

/-- The nesting decides which id becomes the locker, not the flag. -/
theorem lockOld_flag (c : WriteCtx) (lockerIsUs : Bool) (t : XHeapDiskTuple) :
    (c.lockOld lockerIsUs t).flag = (lockForUpdate c.toOpCtx lockerIsUs t).flag := by
  unfold lockOld lockForUpdate
  split_ifs <;> rfl

end WriteCtx

namespace HeapWrite

/-- The records of the change, in the order in which they are prepared. -/
def records (h : HeapWrite) : List HeapRecord :=
  let c := h.toWriteCtx
  match h.op with
  | .insert _ off _ => [insertRecord c.toOpCtx off]
  | .delete off _ r => [{ deleteRecord c.toOpCtx off r.tup with uurSubxid := c.recordSubxid }]
  | .inplaceUpdate off r newtup _ =>
    [{ inplaceRecord c.toOpCtx off r newtup with uurSubxid := c.recordSubxid }]
  | .update off r lockerIsUs _ newBlkno newOff _ _ =>
    [{ updateRecord c.toOpCtx off lockerIsUs (newBlkno, newOff) r.tup with
        uurSubxid := c.recordSubxid },
     updateInsertRecord { c.toOpCtx with blkno := newBlkno } newOff]

def undo (h : HeapWrite) : List (Nat × RawUndoRecord) :=
  prepareUndo h.urecptr h.txnUrp h.needSwitch h.records

end HeapWrite

/-- `xheap_fill_header` -/
def XHeapDiskTuple.walHeader (t : XHeapDiskTuple) : XlXheapHeader := ⟨t.flag2, t.flag, t.tHoff⟩

/-- The bytes of a new tuple behind its header, without those it shares with the old one. -/
def XHeapDiskTuple.walData (t : XHeapDiskTuple) (prefixlen suffixlen : Nat) : List UInt8 :=
  if prefixlen = 0 then t.body.take (t.body.length - suffixlen)
  else t.bits ++ (t.columns.drop prefixlen).take (t.columns.length - prefixlen - suffixlen)

structure LoggedChange where
  wal : HeapWalRecord
  undoMeta : XlUndoMeta

namespace HeapWrite

def logsAffixes (h : HeapWrite) (samePage needsBackup : Bool) : Bool :=
  samePage && !needsBackup && !h.isLogicallyLogged

/-- `XLOG_XHEAP_INIT_PAGE`: the new tuple is the only one on its page. -/
def initsPage (off maxOffset : Nat) : Bool :=
  decide (off = firstOffsetNumber) && decide (maxOffset = firstOffsetNumber)

def logInsert (h : HeapWrite) (newtup : XHeapDiskTuple) (off maxOffset : Nat) : XlXheapInsert where
  offnum := off
  initPage := initsPage off maxOffset
  hdr := (insertTuple h.toOpCtx newtup).walHeader
  data := newtup.body

/-- The old tuple is copied when its lock bits are back in the flag; the flag of the deleted row is
cut to the eight bits of `xl_xheap_delete`. -/
def logDelete (h : HeapWrite) (off : Nat) (changingPart : Bool) (r : Row) : XlXheapDelete where
  offnum := off
  oldxid := h.deleteOldXid r.tup.modifiedXid
  flag := ((h.markOld xheapDeleted r.tup).flag ||| if changingPart then xheapMoved else 0#16) &&&
    0x00FF#16
  oldHdr := r.tup.walHeader
  oldData := r.tup.body

def logInplaceUpdate (h : HeapWrite) (off : Nat) (r : Row) (newtup : XHeapDiskTuple)
    (needsBackup : Bool) : Except Panic XlXheapInplaceUpdate :=
  (putInplaceUpdateXtuple { r with tup := h.markOld xheapInplaceUpdated r.tup } newtup).map fun r' =>
    let affixes := h.logsAffixes true needsBackup
    let prefixlen := if affixes then (sharedPrefix h.toOpCtx r newtup).getD 0 else 0
    let suffixlen := if affixes then (sharedSuffix h.toOpCtx r newtup).getD 0 else 0
    { offnum := off
      oldxid := h.walOldXid r.tup.modifiedXid
      oldTupleFlag := r'.tup.flag
      prefixFromOld := decide (0 < prefixlen)
      suffixFromOld := decide (0 < suffixlen)
      delta := inplaceDelta h.toOpCtx r newtup
      newHdr := r'.tup.walHeader
      newData := ({ r'.tup with body := newtup.body } : XHeapDiskTuple).walData prefixlen suffixlen }

def logUpdate (h : HeapWrite) (off : Nat) (r : Row) (lockerIsUs : Bool) (newtup : XHeapDiskTuple)
    (newBlkno newOff maxOffset : Nat) (needsBackup : Bool) : XlXheapUpdate :=
  let locked := h.lockOld lockerIsUs r.tup
  let new := newTuple h.toOpCtx h.newUrecptr newtup
  let affixes := h.logsAffixes (decide (newBlkno = h.blkno)) needsBackup
  let prefixlen := if affixes then usedAffix (Delta.commonPrefixLen r.tup.columns new.columns) else none
  let suffixlen := if affixes then usedAffix (Delta.commonSuffixLen
    (min r.tup.columns.length new.columns.length - prefixlen.getD 0) r.tup.columns new.columns) else none
  { oldOffnum := off
    newOffnum := newOff
    oldxid := h.walOldXid r.tup.modifiedXid
    oldTupleFlag := (h.markOld xheapUpdated locked).flag
    oldBlk := if newBlkno = h.blkno then none else some h.blkno
    initPage := initsPage newOff maxOffset
    newUrecptr := h.undo[1]?.elim h.newUrecptr Prod.fst
    prefixlen := prefixlen
    suffixlen := suffixlen
    oldHdr := locked.walHeader
    oldData := locked.body
    newHdr := new.walHeader
    newData := new.walData (prefixlen.getD 0) (suffixlen.getD 0) }

/-- The undo header; `prev` is the record that the old row points to. -/
def undoHeader (h : HeapWrite) (prev : Nat) (hasTopXid : Bool) : XlUndoHeader where
  urecptr := h.urecptr
  relOid := h.reloid
  blkprev := if prev = invalidUndoRecPtr then none else some prev
  prevurp := if h.needSwitch then some h.txnUrp else none
  topXid := if hasTopXid then some h.xact.topXid else none

def walRecord (h : HeapWrite) (blkno : Nat) (undo : XlUndoHeader) (change : XlHeapChange) :
    HeapWalRecord :=
  ⟨h.xact.currentXid, h.relfilenode, h.tablespace, blkno, undo, change⟩

def wal (h : HeapWrite) : Except Panic HeapWalRecord :=
  let hasSubxid := decide (h.subxid ≠ invalidXid)
  match h.op with
  | .insert newtup off maxOffset =>
    .ok (h.walRecord h.blkno (h.undoHeader invalidUndoRecPtr h.xact.isSubTransaction)
      (.insert (h.logInsert newtup off maxOffset)))
  | .delete off changingPart r =>
    .ok (h.walRecord h.blkno (h.undoHeader r.tup.urec hasSubxid)
      (.delete (h.logDelete off changingPart r)))
  | .inplaceUpdate off r newtup needsBackup =>
    (h.logInplaceUpdate off r newtup needsBackup).map fun x =>
      h.walRecord h.blkno (h.undoHeader r.tup.urec hasSubxid) (.inplaceUpdate x)
  | .update off r lockerIsUs newtup newBlkno newOff maxOffset needsBackup =>
    .ok (h.walRecord newBlkno (h.undoHeader r.tup.urec hasSubxid)
      (.update (h.logUpdate off r lockerIsUs newtup newBlkno newOff maxOffset needsBackup)))

/-- The WAL record with the metadata that `prepare_undo` has filled in. -/
def log (h : HeapWrite) : Except Panic LoggedChange :=
  h.wal.map fun w =>
    ⟨w, { h.undoMeta with isSwitch := h.needSwitch, lastRecordSize := lastRecordSize h.undo }⟩

end HeapWrite

/-- Transaction 7, at top level or inside a subtransaction, with its first undo record at offset 24
of log 1. -/
def writeBySeventh (nesting : List Nat) (hn : ∀ x ∈ nesting, x ≠ 7) (recycleXid : Nat) : WriteCtx where
  toOpCtx :=
    { seventh (UndoPtr.pack ⟨1, 24⟩) with globalFrozenXid := 6, globalRecycleXid := recycleXid }
  xact := ⟨7, nesting, hn⟩
  fxid_eq := rfl
  locker := ⟨nesting.headD 0, 6, fun x => x = 7 || nesting.contains x, fun _ => none⟩
  txnUrp := 0
  needSwitch := false
  undoMeta := ⟨true, true, false, 24, 0, 16384⟩

theorem seventh_not_nested : ∀ x ∈ ([] : List Nat), x ≠ 7 := by simp

/-- A row of transaction 5, which is committed and frozen. -/
def frozenRow (flag : Flag) (lockerXid : Nat) : Row :=
  ⟨⟨8000, .normal, 33⟩, ⟨5, lockerXid, 0, flag, 1#16, 32, [0, 0, 0, 42]⟩⟩

end XStore
