import XStore.Heap.Operations

/-!
# The WAL records of single-row heap changes

What `xheap_insert`, `xheap_delete` and `xheap_update` log: the transaction id of the record, the
undo header with the fields its flag announces, and the part that depends on the operation.
-/
namespace XStore

/-- `xl_undo_header` with the optional fields behind it. -/
structure XlUndoHeader where
  urecptr : Nat
  relOid : Nat
  /-- `XLOG_UNDO_HEADER_HAS_BLK_PREV` -/
  blkprev : Option Nat
  /-- `XLOG_UNDO_HEADER_HAS_PREV_URP` -/
  prevurp : Option Nat
  /-- `XLOG_UNDO_HEADER_HAS_TOP_XID` -/
  topXid : Option Nat
  deriving DecidableEq

structure XlXheapHeader where
  flag2 : Flag
  flag : Flag
  tHoff : Nat
  deriving DecidableEq

/-- `xl_xheap_insert` with the tuple of block reference 0. -/
structure XlXheapInsert where
  offnum : Nat
  /-- `XLOG_XHEAP_INIT_PAGE` -/
  initPage : Bool
  hdr : XlXheapHeader
  data : List UInt8
  deriving DecidableEq

/-- `xl_xheap_delete` with the old tuple. -/
structure XlXheapDelete where
  offnum : Nat
  oldxid : Nat
  flag : Flag
  oldHdr : XlXheapHeader
  oldData : List UInt8
  deriving DecidableEq

/-- `xl_xheap_update` without `XLZ_NON_INPLACE_UPDATE`: the undo payload, and the new tuple without
the bytes it shares with the old one. -/
structure XlXheapInplaceUpdate where
  offnum : Nat
  oldxid : Nat
  oldTupleFlag : Flag
  prefixFromOld : Bool
  suffixFromOld : Bool
  delta : InplaceDelta
  newHdr : XlXheapHeader
  newData : List UInt8
  deriving DecidableEq

/-- `xl_xheap_update` with `XLZ_NON_INPLACE_UPDATE`. -/
structure XlXheapUpdate where
  oldOffnum : Nat
  newOffnum : Nat
  oldxid : Nat
  oldTupleFlag : Flag
  /-- Block reference 1, absent when both rows are on one page. -/
  oldBlk : Option Nat
  initPage : Bool
  newUrecptr : Nat
  prefixlen : Option Nat
  suffixlen : Option Nat
  oldHdr : XlXheapHeader
  oldData : List UInt8
  newHdr : XlXheapHeader
  newData : List UInt8
  deriving DecidableEq

inductive XlHeapChange where
  | insert (x : XlXheapInsert)
  | delete (x : XlXheapDelete)
  | inplaceUpdate (x : XlXheapInplaceUpdate)
  | update (x : XlXheapUpdate)
  deriving DecidableEq

structure HeapWalRecord where
  /-- `XLogRecGetFullXid`: the id of the transaction or subtransaction that wrote the record. -/
  fullXid : Nat
  relNumber : Nat
  spcOid : Nat
  /-- Block reference 0. -/
  blkno : Nat
  undo : XlUndoHeader
  change : XlHeapChange
  deriving DecidableEq

/-- The record was written in this transaction state: inside a subtransaction the undo header
carries the id of the top transaction. -/
structure HeapWalRecord.WrittenIn (w : HeapWalRecord) (xs : XactState) : Prop where
  fullXid : w.fullXid = xs.currentXid
  topXid : w.undo.topXid = if xs.isSubTransaction then some xs.topXid else none

end XStore
