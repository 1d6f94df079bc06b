import Mathlib.Data.List.Basic

/-!
# Row pointers and disk tuples of the xheap

The layout constants, the row pointer and the disk tuple of `xpage.h` and `xtuple.h`.
Transaction ids and undo record pointers are natural numbers (64-bit counters that do not
wrap), the two flag words stay 16-bit words, and the bytes of a row from `data` on are a list.
-/
namespace XStore

def blcksz : Nat := 8192
def sizeOfXHeapPageHeaderData : Nat := 40
def sizeOfXHeapDiskTupleData : Nat := 29
def maxXHeapTupleSize : Nat := 8144
def maxOffsetNumber : Nat := 2048
def firstOffsetNumber : Nat := 1
def invalidOffsetNumber : Nat := 0

/-- `InvalidFullTransactionId` and `INVALID_UNDO_REC_PTR` are both zero. -/
def invalidXid : Nat := 0
def frozenXid : Nat := 2
def invalidUndoRecPtr : Nat := 0

abbrev Flag := BitVec 16

def xheapHasNull : Flag := 0x0001#16
def xheapHasExternal : Flag := 0x0004#16
def xheapDeleted : Flag := 0x0010#16
def xheapInplaceUpdated : Flag := 0x0020#16
def xheapUpdated : Flag := 0x0040#16
def xheapMoved : Flag := xheapDeleted ||| xheapUpdated
def xheapXidExclLock : Flag := 0x0400#16
def xheapMultiLockers : Flag := 0x0800#16
def xheapLockStatusMask : Flag := 0x0F00#16
def xheapModifiedXidCommitted : Flag := 0x1000#16
def xheapModifiedXidInvalid : Flag := 0x2000#16
def xheapXidStatusMask : Flag := xheapModifiedXidCommitted ||| xheapModifiedXidInvalid
def xheapVisStatusMask : Flag := 0xFFF0#16
def xheapVisStatusUnlockMask : Flag := 0xF0F0#16
def xheapNattsMask : Flag := 0x07FF#16

/-- The C test `(flag & mask) != 0`. -/
def Flag.has (f m : Flag) : Bool := (f &&& m) != 0#16

/-- The reasons for which the modelled code stops the server. -/
inductive Panic where
  | rowPointerError (offset : Nat) (len : Nat)
  | invalidPotentialFreespace (size : Nat)
  | invalidLpOffset (min max : Nat)
  | invalidCopyRange (start stop : Nat)
  | unsupportedRollbackAction
  | corruptedPagePointers (lower upper : Nat)
  | failedToAddTuple
  | invalidMaxOffsetNumber
  | invalidRp
  | ulogIsNull (logno : Nat)
  | forceDiscardPastInsert (discard insert : Nat)
  | invalidCachedSlotBuffer (slotPtr : Nat)
  | updateSlotFailed (xid : Nat)
  | slotCheckInvalid (slotXid xid slotDb db : Nat)
  | slotPastTail (tail offset : Nat)
  | corruptedPage (lower upper special : Nat)
  | corruptedItemPointer (itemoff : Nat)
  | prevLenIsZero (curRecptr : Nat)
  | noPageBefore (curRecptr : Nat)
  | lastRecordSize (size logged : Nat)
  | recycleXidPrecedes (xid globalFrozenXid : Nat)
  | recycleRange (start stop : Nat)
  | prunedInProgress (xid globalFrozenXid : Nat)
  | rowTooBig (size maximum : Nat)
  /-- A null pointer is read through. -/
  | nullPointer
  deriving DecidableEq

theorem map_ok {α β : Type*} {e : Except Panic α} {f : α → β} {b : β} (h : e.map f = .ok b) :
    ∃ a, e = .ok a ∧ f a = b := by
  cases e with
  | error err => cases h
  | ok a =>
    cases h
    exact ⟨a, rfl, rfl⟩

theorem bind_ok {α β : Type*} {e : Except Panic α} {f : α → Except Panic β} {b : β}
    (h : e.bind f = .ok b) : ∃ a, e = .ok a ∧ f a = .ok b := by
  cases e with
  | error err => cases h
  | ok a => exact ⟨a, rfl, h⟩

inductive RowPtrFlags where
  | unused
  | normal
  | redirect
  | dead
  deriving DecidableEq

structure RowPtr where
  offset : Nat
  flags : RowPtrFlags
  len : Nat
  deriving DecidableEq

namespace RowPtr

def isUsed (rp : RowPtr) : Bool := rp.flags != .unused
def hasStorage (rp : RowPtr) : Bool := decide (0 < rp.len)
def isNormal (rp : RowPtr) : Bool := rp.flags == .normal

/-- `RowPtrSetUnused`; a zeroed row pointer is the same value. -/
def unused : RowPtr := ⟨0, .unused, 0⟩

/-- `RowPtrChangeLen`, which panics on a row that would leave the page. -/
def changeLen (rp : RowPtr) (length : Nat) : Except Panic RowPtr :=
  if rp.offset + length > blcksz then .error (.rowPointerError rp.offset length)
  else .ok { rp with len := length }

@[simp] theorem unused_isUsed : unused.isUsed = false := rfl
@[simp] theorem unused_hasStorage : unused.hasStorage = false := rfl
@[simp] theorem unused_isNormal : unused.isNormal = false := rfl

theorem isUsed_of_isNormal {rp : RowPtr} (h : rp.isNormal = true) : rp.isUsed = true := by
  cases rp with
  | mk o f l => cases f <;> simp_all [isNormal, isUsed]

theorem changeLen_ok {rp rp' : RowPtr} {n : Nat} (h : rp.changeLen n = .ok rp') :
    rp.offset + n ≤ blcksz ∧ rp' = { rp with len := n } := by
  unfold changeLen at h
  split at h
  · cases h
  · exact ⟨by omega, by cases h; rfl⟩

end RowPtr

/-- `XHeapDiskTupleData`.  `body` holds the bytes from `data` to the end of the row: the null
bitmap up to `tHoff`, then the column bytes. -/
structure XHeapDiskTuple where
  modifiedXid : Nat
  lockerXid : Nat
  urec : Nat
  flag : Flag
  flag2 : Flag
  tHoff : Nat
  body : List UInt8
  deriving DecidableEq

namespace XHeapDiskTuple

/-- The bytes between `data` and `t_hoff`. -/
def bits (t : XHeapDiskTuple) : List UInt8 := t.body.take (t.tHoff - sizeOfXHeapDiskTupleData)

/-- The column bytes, from `t_hoff` on. -/
def columns (t : XHeapDiskTuple) : List UInt8 := t.body.drop (t.tHoff - sizeOfXHeapDiskTupleData)

@[simp] theorem bits_append_columns (t : XHeapDiskTuple) : t.bits ++ t.columns = t.body :=
  List.take_append_drop _ _

def isInPlaceUpdated (t : XHeapDiskTuple) : Bool := t.flag.has xheapInplaceUpdated
def isUpdated (t : XHeapDiskTuple) : Bool := t.flag.has xheapUpdated

/-- `XHeapDiskTupleDeleted`: deleted, or left behind by a non-in-place update. -/
def isDeleted (t : XHeapDiskTuple) : Bool := t.flag.has (xheapDeleted ||| xheapUpdated)

/-- `XHeapTupleHeaderClearAllLocker` -/
def clearAllLocker (t : XHeapDiskTuple) : XHeapDiskTuple :=
  { t with flag := t.flag &&& ~~~xheapLockStatusMask, lockerXid := invalidXid }

end XHeapDiskTuple

/-- A line of the page: its row pointer and the storage that pointer designates. -/
structure Row where
  rp : RowPtr
  tup : XHeapDiskTuple
  deriving DecidableEq

def Row.zero : Row := ⟨RowPtr.unused, ⟨0, 0, 0, 0#16, 0#16, 0, []⟩⟩

/-- The bytes of the row fill the length its row pointer gives, and the header reaches `data`. -/
structure Row.Filled (r : Row) : Prop where
  len_eq : r.rp.len = sizeOfXHeapDiskTupleData + r.tup.body.length
  hoff_ge : sizeOfXHeapDiskTupleData ≤ r.tup.tHoff
  hoff_le : r.tup.tHoff ≤ r.rp.len

end XStore
