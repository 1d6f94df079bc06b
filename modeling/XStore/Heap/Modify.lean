import XStore.Delta.Affix
import XStore.Heap.UndoApply

/-!
# Changing a row: insert, delete, in-place and non-in-place update

The effect of `xheap_insert`, `xheap_delete` and `xheap_update` on one row at top level, each with
the undo record it writes.  The functions act on a row, not on a page, so that the history of a row
can be followed by itself.
-/
namespace XStore

/-- What one operation takes from its surroundings: the transaction and command, the relation and
block, the two global horizons, and the undo record pointers allocated for it. -/
structure OpCtx where
  fxid : Nat
  cid : Nat
  reloid : Nat
  relfilenode : Nat
  tablespace : Nat
  blkno : Nat
  globalFrozenXid : Nat
  globalRecycleXid : Nat
  isLogicallyLogged : Bool
  urecptr : Nat
  /-- The record of the new row of a non-in-place update. -/
  newUrecptr : Nat
  deriving DecidableEq

/-- `disk_tuple_size` of a tuple in memory. -/
def XHeapDiskTuple.size (t : XHeapDiskTuple) : Nat := sizeOfXHeapDiskTupleData + t.body.length

namespace OpCtx

/-- A record of this operation without subtransaction data. -/
def record (c : OpCtx) (off urp prevxid tpprev : Nat) (flag : Flag) (body : HeapUndo) :
    HeapRecord where
  uurXid := c.fxid
  uurCid := c.cid
  uurReloid := c.reloid
  uurRelfilenode := c.relfilenode
  uurTablespace := c.tablespace
  uurBlkno := c.blkno
  uurOffset := off
  uurTpprevurp := tpprev
  uurPrevxid := prevxid
  uurDataheaderflag := flag
  uurSubxid := none
  body := body
  uurUrp := urp
  bufferIdx := 0

/-- The previous owner that `xheap_delete` records. -/
def deleteOldXid (c : OpCtx) (modifiedXid : Nat) : Nat :=
  let xid := if modifiedXid < c.globalFrozenXid then invalidXid else modifiedXid
  if olderThanAllUndo c.globalFrozenXid xid then frozenXid else xid

/-- The previous owner that `xheap_update` records (`old_updater_xid`). -/
def updateOldXid (c : OpCtx) (modifiedXid : Nat) : Nat :=
  let xid := if modifiedXid < c.globalFrozenXid then invalidXid else modifiedXid
  if xid < c.globalRecycleXid then frozenXid else modifiedXid

end OpCtx

/-- The header fields that `xheap_insert` and the insert half of `xheap_update` set in the tuple
they put on a page. -/
def newTuple (c : OpCtx) (urp : Nat) (newtup : XHeapDiskTuple) : XHeapDiskTuple :=
  { newtup with flag := newtup.flag &&& ~~~xheapVisStatusMask, urec := urp, modifiedXid := c.fxid }

/-- `xheap_prepare_insert` also takes out the locker. -/
def insertTuple (c : OpCtx) (newtup : XHeapDiskTuple) : XHeapDiskTuple :=
  newTuple c c.urecptr { newtup with lockerXid := invalidXid }

/-- The status bits of the old row: locks are dropped, the bits outside the lock bits are replaced
by `mark`. -/
def markTuple (c : OpCtx) (mark : Flag) (t : XHeapDiskTuple) : XHeapDiskTuple :=
  let t := ({ t with urec := c.urecptr } : XHeapDiskTuple).clearAllLocker
  { t with flag := (t.flag &&& ~~~xheapVisStatusUnlockMask) ||| mark, modifiedXid := c.fxid }

def deleteTuple (c : OpCtx) (changingPart : Bool) (t : XHeapDiskTuple) : XHeapDiskTuple :=
  let t := markTuple c xheapDeleted t
  if changingPart then { t with flag := t.flag ||| xheapMoved } else t

/-- `xheap_delete` takes the lock bits out of the flag before it is copied into the record. -/
def deleteRecord (c : OpCtx) (off : Nat) (t : XHeapDiskTuple) : HeapRecord :=
  c.record off c.urecptr (c.deleteOldXid t.modifiedXid) t.urec (t.flag &&& ~~~xheapLockStatusMask)
    .delete

def numBlocksForNonInplaceUpdates : Nat := 3

def usedAffix (n : Nat) : Option Nat := if n < numBlocksForNonInplaceUpdates then none else some n

/-- Old and new bytes are compared only between versions of one size, outside logical logging. -/
def comparesBytes (c : OpCtx) (r : Row) (newtup : XHeapDiskTuple) : Bool :=
  decide (newtup.size = r.rp.len) && !c.isLogicallyLogged

/-- The prefix length `xheap_update` shares between old and new column bytes. -/
def sharedPrefix (c : OpCtx) (r : Row) (newtup : XHeapDiskTuple) : Option Nat :=
  if comparesBytes c r newtup then
    usedAffix (Delta.commonPrefixLen r.tup.columns newtup.columns)
  else none

/-- The suffix length, which stops where the used prefix ends. -/
def sharedSuffix (c : OpCtx) (r : Row) (newtup : XHeapDiskTuple) : Option Nat :=
  if comparesBytes c r newtup then
    usedAffix (Delta.commonSuffixLen
      (min r.tup.columns.length newtup.columns.length - (sharedPrefix c r newtup).getD 0)
      r.tup.columns newtup.columns)
  else none

/-- The raw data of an in-place update record; its flag word has no lock bits. -/
def inplaceDelta (c : OpCtx) (r : Row) (newtup : XHeapDiskTuple) : InplaceDelta where
  tHoff := r.tup.tHoff
  flag := r.tup.flag &&& ~~~xheapLockStatusMask
  flag2 := r.tup.flag2
  bits := r.tup.bits
  prefixlen := sharedPrefix c r newtup
  suffixlen := sharedSuffix c r newtup
  oldData := (r.tup.columns.drop ((sharedPrefix c r newtup).getD 0)).take
    (r.tup.columns.length - (sharedPrefix c r newtup).getD 0 - (sharedSuffix c r newtup).getD 0)

def inplaceRecord (c : OpCtx) (off : Nat) (r : Row) (newtup : XHeapDiskTuple) : HeapRecord :=
  c.record off c.urecptr (c.updateOldXid r.tup.modifiedXid) r.tup.urec 0#16
    (.inplaceUpdate (inplaceDelta c r newtup))

/-- `put_inplace_update_xtuple` on the marked old row; a shorter tuple keeps the row's length and
the bytes behind it. -/
def putInplaceUpdateXtuple (r : Row) (newtup : XHeapDiskTuple) : Except Panic Row := do
  let rp ← if r.rp.len < newtup.size then r.rp.changeLen newtup.size else .ok r.rp
  return { rp := rp
           tup := { r.tup with
             body := newtup.body ++ r.tup.body.drop newtup.body.length
             flag := (r.tup.flag &&& xheapVisStatusMask) |||
               (newtup.flag &&& ~~~xheapVisStatusMask)
             flag2 := (r.tup.flag2 &&& ~~~xheapNattsMask) ||| (newtup.flag2 &&& xheapNattsMask)
             tHoff := newtup.tHoff } }

def inplaceRow (c : OpCtx) (r : Row) (newtup : XHeapDiskTuple) : Except Panic Row :=
  putInplaceUpdateXtuple { r with tup := markTuple c xheapInplaceUpdated r.tup } newtup

/-- The row pointer of an updated row: it only ever grows. -/
structure GrownTo (rp : RowPtr) (size : Nat) (rp' : RowPtr) : Prop where
  flags : rp'.flags = rp.flags
  offset : rp'.offset = rp.offset
  len : rp'.len = max rp.len size
  room : rp.offset + rp.len ≤ blcksz → rp'.offset + rp'.len ≤ blcksz

variable {newtup : XHeapDiskTuple}

theorem putInplaceUpdateXtuple_ok {r r' : Row}
    (h : putInplaceUpdateXtuple r newtup = .ok r') :
    ∃ rp, GrownTo r.rp newtup.size rp ∧
      r' = { rp := rp
             tup := { r.tup with
               body := newtup.body ++ r.tup.body.drop newtup.body.length
               flag := (r.tup.flag &&& xheapVisStatusMask) |||
                 (newtup.flag &&& ~~~xheapVisStatusMask)
               flag2 := (r.tup.flag2 &&& ~~~xheapNattsMask) ||| (newtup.flag2 &&& xheapNattsMask)
               tHoff := newtup.tHoff } } := by
  unfold putInplaceUpdateXtuple at h
  by_cases hlt : r.rp.len < newtup.size
  · cases hrp : r.rp.changeLen newtup.size with
    | error e => simp [hlt, hrp, bind, Except.bind] at h
    | ok rp =>
      obtain ⟨hroom, rfl⟩ := RowPtr.changeLen_ok hrp
      simp only [hlt, if_true, hrp, bind, Except.bind, pure, Except.pure, Except.ok.injEq] at h
      exact ⟨{ r.rp with len := newtup.size },
        ⟨rfl, rfl, (Nat.max_eq_right (Nat.le_of_lt hlt)).symm, fun _ => hroom⟩, h.symm⟩
  · simp only [hlt, if_false, bind, Except.bind, pure, Except.pure, Except.ok.injEq] at h
    exact ⟨r.rp, ⟨rfl, rfl, (Nat.max_eq_left (by omega)).symm, id⟩, h.symm⟩

theorem inplaceRow_ok {c : OpCtx} {r r' : Row}
    (h : inplaceRow c r newtup = .ok r') :
    ∃ rp, GrownTo r.rp newtup.size rp ∧
      r' = { rp := rp
             tup := { markTuple c xheapInplaceUpdated r.tup with
               body := newtup.body ++ r.tup.body.drop newtup.body.length
               flag := ((markTuple c xheapInplaceUpdated r.tup).flag &&& xheapVisStatusMask) |||
                 (newtup.flag &&& ~~~xheapVisStatusMask)
               flag2 := (r.tup.flag2 &&& ~~~xheapNattsMask) ||| (newtup.flag2 &&& xheapNattsMask)
               tHoff := newtup.tHoff } } :=
  putInplaceUpdateXtuple_ok h

/-- `XHEAP_XID_IS_EXCL_LOCKED` without multiple lockers, as `is_xtuple_locked_by_us` asks it of a
row whose single locker is the current transaction. -/
def XHeapDiskTuple.isExclLocked (t : XHeapDiskTuple) : Bool :=
  !t.flag.has xheapMultiLockers && (t.flag &&& 0x0700#16) == xheapXidExclLock

/-- `xheap_execute_lock_tuple` in exclusive mode at top level. -/
def executeLockTuple (c : OpCtx) (t : XHeapDiskTuple) : XHeapDiskTuple :=
  { t with flag := (t.flag &&& ~~~xheapLockStatusMask) ||| xheapXidExclLock, lockerXid := c.fxid }

/-- The old row is locked before the page is unlocked, unless the transaction has done so already. -/
def lockForUpdate (c : OpCtx) (lockerIsUs : Bool) (t : XHeapDiskTuple) : XHeapDiskTuple :=
  if lockerIsUs && t.isExclLocked then t else executeLockTuple c t

def updateTuple (c : OpCtx) (lockerIsUs : Bool) (t : XHeapDiskTuple) : XHeapDiskTuple :=
  markTuple c xheapUpdated (lockForUpdate c lockerIsUs t)

/-- `xheap_prepare_undo_update` copies the flag of the old row as it stands, locked. -/
def updateRecord (c : OpCtx) (off : Nat) (lockerIsUs : Bool) (ctid : Nat × Nat)
    (t : XHeapDiskTuple) : HeapRecord :=
  c.record off c.urecptr (c.updateOldXid t.modifiedXid) t.urec (lockForUpdate c lockerIsUs t).flag
    (.update ctid)

/-- The record of the new row: as its previous owner it names the transaction itself. -/
def updateInsertRecord (c : OpCtx) (off : Nat) : HeapRecord :=
  c.record off c.newUrecptr c.fxid invalidUndoRecPtr 0#16 .insert

def insertRecord (c : OpCtx) (off : Nat) : HeapRecord :=
  c.record off c.urecptr invalidXid invalidUndoRecPtr 0#16 .insert

section LockBits

/-- A flag word with the exclusive lock bit set has lock bits. -/
theorem locked_of_bit {f : Flag} (h : f[10] = true) : f &&& xheapLockStatusMask ≠ 0#16 := by
  intro h0
  have hbit := congrArg (fun g : Flag => g.getLsbD 10) h0
  simp [xheapLockStatusMask, h] at hbit

theorem lockForUpdate_locked (c : OpCtx) (lockerIsUs : Bool) (t : XHeapDiskTuple) :
    (lockForUpdate c lockerIsUs t).flag &&& xheapLockStatusMask ≠ 0#16 := by
  apply locked_of_bit
  unfold lockForUpdate
  split
  · rename_i hl
    simp only [XHeapDiskTuple.isExclLocked, Bool.and_eq_true, beq_iff_eq] at hl
    have hbit := congrArg (fun g : Flag => g.getLsbD 10) hl.2.2
    simpa [xheapXidExclLock] using hbit
  · simp [executeLockTuple, xheapXidExclLock]

theorem unlocked_without_locks (f : Flag) : (f &&& ~~~xheapLockStatusMask) &&& xheapLockStatusMask = 0#16 := by
  rw [BitVec.and_assoc]
  simp [xheapLockStatusMask]

end LockBits

section Owner

variable {c : OpCtx}

structure OpCtx.Running (c : OpCtx) : Prop where
  normal : 3 ≤ c.fxid
  frozen_le : c.globalFrozenXid ≤ c.fxid
  recycle_le : c.globalRecycleXid ≤ c.fxid

def seventh (urecptr : Nat) : OpCtx where
  fxid := 7
  cid := 0
  reloid := 16384
  relfilenode := 16384
  tablespace := 1663
  blkno := 0
  globalFrozenXid := 3
  globalRecycleXid := 3
  isLogicallyLogged := false
  urecptr := urecptr
  newUrecptr := urecptr + 1

theorem seventh_running (urecptr : Nat) : (seventh urecptr).Running :=
  ⟨by simp [seventh], by simp [seventh], by simp [seventh]⟩

/-- The recorded owner is the old one, or `Frozen` for one behind a horizon. -/
theorem deleteOldXid_cases (x : Nat) :
    c.deleteOldXid x = x ∨ x < c.globalFrozenXid ∧ c.deleteOldXid x = frozenXid := by
  by_cases h : x < c.globalFrozenXid
  · have hpos : 0 < c.globalFrozenXid := by omega
    right
    simp [OpCtx.deleteOldXid, olderThanAllUndo, h, invalidXid, hpos]
  · left
    simp only [OpCtx.deleteOldXid, olderThanAllUndo, if_neg h, decide_eq_false h, Bool.or_false,
      decide_eq_true_eq]
    split
    · rename_i hx
      exact hx.symm
    · rfl

theorem updateOldXid_cases (x : Nat) :
    c.updateOldXid x = x ∨
      (x < c.globalFrozenXid ∨ x < c.globalRecycleXid) ∧ c.updateOldXid x = frozenXid := by
  simp only [OpCtx.updateOldXid, invalidXid]
  split_ifs <;> simp_all

end Owner

section Delta

variable {c : OpCtx} {r : Row} {newtup : XHeapDiskTuple} {n : Nat}

/-- A tuple that could be stored: its header reaches `data`, its bytes reach the header's end. -/
structure XHeapDiskTuple.WellFormed (t : XHeapDiskTuple) : Prop where
  hoff_ge : sizeOfXHeapDiskTupleData ≤ t.tHoff
  hoff_le : t.tHoff ≤ t.size

theorem columns_length (t : XHeapDiskTuple) :
    t.columns.length = t.body.length - (t.tHoff - sizeOfXHeapDiskTupleData) := by
  simp [XHeapDiskTuple.columns]

theorem usedAffix_getD_le (n : Nat) : (usedAffix n).getD 0 ≤ n := by
  unfold usedAffix
  split <;> simp

/-- A shared length that is dropped for being too short leaves nothing shared. -/
theorem take_usedAffix {α : Type*} {xs ys : List α} (h : xs.take n = ys.take n) :
    xs.take ((usedAffix n).getD 0) = ys.take ((usedAffix n).getD 0) := by
  unfold usedAffix
  split <;> simp [h]

theorem drop_usedAffix {α : Type*} {xs ys : List α}
    (h : xs.drop (xs.length - n) = ys.drop (ys.length - n)) :
    xs.drop (xs.length - (usedAffix n).getD 0) = ys.drop (ys.length - (usedAffix n).getD 0) := by
  unfold usedAffix
  split <;> simp [h]

theorem sharedPrefix_le_min (c : OpCtx) (r : Row) (newtup : XHeapDiskTuple) :
    (sharedPrefix c r newtup).getD 0 ≤ min r.tup.columns.length newtup.columns.length := by
  rw [sharedPrefix]
  split
  · apply Nat.le_trans (usedAffix_getD_le _)
    exact Nat.le_min.mpr ⟨Delta.commonPrefixLen_le_left _ _, Delta.commonPrefixLen_le_right _ _⟩
  · simp

theorem sharedSuffix_le (c : OpCtx) (r : Row) (newtup : XHeapDiskTuple) :
    (sharedSuffix c r newtup).getD 0 ≤
      min r.tup.columns.length newtup.columns.length - (sharedPrefix c r newtup).getD 0 := by
  rw [sharedSuffix]
  split
  · exact Nat.le_trans (usedAffix_getD_le _) (Delta.commonSuffixLen_le _ _ _)
  · simp

theorem take_sharedPrefix (c : OpCtx) (r : Row) (newtup : XHeapDiskTuple) :
    r.tup.columns.take ((sharedPrefix c r newtup).getD 0) =
      newtup.columns.take ((sharedPrefix c r newtup).getD 0) := by
  rw [sharedPrefix]
  split
  · exact take_usedAffix (Delta.take_commonPrefixLen _ _)
  · simp

theorem drop_sharedSuffix (c : OpCtx) (r : Row) (newtup : XHeapDiskTuple) :
    r.tup.columns.drop (r.tup.columns.length - (sharedSuffix c r newtup).getD 0) =
      newtup.columns.drop (newtup.columns.length - (sharedSuffix c r newtup).getD 0) := by
  rw [sharedSuffix]
  split
  · exact drop_usedAffix (Delta.drop_commonSuffixLen _ _ _)
  · simp

theorem shared_eq_none (h : comparesBytes c r newtup = false) :
    sharedPrefix c r newtup = none ∧ sharedSuffix c r newtup = none := by
  simp [sharedPrefix, sharedSuffix, h]

theorem size_eq_of_comparesBytes (h : comparesBytes c r newtup = true) :
    newtup.size = r.rp.len := by
  simp only [comparesBytes, Bool.and_eq_true, decide_eq_true_eq] at h
  exact h.1

theorem inplaceDelta_oldTupleLength (hr : r.Filled) :
    (inplaceDelta c r newtup).oldTupleLength = r.rp.len := by
  have hpre := sharedPrefix_le_min c r newtup
  have hsuf := sharedSuffix_le c r newtup
  have hcols := columns_length r.tup
  have hlen := hr.len_eq
  have hge := hr.hoff_ge
  have hle := hr.hoff_le
  simp only [InplaceDelta.oldTupleLength, inplaceDelta, List.length_take, List.length_drop]
  omega

/-- The old bytes are found again in the row that an in-place update leaves. -/
theorem inplaceDelta_oldBody (hr : r.Filled) (hw : newtup.WellFormed) {t : XHeapDiskTuple}
    {len : Nat} (hbody : t.body = newtup.body ++ r.tup.body.drop newtup.body.length)
    (hhoff : t.tHoff = newtup.tHoff) (hlen : len = max r.rp.len newtup.size) :
    (inplaceDelta c r newtup).oldBody t len = r.tup.body := by
  rw [← r.tup.bits_append_columns]
  cases hcmp : comparesBytes c r newtup with
  | false =>
    obtain ⟨hpre, hsuf⟩ := shared_eq_none hcmp
    simp [InplaceDelta.oldBody, inplaceDelta, hpre, hsuf]
  | true =>
    have hsize := size_eq_of_comparesBytes hcmp
    have hnew : newtup.size = sizeOfXHeapDiskTupleData + newtup.body.length := rfl
    have hrlen := hr.len_eq
    have hge := hw.hoff_ge
    have hle := hw.hoff_le
    have hsame : t.body = newtup.body := by
      rw [hbody, List.drop_eq_nil_of_le (by omega), List.append_nil]
    have hcols : t.columns = newtup.columns := by
      rw [XHeapDiskTuple.columns, XHeapDiskTuple.columns, hsame, hhoff]
    have hncols := columns_length newtup
    have hsuf := sharedSuffix_le c r newtup
    have hpre := sharedPrefix_le_min c r newtup
    -- the suffix is read from the end of the row, which is the end of the new column bytes
    have hpost : (t.body.drop (len - sizeOfXHeapDiskTupleData -
          (sharedSuffix c r newtup).getD 0)).take ((sharedSuffix c r newtup).getD 0) =
        newtup.columns.drop (newtup.columns.length - (sharedSuffix c r newtup).getD 0) := by
      rw [hsame, XHeapDiskTuple.columns, List.drop_drop, List.take_of_length_le]
      · congr 1
        rw [← XHeapDiskTuple.columns]
        omega
      · rw [List.length_drop]
        omega
    have hrebuild := Delta.rebuild (by omega) (take_sharedPrefix c r newtup)
      (drop_sharedSuffix c r newtup)
    simp only [InplaceDelta.oldBody, inplaceDelta, hpost, hcols, List.append_assoc] at hrebuild ⊢
    rw [hrebuild]

end Delta

end XStore
