import XStore.Heap.Page
import XStore.Undo.Record

/-!
# Applying one undo record to a heap page

`execute_undo_insert`, `execute_undo_for_delete` and `execute_undo_for_update`.  Each of them
starts with the same test: the row must still be owned by the record's transaction and its
newest undo record must be this one.
-/
namespace XStore

/-- What the test on owner and newest undo record says about a row. -/
inductive Gate where
  | alreadyDone
  | waitSwitch
  | apply
  deriving DecidableEq

/-- The common test of the three functions.  A newer undo record of the same transaction in
another log has to be applied first. -/
def undoGate {β : Type*} (u : UnpackedUndoRecord β) (t : XHeapDiskTuple) : Gate :=
  if t.modifiedXid ≠ u.uurXid then .alreadyDone
  else if t.urec ≠ u.uurUrp then
    if u.uurUrp < t.urec then .waitSwitch else .alreadyDone
  else .apply

def Gate.result : Gate → RollbackResult
  | .waitSwitch => .rswitch
  | _ => .rok

theorem undoGate_eq_apply {β : Type*} {u : UnpackedUndoRecord β} {t : XHeapDiskTuple} :
    undoGate u t = .apply ↔ t.modifiedXid = u.uurXid ∧ t.urec = u.uurUrp := by
  unfold undoGate
  split_ifs <;> simp_all

/-- `undo_keep_subtxn_lock`: a lock of an ancestor transaction survives the rollback of a
subtransaction. -/
def undoKeepSubtxnLock {β : Type*} (env : RollbackEnv) (u : UnpackedUndoRecord β)
    (t : XHeapDiskTuple) (infomask : Flag) : XHeapDiskTuple :=
  match u.uurSubxid with
  | none => t
  | some subxid =>
    if env.globalFrozenXid ≤ t.lockerXid ∧
        xidFromFull u.uurXid = env.subTransGetTopmostTransaction (xidFromFull t.lockerXid) ∧
        t.lockerXid ≠ subxid
    then { t with flag := t.flag ||| (infomask &&& xheapLockStatusMask) }
    else t

def shortAlign (n : Nat) : Nat := (n + 1) / 2 * 2

/-- The writes of `execute_undo_insert` past its tests. -/
def undoInsertRow (r : Row) : Row :=
  { rp := RowPtr.unused
    tup := { r.tup with modifiedXid := invalidXid, lockerXid := invalidXid,
                        urec := invalidUndoRecPtr } }

def executeUndoInsert (p : XPage) (off : Nat) (u : HeapRecord) : RollbackResult × XPage :=
  let r := p.row off
  if !r.rp.hasStorage then (.rok, p)
  else match undoGate u r.tup with
    | .apply =>
      (.rok, (((p.recordPotentialFreeSpace (shortAlign r.rp.len)).setRow off
        (undoInsertRow r)).setHasFreeLinePointers).setPrunable u.uurXid)
    | g => (g.result, p)

/-- The writes of `execute_undo_for_delete` past its tests. -/
def undoDeleteTuple (env : RollbackEnv) (u : HeapRecord) (t : XHeapDiskTuple) : XHeapDiskTuple :=
  undoKeepSubtxnLock env u
    { t with modifiedXid := u.uurPrevxid, urec := u.uurTpprevurp, flag := u.uurDataheaderflag }
    t.flag

def executeUndoForDelete (env : RollbackEnv) (p : XPage) (u : HeapRecord) :
    RollbackResult × XPage :=
  let r := p.row u.uurOffset
  if !r.rp.isNormal then (.rok, p)
  else match undoGate u r.tup with
    | .apply => (.rok, p.setRow u.uurOffset { r with tup := undoDeleteTuple env u r.tup })
    | g => (g.result, p)

/-- `UNDO_UPDATE`: only the header of the old row was changed. -/
def undoUpdateTuple (env : RollbackEnv) (u : HeapRecord) (t : XHeapDiskTuple) : XHeapDiskTuple :=
  { undoKeepSubtxnLock env u { t with flag := u.uurDataheaderflag, modifiedXid := u.uurPrevxid }
      t.flag with urec := u.uurTpprevurp }

/-- The old bytes of an in-place updated row: old bitmap, shared prefix, old column bytes, shared
suffix.  Prefix and suffix are read from the row as it is now, of length `len`. -/
def InplaceDelta.oldBody (d : InplaceDelta) (t : XHeapDiskTuple) (len : Nat) : List UInt8 :=
  let pre := t.columns.take (d.prefixlen.getD 0)
  let post := (t.body.drop (len - sizeOfXHeapDiskTupleData - d.suffixlen.getD 0)).take
    (d.suffixlen.getD 0)
  d.bits ++ pre ++ d.oldData ++ post

/-- `new_tuple_length` of `execute_undo_for_update`. -/
def InplaceDelta.oldTupleLength (d : InplaceDelta) : Nat :=
  d.oldData.length + d.prefixlen.getD 0 + d.suffixlen.getD 0 + d.tHoff

/-- `UNDO_INPLACE_UPDATE`: rebuild the old bytes from the flag word on. -/
def undoInplaceTuple (env : RollbackEnv) (u : HeapRecord) (d : InplaceDelta) (r : Row) :
    XHeapDiskTuple :=
  undoKeepSubtxnLock env u
    { r.tup with flag := d.flag, flag2 := d.flag2, tHoff := d.tHoff,
                 body := d.oldBody r.tup r.rp.len,
                 modifiedXid := u.uurPrevxid, urec := u.uurTpprevurp }
    r.tup.flag

def executeUndoForUpdate (env : RollbackEnv) (p : XPage) (u : HeapRecord) :
    Except Panic (RollbackResult × XPage) :=
  let r := p.row u.uurOffset
  if !r.rp.isNormal then .ok (.rok, p)
  else match undoGate u r.tup with
    | .apply => match u.body with
      | .update _ =>
        .ok (.rok, (p.setRow u.uurOffset { r with tup := undoUpdateTuple env u r.tup })
          |>.recordPotentialFreeSpace (-(r.rp.len : Int)))
      | .inplaceUpdate d => do
        let rp ← r.rp.changeLen d.oldTupleLength
        return (.rok, p.setRow u.uurOffset { rp := rp, tup := undoInplaceTuple env u d r })
      | _ => .error .unsupportedRollbackAction
    | g => .ok (g.result, p)

end XStore
