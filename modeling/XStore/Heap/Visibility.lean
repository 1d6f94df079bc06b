import XStore.Heap.UndoApply
import XStore.Undo.Snapshot

/-!
# Fetching the version of a row that a snapshot sees

`xheap_tuple_fetch` for MVCC snapshots and whole rows.  The tuple on the page is the newest version;
older ones are rebuilt from the chain of undo records, with their headers kept apart in `hdr` as the
code does.  The caller's copy of the tuple on the page (`saved_tuple`) is the tuple itself.
-/
namespace XStore

inductive XTupleTidOp where
  | new
  | modified
  | gone
  deriving DecidableEq

def xheapTidOpFromInfomask (infomask : Flag) : XTupleTidOp :=
  if infomask.has xheapInplaceUpdated then .modified
  else if infomask.has (xheapUpdated ||| xheapDeleted) then .gone
  else .new

/-- `xheap_get_hint`: nothing, or the status the flag word tells. -/
def xheapGetHint (infomask : Flag) : Option XactStatus :=
  if infomask.has xheapModifiedXidCommitted then some .committed
  else if infomask.has xheapModifiedXidInvalid then some .aborted
  else none

def XactStatus.hintBit : XactStatus → Flag
  | .inProgress => 0#16
  | .committed => xheapModifiedXidCommitted
  | .aborted => xheapModifiedXidInvalid

/-- `xheap_set_hint` on the flag word of the tuple on the page. -/
def xheapSetHint (hinted : Bool) (flag : Flag) (hintStatus : XactStatus) : Flag :=
  if hinted then flag else flag ||| hintStatus.hintBit

def XTupleTidOp.seen : XTupleTidOp → XVersionSelector
  | .gone => .none
  | _ => .current

/-- The answer for a change that the snapshot does not see. -/
def XTupleTidOp.unseen : XTupleTidOp → XVersionSelector
  | .new => .none
  | _ => .older

/-- `xheap_select_version_mvcc`, with the flag word it leaves in the tuple on the page; for a
version from the undo log there is no such tuple. -/
def xheapSelectVersionMvcc (env : ReadEnv) (tuple : Option Flag) (op : XTupleTidOp) (xid : Nat)
    (s : Snapshot) : XVersionSelector × Option Flag :=
  let hint := tuple.bind xheapGetHint
  if env.isCurrentTransactionId xid then
    if env.asksCid s then (.checkCid, tuple)
    else (op.seen, tuple)
  else
    let (visible, status) := xidVisibleInSnapshot env xid s (hint.getD .inProgress)
    (if visible then op.seen else op.unseen,
      tuple.map fun flag => xheapSetHint hint.isSome flag status)

def xheapCheckCid (op : XTupleTidOp) (tupleCid visibilityCid : Nat) : XVersionSelector :=
  match op with
  | .gone => if visibilityCid ≤ tupleCid then .older else .none
  | .modified => if visibilityCid ≤ tupleCid then .older else .current
  | .new => if visibilityCid ≤ tupleCid then .none else .current

/-- `xheap_tuple_satisfies`, with the flag word it leaves on the page. -/
def xheapTupleSatisfies (env : ReadEnv) (flag : Flag) (op : XTupleTidOp) (s : Snapshot)
    (xid : Nat) : XVersionSelector × Flag :=
  if olderThanAllUndo env.globalFrozenXid xid then (op.seen, flag)
  else
    let (selector, flag') := xheapSelectVersionMvcc env (some flag) op xid s
    (selector, flag'.getD flag)

/-- The fixed part of `XHeapDiskTupleData`. -/
structure TupleHeader where
  modifiedXid : Nat
  lockerXid : Nat
  urec : Nat
  flag : Flag
  flag2 : Flag
  tHoff : Nat
  deriving DecidableEq

def XHeapDiskTuple.header (t : XHeapDiskTuple) : TupleHeader :=
  ⟨t.modifiedXid, t.lockerXid, t.urec, t.flag, t.flag2, t.tHoff⟩

def XHeapDiskTuple.setHeader (t : XHeapDiskTuple) (h : TupleHeader) : XHeapDiskTuple :=
  ⟨h.modifiedXid, h.lockerXid, h.urec, h.flag, h.flag2, h.tHoff, t.body⟩

/-- `XHeapTupleData`: a tuple in memory. -/
structure XHeapTuple where
  diskTupleSize : Nat
  ctid : Nat × Nat
  tableOid : Nat
  xmin : Nat
  xmax : Nat
  diskTuple : XHeapDiskTuple
  deriving DecidableEq

structure XHeapTupleTransInfo where
  xid : Nat
  cid : Nat
  urecAdd : Nat
  deriving DecidableEq

def updateTupleHeaderFromUndoRecord (u : HeapRecord) (hdr : TupleHeader) : TupleHeader :=
  let hdr : TupleHeader := match u.body with
    | .insert | .multiInsert _ _ =>
      { hdr with flag := hdr.flag &&& ~~~xheapVisStatusMask, modifiedXid := invalidXid }
    | .inplaceUpdate d =>
      { hdr with flag := d.flag, flag2 := d.flag2, tHoff := d.tHoff, modifiedXid := u.uurPrevxid }
    | _ => { hdr with flag := u.uurDataheaderflag, modifiedXid := u.uurPrevxid }
  { hdr with urec := u.uurTpprevurp }

/-- The tuple that `get_tuple_from_undo_record` makes of the next newer one. -/
def priorTuple (u : HeapRecord) (hdr : TupleHeader) (t : XHeapTuple) : XHeapTuple :=
  match u.body with
  | .delete =>
    { t with diskTuple := { t.diskTuple with
        modifiedXid := hdr.modifiedXid, lockerXid := hdr.lockerXid, urec := hdr.urec } }
  | .update _ =>
    { t with diskTuple := { t.diskTuple with
        modifiedXid := hdr.modifiedXid, lockerXid := hdr.lockerXid, urec := hdr.urec
        flag := u.uurDataheaderflag } }
  | .inplaceUpdate d =>
    { diskTupleSize := d.oldTupleLength
      ctid := (u.uurBlkno, u.uurOffset)
      tableOid := u.uurReloid
      xmin := 0
      xmax := 0
      diskTuple := ⟨invalidXid, 0, 0, d.flag, d.flag2, d.tHoff,
        d.oldBody t.diskTuple t.diskTupleSize⟩ }
  | _ => t

/-- The new place of a row that a non-in-place update moved, where the record tells it. -/
def HeapUndo.newCtid (old : Nat × Nat) : HeapUndo → Nat × Nat
  | .update ctid => ctid
  | _ => old

/-- The new place that `fetch_transinfo_from_undo` reports. -/
def UndoTraversal.newCtid (old : Nat × Nat) : UndoTraversal HeapUndo → Nat × Nat
  | .complete u => u.body.newCtid old
  | _ => old

/-- The variables of the loop in `get_tuple_from_undo`. -/
structure UndoWalk where
  urecAdd : Nat
  prevUndoXid : Nat
  hdr : TupleHeader
  tuple : XHeapTuple
  saveXmax : Nat
  ctid : Nat × Nat
  deriving DecidableEq

namespace UndoWalk

/-- What one record makes of the variables, before the test whether its version is visible. -/
def goBack (w : UndoWalk) (u : HeapRecord) : UndoWalk :=
  let hdr := updateTupleHeaderFromUndoRecord u w.hdr
  { w with hdr := hdr, tuple := priorTuple u hdr w.tuple, ctid := u.body.newCtid w.ctid }

/-- `SetXTupleXminXmax` and the copy of the header into the tuple that is returned. -/
def result (w : UndoWalk) (xmin : Nat) : XHeapTuple :=
  { w.tuple with xmin := xmin, xmax := w.saveXmax
                 diskTuple := w.tuple.diskTuple.setHeader w.hdr }

end UndoWalk

/-- The selector for a version from the undo log, its command id looked up where needed. -/
def selectPrior (env : ReadEnv) (s : Snapshot) (load : Nat → UndoLoad HeapUndo) (fuel : Nat)
    (op : XTupleTidOp) (urecAdd xid : Nat) : Option XVersionSelector :=
  match (xheapSelectVersionMvcc env none op xid s).1 with
  | .checkCid => (fetchUndoRecord load xid fuel urecAdd).map fun found =>
      xheapCheckCid op (found.cid invalidCommandId) s.curcid
  | selector => some selector

/-- `get_tuple_from_undo` for an MVCC snapshot; the outer `none` is a run out of fuel. -/
def getTupleFromUndo (env : ReadEnv) (s : Snapshot) (load : Nat → UndoLoad HeapUndo) :
    Nat → UndoWalk → Option (Except FetchError (Option XHeapTuple × (Nat × Nat)))
  | 0, _ => none
  | fuel + 1, w =>
    (fetchUndoRecord load w.prevUndoXid (fuel + 1) w.urecAdd).bind fun
      | .abort => some (.error .forceDiscarded)
      | .ended => some (.error .snapshotTooOld)
      | .complete u =>
        let w := w.goBack u
        if olderThanAllUndo env.globalFrozenXid u.uurPrevxid then
          some (.ok (some (w.result frozenXid), w.ctid))
        else
          (selectPrior env s load (fuel + 1) (xheapTidOpFromInfomask w.hdr.flag) u.uurTpprevurp
              u.uurPrevxid).bind fun
            | .current => some (.ok (some (w.result (xidFromFull u.uurPrevxid)), w.ctid))
            | .none => some (.ok (none, w.ctid))
            | _ => getTupleFromUndo env s load fuel
                { w with urecAdd := u.uurTpprevurp, prevUndoXid := u.uurPrevxid
                         saveXmax := xidFromFull u.uurPrevxid }

structure FetchPlace where
  relid : Nat
  blockno : Nat
  offnum : Nat
  deriving DecidableEq

def FetchPlace.ctid (pl : FetchPlace) : Nat × Nat := (pl.blockno, pl.offnum)

/-- What `xheap_tuple_fetch` hands back: its result, `*visible_tuple`, `*new_ctid`, and
`*saved_xinfo` where `*got_xinfo` is set; and the page, on which it may have set hint bits. -/
structure FetchResult where
  visible : Bool
  tuple : Option XHeapTuple
  newCtid : Nat × Nat
  savedXinfo : Option XHeapTupleTransInfo
  page : XPage
  deriving DecidableEq

/-- `xheap_get_tuple`, with the `xmin` and `xmax` that `xheap_tuple_fetch` then sets. -/
def xheapGetTuple (pl : FetchPlace) (r : Row) : XHeapTuple where
  diskTupleSize := r.rp.len
  ctid := pl.ctid
  tableOid := pl.relid
  xmin := if xheapTidOpFromInfomask r.tup.flag = .gone then 0 else xidFromFull r.tup.modifiedXid
  xmax := if xheapTidOpFromInfomask r.tup.flag = .gone then xidFromFull r.tup.modifiedXid else 0
  diskTuple := r.tup

/-- `XHeapTupleIsUpdated` without `XHeapTupleIsMoved`: the row has a new place. -/
def XHeapTuple.hasNewCtid (t : XHeapTuple) : Bool :=
  t.diskTuple.isUpdated && (t.diskTuple.flag &&& xheapMoved) != xheapMoved

/-- The selector `xheap_tuple_fetch` ends up with, and what it looked up in the undo log to get
there: the transaction information with the command id, and the new place of the row. -/
structure Decision where
  selector : XVersionSelector
  xinfo : Option XHeapTupleTransInfo
  newCtid : Nat × Nat
  deriving DecidableEq

/-- Ask for the command id where the selector calls for it. -/
def checkCidAgainstSnapshot (s : Snapshot) (load : Nat → UndoLoad HeapUndo) (fuel : Nat)
    (pl : FetchPlace) (op : XTupleTidOp) (t : XHeapDiskTuple) (selector : XVersionSelector) :
    Option (Except FetchError Decision) :=
  if selector = .checkCid then
    (fetchUndoRecord load invalidXid fuel t.urec).map fun found =>
      let cid := found.cid invalidCommandId
      if cid = invalidCommandId then .error .invalidCid
      else .ok ⟨xheapCheckCid op cid s.curcid, some ⟨t.modifiedXid, cid, t.urec⟩,
        found.newCtid pl.ctid⟩
  else some (.ok ⟨selector, none, pl.ctid⟩)

/-- The rest of `xheap_tuple_fetch`, once the selector is final and `tuple` is the version found. -/
def finishFetch (load : Nat → UndoLoad HeapUndo) (fuel : Nat) (pl : FetchPlace) (keepTup : Bool)
    (cur : XHeapDiskTuple) (d : Decision) (tuple : Option XHeapTuple) (page : XPage) :
    Option (Except FetchError FetchResult) :=
  let hidden := decide (d.selector = .none)
  let tuple := if hidden && !keepTup then none else tuple
  let res : FetchResult := ⟨!hidden && tuple.isSome, tuple, d.newCtid, d.xinfo, page⟩
  if d.xinfo.isNone && hidden && tuple.any XHeapTuple.hasNewCtid then
    (fetchUndoRecord load invalidXid fuel cur.urec).map fun
      | .abort => .error .forceDiscarded
      | found => .ok { res with
          newCtid := found.newCtid pl.ctid
          savedXinfo := some ⟨cur.modifiedXid, found.cid invalidCommandId, cur.urec⟩ }
  else some (.ok res)

/-- `xheap_tuple_fetch` for an MVCC snapshot. -/
def xheapTupleFetch (env : ReadEnv) (s : Snapshot) (load : Nat → UndoLoad HeapUndo) (fuel : Nat)
    (pl : FetchPlace) (keepTup : Bool) (p : XPage) : Option (Except FetchError FetchResult) :=
  let r := p.row pl.offnum
  if !r.rp.isNormal then some (.ok ⟨false, none, pl.ctid, none, p⟩)
  else
    let t := xheapGetTuple pl r
    let op := xheapTidOpFromInfomask r.tup.flag
    let sat := xheapTupleSatisfies env r.tup.flag op s r.tup.modifiedXid
    let p := p.setRow pl.offnum { r with tup := { r.tup with flag := sat.2 } }
    (checkCidAgainstSnapshot s load fuel pl op r.tup sat.1).bind fun
      | .error e => some (.error e)
      | .ok d =>
        if d.selector = .older ∨ (d.selector = .none ∧ keepTup = true) then
          (getTupleFromUndo env s load fuel
            ⟨r.tup.urec, invalidXid, r.tup.header, t, t.xmin, pl.ctid⟩).bind fun
            | .error e => some (.error e)
            | .ok (prior, newCtid) =>
              finishFetch load fuel pl keepTup r.tup { d with newCtid := newCtid }
                (prior.map fun t => { t with tableOid := pl.relid }) p
        else finishFetch load fuel pl keepTup r.tup d (some t) p

end XStore
