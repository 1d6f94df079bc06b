import XStore.Redo.LockBits

/-!
# Rebuilding undo records during replay

The records that `xheap_xlog_undo_for_insert`, `xheap_xlog_undo_for_delete` and
`xheap_xlog_undo_for_update` prepare from the WAL record of a change, against those that the change
itself has stored.
-/
namespace XStore

/-- The records prepared during replay; `check_or_set_last_record_size` stops it where the last one
has another size than on the primary. -/
def redoUndo (w : LoggedChange) : Except Panic (List (Nat × RawUndoRecord)) :=
  let recs := prepareUndo w.wal.undo.urecptr (w.wal.undo.prevurp.getD invalidUndoRecPtr)
    w.undoMeta.isSwitch (xheapXlogUndo w.wal)
  if lastRecordSize recs = w.undoMeta.lastRecordSize then .ok recs
  else .error (.lastRecordSize (lastRecordSize recs) w.undoMeta.lastRecordSize)

/-- Replay prepares the records of the change, one by one and at their places. -/
def RebuildsUndo (h : HeapWrite) (w : LoggedChange) : Prop :=
  ∃ recs, redoUndo w = .ok recs ∧ List.Forall₂ SameRecord h.undo recs

/-- `old_updater_xid` and `txactinfo.xid` of an update stay the same: the old owner is not replaced
by an invalid id alone. -/
def OpCtx.KeepsOldXid (c : OpCtx) (modifiedXid : Nat) : Prop :=
  modifiedXid = invalidXid ∨ c.globalFrozenXid ≤ modifiedXid ∨ 0 < c.globalRecycleXid

/-- The variables that the undo record and the WAL record are filled from hold the same. -/
def HeapWrite.FilledAlike (h : HeapWrite) : Prop :=
  match h.op with
  | .insert _ _ _ => True
  | .delete _ _ r => r.tup.flag &&& xheapLockStatusMask = 0#16
  | .inplaceUpdate _ r _ _ => h.KeepsOldXid r.tup.modifiedXid
  | .update _ r _ _ _ _ _ _ => h.KeepsOldXid r.tup.modifiedXid

section OldXid

variable (c : WriteCtx) (m : Nat)

theorem updateOldXid_eq_walOldXid (h : c.KeepsOldXid m) : c.updateOldXid m = c.walOldXid m := by
  unfold OpCtx.updateOldXid WriteCtx.walOldXid
  rcases h with h | h | h
  · simp [h]
  · simp [Nat.not_lt.mpr h]
  · by_cases hm : m < c.globalFrozenXid <;> simp [hm, invalidXid, h]

/-- Where the two differ, the undo record has a previous owner and the WAL record has none. -/
theorem oldXid_differ (h : ¬ c.KeepsOldXid m) :
    c.updateOldXid m ≠ invalidXid ∧ c.walOldXid m = invalidXid := by
  simp only [OpCtx.KeepsOldXid, not_or, Nat.not_le, Nat.not_lt, Nat.le_zero] at h
  obtain ⟨hm, hlt, hzero⟩ := h
  simp [OpCtx.updateOldXid, WriteCtx.walOldXid, hlt, hzero, hm]

end OldXid

section Header

variable (h : HeapWrite)

theorem subxid_ne_iff (hop : h.op.needsSubxid = true) :
    h.subxid ≠ invalidXid ↔ h.xact.isSubTransaction = true := by
  have := h.assigned hop
  unfold WriteCtx.subxid
  split_ifs with hsub <;> simp_all

/-- The top transaction id is on the WAL record, or the record was written at top level. -/
theorem undoXid_walRecord {hasTopXid : Bool} (htop : hasTopXid = h.xact.isSubTransaction)
    (blkno prev : Nat) (change : XlHeapChange) :
    (h.walRecord blkno (h.undoHeader prev hasTopXid) change).undoXid = h.fxid := by
  subst htop
  have heq := h.fxid_eq
  cases hsub : h.xact.isSubTransaction with
  | true => simp [HeapWalRecord.undoXid, HeapWrite.walRecord, HeapWrite.undoHeader, heq]
  | false =>
    have := (h.xact.currentXid_eq_topXid_iff).mpr hsub
    simp [HeapWalRecord.undoXid, HeapWrite.walRecord, HeapWrite.undoHeader, heq, this]

theorem undoSubXid_walRecord (hop : h.op.needsSubxid = true) (blkno prev : Nat)
    (change : XlHeapChange) :
    (h.walRecord blkno (h.undoHeader prev (decide (h.subxid ≠ invalidXid))) change).undoSubXid =
      h.recordSubxid := by
  have hassigned := h.assigned hop
  have hiff := subxid_ne_iff h hop
  cases hsub : h.xact.isSubTransaction with
  | true =>
    have hne := hiff.mpr hsub
    simp [HeapWalRecord.undoSubXid, HeapWrite.walRecord, HeapWrite.undoHeader,
      WriteCtx.recordSubxid, hne, hassigned]
    simp [WriteCtx.subxid, hsub]
  | false =>
    have heq : h.subxid = invalidXid := by simp [WriteCtx.subxid, hsub]
    simp [HeapWalRecord.undoSubXid, HeapWrite.walRecord, HeapWrite.undoHeader,
      WriteCtx.recordSubxid, heq]

theorem undoHeader_blkprev (prev : Nat) (hasTopXid : Bool) :
    (h.undoHeader prev hasTopXid).blkprev.getD invalidUndoRecPtr = prev := by
  unfold HeapWrite.undoHeader
  by_cases hp : prev = invalidUndoRecPtr <;> simp [hp]

end Header

section Records

variable {h : HeapWrite} {w : HeapWalRecord}

/-- A record rebuilt from a WAL record of the change, with the values that the change has put into
its own record. -/
theorem sameChange_walRecord {hasTopXid : Bool} (htop : hasTopXid = h.xact.isSubTransaction)
    (blkno blk prev off urp urp' prevxid tpprev : Nat) (change : XlHeapChange) (flag : Flag)
    (subxid : Option Nat) (body : HeapUndo) :
    SameChange
      { ({ h.toOpCtx with blkno := blk } : OpCtx).record off urp prevxid tpprev flag body with
        uurSubxid := subxid }
      ((h.walRecord blkno (h.undoHeader prev hasTopXid) change).undoRecord blk off urp' prevxid
        tpprev flag subxid body) := by
  refine ⟨0, urp', 0, ?_⟩
  rw [HeapWalRecord.undoRecord, undoXid_walRecord h htop]
  rfl

/-- A flag keeps its value when bits it does not have are taken out. -/
theorem and_not_eq_self_iff {f mask : Flag} : f &&& ~~~mask = f ↔ f &&& mask = 0#16 := by
  simp only [BitVec.eq_of_getElem_eq_iff, BitVec.getElem_and, BitVec.getElem_not,
    BitVec.getElem_zero]
  refine forall₂_congr fun i hi => ?_
  cases f[i] <;> cases mask[i] <;> decide

theorem decide_subxid_ne (hop : h.op.needsSubxid = true) :
    decide (h.subxid ≠ invalidXid) = h.xact.isSubTransaction := by
  rw [Bool.eq_iff_iff, decide_eq_true_iff]
  exact subxid_ne_iff h hop

/-- The rebuilt record of the old row of a delete or update. -/
theorem sameChange_oldRow (hop : h.op.needsSubxid = true) {blk : Nat} (hblk : blk = h.blkno)
    {prevxid prevxid' : Nat} (hprevxid : prevxid = prevxid') {flag flag' : Flag} (hflag : flag = flag')
    (blkno prev off urp urp' : Nat) (change : XlHeapChange) (body : HeapUndo) :
    let w := h.walRecord blkno (h.undoHeader prev (decide (h.subxid ≠ invalidXid))) change
    SameChange { h.record off urp prevxid prev flag body with uurSubxid := h.recordSubxid }
      (w.undoRecord blk off urp' prevxid' (w.undo.blkprev.getD invalidUndoRecPtr) flag'
        w.undoSubXid body) := by
  intro w
  subst hblk hprevxid hflag
  have hprev : w.undo.blkprev.getD invalidUndoRecPtr = prev := undoHeader_blkprev ..
  have hsub : w.undoSubXid = h.recordSubxid := undoSubXid_walRecord h hop ..
  rw [hprev, hsub]
  exact sameChange_walRecord (decide_subxid_ne hop) ..

theorem records_sameChange (hw : h.wal = .ok w) (hf : h.FilledAlike) :
    List.Forall₂ SameChange h.records (xheapXlogUndo w) := by
  unfold HeapWrite.wal at hw
  unfold HeapWrite.FilledAlike at hf
  cases hop : h.op with
  | insert newtup off maxOffset =>
    simp only [hop, Except.ok.injEq] at hw
    subst hw
    simp only [HeapWrite.records, hop]
    exact .cons (sameChange_walRecord rfl ..) .nil
  | delete off changingPart r =>
    have hsub : h.op.needsSubxid = true := by rw [hop]; rfl
    simp only [hop, Except.ok.injEq] at hw hf
    subst hw
    simp only [HeapWrite.records, hop]
    exact .cons (sameChange_oldRow hsub rfl rfl (and_not_eq_self_iff.mpr hf) ..) .nil
  | inplaceUpdate off r newtup needsBackup =>
    have hsub : h.op.needsSubxid = true := by rw [hop]; rfl
    simp only [hop] at hw hf
    obtain ⟨x, hx, rfl⟩ := map_ok hw
    obtain ⟨r', -, rfl⟩ := map_ok hx
    simp only [HeapWrite.records, hop]
    exact .cons (sameChange_oldRow hsub rfl (updateOldXid_eq_walOldXid _ _ hf) rfl ..) .nil
  | update off r lockerIsUs newtup newBlkno newOff maxOffset needsBackup =>
    have hsub : h.op.needsSubxid = true := by rw [hop]; rfl
    simp only [hop, Except.ok.injEq] at hw hf
    subst hw
    simp only [HeapWrite.records, hop]
    have hblk : (h.logUpdate off r lockerIsUs newtup newBlkno newOff maxOffset needsBackup).oldBlkno
        newBlkno = h.blkno := by
      simp only [XlXheapUpdate.oldBlkno, HeapWrite.logUpdate]
      split_ifs with heq
      · exact heq
      · rfl
    have hflag := (h.lockOld_flag lockerIsUs r.tup).symm
    refine .cons (sameChange_oldRow hsub hblk (updateOldXid_eq_walOldXid _ _ hf) hflag ..)
      (.cons ?_ .nil)
    -- the new row names the transaction itself as its previous owner
    have hxid := undoXid_walRecord h (decide_subxid_ne hsub) newBlkno r.tup.urec
      (.update (h.logUpdate off r lockerIsUs newtup newBlkno newOff maxOffset needsBackup))
    rw [hxid]
    exact sameChange_walRecord (decide_subxid_ne hsub) ..

theorem undo_of_wal (hw : h.wal = .ok w) : ∃ prev hasTopXid, w.undo = h.undoHeader prev hasTopXid := by
  unfold HeapWrite.wal at hw
  cases hop : h.op with
  | insert newtup off maxOffset =>
    simp only [hop, Except.ok.injEq] at hw
    subst hw
    exact ⟨_, _, rfl⟩
  | delete off changingPart r =>
    simp only [hop, Except.ok.injEq] at hw
    subst hw
    exact ⟨_, _, rfl⟩
  | inplaceUpdate off r newtup needsBackup =>
    simp only [hop] at hw
    obtain ⟨x, -, rfl⟩ := map_ok hw
    exact ⟨_, _, rfl⟩
  | update off r lockerIsUs newtup newBlkno newOff maxOffset needsBackup =>
    simp only [hop, Except.ok.injEq] at hw
    subst hw
    exact ⟨_, _, rfl⟩

end Records

section Converse

variable {h : HeapWrite} {w : LoggedChange}

theorem redoUndo_ok {recs : List (Nat × RawUndoRecord)} (hr : redoUndo w = .ok recs) :
    recs = prepareUndo w.wal.undo.urecptr (w.wal.undo.prevurp.getD invalidUndoRecPtr)
      w.undoMeta.isSwitch (xheapXlogUndo w.wal) := by
  unfold redoUndo at hr
  dsimp only at hr
  split_ifs at hr
  exact (Except.ok.inj hr).symm

theorem SameRecord.head {us vs : List HeapRecord} {u v : HeapRecord} {a b tp tq : Nat} {sw sw' : Bool}
    (hs : List.Forall₂ SameRecord (prepareUndo a tp sw (u :: us)) (prepareUndo b tq sw' (v :: vs))) :
    SameRecord (a, u.prepared tp sw) (b, v.prepared tq sw') := by
  simp only [prepareUndo, placeRecords] at hs
  exact (List.forall₂_cons.mp hs).1

theorem filledAlike_of_rebuildsUndo (hw : h.log = .ok w) (hr : RebuildsUndo h w) :
    h.FilledAlike := by
  obtain ⟨wal, hwal, rfl⟩ := map_ok hw
  obtain ⟨recs, hredo, hsame⟩ := hr
  rw [redoUndo_ok hredo, HeapWrite.undo] at hsame
  unfold HeapWrite.wal at hwal
  unfold HeapWrite.FilledAlike
  cases hop : h.op with
  | insert newtup off maxOffset => trivial
  | delete off changingPart r =>
    simp only [hop, Except.ok.injEq] at hwal
    subst hwal
    simp only [HeapWrite.records, hop, xheapXlogUndo] at hsame
    have hinfo : HeapUndo.delete.uinfo &&& urecInfoDataheader ≠ 0 := by decide
    exact and_not_eq_self_iff.mp ((SameRecord.head hsame).dataheaderflag_eq hinfo)
  | inplaceUpdate off r newtup needsBackup =>
    simp only [hop] at hwal
    obtain ⟨x, hx, rfl⟩ := map_ok hwal
    obtain ⟨r', -, rfl⟩ := map_ok hx
    simp only [HeapWrite.records, hop, xheapXlogUndo] at hsame
    have hiff := (SameRecord.head hsame).prevxid_iff
    by_contra hkeep
    obtain ⟨hne, heq⟩ := oldXid_differ h.toWriteCtx r.tup.modifiedXid hkeep
    exact hne (hiff.mpr heq)
  | update off r lockerIsUs newtup newBlkno newOff maxOffset needsBackup =>
    simp only [hop, Except.ok.injEq] at hwal
    subst hwal
    simp only [HeapWrite.records, hop, xheapXlogUndo] at hsame
    have hiff := (SameRecord.head hsame).prevxid_iff
    by_contra hkeep
    obtain ⟨hne, heq⟩ := oldXid_differ h.toWriteCtx r.tup.modifiedXid hkeep
    exact hne (hiff.mpr heq)

end Converse

/-- Replay rebuilds the undo records of a change exactly where the undo record and the WAL record
are filled from variables that agree: a deleted row without lock bits, and an updated row whose old
owner was not replaced by an invalid id in one of them only. -/
theorem single_row_redo_rebuilds_undo_iff (h : HeapWrite) (w : LoggedChange) (hw : h.log = .ok w) :
    RebuildsUndo h w ↔ h.FilledAlike := by
  refine ⟨filledAlike_of_rebuildsUndo hw, fun hf => ?_⟩
  obtain ⟨wal, hwal, rfl⟩ := map_ok hw
  obtain ⟨prev, hasTopXid, hundo⟩ := undo_of_wal hwal
  have hsame : List.Forall₂ SameRecord h.undo
      (prepareUndo wal.undo.urecptr (wal.undo.prevurp.getD invalidUndoRecPtr) h.needSwitch
        (xheapXlogUndo wal)) := by
    rw [hundo]
    exact prepareUndo_same (records_sameChange hwal hf) fun hswitch => by
      simp [HeapWrite.undoHeader, hswitch]
  refine ⟨_, ?_, hsame⟩
  rw [redoUndo, if_pos (SameRecord.lastRecordSize_eq hsame).symm]

/-- A non-in-place update to another page, inside subtransaction 8 of a subtransaction that has no
id yet. -/
def nestedUpdate : HeapWrite :=
  ⟨writeBySeventh [8, 0] (by decide) 4,
    .update 1 (frozenRow 0#16 0) false ⟨0, 0, 0, 0#16, 1#16, 32, [0, 0, 0, 43, 44]⟩ 1 3 3 false,
    by decide⟩

theorem nested_update_rebuilds_undo : ∃ w, nestedUpdate.log = .ok w ∧ RebuildsUndo nestedUpdate w :=
  ⟨_, rfl, (single_row_redo_rebuilds_undo_iff nestedUpdate _ rfl).mpr (.inr (.inr (by decide)))⟩

/-- `SELECT … FOR UPDATE` of a row and then `DELETE`, in one transaction. -/
def deleteAfterLock : HeapWrite :=
  ⟨writeBySeventh [] seventh_not_nested 4, .delete 1 false (frozenRow xheapXidExclLock 7), by decide⟩

/-- An in-place update before any undo has been recycled. -/
def updateBeforeRecycling : HeapWrite :=
  ⟨writeBySeventh [] seventh_not_nested 0,
    .inplaceUpdate 1 (frozenRow 0#16 0) ⟨0, 0, 0, 0#16, 1#16, 32, [0, 0, 0, 43]⟩ false, by decide⟩

/-- The record rebuilt for the delete carries the lock bit, which the one on the primary does not;
and replay of the update stops, since its record lost the eight bytes of the previous owner. -/
theorem redo_changes_undo_of_locked_or_frozen_row :
    (∃ w recs, deleteAfterLock.log = .ok w ∧ redoUndo w = .ok recs ∧
      deleteAfterLock.undo.map (·.2.uurDataheaderflag) = [0] ∧
      recs.map (·.2.uurDataheaderflag) = [0x0400]) ∧
    ∃ w, updateBeforeRecycling.log = .ok w ∧ redoUndo w = .error (.lastRecordSize 61 69) := by
  refine ⟨⟨_, _, rfl, rfl, rfl, rfl⟩, ⟨_, rfl, rfl⟩⟩

end XStore
