import XStore.Undo.SlotWrite

/-!
# Replaying the undo metadata

`redo_undo_meta` and the slots it leaves, against the slots that `update_undolog_meta` left when
the WAL was written.  Recovery may start from any image of the slot pages and may end behind any
record, so the two sides are followed record by record.
-/
namespace XStore

open List

def isSkipInsertSlot (u : UndoLog) (slotPtr : Nat) : Except Panic Bool :=
  if u.txnHead < slotPtr ∧ slotPtr < u.txnTail then .ok false
  else if u.txnTail ≤ slotPtr then .error (.slotPastTail u.txnTail slotPtr)
  else .ok true

namespace UndoMetaWal

/-- The record starts a slot: `xlog_undo_meta_is_translot` or `xlog_undo_meta_is_switch`. -/
def startsSlot (w : UndoMetaWal) : Bool := w.undoMeta.slotAlloc || w.undoMeta.isSwitch

/-- The slot page as `prepare_undo_slot_buffer` reads it for redo: a full-page image is restored
with the LSN of the record, a page that the record initialises is zeroed, and a block that is
missing is left alone. -/
def slotPageForRedo (w : UndoMetaWal) (u : UndoLog) : Option SlotPage :=
  match w.slotImage with
  | some pg => some { pg with lsn := w.lsn }
  | none => if w.undoMeta.slotInit then some SlotPage.init
      else u.pages (w.undoMeta.slotPtr / blcksz)

/-- The part of `redo_undo_meta` that moves the log forward. -/
def redoLog (w : UndoMetaWal) (u : UndoLog) : UndoLog :=
  if u.lsn < w.lsn then
    { u.advanceInsert w.lastRecord w.undoMeta.lastRecordSize with
      allocSlotOffset :=
        if w.startsSlot then nextSlotOffset w.undoMeta.slotPtr else u.allocSlotOffset
      lsn := w.lsn }
  else u

/-- The slot after `redo_undo_meta`. -/
def redoSlot (w : UndoMetaWal) (slot : UndoSlot) : UndoSlot :=
  (if w.startsSlot then slot.init w.fullXid w.undoMeta.dbid else slot).update w.urecptr
    ⟨w.urecptr.logno, offsetPlusUsableBytes w.lastRecord w.undoMeta.lastRecordSize⟩

/-- The slot page after `redo_undo_meta`; a page that is not older than the record is kept. -/
def redoSlotPage (w : UndoMetaWal) (pg : SlotPage) : SlotPage :=
  let off := w.undoMeta.slotPtr % blcksz
  if pg.lsn < w.lsn then
    { lsn := w.lsn
      pdLower := if w.undoMeta.slotAlloc then off + sizeOfUndoSlot else pg.pdLower
      slots := Function.update pg.slots off (w.redoSlot (pg.slots off)) }
  else pg

end UndoMetaWal

def redoUndoMeta (ulogs : UndoLogs) (w : UndoMetaWal) : Except Panic UndoLogs :=
  match ulogs w.urecptr.logno with
  | none => .ok ulogs
  | some u =>
    let u := w.redoLog u
    (isSkipInsertSlot u w.undoMeta.slotPtr).map fun skip =>
      match skip, w.slotPageForRedo u with
      | false, some pg => Function.update ulogs w.urecptr.logno
          (some (u.setPage (w.undoMeta.slotPtr / blcksz) (some (w.redoSlotPage pg))))
      | _, _ => Function.update ulogs w.urecptr.logno (some u)

/-- Redo writes the slot of the record: the log is there, the slot is not discarded, and its page
is older than the record. -/
def redoes (ulogs : UndoLogs) (w : UndoMetaWal) : Bool :=
  (ulogs w.urecptr.logno).any fun u =>
    decide (u.txnHead < w.undoMeta.slotPtr ∧ w.undoMeta.slotPtr < u.txnTail) &&
      (w.slotPageForRedo u).any fun pg => decide (pg.lsn < w.lsn)

inductive DiscardStep where
  /-- The transaction is finished and its slot is passed. -/
  | advance
  /-- `request_async_rollback` -/
  | rollback
  /-- The transaction is not older than `oldestXmin`: the frozen horizon stops here. -/
  | stop
  deriving DecidableEq

/-- The decision of `advance_frozen_xid` at a slot that has undo. -/
def discardStep (didCommit : Nat → Bool) (oldestXmin : Nat) (slot : UndoSlot) : DiscardStep :=
  if slot.xid < oldestXmin then (if didCommit slot.xid then .advance else .rollback) else .stop

section Redo

variable {ulogs ulogs' : UndoLogs} {w : UndoMetaWal} {u : UndoLog}

@[simp] theorem redoLog_pages (w : UndoMetaWal) (u : UndoLog) : (w.redoLog u).pages = u.pages := by
  unfold UndoMetaWal.redoLog
  split_ifs <;> rfl

@[simp] theorem slotPageForRedo_redoLog (w : UndoMetaWal) (u : UndoLog) :
    w.slotPageForRedo (w.redoLog u) = w.slotPageForRedo u := by
  simp [UndoMetaWal.slotPageForRedo]

theorem redoLog_bounds (w : UndoMetaWal) (u : UndoLog) :
    (w.redoLog u).txnHead = u.txnHead ∧ (w.redoLog u).txnTail = u.txnTail := by
  unfold UndoMetaWal.redoLog
  split_ifs <;> exact ⟨rfl, rfl⟩

theorem isSkipInsertSlot_false_iff {off : Nat} :
    isSkipInsertSlot u off = .ok false ↔ u.txnHead < off ∧ off < u.txnTail := by
  unfold isSkipInsertSlot
  split_ifs with h1 h2 <;> simp_all

/-- The log of the record after redo: its slot page is replaced, or nothing on its pages changes. -/
theorem redoUndoMeta_cases (h : redoUndoMeta ulogs w = .ok ulogs')
    (hu : ulogs w.urecptr.logno = some u) :
    (∃ pg, u.txnHead < w.undoMeta.slotPtr ∧ w.undoMeta.slotPtr < u.txnTail ∧
        w.slotPageForRedo u = some pg ∧ ulogs' = Function.update ulogs w.urecptr.logno
          (some ((w.redoLog u).setPage (w.undoMeta.slotPtr / blcksz) (some (w.redoSlotPage pg))))) ∨
      (redoes ulogs w = false ∧
        ulogs' = Function.update ulogs w.urecptr.logno (some (w.redoLog u))) := by
  unfold redoUndoMeta at h
  simp only [hu] at h
  obtain ⟨skip, hskip, heq⟩ := map_ok h
  simp only [slotPageForRedo_redoLog] at heq
  cases skip with
  | true =>
    right
    refine ⟨?_, heq.symm⟩
    have hnot : ¬ (u.txnHead < w.undoMeta.slotPtr ∧ w.undoMeta.slotPtr < u.txnTail) := by
      intro hb
      rw [← (redoLog_bounds w u).1, ← (redoLog_bounds w u).2] at hb
      rw [isSkipInsertSlot_false_iff.mpr hb] at hskip
      cases hskip
    simp [redoes, hu, hnot]
  | false =>
    have hb := isSkipInsertSlot_false_iff.mp hskip
    rw [(redoLog_bounds w u).1, (redoLog_bounds w u).2] at hb
    cases hpg : w.slotPageForRedo u with
    | none =>
      right
      simp only [hpg] at heq
      exact ⟨by simp [redoes, hu, hpg], heq.symm⟩
    | some pg =>
      left
      simp only [hpg] at heq
      exact ⟨pg, hb.1, hb.2, rfl, heq.symm⟩

/-- A slot that redo starts carries the transaction id of the WAL record. -/
theorem redoUndoMeta_stores (h : redoUndoMeta ulogs w = .ok ulogs') (hstart : w.startsSlot = true)
    (hredo : redoes ulogs w = true) : (ulogs'.slot w.slot).xid = w.fullXid := by
  cases hu : ulogs w.urecptr.logno with
  | none => simp [redoes, hu] at hredo
  | some u =>
    rcases redoUndoMeta_cases h hu with ⟨pg, -, -, hpg, rfl⟩ | ⟨hno, -⟩
    · simp only [redoes, hu, hpg, Option.any_some, Bool.and_eq_true, decide_eq_true_eq] at hredo
      simp [UndoLogs.slot, UndoMetaWal.slot, UndoLog.slotAt, UndoLog.setPage, UndoLog.page,
        UndoMetaWal.redoSlotPage, UndoMetaWal.redoSlot, hredo.2, hstart]
    · rw [hno] at hredo
      cases hredo

theorem redoSlotPage_keeps {xid off : Nat} {pg : SlotPage}
    (hstart : w.startsSlot = true → pg.lsn < w.lsn → w.fullXid = xid)
    (hpg : (pg.slots off).xid = xid) : ((w.redoSlotPage pg).slots off).xid = xid := by
  by_cases hlsn : pg.lsn < w.lsn
  · by_cases hoff : off = w.undoMeta.slotPtr % blcksz
    · subst hoff
      cases hs : w.startsSlot with
      | true => simpa [UndoMetaWal.redoSlotPage, UndoMetaWal.redoSlot, hlsn, hs] using hstart hs hlsn
      | false => simpa [UndoMetaWal.redoSlotPage, UndoMetaWal.redoSlot, hlsn, hs] using hpg
    · simpa [UndoMetaWal.redoSlotPage, hlsn, Function.update_of_ne hoff] using hpg
  · simpa [UndoMetaWal.redoSlotPage, hlsn] using hpg

/-- A slot of transaction `xid` stays one: redo gives slots to that transaction only, a full-page
image shows the slot as its own, and no page with such a slot is zeroed. -/
theorem redoUndoMeta_keeps {xid : Nat} {a : UndoPtr} (h : redoUndoMeta ulogs w = .ok ulogs')
    (hstart : w.startsSlot = true → redoes ulogs w = true → w.fullXid = xid)
    (himage : ∀ pg, w.slotImage = some pg → a.logno = w.slot.logno →
      a.offset / blcksz = w.slot.offset / blcksz → (pg.slots (a.offset % blcksz)).xid = xid)
    (hinit : w.undoMeta.slotInit = true → a.logno = w.slot.logno →
      a.offset / blcksz ≠ w.slot.offset / blcksz)
    (ha : (ulogs.slot a).xid = xid) : (ulogs'.slot a).xid = xid := by
  cases hu : ulogs w.urecptr.logno with
  | none =>
    simp only [redoUndoMeta, hu, Except.ok.injEq] at h
    rw [← h]
    exact ha
  | some u =>
    by_cases hlog : a.logno = w.urecptr.logno
    · have hslot : (u.slotAt a.offset).xid = xid := by simpa [UndoLogs.slot, hlog, hu] using ha
      rcases redoUndoMeta_cases h hu with ⟨pg, hhead, htail, hpg, rfl⟩ | ⟨-, rfl⟩
      · by_cases hblk : a.offset / blcksz = w.undoMeta.slotPtr / blcksz
        · simp only [UndoLogs.slot, hlog, Function.update_self, Option.elim_some, UndoLog.slotAt,
            UndoLog.setPage, UndoLog.page, hblk, Option.getD_some]
          apply redoSlotPage_keeps
          · intro hs hlsn
            apply hstart hs
            simp [redoes, hu, hpg, hhead, htail, hlsn]
          · unfold UndoMetaWal.slotPageForRedo at hpg
            split at hpg
            next img himg =>
              cases hpg
              exact himage img himg hlog hblk
            next =>
              split_ifs at hpg with hi
              · exact absurd hblk (hinit hi hlog)
              · simpa [UndoLog.slotAt, UndoLog.page, hblk, hpg] using hslot
        · simpa [UndoLogs.slot, hlog, UndoLog.slotAt, UndoLog.setPage, UndoLog.page,
            Function.update_of_ne hblk] using hslot
      · simpa [UndoLogs.slot, hlog, UndoLog.slotAt, UndoLog.page] using hslot
    · have hother : ulogs' a.logno = ulogs a.logno := by
        rcases redoUndoMeta_cases h hu with ⟨pg, -, -, -, rfl⟩ | ⟨-, rfl⟩ <;>
          exact Function.update_of_ne hlog _ _
      rw [UndoLogs.slot, hother]
      exact ha

end Redo

/-- The server that writes the WAL and the logs that recovery rebuilds from it. -/
structure Replica where
  primary : UndoWriter
  recovered : UndoLogs

def Replica.step (r : Replica) (op : UndoWrite) : Except Panic (Replica × UndoMetaWal) :=
  (r.primary.writeUndo op).bind fun x =>
    (redoUndoMeta r.recovered x.2).map fun ulogs => (⟨x.1, ulogs⟩, x.2)

structure ReplayStep where
  op : UndoWrite
  before : Replica
  wal : UndoMetaWal

/-- The operations of one transaction, from any state of the server and any image of its logs. -/
inductive Replay (topXid : Nat) (start : Replica) : List ReplayStep → Replica → Prop
  | start : Replay topXid start [] start
  | step {steps : List ReplayStep} {r r' : Replica} {op : UndoWrite} {w : UndoMetaWal}
      (run : Replay topXid start steps r) (top : op.xact.topXid = topXid)
      (step : r.step op = .ok (r', w)) : Replay topXid start (steps ++ [⟨op, r, w⟩]) r'

/-- Both sides store a transaction id in a slot: the operation is given one, and its record is
replayed there. -/
def ReplayStep.StoresXid (st : ReplayStep) : Prop :=
  st.before.primary.needsSlot st.op = true ∧ redoes st.before.recovered st.wal = true

/-- The slot is the top transaction's on both sides, and the discard worker decides alike. -/
structure SlotAgrees (topXid : Nat) (r : Replica) (a : UndoPtr) : Prop where
  primary : (r.primary.ulogs.slot a).xid = topXid
  recovered : (r.recovered.slot a).xid = (r.primary.ulogs.slot a).xid
  discard : ∀ didCommit oldestXmin, discardStep didCommit oldestXmin (r.recovered.slot a) =
    discardStep didCommit oldestXmin (r.primary.ulogs.slot a)

def SlotsAgree (topXid : Nat) (steps : List ReplayStep) (r : Replica) : Prop :=
  ∀ st ∈ steps, st.StoresXid → SlotAgrees topXid r st.wal.slot

section Run

variable {topXid : Nat} {start r r' : Replica} {steps : List ReplayStep} {op : UndoWrite}
  {w : UndoMetaWal} {a : UndoPtr} {s s' : UndoWriter}

theorem Replica.step_ok (h : r.step op = .ok (r', w)) :
    UndoWriter.Written r.primary op r'.primary w ∧ redoUndoMeta r.recovered w = .ok r'.recovered := by
  obtain ⟨⟨p, w'⟩, hwrite, hmap⟩ := bind_ok h
  obtain ⟨ulogs, hredo, heq⟩ := map_ok hmap
  cases heq
  exact ⟨UndoWriter.writeUndo_spec hwrite, hredo⟩

theorem startsSlot_eq (h : UndoWriter.Written s op s' w) :
    w.startsSlot = s.needsSlot op := by
  rw [UndoMetaWal.startsSlot, h.slotAlloc, h.isSwitch, UndoWriter.needsSlot]
  cases op.switchTo.isSome <;> simp

/-- A slot handed out to the transaction, as the primary has it. -/
def OwnSlot (topXid : Nat) (ulogs : UndoLogs) (a : UndoPtr) : Prop :=
  ∃ u, ulogs a.logno = some u ∧ SlotAligned a.offset ∧ a.offset < u.allocSlotOffset ∧
    (u.slotAt a.offset).xid = topXid

theorem OwnSlot.slot_xid {ulogs : UndoLogs} (h : OwnSlot topXid ulogs a) :
    (ulogs.slot a).xid = topXid := by
  obtain ⟨u, hu, -, -, hxid⟩ := h
  simpa [UndoLogs.slot, hu] using hxid

theorem OwnSlot.keep (h : OwnSlot op.xact.topXid s.ulogs a)
    (hw : UndoWriter.Written s op s' w) : OwnSlot op.xact.topXid s'.ulogs a := by
  obtain ⟨u, hu, ha, hlt, hxid⟩ := h
  obtain ⟨u', hu', hk⟩ := hw.keep a.logno u hu
  refine ⟨u', hu', ha, Nat.lt_of_lt_of_le hlt hk.alloc_le, ?_⟩
  rcases hk.xid_kept a.offset ha hlt with heq | heq
  · exact heq.trans hxid
  · exact heq

theorem ownSlot_new (hs : s.ulogs.Sound) (hw : UndoWriter.Written s op s' w)
    (hn : s.needsSlot op = true) : OwnSlot op.xact.topXid s'.ulogs w.slot := by
  obtain ⟨u, u', hu, hu', hoff, hlt, hxid⟩ := hw.newSlot hn
  exact ⟨u', hu', hoff ▸ (hs _ u hu).1, hlt, hxid⟩

/-- Every slot the transaction was given stays its own on the primary. -/
theorem Replay.ownSlots (hs : start.primary.ulogs.Sound) (h : Replay topXid start steps r) :
    r.primary.ulogs.Sound ∧ ∀ st ∈ steps, st.before.primary.needsSlot st.op = true →
      OwnSlot topXid r.primary.ulogs st.wal.slot := by
  induction h with
  | start => exact ⟨hs, nofun⟩
  | step run htop hstep ih =>
    obtain ⟨hsound, hown⟩ := ih
    obtain ⟨hw, -⟩ := Replica.step_ok hstep
    subst htop
    refine ⟨hw.sound hsound, fun st hst hn => ?_⟩
    rcases mem_append.mp hst with hold | hnew
    · exact (hown st hold hn).keep hw
    · cases mem_singleton.mp hnew
      exact ownSlot_new hsound hw hn

/-- One record: the slots that redo has given to the transaction stay its own. -/
theorem Replica.step_keeps (hs : r.primary.ulogs.Sound)
    (hstep : r.step op = .ok (r', w))
    (htop : r.primary.needsSlot op = true → redoes r.recovered w = true →
      op.xact.isSubTransaction = false)
    (hown : OwnSlot op.xact.topXid r.primary.ulogs a)
    (ha : (r.recovered.slot a).xid = op.xact.topXid) :
    (r'.recovered.slot a).xid = op.xact.topXid := by
  obtain ⟨hw, hredo⟩ := Replica.step_ok hstep
  apply redoUndoMeta_keeps hredo _ _ _ ha
  · intro hstart hr
    rw [startsSlot_eq hw] at hstart
    rw [hw.fullXid, op.xact.currentXid_eq_topXid_iff]
    exact htop hstart hr
  · intro pg hpg hlog hblk
    obtain ⟨u', hu', hslots⟩ := hw.image pg hpg
    obtain ⟨u'', hu'', -, -, hxid⟩ := hown.keep hw
    rw [hlog] at hu''
    cases hu'.symm.trans hu''
    rw [hslots, ← hblk]
    exact hxid
  · intro hinit hlog hblk
    obtain ⟨u, hu, hal, hlt, hxid⟩ := hown
    rw [hlog] at hu
    exact hw.fresh hs hinit u a.offset hu hal hlt hblk hxid

/-- A run in which no slot is replayed from inside a savepoint. -/
theorem Replay.recovered_xid (hs : start.primary.ulogs.Sound) (h : Replay topXid start steps r)
    (hcond : ∀ st ∈ steps, st.StoresXid → st.op.xact.isSubTransaction = false) :
    ∀ st ∈ steps, st.StoresXid → (r.recovered.slot st.wal.slot).xid = topXid := by
  induction h with
  | start => exact nofun
  | @step steps r r' op w run htop hstep ih =>
    have hlast : ReplayStep.StoresXid ⟨op, r, w⟩ → op.xact.isSubTransaction = false :=
      hcond ⟨op, r, w⟩ (by simp)
    obtain ⟨hsound, hown⟩ := run.ownSlots hs
    subst htop
    intro st hst hstore
    rcases mem_append.mp hst with hold | hnew
    · have hxid := ih (fun st hst => hcond st (mem_append_left _ hst)) st hold hstore
      exact Replica.step_keeps hsound hstep (fun hn hr => hlast ⟨hn, hr⟩) (hown st hold hstore.1) hxid
    · cases mem_singleton.mp hnew
      obtain ⟨hw, hredo⟩ := Replica.step_ok hstep
      have hstart : w.startsSlot = true := (startsSlot_eq hw).trans hstore.1
      rw [redoUndoMeta_stores hredo hstart hstore.2, hw.fullXid]
      exact op.xact.currentXid_eq_topXid_iff.mpr (hlast hstore)

/-- Recovery may end right behind any record of the run. -/
theorem Replay.split {st : ReplayStep} (h : Replay topXid start steps r) (hst : st ∈ steps) :
    ∃ pre r', pre ++ [st] <+: steps ∧ Replay topXid start (pre ++ [st]) r' ∧
      st.op.xact.topXid = topXid ∧ st.before.step st.op = .ok (r', st.wal) := by
  induction h with
  | start => cases hst
  | @step steps r r' op w run htop hstep ih =>
    rcases mem_append.mp hst with hold | hnew
    · obtain ⟨pre, r'', hpre, hrun, hrest⟩ := ih hold
      exact ⟨pre, r'', hpre.trans (prefix_append _ _), hrun, hrest⟩
    · cases mem_singleton.mp hnew
      exact ⟨steps, r', prefix_rfl, .step run htop hstep, htop, hstep⟩

/-- Wherever recovery ends, the slots it wrote carry the top transaction id as on the primary,
exactly when no slot was replayed from a record written inside a subtransaction. -/
theorem redo_slots_agree_iff (hs : start.primary.ulogs.Sound) (h : Replay topXid start steps r) :
    (∀ pre r', pre <+: steps → Replay topXid start pre r' → SlotsAgree topXid pre r') ↔
      ∀ st ∈ steps, st.StoresXid → st.op.xact.isSubTransaction = false := by
  constructor
  · intro hagree st hst hstore
    obtain ⟨pre, r', hpre, hrun, htop, hstep⟩ := h.split hst
    have hslot := hagree _ r' hpre hrun st (by simp) hstore
    obtain ⟨hw, hredo⟩ := Replica.step_ok hstep
    have hstart : st.wal.startsSlot = true := (startsSlot_eq hw).trans hstore.1
    rw [← st.op.xact.currentXid_eq_topXid_iff, ← hw.fullXid,
      ← redoUndoMeta_stores hredo hstart hstore.2, hslot.recovered, hslot.primary, htop]
  · intro hcond pre r' hpre hrun st hst hstore
    have hxid := hrun.recovered_xid hs (fun st hst => hcond st (hpre.subset hst)) st hst hstore
    have hown := ((hrun.ownSlots hs).2 st hst hstore.1).slot_xid
    refine ⟨hown, hxid.trans hown.symm, fun didCommit oldestXmin => ?_⟩
    rw [discardStep, discardStep, hxid, hown]

end Run

section Savepoint

def emptyUndoLog : UndoLog where
  insertOffset := 24
  forceDiscard := 24
  allocSlotOffset := 24
  lsn := 0
  txnHead := 0
  txnTail := 65536
  slotBlkno := none
  slotZero := false
  pages := fun _ => none

/-- A backend attached to log 1, and a standby with the same logs. -/
def attachedToLogOne : Replica where
  primary := ⟨⟨1, 5, ⟨1, 24⟩, ⟨1, 24⟩⟩, fun _ => some emptyUndoLog⟩
  recovered := fun _ => some emptyUndoLog

def firstUndo (xact : XactState) : UndoWrite := ⟨xact, none, 16384, 24, 80, false, 1000⟩

theorem attachedToLogOne_sound : attachedToLogOne.primary.ulogs.Sound := by
  intro l u hu
  cases hu
  exact ⟨⟨by decide, by decide⟩, rfl⟩

/-- The first undo of transaction 7 is written inside a savepoint.  After recovery the slot belongs
to the subtransaction, and where that was rolled back and transaction 7 committed, the discard
worker rolls back committed work. -/
theorem redo_slot_of_savepoint :
    ∃ r w, attachedToLogOne.step (firstUndo insideSavepoint) = .ok (r, w) ∧
      (r.primary.ulogs.slot w.slot).xid = 7 ∧ (r.recovered.slot w.slot).xid = 9 ∧
      discardStep (fun x => x == 7) 20 (r.primary.ulogs.slot w.slot) = .advance ∧
      discardStep (fun x => x == 7) 20 (r.recovered.slot w.slot) = .rollback :=
  ⟨_, _, rfl, rfl, rfl, rfl, rfl⟩

/-- Transaction 7 writes undo at its top level, then inside a savepoint, and switches to log 2 after it. -/
theorem redo_slots_agree_around_savepoint :
    ∃ st₁ st₂ st₃ r, Replay 7 attachedToLogOne [st₁, st₂, st₃] r ∧ st₁.StoresXid ∧
      st₂.op.xact = insideSavepoint ∧ st₃.StoresXid ∧ st₃.wal.slot.logno = 2 ∧
      SlotsAgree 7 [st₁, st₂, st₃] r := by
  have hfirst : Replay 7 attachedToLogOne [⟨firstUndo atTopLevel, _, _⟩] _ := .step .start rfl rfl
  have hsecond : Replay 7 attachedToLogOne
      [_, ⟨{ firstUndo insideSavepoint with lastRecord := 104, lsn := 1001 }, _, _⟩] _ := .step hfirst rfl rfl
  have hrun : Replay 7 attachedToLogOne
      [_, _, ⟨{ firstUndo atTopLevel with switchTo := some 2, lsn := 1002 }, _, _⟩] _ := .step hsecond rfl rfl
  refine ⟨_, _, _, _, hrun, ⟨rfl, rfl⟩, rfl, ⟨rfl, rfl⟩, rfl, ?_⟩
  refine (redo_slots_agree_iff attachedToLogOne_sound hrun).mpr ?_ _ _ List.prefix_rfl hrun
  intro st hst hstore
  rcases List.mem_cons.mp hst with rfl | hst
  · rfl
  rcases List.mem_cons.mp hst with rfl | hst
  · cases hstore.1
  · cases List.mem_singleton.mp hst
    rfl

end Savepoint

end XStore
