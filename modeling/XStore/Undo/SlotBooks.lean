import XStore.Undo.SlotRanges

/-!
# Undo and its slots

A backend writes undo, switches logs, and may fail between taking its space and
`update_undolog_meta`.  The slot of an operation is then found by comparing its transaction with
`prev_xid`, which does not know of the switch.
-/
namespace XStore

open Function

/-- The undo of one operation, from the insert pointer it found to the one it left. -/
structure UndoStretch where
  logno : Nat
  start : Nat
  stop : Nat
  /-- The top transaction of the operation. -/
  xid : Nat

/-- `get_next_slotptr` multiplies the block number by the block size in 32 bits, so that the slot pointer of
a log starts again at its first slot behind 4 GB. -/
def UndoWriter.wrapSlotptr (w : UndoWriter) : UndoWriter :=
  { w with ulogs := w.ulogs.modify w.ctx.logno fun u => { u with allocSlotOffset := u.allocSlotOffset % 2 ^ 32 } }

structure UndoSession where
  writer : UndoWriter
  /-- The id of the top transaction. -/
  top : Nat
  written : List UndoStretch

/-- Where an operation fails after it has begun to take its space. -/
inductive FailStage where
  /-- `undolog_switch` finds no log. -/
  | noLog
  /-- The log has been switched. -/
  | switched
  /-- The space has been taken. -/
  | allocated

inductive SessionAct where
  /-- A top transaction is given its id. -/
  | begin (xid : Nat)
  | write (op : UndoWrite)
  /-- An error, which aborts the subtransaction. -/
  | fail (op : UndoWrite) (stage : FailStage)

namespace UndoSession

variable (s : UndoSession)

/-- One step of the backend; one that stops the server is not a step.  The records of an operation lie
behind the insert pointer it finds and end in the log. -/
inductive Step : UndoSession → SessionAct → UndoSession → Prop
  | begin {s : UndoSession} {xid : Nat} (h : s.top < xid) : Step s (.begin xid) { s with top := xid }
  | write {s : UndoSession} {op : UndoWrite} {t w : UndoWriter} {u : UndoLog} {wal : UndoMetaWal}
      (htop : op.xact.topXid = s.top) (halloc : s.writer.allocateUndoSpace op = .ok t)
      (hu : t.ulogs t.ctx.logno = some u) (hbehind : u.insertOffset ≤ op.lastRecord)
      (hgrows : op.lastRecord < offsetPlusUsableBytes op.lastRecord op.lastRecordSize)
      (hinside : offsetPlusUsableBytes op.lastRecord op.lastRecordSize ≤ undoLogMaxSize)
      (hwrite : s.writer.writeUndo op = .ok (w, wal)) :
      Step s (.write op) { s with
        writer := w.wrapSlotptr
        written := s.written ++ [⟨t.ctx.logno, u.insertOffset,
          offsetPlusUsableBytes op.lastRecord op.lastRecordSize, op.xact.topXid⟩] }
  | noLog {s : UndoSession} {op : UndoWrite} (htop : op.xact.topXid = s.top) :
      Step s (.fail op .noLog) { s with writer := { s.writer with
        ulogs := s.writer.ulogs.modify s.writer.ctx.logno fun u => { u with insertOffset := undoLogMaxSize } } }
  | switched {s : UndoSession} {op : UndoWrite} (htop : op.xact.topXid = s.top) :
      Step s (.fail op .switched) { s with writer := s.writer.switchLog op.switchTo }
  | allocated {s : UndoSession} {op : UndoWrite} {w : UndoWriter} (htop : op.xact.topXid = s.top)
      (halloc : s.writer.allocateUndoSpace op = .ok w) : Step s (.fail op .allocated) { s with writer := w }

/-- A transaction that has a slot does not fail behind a switch, and a slot is taken only where the next
one is still below 4 GB. -/
def SlotSafe : SessionAct → Prop
  | .write op => s.writer.needsSlot op = true → ∀ u,
      s.writer.ulogs (op.switchTo.getD s.writer.ctx.logno) = some u → nextSlotOffset u.allocSlotOffset < 2 ^ 32
  | .fail op .switched => op.switchTo = none ∨ s.writer.ctx.prevXid ≠ s.top
  | .fail op .allocated => op.switchTo = none ∨ s.writer.ctx.prevXid ≠ s.top
  | _ => True

inductive SafeRun : UndoSession → UndoSession → Prop
  | refl (s : UndoSession) : SafeRun s s
  | step {s t t' : UndoSession} {a : SessionAct} (h : SafeRun s t) (hsafe : t.SlotSafe a) (hstep : Step t a t') :
      SafeRun s t'

end UndoSession

/-- The undo lies between the two pointers of the slot, which point to its log. -/
structure UndoSlot.Covers (slot : UndoSlot) (w : UndoStretch) : Prop where
  start_log : slot.startUndoPtr.logno = w.logno
  stop_log : slot.endUndoPtr.logno = w.logno
  start_le : slot.startUndoPtr.offset ≤ w.start
  le_stop : w.stop ≤ slot.endUndoPtr.offset

/-- Exactly one slot of its log covers the undo, and it has the id of the transaction.  The logs are those of
one persistence level, and a stretch is the undo of one operation: a transaction that switches logs has its
stretches in several slots. -/
def UndoLogs.Booked (ulogs : UndoLogs) (w : UndoStretch) : Prop :=
  ∃ u, ulogs w.logno = some u ∧ ∃ k, slotOffset k < u.allocSlotOffset ∧ (u.slotAt (slotOffset k)).Covers w ∧
    (u.slotAt (slotOffset k)).xid = w.xid ∧
    ∀ j, slotOffset j < u.allocSlotOffset → (u.slotAt (slotOffset j)).Covers w → j = k

/-- The log keeps its slots; its insert pointer stays or the log is closed. -/
structure UndoLog.SameSlots (u u' : UndoLog) : Prop where
  alloc : u'.allocSlotOffset = u.allocSlotOffset
  slot : ∀ k, slotOffset k < u.allocSlotOffset → u'.slotAt (slotOffset k) = u.slotAt (slotOffset k)
  insert : u'.insertOffset = u.insertOffset ∨ u'.insertOffset = undoLogMaxSize

theorem UndoLog.SameSlots.trans {u u' u'' : UndoLog} (h : SameSlots u u') (h' : SameSlots u' u'') :
    SameSlots u u'' where
  alloc := h'.alloc.trans h.alloc
  slot k hk := (h'.slot k (h.alloc ▸ hk)).trans (h.slot k hk)
  insert := by
    rcases h'.insert with heq | heq
    · rw [heq]
      exact h.insert
    · exact .inr heq

namespace UndoLogs

variable {ulogs ulogs' ulogs'' : UndoLogs} {logno : Nat} {f : UndoLog → UndoLog} {u : UndoLog}

def SameSlots (ulogs ulogs' : UndoLogs) : Prop :=
  ∃ f : Nat → UndoLog → UndoLog, (∀ l, ulogs' l = (ulogs l).map (f l)) ∧ ∀ l u, UndoLog.SameSlots u (f l u)

theorem SameSlots.refl (ulogs : UndoLogs) : ulogs.SameSlots ulogs :=
  ⟨fun _ u => u, fun _ => Option.map_id'.symm, fun _ _ => ⟨rfl, fun _ _ => rfl, .inl rfl⟩⟩

theorem sameSlots_modify (h : ∀ u, UndoLog.SameSlots u (f u)) : ulogs.SameSlots (ulogs.modify logno f) := by
  refine ⟨Function.update (fun _ => id) logno f, ?_, ?_⟩
  · intro l
    by_cases hl : l = logno
    · rw [modify, hl, update_self, update_self]
    · rw [modify_of_ne hl, update_of_ne hl, Option.map_id]
      rfl
  · intro l u
    by_cases hl : l = logno
    · rw [hl, update_self]
      exact h u
    · rw [update_of_ne hl]
      exact ⟨rfl, fun _ _ => rfl, .inl rfl⟩

theorem SameSlots.trans (h : ulogs.SameSlots ulogs') (h' : ulogs'.SameSlots ulogs'') : ulogs.SameSlots ulogs'' := by
  obtain ⟨f, hf, hsame⟩ := h
  obtain ⟨g, hg, hsame'⟩ := h'
  refine ⟨fun l u => g l (f l u), ?_, fun l u => (hsame l u).trans (hsame' l _)⟩
  intro l
  rw [hg, hf, Option.map_map]
  rfl

theorem SameSlots.of_some (h : ulogs.SameSlots ulogs') (hu : ulogs' logno = some u) :
    ∃ u₀, ulogs logno = some u₀ ∧ UndoLog.SameSlots u₀ u := by
  obtain ⟨f, hf, hsame⟩ := h
  rw [hf] at hu
  obtain ⟨u₀, hu₀, rfl⟩ := Option.map_eq_some_iff.mp hu
  exact ⟨u₀, hu₀, hsame _ _⟩

theorem SameSlots.some (h : ulogs.SameSlots ulogs') (hu : ulogs logno = some u) :
    ∃ u', ulogs' logno = some u' ∧ UndoLog.SameSlots u u' := by
  obtain ⟨f, hf, hsame⟩ := h
  refine ⟨f logno u, ?_, hsame _ _⟩
  rw [hf, hu]
  rfl

theorem SameSlots.alloc_lt {bound : Nat} (h : ulogs.SameSlots ulogs')
    (hlt : ∀ l u, ulogs l = Option.some u → u.allocSlotOffset < bound) :
    ∀ l u, ulogs' l = Option.some u → u.allocSlotOffset < bound := by
  intro l u hu
  obtain ⟨u₀, hu₀, hsame⟩ := h.of_some hu
  rw [hsame.alloc]
  exact hlt l u₀ hu₀

theorem modify_eq (h : ulogs logno = some u) : ulogs.modify logno f = Function.update ulogs logno (some (f u)) := by
  rw [modify, h]
  rfl

end UndoLogs

namespace UndoWriter

variable {s t s' : UndoWriter} {op : UndoWrite} {wal : UndoMetaWal}

theorem switchLog_sameSlots (s : UndoWriter) (target : Option Nat) :
    s.ulogs.SameSlots (s.switchLog target).ulogs := by
  cases target with
  | none => exact .refl _
  | some logno =>
    have hclose : s.ulogs.SameSlots
        (s.ulogs.modify s.ctx.logno fun u => { u with insertOffset := undoLogMaxSize }) :=
      UndoLogs.sameSlots_modify fun u => ⟨rfl, fun _ _ => rfl, .inr rfl⟩
    exact hclose.trans (UndoLogs.sameSlots_modify fun u => ⟨rfl, fun _ _ => rfl, .inl rfl⟩)

theorem switchLog_ctx (s : UndoWriter) (target : Option Nat) :
    (s.switchLog target).ctx = { s.ctx with logno := target.getD s.ctx.logno } := by
  cases target <;> rfl

/-- Space has been taken: the slots are untouched, and a slot that is needed is the next one. -/
theorem allocateUndoSpace_books (h : s.allocateUndoSpace op = .ok t) :
    s.ulogs.SameSlots t.ulogs ∧ t.ctx.logno = op.switchTo.getD s.ctx.logno ∧ t.ctx.prevXid = s.ctx.prevXid ∧
      t.ctx.slot = s.ctx.slot := by
  have hswitch := s.switchLog_sameSlots op.switchTo
  unfold allocateUndoSpace at h
  dsimp only at h
  split at h
  · cases h
  · split_ifs at h
    · cases h
      refine ⟨hswitch.trans (UndoLogs.sameSlots_modify fun u => ?_), ?_, ?_, ?_⟩
      · refine ⟨(allocSlotSpace_fields u).1, fun k hk => u.slotAt_allocSlotSpace _ (slotAligned_slotOffset k) hk, ?_⟩
        unfold UndoLog.allocSlotSpace
        dsimp only
        split_ifs <;> exact .inl rfl
      all_goals rw [switchLog_ctx]
    · cases h
      refine ⟨hswitch, ?_, ?_, ?_⟩
      all_goals rw [switchLog_ctx]

theorem wrapSlotptr_eq {u : UndoLog} (hu : s.ulogs s.ctx.logno = some u) (hlt : u.allocSlotOffset < 2 ^ 32) :
    s.wrapSlotptr = s := by
  have hsame : { u with allocSlotOffset := u.allocSlotOffset % 2 ^ 32 } = u := by
    rw [Nat.mod_eq_of_lt hlt]
  rw [wrapSlotptr, UndoLogs.modify_eq hu, hsame, ← hu, update_eq_self]

/-- The undo of an operation has been written with the slot at `off`. -/
structure SlotWritten (t : UndoWriter) (op : UndoWrite) (u : UndoLog) (off : Nat) (s' : UndoWriter) (u' : UndoLog) :
    Prop where
  logs : s'.ulogs = Function.update t.ulogs t.ctx.logno (some u')
  logno : s'.ctx.logno = t.ctx.logno
  prevXid : s'.ctx.prevXid = op.xact.topXid
  slot : s'.ctx.slot = ⟨t.ctx.logno, off⟩
  insert : u'.insertOffset = offsetPlusUsableBytes op.lastRecord op.lastRecordSize
  stop : (u'.slotAt off).endUndoPtr = ⟨t.ctx.logno, offsetPlusUsableBytes op.lastRecord op.lastRecordSize⟩
  xid : (u'.slotAt off).xid = op.xact.topXid
  others : ∀ off', off' ≠ off → u'.slotAt off' = u.slotAt off'

theorem updateSlot_written {u : UndoLog} {start : UndoPtr}
    (h : t.updateSlot op start ⟨t.ctx.logno, offsetPlusUsableBytes op.lastRecord op.lastRecordSize⟩ = .ok s')
    (hu : t.ulogs t.ctx.logno = some u)
    (hslot : t.ctx.slot.logno = t.ctx.logno) (hprev : t.ctx.prevXid = op.xact.topXid)
    (hinsert : u.insertOffset = offsetPlusUsableBytes op.lastRecord op.lastRecordSize) (lsn : Nat) :
    ∃ u', SlotWritten t op u t.ctx.slot.offset (s'.setUndologMetaLsn lsn) u' ∧
      u'.allocSlotOffset = u.allocSlotOffset ∧ (u.slotAt t.ctx.slot.offset).xid = op.xact.topXid ∧
      (u'.slotAt t.ctx.slot.offset).startUndoPtr =
        if (u.slotAt t.ctx.slot.offset).startUndoPtr = .invalid then start
        else (u.slotAt t.ctx.slot.offset).startUndoPtr := by
  obtain ⟨hctx, hxid, hulogs⟩ := updateSlot_spec h
  have hold : t.ulogs.slot t.ctx.slot = u.slotAt t.ctx.slot.offset := by
    rw [UndoLogs.slot, hslot, hu]
    rfl
  rw [hold] at hxid hulogs
  rw [hslot, UndoLogs.modify_eq hu] at hulogs
  have hlogs : (s'.setUndologMetaLsn lsn).ulogs = Function.update t.ulogs t.ctx.logno
      (some ((u.setSlot t.ctx.slot.offset ((u.slotAt t.ctx.slot.offset).update start
        ⟨t.ctx.logno, offsetPlusUsableBytes op.lastRecord op.lastRecordSize⟩)).setSlotLsn
          t.ctx.slotPtr.offset lsn)) := by
    rw [setUndologMetaLsn, hctx, hulogs, UndoLogs.modify_eq (update_self _ _ _), update_idem]
  refine ⟨_, ⟨hlogs, congrArg _ hctx, (congrArg _ hctx).trans hprev, ?_, hinsert, ?_, ?_, ?_⟩, rfl, hxid, ?_⟩
  · exact (congrArg _ hctx).trans (congrArg (UndoPtr.mk · t.ctx.slot.offset) hslot)
  · rw [UndoLog.slotAt_setSlotLsn, UndoLog.slotAt_setSlot_self]
    rfl
  · rw [UndoLog.slotAt_setSlotLsn, UndoLog.slotAt_setSlot_self]
    exact hxid
  · intro off' hoff
    rw [UndoLog.slotAt_setSlotLsn, UndoLog.slotAt_setSlot_of_ne _ _ _ _ hoff]
  · rw [UndoLog.slotAt_setSlotLsn, UndoLog.slotAt_setSlot_self]
    rfl

/-- What stands in the log before does not matter where it is replaced. -/
theorem SlotWritten.of_update {u₁ u u' : UndoLog} {off : Nat} {ctx : UndoLogContext}
    (h : SlotWritten ⟨ctx, Function.update t.ulogs t.ctx.logno (some u₁)⟩ op u₁ off s' u')
    (hlogno : ctx.logno = t.ctx.logno) (hothers : ∀ off', off' ≠ off → u₁.slotAt off' = u.slotAt off') :
    SlotWritten t op u off s' u' := by
  have hlogs := h.logs
  have hslot := h.slot
  have hstop := h.stop
  simp only [hlogno, update_idem] at hlogs hslot hstop
  exact ⟨hlogs, h.logno.trans hlogno, h.prevXid, hslot, h.insert, hstop, h.xid,
    fun off' hoff => (h.others off' hoff).trans (hothers off' hoff)⟩

theorem writeUndo_written (h : s.writeUndo op = .ok (s', wal))
    (hown : s.needsSlot op = false → s.ctx.slot.logno = s.ctx.logno) :
    ∃ t u u' off, s.allocateUndoSpace op = .ok t ∧ t.ulogs t.ctx.logno = some u ∧ SlotWritten t op u off s' u' ∧
      (s.needsSlot op = true → off = u.allocSlotOffset ∧ u'.allocSlotOffset = nextSlotOffset off ∧
        (u'.slotAt off).startUndoPtr = ⟨t.ctx.logno, u.insertOffset⟩) ∧
      (s.needsSlot op = false → off = s.ctx.slot.offset ∧ u'.allocSlotOffset = u.allocSlotOffset ∧
        (u.slotAt off).xid = op.xact.topXid ∧ (u'.slotAt off).startUndoPtr =
          if (u.slotAt off).startUndoPtr = .invalid then ⟨t.ctx.logno, u.insertOffset⟩
          else (u.slotAt off).startUndoPtr) := by
  obtain ⟨t, ht, h⟩ := bind_ok h
  obtain ⟨-, hlogno, hprev, hslot⟩ := allocateUndoSpace_books ht
  cases hu : t.ulogs t.ctx.logno with
  | none => simp [hu] at h
  | some u =>
    simp only [hu] at h
    obtain ⟨v, hv, h⟩ := bind_ok h
    obtain ⟨_, -, hput⟩ := bind_ok hv
    have hs' : s' = v.setUndologMetaLsn op.lsn := by
      split at h
      · cases h
      · cases h
        rfl
    subst hs'
    have hadv : t.advanceInsert op = ⟨t.ctx, Function.update t.ulogs t.ctx.logno
        (some (u.advanceInsert op.lastRecord op.lastRecordSize))⟩ := by
      rw [advanceInsert, UndoLogs.modify_eq hu]
    refine ⟨t, u, ?_⟩
    cases hn : s.needsSlot op with
    | false =>
      rw [hn, if_neg (by decide), hadv] at hput
      have htop : op.xact.topXid = s.ctx.prevXid := by
        by_contra hne
        simp [needsSlot, hne] at hn
      have hsame : t.ctx.slot.logno = t.ctx.logno := by
        have hnone : op.switchTo = none := by
          cases hto : op.switchTo with
          | none => rfl
          | some l => simp [needsSlot, hto] at hn
        rw [hslot, hlogno, hnone]
        exact hown hn
      obtain ⟨u', hw, halloc, hxid, hstart⟩ := updateSlot_written hput (update_self _ _ _) hsame
        (hprev.trans htop.symm) rfl op.lsn
      refine ⟨u', t.ctx.slot.offset, ht, hu, hw.of_update rfl fun _ _ => rfl, nofun, fun _ => ?_⟩
      refine ⟨?_, halloc, hxid, hstart⟩
      rw [hslot]
    | true =>
      rw [hn, if_pos rfl, hadv] at hput
      obtain ⟨hlog, u₀, u₁, -, hu₁, hoff, halloc₀⟩ := (allocateUndoSpace_spec ht).slotPtr hn
      cases hu.symm.trans hu₁
      have hfresh : (⟨t.ctx, Function.update t.ulogs t.ctx.logno
          (some (u.advanceInsert op.lastRecord op.lastRecordSize))⟩ : UndoWriter).allocUndoSlot op =
          ⟨{ t.ctx with prevXid := op.xact.topXid, slot := t.ctx.slotPtr },
            Function.update t.ulogs t.ctx.logno (some (((u.advanceInsert op.lastRecord op.lastRecordSize).allocUndoSlot
              t.ctx.slotPtr.offset op.xact.topXid op.dbid).advancePageLower t.ctx.slotPtr.offset))⟩ := by
        rw [allocUndoSlot, UndoLogs.modify_eq (update_self _ _ _), update_idem]
      rw [hfresh] at hput
      have hslotAt : ∀ off', (((u.advanceInsert op.lastRecord op.lastRecordSize).allocUndoSlot t.ctx.slotPtr.offset
          op.xact.topXid op.dbid).advancePageLower t.ctx.slotPtr.offset).slotAt off' =
          (u.setSlot t.ctx.slotPtr.offset ((u.slotAt t.ctx.slotPtr.offset).init op.xact.topXid op.dbid)).slotAt off' :=
        fun off' => UndoLog.slotAt_advancePageLower _ _ _
      obtain ⟨u', hw, halloc, -, hstart⟩ := updateSlot_written hput (update_self _ _ _) hlog rfl rfl op.lsn
      refine ⟨u', t.ctx.slotPtr.offset, ht, hu, hw.of_update rfl ?_,
        fun _ => ⟨hoff.trans halloc₀.symm, halloc, ?_⟩, nofun⟩
      · intro off' hne
        rw [hslotAt, UndoLog.slotAt_setSlot_of_ne _ _ _ _ hne]
      · rw [hstart, hslotAt, UndoLog.slotAt_setSlot_self]
        exact if_pos rfl

end UndoWriter

/-- The slots of every log meet end to end, and the written undo lies in them. -/
structure Books (ulogs : UndoLogs) (written : List UndoStretch) (n : Nat → Nat) (b : Nat → Nat → Nat) : Prop where
  alloc : ∀ l u, ulogs l = some u → u.allocSlotOffset = slotOffset (n l)
  tiles : ∀ l u, ulogs l = some u → SlotsTile u.slotAt l 0 (n l) (b l)
  insert : ∀ l u, ulogs l = some u → u.insertOffset = b l (n l) ∨ u.insertOffset = undoLogMaxSize
  written : ∀ w ∈ written, w.start < w.stop ∧ ∃ u, ulogs w.logno = some u ∧ ∃ k < n w.logno,
    b w.logno k ≤ w.start ∧ w.stop ≤ b w.logno (k + 1) ∧ (u.slotAt (slotOffset k)).xid = w.xid

namespace Books

variable {ulogs ulogs' : UndoLogs} {written : List UndoStretch} {n : Nat → Nat} {b : Nat → Nat → Nat}

variable (h : Books ulogs written n b)

include h

theorem booked {w : UndoStretch} (hw : w ∈ written) : ulogs.Booked w := by
  obtain ⟨hlt, u, hu, k, hk, hstart, hstop, hxid⟩ := h.written w hw
  have htiles := h.tiles _ u hu
  have hof : ∀ j, slotOffset j < u.allocSlotOffset → j < n w.logno := by
    intro j hj
    rwa [h.alloc _ u hu, slotOffset_lt_iff] at hj
  refine ⟨u, hu, k, ?_, ?_, hxid, ?_⟩
  · rw [h.alloc _ u hu, slotOffset_lt_iff]
    exact hk
  · obtain ⟨hs, he, -⟩ := htiles.slot k (Nat.zero_le k) hk
    constructor
    · rw [hs]
    · rw [he]
    · rw [hs]
      exact hstart
    · rw [he]
      exact hstop
  · intro j hj hcov
    obtain ⟨hs, he, -⟩ := htiles.slot j (Nat.zero_le j) (hof j hj)
    have hle := hcov.start_le
    have hge := hcov.le_stop
    rw [hs] at hle
    rw [he] at hge
    exact htiles.unique hlt (Nat.zero_le j) (hof j hj) (Nat.zero_le k) hk ⟨hle, hge⟩ ⟨hstart, hstop⟩

theorem keep (hsame : ulogs.SameSlots ulogs') : Books ulogs' written n b := by
  have hslot : ∀ l u u', ulogs l = some u → UndoLog.SameSlots u u' → ∀ k < n l,
      u'.slotAt (slotOffset k) = u.slotAt (slotOffset k) := by
    intro l u u' hu hsame k hk
    apply hsame.slot k
    rw [h.alloc l u hu, slotOffset_lt_iff]
    exact hk
  constructor
  · intro l u' hu'
    obtain ⟨u, hu, hs⟩ := hsame.of_some hu'
    exact hs.alloc.trans (h.alloc l u hu)
  · intro l u' hu'
    obtain ⟨u, hu, hs⟩ := hsame.of_some hu'
    exact (h.tiles l u hu).congr (hslot l u u' hu hs)
  · intro l u' hu'
    obtain ⟨u, hu, hs⟩ := hsame.of_some hu'
    rcases hs.insert with heq | heq
    · rw [heq]
      exact h.insert l u hu
    · exact .inr heq
  · intro w hw
    obtain ⟨hlt, u, hu, k, hk, hstart, hstop, hxid⟩ := h.written w hw
    obtain ⟨u', hu', hs⟩ := hsame.some hu
    exact ⟨hlt, u', hu', k, hk, hstart, hstop, (congrArg _ (hslot _ u u' hu hs k hk)).trans hxid⟩

theorem write {l k stop xid : Nat} {u u' : UndoLog} (hu : ulogs l = some u)
    (hk : k ≤ n l) (hn : n l ≤ k + 1) (halloc : u'.allocSlotOffset = slotOffset (k + 1))
    (hinsert : u.insertOffset = b l (n l)) (hinsert' : u'.insertOffset = stop) (hlt : u.insertOffset < stop)
    (hothers : ∀ off, off ≠ slotOffset k → u'.slotAt off = u.slotAt off)
    (hstart : (u'.slotAt (slotOffset k)).startUndoPtr = ⟨l, b l k⟩)
    (hstop : (u'.slotAt (slotOffset k)).endUndoPtr = ⟨l, stop⟩) (hxid : (u'.slotAt (slotOffset k)).xid = xid)
    (hold : k < n l → (u.slotAt (slotOffset k)).xid = xid) :
    Books (Function.update ulogs l (some u')) (written ++ [⟨l, u.insertOffset, stop, xid⟩])
      (Function.update n l (k + 1)) (Function.update b l (Function.update (b l) (k + 1) stop)) := by
  have htiles := h.tiles l u hu
  have hbk : b l k ≤ u.insertOffset := hinsert ▸ htiles.bound_le (Nat.zero_le k) hk (Nat.le_refl _)
  have hkeep : ∀ j < k, u'.slotAt (slotOffset j) = u.slotAt (slotOffset j) := by
    intro j hj
    exact hothers _ fun heq => absurd (slotOffset_inj heq) (Nat.ne_of_lt hj)
  have hbelow : ∀ j ≤ k, Function.update (b l) (k + 1) stop j = b l j :=
    fun j hj => update_of_ne (by omega) _ _
  -- the facts about a log: the one that is written to, or one of the others
  have hlog : ∀ m v, Function.update ulogs l (some u') m = some v → m = l ∧ v = u' ∨ m ≠ l ∧ ulogs m = some v := by
    intro m v hv
    by_cases hm : m = l
    · rw [hm, update_self] at hv
      exact .inl ⟨hm, (Option.some.inj hv).symm⟩
    · rw [update_of_ne hm] at hv
      exact .inr ⟨hm, hv⟩
  constructor
  · intro m v hv
    rcases hlog m v hv with ⟨rfl, rfl⟩ | ⟨hm, hv⟩
    · rw [update_self]
      exact halloc
    · rw [update_of_ne hm]
      exact h.alloc m v hv
  · intro m v hv
    rcases hlog m v hv with ⟨rfl, rfl⟩ | ⟨hm, hv⟩
    · rw [update_self, update_self]
      exact htiles.write (Nat.zero_le k) hk hkeep hstart hstop (by omega)
    · rw [update_of_ne hm, update_of_ne hm]
      exact h.tiles m v hv
  · intro m v hv
    rcases hlog m v hv with ⟨rfl, rfl⟩ | ⟨hm, hv⟩
    · rw [update_self, update_self, update_self]
      exact .inl hinsert'
    · rw [update_of_ne hm, update_of_ne hm]
      exact h.insert m v hv
  · intro w hw
    rcases List.mem_append.mp hw with hw | hw
    · obtain ⟨hwlt, v, hv, j, hj, hjs, hje, hjx⟩ := h.written w hw
      refine ⟨hwlt, ?_⟩
      by_cases hm : w.logno = l
      · rw [hm] at hv hj hjs hje ⊢
        cases hu.symm.trans hv
        rw [update_self, update_self, update_self]
        refine ⟨u', rfl, j, by omega, ?_⟩
        rw [hbelow j (by omega)]
        refine ⟨hjs, ?_⟩
        by_cases hjk : j = k
        · subst hjk
          rw [update_self]
          have hend : b l (j + 1) ≤ u.insertOffset := hinsert ▸ htiles.bound_le (Nat.zero_le _) hj (Nat.le_refl _)
          exact ⟨by omega, hxid.trans ((hold hj).symm.trans hjx)⟩
        · rw [hbelow (j + 1) (by omega), hkeep j (by omega)]
          exact ⟨hje, hjx⟩
      · rw [update_of_ne hm, update_of_ne hm, update_of_ne hm]
        exact ⟨v, hv, j, hj, hjs, hje, hjx⟩
    · rw [List.mem_singleton] at hw
      subst hw
      refine ⟨hlt, u', update_self _ _ _, k, ?_, ?_, ?_, hxid⟩
      · rw [update_self]
        exact Nat.lt_succ_self k
      · rw [update_self, hbelow k (Nat.le_refl k)]
        exact hbk
      · rw [update_self, update_self]

end Books

namespace UndoSession

variable {s s' : UndoSession} {n : Nat → Nat} {b : Nat → Nat → Nat} {op : UndoWrite}

/-- The books are kept, and a transaction that has a slot has the last one of the current log. -/
structure Inv (s : UndoSession) (n : Nat → Nat) (b : Nat → Nat → Nat) : Prop where
  books : Books s.writer.ulogs s.written n b
  own : frozenXid < s.top → s.writer.ctx.prevXid = s.top →
    ∃ k, s.writer.ctx.slot = ⟨s.writer.ctx.logno, slotOffset k⟩ ∧ k + 1 = n s.writer.ctx.logno
  prev_le : s.writer.ctx.prevXid ≤ s.top
  alloc_lt : ∀ l u, s.writer.ulogs l = some u → u.allocSlotOffset < 2 ^ 32

/-- A failed operation leaves the slots, and either the log or a transaction without a slot. -/
theorem Inv.keep (h : Inv s n b) {w : UndoWriter} (hsame : s.writer.ulogs.SameSlots w.ulogs)
    (hprev : w.ctx.prevXid = s.writer.ctx.prevXid) (hslot : w.ctx.slot = s.writer.ctx.slot)
    (hlogno : w.ctx.logno = s.writer.ctx.logno ∨ s.writer.ctx.prevXid ≠ s.top) :
    Inv { s with writer := w } n b := by
  refine ⟨h.books.keep hsame, ?_, hprev ▸ h.prev_le, hsame.alloc_lt h.alloc_lt⟩
  intro htop hp
  rw [hprev] at hp
  rcases hlogno with heq | hne
  · rw [hslot, heq]
    exact h.own htop hp
  · exact absurd hp hne

theorem getD_logno (hsafe : op.switchTo = none ∨ s.writer.ctx.prevXid ≠ s.top) :
    op.switchTo.getD s.writer.ctx.logno = s.writer.ctx.logno ∨ s.writer.ctx.prevXid ≠ s.top := by
  rcases hsafe with hnone | hne
  · rw [hnone]
    exact .inl rfl
  · exact .inr hne

theorem Inv.write (h : Inv s n b) {t w : UndoWriter} {u : UndoLog} {wal : UndoMetaWal}
    (htop : op.xact.topXid = s.top) (halloc : s.writer.allocateUndoSpace op = .ok t)
    (hu : t.ulogs t.ctx.logno = some u) (hbehind : u.insertOffset ≤ op.lastRecord)
    (hgrows : op.lastRecord < offsetPlusUsableBytes op.lastRecord op.lastRecordSize)
    (hinside : offsetPlusUsableBytes op.lastRecord op.lastRecordSize ≤ undoLogMaxSize)
    (hwrite : s.writer.writeUndo op = .ok (w, wal)) (hsafe : s.SlotSafe (.write op)) :
    ∃ n b, Inv { s with
      writer := w.wrapSlotptr
      written := s.written ++ [⟨t.ctx.logno, u.insertOffset,
        offsetPlusUsableBytes op.lastRecord op.lastRecordSize, op.xact.topXid⟩] } n b := by
  have hnormal := (UndoWriter.writeUndo_spec hwrite).normal
  have hown : s.writer.needsSlot op = false → op.switchTo = none ∧
      ∃ k, s.writer.ctx.slot = ⟨s.writer.ctx.logno, slotOffset k⟩ ∧ k + 1 = n s.writer.ctx.logno := by
    intro hn
    rw [UndoWriter.needsSlot, Bool.or_eq_false_iff, decide_eq_false_iff_not, not_not] at hn
    refine ⟨by simpa using hn.2, h.own (htop ▸ hnormal) (hn.1.symm.trans htop)⟩
  have hslotlog : s.writer.needsSlot op = false → s.writer.ctx.slot.logno = s.writer.ctx.logno := by
    intro hn
    obtain ⟨-, k, hk, -⟩ := hown hn
    rw [hk]
  obtain ⟨t', u₁, u', off, halloc', hu₁, hw, hnew, hold⟩ := UndoWriter.writeUndo_written hwrite hslotlog
  cases halloc.symm.trans halloc'
  cases hu.symm.trans hu₁
  obtain ⟨hsame, hlogno, -, -⟩ := UndoWriter.allocateUndoSpace_books halloc
  have hbooks := h.books.keep hsame
  have hinsert : u.insertOffset = b t.ctx.logno (n t.ctx.logno) := by
    rcases hbooks.insert _ u hu with heq | hmax
    · exact heq
    · omega
  have htiles := hbooks.tiles _ u hu
  -- the slot of the operation is the next one or the last one
  obtain ⟨k, rfl, hk, hn, hua, hbelow, hstart, hxid⟩ : ∃ k, off = slotOffset k ∧ k ≤ n t.ctx.logno ∧
      n t.ctx.logno ≤ k + 1 ∧ u'.allocSlotOffset = slotOffset (k + 1) ∧ u'.allocSlotOffset < 2 ^ 32 ∧
      (u'.slotAt off).startUndoPtr = ⟨t.ctx.logno, b t.ctx.logno k⟩ ∧
      (k < n t.ctx.logno → (u.slotAt off).xid = op.xact.topXid) := by
    cases hneeds : s.writer.needsSlot op with
    | true =>
      obtain ⟨hoff, hua, hstart⟩ := hnew hneeds
      have hlt : nextSlotOffset u.allocSlotOffset < 2 ^ 32 := by
        obtain ⟨u₀, hu₀, hslots⟩ := hsame.of_some hu
        rw [hslots.alloc]
        exact hsafe hneeds u₀ (hlogno ▸ hu₀)
      rw [← hoff] at hlt
      rw [hbooks.alloc _ u hu] at hoff
      refine ⟨n t.ctx.logno, hoff, Nat.le_refl _, Nat.le_succ _, ?_, hua ▸ hlt, ?_,
        fun hlt => absurd hlt (Nat.lt_irrefl _)⟩
      · rw [hua, hoff, nextSlotOffset_slotOffset]
      · rw [hstart, hinsert]
    | false =>
      obtain ⟨hnone, k, hslot, hk⟩ := hown hneeds
      obtain ⟨hoff, hua, hxid, hstart⟩ := hold hneeds
      rw [hnone] at hlogno
      rw [hslot] at hoff
      rw [← show t.ctx.logno = s.writer.ctx.logno from hlogno] at hk
      refine ⟨k, hoff, by omega, by omega, ?_, ?_, ?_, fun _ => hxid⟩
      · rw [hua, hbooks.alloc _ u hu, hk]
      · rw [hua]
        exact hsame.alloc_lt h.alloc_lt _ u hu
      · have hks := (htiles.slot k (Nat.zero_le k) (by omega)).1
        rw [hstart, hoff, hks, if_neg (htiles.bound_ne_invalid (Nat.zero_le k) (by omega))]
  have hb := hbooks.write hu hk hn hua hinsert hw.insert (by omega) hw.others hstart hw.stop hw.xid hxid
  have hlog : w.ulogs w.ctx.logno = some u' := by
    rw [hw.logs, hw.logno, update_self]
  rw [← hw.logs] at hb
  rw [UndoWriter.wrapSlotptr_eq hlog hbelow]
  refine ⟨_, _, hb, ?_, ?_, ?_⟩
  · intro _ _
    refine ⟨k, ?_, ?_⟩
    · rw [hw.slot, hw.logno]
    · rw [hw.logno, update_self]
  · rw [hw.prevXid]
    exact Nat.le_of_eq htop
  · intro l v hv
    by_cases hl : l = t.ctx.logno
    · rw [hl, ← hw.logno, hlog] at hv
      cases hv
      exact hbelow
    · rw [hw.logs, update_of_ne hl] at hv
      exact hsame.alloc_lt h.alloc_lt l v hv

theorem Inv.step (h : Inv s n b) {a : SessionAct} (hsafe : s.SlotSafe a) (hstep : Step s a s') :
    ∃ n b, Inv s' n b := by
  cases hstep with
  | begin hlt =>
    refine ⟨n, b, h.books, ?_, Nat.le_trans h.prev_le (Nat.le_of_lt hlt), h.alloc_lt⟩
    intro _ hp
    exact absurd hp (Nat.ne_of_lt (Nat.lt_of_le_of_lt h.prev_le hlt))
  | write htop halloc hu hbehind hgrows hinside hwrite => 
    exact h.write htop halloc hu hbehind hgrows hinside hwrite hsafe
  | noLog htop =>
    exact ⟨n, b, h.keep (UndoLogs.sameSlots_modify fun u => ⟨rfl, fun _ _ => rfl, .inr rfl⟩) rfl rfl (.inl rfl)⟩
  | @switched op htop =>
    refine ⟨n, b, h.keep (s.writer.switchLog_sameSlots op.switchTo) ?_ ?_ ?_⟩
    all_goals rw [UndoWriter.switchLog_ctx]
    exact getD_logno hsafe
  | allocated htop halloc =>
    obtain ⟨hsame, hlogno, hprev, hslot⟩ := UndoWriter.allocateUndoSpace_books halloc
    exact ⟨n, b, h.keep hsame hprev hslot (hlogno ▸ getD_logno hsafe)⟩

theorem SafeRun.inv (h : Inv s n b) (hrun : SafeRun s s') : ∃ n b, Inv s' n b := by
  induction hrun with
  | refl => exact ⟨n, b, h⟩
  | step _ hsafe hstep ih =>
    obtain ⟨n, b, hinv⟩ := ih
    exact hinv.step hsafe hstep

/-- Undo written by a backend is in the books of its log, whatever fails, provided that no transaction
with a slot fails behind a switch and that no log is given more slots than fit into 4 GB. -/
theorem undo_is_booked {s s' : UndoSession} (hstart : ∃ n b, Inv s n b) (hrun : SafeRun s s') :
    ∀ w ∈ s'.written, s'.writer.ulogs.Booked w := by
  obtain ⟨n, b, h⟩ := hstart
  obtain ⟨n', b', h'⟩ := hrun.inv h
  intro w hw
  exact h'.books.booked hw

/-- A backend with a new log and another one to switch to. -/
def freshSession : UndoSession :=
  let log : UndoLog :=
    ⟨undoLogBlockHeaderSize, undoLogBlockHeaderSize, undoLogBlockHeaderSize, 0, 0, 0, none, false, fun _ => none⟩
  ⟨⟨⟨1, 0, .invalid, .invalid⟩, fun l => if l = 1 ∨ l = 2 then some log else none⟩, 0, []⟩

theorem freshSession_inv : Inv freshSession (fun _ => 0) (fun _ _ => undoLogBlockHeaderSize) := by
  have hlog : ∀ l u, freshSession.writer.ulogs l = some u →
      u.allocSlotOffset = undoLogBlockHeaderSize ∧ u.insertOffset = undoLogBlockHeaderSize := by
    intro l u hu
    simp only [freshSession] at hu
    split_ifs at hu
    cases hu
    exact ⟨rfl, rfl⟩
  refine ⟨⟨fun l u hu => (hlog l u hu).1, ?_, fun l u hu => .inl (hlog l u hu).2, nofun⟩, nofun, Nat.le_refl _, ?_⟩
  · intro l u hu
    exact ⟨Nat.le_refl _, by decide, nofun⟩
  · intro l u hu
    rw [(hlog l u hu).1]
    decide

/-- An operation of transaction 5 with one undo record of 76 bytes. -/
def writeAt (lastRecord : Nat) (switchTo : Option Nat) : UndoWrite :=
  ⟨⟨5, [], nofun⟩, switchTo, 1, lastRecord, 76, false, 1⟩

/-- Between two operations of the transaction a third one fails, and the last one switches to the second
log. -/
theorem undo_is_booked_behind_switch :
    ∃ s', SafeRun freshSession s' ∧ s'.written.map UndoStretch.logno = [1, 2] ∧
      ∀ w ∈ s'.written, s'.writer.ulogs.Booked w := by
  have hrun : ∃ s', SafeRun freshSession s' ∧ s'.written.map UndoStretch.logno = [1, 2] := by
    have hbegin : SafeRun freshSession { freshSession with top := 5 } :=
      .step (a := .begin 5) (.refl _) trivial (.begin (by decide))
    have hfirst := hbegin.step (a := .write (writeAt 24 none)) (fun _ u hu => by cases hu; decide)
      (.write rfl rfl rfl (by decide) (by decide) (by decide) rfl)
    have hfail := hfirst.step (a := .fail (writeAt 100 none) .allocated) (.inl rfl) (.allocated rfl rfl)
    exact ⟨_, hfail.step (a := .write (writeAt 24 (some 2))) (fun _ u hu => by cases hu; decide)
      (.write rfl rfl rfl (by decide) (by decide) (by decide) rfl), rfl⟩
  obtain ⟨s', hsafe, hlogs⟩ := hrun
  exact ⟨s', hsafe, hlogs, undo_is_booked ⟨_, _, freshSession_inv⟩ hsafe⟩

/-- The undo that the transaction writes to the second log has no slot there. -/
theorem failure_behind_switch_loses_slot :
    ∃ s₁ s₂ s₃ s₄, Step freshSession (.begin 5) s₁ ∧ Step s₁ (.write (writeAt 24 none)) s₂ ∧
      Step s₂ (.fail (writeAt 24 (some 2)) .switched) s₃ ∧ Step s₃ (.write (writeAt 24 none)) s₄ ∧
      ∃ w ∈ s₄.written, ¬ s₄.writer.ulogs.Booked w := by
  refine ⟨_, _, _, _, .begin (by decide), .write rfl rfl rfl ?_ ?_ ?_ rfl, .switched rfl,
    .write rfl rfl rfl ?_ ?_ ?_ rfl, _, List.mem_append_right _ (List.mem_singleton_self _), ?_⟩
  case refine_7 =>
    rintro ⟨u, hu, k, hk, -⟩
    cases hu
    have hpos := slotOffset_le.mpr (Nat.zero_le k)
    exact absurd hk (Nat.not_lt.mpr hpos)
  all_goals decide

end UndoSession

end XStore
