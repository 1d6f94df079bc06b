import XStore.Undo.Discard

/-!
# Runs of the discard worker

Transactions write undo into their logs, end, and are rolled back, while the worker goes over all logs
again and again and publishes `global_frozen_xid` after each turn. The steps of the worker are the
visits of single logs, so that the others can act between any two of them.
-/
namespace XStore

open Option Function List

namespace DiscardLog

variable (log : DiscardLog)

/-- `undolog_alloc_undo_slot`: a slot that has no undo yet. -/
def allocSlot (xid : Nat) : DiscardLog :=
  { log with slots := log.slots ++ [UndoSlot.zero.init xid 0], used := true }

/-- `update_undo_slot` of the slot at index `i`, after undo has been written up to `insert`. -/
def fillSlot (logno insert i : Nat) (slot : UndoSlot) : DiscardLog :=
  { log with
    slots := log.slots.set i (slot.update ⟨logno, log.insertOffset⟩ ⟨logno, insert⟩)
    insertOffset := insert }

/-- `set_undo_slot_rollback_finish` -/
def finishRollback (i : Nat) (slot : UndoSlot) : DiscardLog :=
  { log with slots := log.slots.set i { slot with info := slot.info ||| 1#8 } }

end DiscardLog

section Writing

variable {status status' : Nat → Option XactStatus} {log : DiscardLog} {slot : UndoSlot} {i xid : Nat}

theorem canRollback_finished (slot : UndoSlot) :
    ({ slot with info := slot.info ||| 1#8 } : UndoSlot).canRollback = false := by
  have hbit : (slot.info ||| 1#8) &&& 1#8 ≠ 0#8 := by
    intro h0
    have := congrArg (fun g : BitVec 8 => g.getLsbD 0) h0
    simp at this
  simpa [UndoSlot.canRollback] using hbit

/-- The states of ids may change as long as no slot becomes needed. -/
theorem DiscardLog.Sound.setStatus (h : log.Sound status)
    (hassigned : ∀ slot ∈ log.slots, status' slot.xid ≠ none)
    (hunfilled : ∀ slot ∈ log.slots, slot.startUndoPtr = .invalid →
      status' slot.xid = some .inProgress)
    (hpinned : ∀ slot ∈ log.slots, slot.Pinned status' → slot.Pinned status) : log.Sound status' where
  __ := h
  assigned := hassigned
  unfilled := hunfilled
  passed := fun i slot hi hlt hp =>
    h.passed i slot hi hlt (hpinned slot (mem_of_getElem? hi) hp)

theorem getElem?_append_singleton {α : Type*} {l : List α} {a b : α} (h : (l ++ [a])[i]? = some b) :
    l[i]? = some b ∨ i = l.length ∧ b = a := by
  rcases Nat.lt_or_ge i l.length with hi | hi
  · rw [getElem?_append_left hi] at h
    exact .inl h
  · rw [getElem?_append_right hi, getElem?_singleton] at h
    split_ifs at h with h0
    exact .inr ⟨by omega, (Option.some.inj h).symm⟩

variable (h : log.Sound status)

include h

theorem DiscardLog.Sound.allocSlot (hrun : status xid = some .inProgress)
    (hnormal : firstNormalXid ≤ xid) (horder : ∀ slot ∈ log.slots, slot.xid ≤ xid) :
    (log.allocSlot xid).Sound status where
  sorted := by
    simp only [DiscardLog.allocSlot, map_append, map_cons, map_nil,
      pairwise_append, pairwise_singleton]
    refine ⟨h.sorted, trivial, ?_⟩
    simpa using horder
  normal := forall_mem_append.mpr ⟨h.normal, forall_mem_singleton.mpr hnormal⟩
  assigned := forall_mem_append.mpr ⟨h.assigned, forall_mem_singleton.mpr (by simp [hrun])⟩
  unfilled := forall_mem_append.mpr ⟨h.unfilled, forall_mem_singleton.mpr fun _ => hrun⟩
  recycle_le := by
    rw [DiscardLog.allocSlot, length_append]
    exact h.recycle_le.trans (Nat.le_add_right _ _)
  frozen_le := by
    rw [DiscardLog.allocSlot, length_append]
    exact h.frozen_le.trans (Nat.le_add_right _ _)
  passed := by
    intro i slot hi hlt
    rcases getElem?_append_singleton hi with hi | ⟨rfl, -⟩
    · exact h.passed i slot hi hlt
    · exact absurd (max_le h.frozen_le h.recycle_le) (not_le.mpr hlt)
  ends := forall_mem_append.mpr ⟨h.ends, forall_mem_singleton.mpr (Nat.zero_le _)⟩
  apart := by
    intro i j a b hij hi hj hb
    rcases getElem?_append_singleton hj with hj | ⟨-, rfl⟩
    · have hlt : j < log.slots.length := (List.getElem?_eq_some_iff.mp hj).1
      rcases getElem?_append_singleton hi with hi | ⟨rfl, -⟩
      · exact h.apart i j a b hij hi hj hb
      · omega
    · exact absurd rfl hb
  kept := by
    intro i slot hle hi hstart
    rcases getElem?_append_singleton hi with hi | ⟨-, rfl⟩
    · exact h.kept i slot hle hi hstart
    · exact absurd rfl hstart
  discard_le := h.discard_le
  force_le := h.force_le
  insert_pos := h.insert_pos
  unused := fun hu => by cases hu

variable (hi : log.slots[i]? = some slot)

include hi

/-- A slot is replaced by one of the same transaction that is not needed unless the old one was. -/
theorem DiscardLog.Sound.setSlot {new : UndoSlot} {insert : Nat}
    (hxid : new.xid = slot.xid)
    (hpinned : new.Pinned status → slot.Pinned status)
    (hunfilled : new.startUndoPtr = .invalid → slot.startUndoPtr = .invalid)
    (hinsert : log.insertOffset ≤ insert) (hend : new.endUndoPtr.offset ≤ insert)
    (hbehind : ∀ j b, i < j → log.slots[j]? = some b → new.endUndoPtr = slot.endUndoPtr)
    (hstart : new.startUndoPtr = slot.startUndoPtr ∨ log.insertOffset ≤ new.startUndoPtr.offset) :
    ({ log with slots := log.slots.set i new, insertOffset := insert } : DiscardLog).Sound status := by
  have hmem : slot ∈ log.slots := mem_of_getElem? hi
  -- what stands at an index now
  have hget : ∀ j b, (log.slots.set i new)[j]? = some b →
      i = j ∧ b = new ∨ i ≠ j ∧ log.slots[j]? = some b := by
    intro j b hj
    rw [getElem?_set] at hj
    split_ifs at hj with hij hlt
    · exact .inl ⟨hij, (Option.some.inj hj).symm⟩
    · exact .inr ⟨hij, hj⟩
  have hall : ∀ P : UndoSlot → Prop, (∀ s ∈ log.slots, P s) → P new →
      ∀ s ∈ log.slots.set i new, P s := by
    intro P hold hnew s hs
    rcases mem_or_eq_of_mem_set hs with hs | rfl
    · exact hold s hs
    · exact hnew
  constructor
  · rw [map_set, hxid]
    obtain ⟨hlt, heq⟩ := List.getElem?_eq_some_iff.mp hi
    rw [← map_set, ← heq, set_getElem_self]
    exact h.sorted
  · exact hall _ h.normal (hxid ▸ h.normal slot hmem)
  · exact hall _ h.assigned (hxid ▸ h.assigned slot hmem)
  · exact hall _ h.unfilled fun hinv => hxid ▸ h.unfilled slot hmem (hunfilled hinv)
  · simpa using h.recycle_le
  · simpa using h.frozen_le
  · intro j b hj hlt
    rcases hget j b hj with ⟨rfl, rfl⟩ | ⟨-, hj⟩
    · exact fun hp => h.passed i slot hi hlt (hpinned hp)
    · exact h.passed j b hj hlt
  · exact hall _ (fun s hs => (h.ends s hs).trans hinsert) hend
  · intro j k a b hjk hj hk hb
    rcases hget k b hk with ⟨rfl, rfl⟩ | ⟨-, hold⟩
    · rcases hget j a hj with ⟨rfl, -⟩ | ⟨-, hj⟩
      · omega
      · rcases hstart with hs | hs
        · rw [hs] at hb ⊢
          exact h.apart j i a slot hjk hj hi hb
        · exact (h.ends a (mem_of_getElem? hj)).trans hs
    · rcases hget j a hj with ⟨rfl, rfl⟩ | ⟨-, hj⟩
      · rw [hbehind k b hjk hold]
        exact h.apart i k slot b hjk hi hold hb
      · exact h.apart j k a b hjk hj hold hb
  · intro j b hle hj hb
    rcases hget j b hj with ⟨rfl, rfl⟩ | ⟨-, hj⟩
    · rcases hstart with hs | hs
      · rw [hs] at hb ⊢
        exact h.kept i slot hle hi hb
      · exact h.force_le.trans hs
    · exact h.kept j b hle hj hb
  · exact h.discard_le
  · exact h.force_le.trans hinsert
  · exact h.insert_pos.trans_le hinsert
  · simpa using h.unused

theorem DiscardLog.Sound.fillSlot {logno insert : Nat}
    (hlast : i + 1 = log.slots.length)
    (hinsert : log.insertOffset ≤ insert) : (log.fillSlot logno insert i slot).Sound status := by
  refine h.setSlot hi rfl (fun hp => hp) ?_ hinsert le_rfl ?_ ?_
  · intro hinv
    by_contra hne
    simp [UndoSlot.update, hne] at hinv
  · intro j b hij hj
    have := (List.getElem?_eq_some_iff.mp hj).1
    omega
  · unfold UndoSlot.update
    dsimp only
    split_ifs
    · exact .inr le_rfl
    · exact .inl rfl

theorem DiscardLog.Sound.finishRollback :
    (log.finishRollback i slot).Sound status := by
  refine h.setSlot hi rfl ?_ (fun hinv => hinv) le_rfl (h.ends slot (mem_of_getElem? hi))
    (fun _ _ _ _ => rfl) (.inl rfl)
  rintro (hp | ⟨-, hr⟩)
  · exact .inl hp
  · rw [canRollback_finished] at hr
    cases hr

end Writing

/-- The variables of a turn of `discard_worker_main`. -/
structure DiscardScan where
  idx : Nat
  oldestFrozenXidInUndo : Nat
  isAnyLogUsed : Bool
  recycleMaxXids : List Nat
  forceRecycleXid : Nat

inductive WorkerPhase where
  | waiting
  | scanning (scan : DiscardScan)
  | published (scan : DiscardScan)

structure DiscardWorker where
  oldestXmin : Nat
  phase : WorkerPhase
  lastForceAdvanceXid : Nat
  lastOldestXidHavingUndo : Nat

structure DiscardSystem where
  /-- The ids that have been assigned. -/
  xids : List Nat
  status : Nat → Option XactStatus
  logs : Nat → DiscardLog
  globalFrozenXid : Nat
  globalRecycleXid : Nat
  worker : DiscardWorker

inductive DiscardAct where
  | beginXact (xid : Nat)
  | allocSlot (xid logno : Nat)
  | fillSlot (xid logno insert : Nat)
  | endXact (xid : Nat) (commit : Bool)
  | finishRollback (logno i : Nat)
  /-- A checkpoint takes a full log, all of whose slots are recycled, out of the count. -/
  | freezeLog (logno : Nat)
  | restartWorker
  | startTurn (oldestXmin forceRecycleXid : Nat)
  | visitLog
  | publish
  | retry (forceRecycleXid : Nat)
  | endTurn

namespace DiscardSystem

variable (undologTotalCount : Nat) (s : DiscardSystem)

def env : DiscardEnv := ⟨s.status, s.globalFrozenXid, s.globalRecycleXid⟩

def setLog (logno : Nat) (log : DiscardLog) : DiscardSystem :=
  { s with logs := Function.update s.logs logno log }

/-- `undo_log_used_cout` is not zero. -/
def anyCounted : Bool := (List.range undologTotalCount).any fun l => (s.logs l).used

/-- One log of the loop: `advance_frozen_xid`, then `recycle_undo_space`. -/
def visit (scan : DiscardScan) : Except Panic (DiscardScan × DiscardLog) :=
  let log := s.logs scan.idx
  if log.needRecycle then
    (s.env.advanceFrozenXid log s.worker.oldestXmin).bind fun (frozenXid, log) =>
      (s.env.recycleUndoSpace log s.worker.oldestXmin frozenXid scan.forceRecycleXid).map
        fun (recycleXid, log) =>
          ({ scan with
              idx := scan.idx + 1
              isAnyLogUsed := true
              oldestFrozenXidInUndo := if frozenXid < scan.oldestFrozenXidInUndo then frozenXid
                else scan.oldestFrozenXidInUndo
              recycleMaxXids := if recycleXid = invalidXid then scan.recycleMaxXids
                else scan.recycleMaxXids ++ [recycleXid] }, log)
  else .ok ({ scan with idx := scan.idx + 1 }, log)

/-- No log is used: the horizon moves to an id that was the oldest running one in an earlier turn and
has committed since. It returns the horizon and `lastForceAdvanceXid`. -/
def forceAdvance : Nat × Nat :=
  let last := if firstNormalXid ≤ s.worker.lastForceAdvanceXid then s.worker.lastForceAdvanceXid
    else s.worker.oldestXmin
  if olderThanAllUndo s.globalFrozenXid last then (s.globalFrozenXid, invalidXid)
  else match s.status last with
    | some .aborted => (s.globalFrozenXid, invalidXid)
    | some .committed =>
      (if s.globalFrozenXid < last then last else s.globalFrozenXid, invalidXid)
    | _ => (s.globalFrozenXid, last)

/-- The update of `global_recycle_xid`. -/
def advanceRecycleXid (scan : DiscardScan) : DiscardSystem :=
  let oldest := updateHavingUndoXid scan.recycleMaxXids invalidXid
  if oldest ≠ invalidXid ∧ oldest ≠ s.worker.lastOldestXidHavingUndo then
    let bounded := if s.worker.oldestXmin < oldest then s.worker.oldestXmin else oldest
    { s with
      globalRecycleXid := if s.globalRecycleXid < bounded then bounded else s.globalRecycleXid
      worker := { s.worker with lastOldestXidHavingUndo := oldest } }
  else s

def setPhase (phase : WorkerPhase) : DiscardSystem :=
  { s with worker := { s.worker with phase := phase } }

def step : DiscardAct → Option DiscardSystem
  | .beginXact xid =>
    if s.status xid = none ∧ firstNormalXid ≤ xid ∧ s.worker.oldestXmin ≤ xid then
      some { s with xids := xid :: s.xids, status := Function.update s.status xid (some .inProgress) }
    else none
  | .allocSlot xid logno =>
    if logno < undologTotalCount ∧ s.status xid = some .inProgress ∧
        ∀ slot ∈ (s.logs logno).slots, slot.xid ≤ xid then
      some (s.setLog logno ((s.logs logno).allocSlot xid))
    else none
  | .fillSlot xid logno insert =>
    let log := s.logs logno
    match log.slots[log.slots.length - 1]? with
    | some slot =>
      if logno < undologTotalCount ∧ slot.xid = xid ∧ s.status xid = some .inProgress ∧
          log.insertOffset < insert then
        some (s.setLog logno (log.fillSlot logno insert (log.slots.length - 1) slot))
      else none
    | none => none
  | .endXact xid commit =>
    if s.status xid = some .inProgress ∧ ∀ l < undologTotalCount, ∀ slot ∈ (s.logs l).slots,
        slot.xid = xid → slot.startUndoPtr ≠ .invalid then
      some { s with
        status := Function.update s.status xid (some (if commit then .committed else .aborted)) }
    else none
  | .finishRollback logno i =>
    match (s.logs logno).slots[i]? with
    | some slot =>
      if logno < undologTotalCount ∧ s.status slot.xid = some .aborted ∧ slot.canRollback ∧
          s.globalRecycleXid ≤ slot.xid then
        some (s.setLog logno ((s.logs logno).finishRollback i slot))
      else none
    | none => none
  | .freezeLog logno =>
    if logno < undologTotalCount ∧ (s.logs logno).recycleSlot = (s.logs logno).slots.length then
      some (s.setLog logno { s.logs logno with used := false })
    else none
  | .restartWorker =>
    some { s with
      globalFrozenXid := if s.globalFrozenXid = invalidXid then s.globalRecycleXid
        else s.globalFrozenXid
      worker := ⟨s.worker.oldestXmin, .waiting, invalidXid, invalidXid⟩ }
  | .startTurn oldestXmin forceRecycleXid =>
    match s.worker.phase with
    | .waiting =>
      if s.worker.oldestXmin ≤ oldestXmin ∧
          ∀ xid ∈ s.xids, s.status xid = some .inProgress → oldestXmin ≤ xid then
        let s := { s with worker := { s.worker with oldestXmin := oldestXmin } }
        if oldestXmin = invalidXid ∨ oldestXmin < s.globalFrozenXid then some s
        else some (s.setPhase (.scanning
          ⟨if s.anyCounted undologTotalCount then 0 else undologTotalCount, oldestXmin, false, [],
            forceRecycleXid⟩))
      else none
    | _ => none
  | .visitLog =>
    match s.worker.phase with
    | .scanning scan =>
      if scan.idx < undologTotalCount then
        match s.visit scan with
        | .ok (scan', log) => some ((s.setLog scan.idx log).setPhase (.scanning scan'))
        | .error _ => none
      else none
    | _ => none
  | .publish =>
    match s.worker.phase with
    | .scanning scan =>
      if scan.idx = undologTotalCount then
        if scan.isAnyLogUsed then
          some ({ s with globalFrozenXid := scan.oldestFrozenXidInUndo }.setPhase (.published scan))
        else
          let (frozen, last) := s.forceAdvance
          some { s with
            globalFrozenXid := frozen
            worker := { s.worker with phase := .published scan, lastForceAdvanceXid := last } }
      else none
    | _ => none
  | .retry forceRecycleXid =>
    match s.worker.phase with
    | .published scan =>
      if s.anyCounted undologTotalCount then
        some (s.setPhase (.scanning
          { scan with
            idx := 0, isAnyLogUsed := false, recycleMaxXids := []
            forceRecycleXid := forceRecycleXid }))
      else none
    | _ => none
  | .endTurn =>
    match s.worker.phase with
    | .published scan =>
      some ((if s.anyCounted undologTotalCount then s.advanceRecycleXid scan else s).setPhase .waiting)
    | _ => none

/-- Empty logs and a horizon that no transaction is below. -/
def boot (globalFrozenXid : Nat) : DiscardSystem where
  xids := []
  status := fun _ => none
  logs := fun _ => ⟨[], 0, 0, invalidXid, undoLogBlockHeaderSize, undoLogBlockHeaderSize,
    undoLogBlockHeaderSize, false⟩
  globalFrozenXid := globalFrozenXid
  globalRecycleXid := invalidXid
  worker := ⟨globalFrozenXid, .waiting, invalidXid, invalidXid⟩

inductive Reached (s₀ : DiscardSystem) : DiscardSystem → Prop
  | start : Reached s₀ s₀
  | step {s s' : DiscardSystem} {a : DiscardAct} (hs : Reached s₀ s)
      (h : s.step undologTotalCount a = some s') : Reached s₀ s'

def run : List DiscardAct → DiscardSystem → Option DiscardSystem
  | [], s => some s
  | a :: acts, s => (s.step undologTotalCount a).bind (run acts)

/-- The worker goes over the logs once more in one turn only while the horizon is not above the minimum
that it has kept from its earlier passes. -/
def RetryInOrder : DiscardAct → Prop
  | .retry _ => ∀ scan, s.worker.phase = .published scan →
      s.globalFrozenXid ≤ scan.oldestFrozenXidInUndo
  | _ => True

inductive ReachedInOrder (s₀ : DiscardSystem) : DiscardSystem → Prop
  | start : ReachedInOrder s₀ s₀
  | step {s s' : DiscardSystem} {a : DiscardAct} (hs : ReachedInOrder s₀ s) (ha : s.RetryInOrder a)
      (h : s.step undologTotalCount a = some s') : ReachedInOrder s₀ s'

/-- The undo of a slot that is needed is neither discarded nor discarded by force, and its id is not
below the published horizon. -/
def KeepsNeededUndo : Prop :=
  ∀ l < undologTotalCount, ∀ (i : Nat) (slot : UndoSlot), (s.logs l).slots[i]? = some slot →
    slot.Pinned s.status →
      (s.logs l).recycleSlot ≤ i ∧
      (slot.startUndoPtr ≠ .invalid → (s.logs l).discardOffset ≤ slot.startUndoPtr.offset ∧
        (s.logs l).forceDiscardOffset ≤ slot.startUndoPtr.offset) ∧
      s.globalFrozenXid ≤ slot.xid

def PinnedXid (l xid : Nat) : Prop :=
  ∃ slot ∈ (s.logs l).slots, slot.xid = xid ∧ slot.Pinned s.status

structure ScanSound (scan : DiscardScan) : Prop where
  frozen_pos : 0 < scan.oldestFrozenXidInUndo
  frozen_le : scan.oldestFrozenXidInUndo ≤ s.worker.oldestXmin
  visited : ∀ l < undologTotalCount, l < scan.idx → ∀ xid, s.PinnedXid l xid →
    scan.oldestFrozenXidInUndo ≤ xid ∧ (scan.isAnyLogUsed = false → s.worker.oldestXmin ≤ xid)
  recycled : scan.recycleMaxXids ≠ [] → scan.isAnyLogUsed = true

structure Sound : Prop where
  known : ∀ xid, s.status xid ≠ none → xid ∈ s.xids ∧ firstNormalXid ≤ xid
  logs : ∀ l < undologTotalCount, (s.logs l).Sound s.status
  running : ∀ xid, s.status xid = some .inProgress → s.worker.oldestXmin ≤ xid
  frozen_le : s.globalFrozenXid ≤ s.worker.oldestXmin
  pinned : ∀ l < undologTotalCount, ∀ xid, s.PinnedXid l xid → s.globalFrozenXid ≤ xid
  last_le : s.worker.lastForceAdvanceXid ≤ s.worker.oldestXmin
  unset : s.globalFrozenXid = invalidXid → s.globalRecycleXid = invalidXid
  scanning : ∀ scan, s.worker.phase = .scanning scan → s.ScanSound undologTotalCount scan
  published : ∀ scan, s.worker.phase = .published scan → s.ScanSound undologTotalCount scan ∧
    (scan.isAnyLogUsed = true → 0 < s.globalFrozenXid)

section Steps

variable {n : Nat} {s s' : DiscardSystem} {l xid : Nat} {log : DiscardLog} {scan scan' : DiscardScan}
  {slot : UndoSlot} {globalFrozenXid : Nat} {s₀ : DiscardSystem}

theorem ScanSound.of_pinned (h : s.ScanSound n scan)
    (hw : s'.worker = s.worker) (hpin : ∀ l < n, ∀ xid, s'.PinnedXid l xid →
      s.PinnedXid l xid ∨ s.worker.oldestXmin ≤ xid) : s'.ScanSound n scan where
  frozen_pos := h.frozen_pos
  frozen_le := hw ▸ h.frozen_le
  visited := by
    intro l hl hidx xid hp
    rw [hw]
    rcases hpin l hl xid hp with hp | hle
    · exact h.visited l hl hidx xid hp
    · exact ⟨h.frozen_le.trans hle, fun _ => hle⟩
  recycled := h.recycled

section

variable (h : s.Sound n)

include h

/-- A step of a transaction: every slot that is needed afterwards was needed before or belongs to a
transaction that the worker takes for a running one. -/
theorem Sound.writes (hw : s'.worker = s.worker)
    (hf : s'.globalFrozenXid = s.globalFrozenXid) (hr : s'.globalRecycleXid = s.globalRecycleXid)
    (hknown : ∀ xid, s'.status xid ≠ none → xid ∈ s'.xids ∧ firstNormalXid ≤ xid)
    (hlogs : ∀ l < n, (s'.logs l).Sound s'.status)
    (hrun : ∀ xid, s'.status xid = some .inProgress → s.worker.oldestXmin ≤ xid)
    (hpin : ∀ l < n, ∀ xid, s'.PinnedXid l xid →
      s.PinnedXid l xid ∨ s.worker.oldestXmin ≤ xid) : s'.Sound n where
  known := hknown
  logs := hlogs
  running := hw ▸ hrun
  frozen_le := by rw [hf, hw]; exact h.frozen_le
  pinned := by
    intro l hl xid hp
    rw [hf]
    rcases hpin l hl xid hp with hp | hle
    · exact h.pinned l hl xid hp
    · exact h.frozen_le.trans hle
  last_le := hw ▸ h.last_le
  unset := by rw [hf, hr]; exact h.unset
  scanning := fun scan hscan => (h.scanning scan (hw ▸ hscan)).of_pinned hw hpin
  published := by
    intro scan hscan
    obtain ⟨hs, hpos⟩ := h.published scan (hw ▸ hscan)
    exact ⟨hs.of_pinned hw hpin, hf ▸ hpos⟩

theorem Sound.setLog (hlog : log.Sound s.status)
    (hpin : ∀ slot ∈ log.slots, slot.Pinned s.status →
      s.PinnedXid l slot.xid ∨ s.worker.oldestXmin ≤ slot.xid) :
    (s.setLog l log).Sound n := by
  refine h.writes rfl rfl rfl h.known ?_ h.running ?_
  · intro l' hl'
    simp only [DiscardSystem.setLog, update_apply]
    split_ifs
    · exact hlog
    · exact h.logs l' hl'
  · rintro l' hl' xid ⟨slot, hslot, rfl, hp⟩
    simp only [DiscardSystem.setLog, update_apply] at hslot hp
    split_ifs at hslot with heq
    · exact heq ▸ hpin slot hslot hp
    · exact .inl ⟨slot, hslot, rfl, hp⟩

/-- An id changes its state, and no slot becomes needed by that. -/
theorem Sound.setStatus {status : Nat → Option XactStatus} {xids : List Nat}
    (hknown : ∀ xid, status xid ≠ none → xid ∈ xids ∧ firstNormalXid ≤ xid)
    (hassigned : ∀ xid, s.status xid ≠ none → status xid ≠ none)
    (hunfilled : ∀ l < n, ∀ slot ∈ (s.logs l).slots,
      slot.startUndoPtr = .invalid → status slot.xid = some .inProgress)
    (hrun : ∀ xid, status xid = some .inProgress → s.worker.oldestXmin ≤ xid)
    (hpin : ∀ l < n, ∀ slot ∈ (s.logs l).slots, slot.Pinned status →
      slot.Pinned s.status) :
    Sound n { s with status := status, xids := xids } := by
  refine h.writes rfl rfl rfl hknown ?_ hrun ?_
  · intro l hl
    exact (h.logs l hl).setStatus
      (fun slot hslot => hassigned _ ((h.logs l hl).assigned slot hslot)) (hunfilled l hl) (hpin l hl)
  · rintro l hl xid ⟨slot, hslot, rfl, hp⟩
    exact .inl ⟨slot, hslot, rfl, hpin l hl slot hslot hp⟩

theorem Sound.beginXact (hnew : s.status xid = none)
    (hnormal : firstNormalXid ≤ xid) (hle : s.worker.oldestXmin ≤ xid) :
    Sound n
      { s with
        xids := xid :: s.xids, status := Function.update s.status xid (some .inProgress) } := by
  -- no slot belongs to an id that was not assigned
  have hother : ∀ l < n, ∀ slot ∈ (s.logs l).slots,
      Function.update s.status xid (some .inProgress) slot.xid = s.status slot.xid := by
    intro l hl slot hslot
    refine update_of_ne ?_ _ _
    rintro rfl
    exact (h.logs l hl).assigned slot hslot hnew
  apply h.setStatus
  · have hknown := h.known
    grind
  · grind
  · intro l hl slot hslot hinv
    rw [hother l hl slot hslot]
    exact (h.logs l hl).unfilled slot hslot hinv
  · have hrunning := h.running
    grind
  · intro l hl slot hslot hp
    rwa [UndoSlot.Pinned, hother l hl slot hslot] at hp

theorem Sound.endXact {st : XactStatus}
    (hrun : s.status xid = some .inProgress)
    (hfilled : ∀ l < n, ∀ slot ∈ (s.logs l).slots, slot.xid = xid →
      slot.startUndoPtr ≠ .invalid) :
    Sound n { s with status := Function.update s.status xid (some st) } := by
  apply h.setStatus
  · have hknown := h.known
    grind
  · grind
  · intro l hl slot hslot hinv
    have hne : slot.xid ≠ xid := fun he => hfilled l hl slot hslot he hinv
    rw [update_of_ne hne]
    exact (h.logs l hl).unfilled slot hslot hinv
  · have hrunning := h.running
    grind
  · intro l hl slot hslot hp
    by_cases hxx : slot.xid = xid
    · exact .inl (hxx ▸ hrun)
    · rwa [UndoSlot.Pinned, update_of_ne hxx] at hp

theorem Sound.bounds (hl : l < n) :
    s.env.Bounds s.worker.oldestXmin (s.logs l).slots where
  running := h.running
  frozen_le := h.frozen_le
  pinned := fun slot hslot hp => h.pinned l hl slot.xid ⟨slot, hslot, rfl, hp⟩

theorem Sound.not_pinned (hl : l < n)
    (hall : (s.logs l).recycleSlot = (s.logs l).slots.length) (xid : Nat) : ¬ s.PinnedXid l xid := by
  rintro ⟨slot, hslot, -, hp⟩
  obtain ⟨i, hi⟩ := mem_iff_getElem?.mp hslot
  have hlt := (List.getElem?_eq_some_iff.mp hi).1
  exact (h.logs l hl).passed i slot hi (by omega) hp

theorem Sound.visit
    (hl : scan.idx < n) (hv : s.visit scan = .ok (scan', log)) :
    log.Sound s.status ∧ log.slots = (s.logs scan.idx).slots ∧ scan'.idx = scan.idx + 1 ∧
      scan'.oldestFrozenXidInUndo ≤ scan.oldestFrozenXidInUndo ∧
      (scan'.isAnyLogUsed = false → scan.isAnyLogUsed = false ∧ ∀ xid, ¬ s.PinnedXid scan.idx xid) ∧
      (scan'.oldestFrozenXidInUndo = scan.oldestFrozenXidInUndo ∨
        scan'.oldestFrozenXidInUndo = s.worker.oldestXmin ∨
        s.PinnedXid scan.idx scan'.oldestFrozenXidInUndo) ∧
      (∀ xid, s.PinnedXid scan.idx xid → scan'.oldestFrozenXidInUndo ≤ xid) ∧
      (scan'.recycleMaxXids ≠ [] → scan'.isAnyLogUsed = true ∨ scan.recycleMaxXids ≠ []) := by
  unfold DiscardSystem.visit at hv
  dsimp only at hv
  split at hv
  case isTrue =>
    obtain ⟨⟨frozenXid, log₁⟩, hadv, hv⟩ := bind_ok hv
    obtain ⟨⟨recycleXid, log₂⟩, hrec, hv⟩ := map_ok hv
    obtain ⟨rfl, rfl⟩ := Prod.mk.inj hv
    have hb := h.bounds hl
    obtain ⟨hs₁, hslots₁, hle, hfound, hall⟩ := advanceFrozenXid_spec (h.logs _ hl) hb hadv
    obtain ⟨hs₂, hslots₂⟩ := recycleUndoSpace_spec hs₁ (hslots₁ ▸ hb) (hslots₁ ▸ hall) hrec
    refine ⟨hs₂, hslots₂.trans hslots₁, rfl, ?_, ?_, ?_, ?_, fun _ => .inl rfl⟩
    · dsimp only
      split_ifs <;> omega
    · intro hu
      cases hu
    · dsimp only
      split_ifs with hlt
      · rcases hfound with rfl | ⟨slot, hslot, rfl, hp⟩
        · exact .inr (.inl rfl)
        · exact .inr (.inr ⟨slot, hslot, rfl, hp⟩)
      · exact .inl rfl
    · rintro xid ⟨slot, hslot, rfl, hp⟩
      have := hall slot hslot hp
      dsimp only
      split_ifs <;> omega
  case isFalse hneed =>
    obtain ⟨rfl, rfl⟩ := Prod.mk.inj (Except.ok.inj hv)
    have hnone : ∀ xid, ¬ s.PinnedXid scan.idx xid := by
      refine h.not_pinned hl ?_
      have := (h.logs _ hl).recycle_le
      simp only [DiscardLog.needRecycle, decide_eq_true_eq] at hneed
      omega
    exact ⟨h.logs _ hl, rfl, rfl, le_rfl, fun hu => ⟨hu, hnone⟩, .inl rfl,
      fun xid hp => absurd hp (hnone xid), .inr⟩

end

theorem pinnedXid_setLog {l' xid : Nat} (hslots : log.slots = (s.logs l).slots) :
    (s.setLog l log).PinnedXid l' xid ↔ s.PinnedXid l' xid := by
  have hsame : ((s.setLog l log).logs l').slots = (s.logs l').slots := by
    simp only [DiscardSystem.setLog, update_apply]
    split_ifs with heq
    · rw [heq, hslots]
    · rfl
  simp only [PinnedXid, hsame]
  rfl

section

variable (h : s.Sound n)

include h

theorem Sound.visitLog
    (hphase : s.worker.phase = .scanning scan) (hl : scan.idx < n)
    (hv : s.visit scan = .ok (scan', log)) :
    ((s.setLog scan.idx log).setPhase (.scanning scan')).Sound n := by
  obtain ⟨hlog, hslots, hidx, hle, hunused, hfrom, hall, hrec⟩ := h.visit hl hv
  have hscan := h.scanning scan hphase
  have hset : (s.setLog scan.idx log).Sound n := by
    refine h.setLog hlog fun slot hslot hp => .inl ⟨slot, hslots ▸ hslot, rfl, hp⟩
  refine ⟨hset.known, hset.logs, hset.running, hset.frozen_le, hset.pinned, hset.last_le, hset.unset,
    ?_, ?_⟩
  · rintro _ ⟨⟩
    constructor
    · rcases hfrom with he | he | ⟨slot, hslot, he, -⟩
      · exact he ▸ hscan.frozen_pos
      · exact he ▸ hscan.frozen_pos.trans_le hscan.frozen_le
      · have hn := (h.logs _ hl).normal slot hslot
        simp only [firstNormalXid] at hn
        omega
    · exact hle.trans hscan.frozen_le
    · intro l hl' hlt xid hp
      replace hp : s.PinnedXid l xid := (pinnedXid_setLog hslots).mp hp
      by_cases heq : l = scan.idx
      · subst heq
        exact ⟨hall xid hp, fun hu => absurd hp ((hunused hu).2 xid)⟩
      · obtain ⟨h₁, h₂⟩ := hscan.visited l hl' (by omega) xid hp
        exact ⟨hle.trans h₁, fun hu => h₂ (hunused hu).1⟩
    · intro hne
      rcases hrec hne with hu | hold
      · exact hu
      · by_contra hu
        have := hscan.recycled hold
        simp [(hunused (by simpa using hu)).1] at this
  · rintro _ ⟨⟩

theorem Sound.startTurn {oldestXmin : Nat}
    (hphase : s.worker.phase = .waiting) (hle : s.worker.oldestXmin ≤ oldestXmin)
    (hrun : ∀ xid ∈ s.xids, s.status xid = some .inProgress → oldestXmin ≤ xid) :
    Sound n { s with worker := { s.worker with oldestXmin := oldestXmin } } where
  known := h.known
  logs := h.logs
  running := fun xid hx => hrun xid (h.known xid (ne_none_iff_exists'.mpr ⟨_, hx⟩)).1 hx
  frozen_le := h.frozen_le.trans hle
  pinned := h.pinned
  last_le := h.last_le.trans hle
  unset := h.unset
  scanning := fun scan hs => by rw [hphase] at hs; cases hs
  published := fun scan hs => by rw [hphase] at hs; cases hs

theorem Sound.setPhase {phase : WorkerPhase}
    (hscan : ∀ scan, phase = .scanning scan → s.ScanSound n scan)
    (hpub : ∀ scan, phase = .published scan → s.ScanSound n scan ∧
      (scan.isAnyLogUsed = true → 0 < s.globalFrozenXid)) :
    (s.setPhase phase).Sound n :=
  ⟨h.known, h.logs, h.running, h.frozen_le, h.pinned, h.last_le, h.unset,
    fun scan hs => ⟨(hscan scan hs).frozen_pos, (hscan scan hs).frozen_le, (hscan scan hs).visited,
      (hscan scan hs).recycled⟩,
    fun scan hs => ⟨⟨(hpub scan hs).1.frozen_pos, (hpub scan hs).1.frozen_le,
      (hpub scan hs).1.visited, (hpub scan hs).1.recycled⟩, (hpub scan hs).2⟩⟩

theorem Sound.not_pinned_of_not_counted
    (hc : s.anyCounted n = false) (hl : l < n) (xid : Nat) :
    ¬ s.PinnedXid l xid := by
  refine h.not_pinned hl ((h.logs l hl).unused ?_) xid
  simpa using any_eq_false.mp hc l (List.mem_range.mpr hl)

theorem Sound.firstScan {forceRecycleXid : Nat}
    (hpos : s.worker.oldestXmin ≠ invalidXid) :
    s.ScanSound n ⟨if s.anyCounted n then 0 else n,
      s.worker.oldestXmin, false, [], forceRecycleXid⟩ where
  frozen_pos := Nat.pos_of_ne_zero hpos
  frozen_le := le_rfl
  visited := by
    intro l hl hlt xid hp
    dsimp only at hlt
    split_ifs at hlt with hc
    · omega
    · exact absurd hp (h.not_pinned_of_not_counted (by simpa using hc) hl xid)
  recycled := fun hne => absurd rfl hne

/-- The horizon after a turn over unused logs is not smaller, and not above what the turn knows of the
oldest running id. -/
theorem Sound.forceAdvance :
    s.globalFrozenXid ≤ s.forceAdvance.1 ∧ s.forceAdvance.1 ≤ s.worker.oldestXmin ∧
      s.forceAdvance.2 ≤ s.worker.oldestXmin := by
  have hfrozen := h.frozen_le
  have hlast : (if firstNormalXid ≤ s.worker.lastForceAdvanceXid then s.worker.lastForceAdvanceXid
      else s.worker.oldestXmin) ≤ s.worker.oldestXmin := by
    have := h.last_le
    split_ifs <;> omega
  have hzero : invalidXid ≤ s.worker.oldestXmin := Nat.zero_le _
  unfold DiscardSystem.forceAdvance
  dsimp only
  generalize (if firstNormalXid ≤ s.worker.lastForceAdvanceXid then s.worker.lastForceAdvanceXid
    else s.worker.oldestXmin) = last at hlast ⊢
  split
  · exact ⟨le_rfl, hfrozen, hzero⟩
  · split
    · exact ⟨le_rfl, hfrozen, hzero⟩
    · refine ⟨?_, ?_, hzero⟩
      · split <;> omega
      · split <;> omega
    · exact ⟨le_rfl, hfrozen, hlast⟩

theorem Sound.publish {frozen last : Nat}
    (hscan : s.ScanSound n scan) (hle : frozen ≤ s.worker.oldestXmin)
    (hlast : last ≤ s.worker.oldestXmin)
    (hpin : ∀ l < n, ∀ xid, s.PinnedXid l xid → frozen ≤ xid)
    (hunset : frozen = invalidXid → s.globalFrozenXid = invalidXid)
    (hpos : scan.isAnyLogUsed = true → 0 < frozen) :
    Sound n
      { s with
        globalFrozenXid := frozen
        worker := { s.worker with phase := .published scan, lastForceAdvanceXid := last } } where
  known := h.known
  logs := h.logs
  running := h.running
  frozen_le := hle
  pinned := hpin
  last_le := hlast
  unset := fun he => h.unset (hunset he)
  scanning := fun scan hs => by cases hs
  published := by
    rintro _ ⟨⟩
    exact ⟨⟨hscan.frozen_pos, hscan.frozen_le, hscan.visited, hscan.recycled⟩, hpos⟩

/-- `global_recycle_xid` is set only after the horizon is. -/
theorem Sound.advanceRecycleXid
    (hpub : s.worker.phase = .published scan) :
    (s.advanceRecycleXid scan).Sound n := by
  unfold DiscardSystem.advanceRecycleXid
  dsimp only
  split
  case isFalse => exact h
  case isTrue hne =>
    obtain ⟨hscan, hpos⟩ := h.published scan hpub
    have hfrozen : 0 < s.globalFrozenXid := by
      refine hpos (hscan.recycled fun hnil => hne.1 ?_)
      rw [hnil]
      rfl
    refine ⟨h.known, h.logs, h.running, h.frozen_le, h.pinned, h.last_le, ?_, ?_, ?_⟩
    · intro he
      exact absurd he (Nat.pos_iff_ne_zero.mp hfrozen)
    · intro scan' hs
      rw [hpub] at hs
      cases hs
    · intro scan' hs
      obtain ⟨hs', hp'⟩ := h.published scan' hs
      exact ⟨⟨hs'.frozen_pos, hs'.frozen_le, hs'.visited, hs'.recycled⟩, hp'⟩

theorem Sound.freezeLog (hl : l < n)
    (hall : (s.logs l).recycleSlot = (s.logs l).slots.length) :
    (s.setLog l { s.logs l with used := false }).Sound n := by
  refine h.setLog { h.logs l hl with unused := fun _ => hall } fun slot hslot hp => ?_
  exact .inl ⟨slot, hslot, rfl, hp⟩

theorem Sound.restartWorker :
    Sound n
      { s with
        globalFrozenXid := if s.globalFrozenXid = invalidXid then s.globalRecycleXid
          else s.globalFrozenXid
        worker := ⟨s.worker.oldestXmin, .waiting, invalidXid, invalidXid⟩ } := by
  have hsame : (if s.globalFrozenXid = invalidXid then s.globalRecycleXid else s.globalFrozenXid) =
      s.globalFrozenXid := by
    split_ifs with h0
    · rw [h.unset h0, h0]
    · rfl
  rw [hsame]
  exact ⟨h.known, h.logs, h.running, h.frozen_le, h.pinned, Nat.zero_le _, h.unset,
    fun scan hs => (by cases hs), fun scan hs => (by cases hs)⟩

end

theorem Sound.boot (globalFrozenXid : Nat) : (boot globalFrozenXid).Sound n where
  known := fun xid hx => absurd rfl hx
  logs := by
    intro l _
    constructor <;> simp [DiscardSystem.boot, undoLogBlockHeaderSize]
  running := fun xid hx => by cases hx
  frozen_le := le_rfl
  pinned := by
    rintro l _ xid ⟨slot, hslot, -⟩
    cases hslot
  last_le := Nat.zero_le _
  unset := fun _ => rfl
  scanning := fun scan hs => by cases hs
  published := fun scan hs => by cases hs

theorem Sound.allocSlot (h : s.Sound n) (hl : l < n)
    (hrun : s.status xid = some .inProgress) (horder : ∀ slot ∈ (s.logs l).slots, slot.xid ≤ xid) :
    (s.setLog l ((s.logs l).allocSlot xid)).Sound n := by
  have hnormal := (h.known xid (ne_none_iff_exists'.mpr ⟨_, hrun⟩)).2
  refine h.setLog ((h.logs l hl).allocSlot hrun hnormal horder) fun slot hslot hp => ?_
  rcases mem_append.mp hslot with hslot | hslot
  · exact .inl ⟨slot, hslot, rfl, hp⟩
  · rw [mem_singleton.mp hslot]
    exact .inr (h.running xid hrun)

theorem Sound.fillSlot {insert i : Nat} (h : s.Sound n)
    (hl : l < n) (hi : (s.logs l).slots[i]? = some slot)
    (hlast : i + 1 = (s.logs l).slots.length) (hinsert : (s.logs l).insertOffset ≤ insert) :
    (s.setLog l ((s.logs l).fillSlot l insert i slot)).Sound n := by
  refine h.setLog ((h.logs l hl).fillSlot hi hlast hinsert) fun slot' hslot' hp => ?_
  rcases mem_or_eq_of_mem_set hslot' with hold | rfl
  · exact .inl ⟨slot', hold, rfl, hp⟩
  · exact .inl ⟨slot, mem_of_getElem? hi, rfl, hp⟩

theorem Sound.finishRollback {i : Nat} (h : s.Sound n)
    (hl : l < n) (hi : (s.logs l).slots[i]? = some slot)
    (hab : s.status slot.xid = some .aborted) :
    (s.setLog l ((s.logs l).finishRollback i slot)).Sound n := by
  refine h.setLog ((h.logs l hl).finishRollback hi) fun slot' hslot' hp => ?_
  rcases mem_or_eq_of_mem_set hslot' with hold | rfl
  · exact .inl ⟨slot', hold, rfl, hp⟩
  · rcases hp with hrun | ⟨-, hcan⟩
    · simp [hab] at hrun
    · simp [canRollback_finished] at hcan

/-- The minimum of a pass over the logs is not below the horizon. -/
def Rising (s : DiscardSystem) : Prop :=
  ∀ scan, s.worker.phase = .scanning scan → s.globalFrozenXid ≤ scan.oldestFrozenXidInUndo

theorem Rising.of_eq (h : s.Rising) (hf : s'.globalFrozenXid = s.globalFrozenXid)
    (hw : s'.worker = s.worker) : s.globalFrozenXid ≤ s'.globalFrozenXid ∧ s'.Rising := by
  refine ⟨hf.ge, fun scan hscan => ?_⟩
  rw [hf]
  exact h scan (hw ▸ hscan)

theorem globalFrozenXid_advanceRecycleXid (scan : DiscardScan) :
    (s.advanceRecycleXid scan).globalFrozenXid = s.globalFrozenXid := by
  unfold DiscardSystem.advanceRecycleXid
  dsimp only
  split_ifs <;> rfl

/-- A step keeps what the worker relies on, and the horizon rises with a step in order. -/
theorem Sound.step {a : DiscardAct} (h : s.Sound n) (hs : s.step n a = some s') :
    s'.Sound n ∧ (s.Rising → s.RetryInOrder a → s.globalFrozenXid ≤ s'.globalFrozenXid ∧ s'.Rising) := by
  cases a with
  | beginXact xid =>
    simp only [DiscardSystem.step, ite_none_right_eq_some, Option.some.injEq] at hs
    obtain ⟨⟨hnew, hnormal, hle⟩, rfl⟩ := hs
    exact ⟨h.beginXact hnew hnormal hle, fun hr _ => hr.of_eq rfl rfl⟩
  | allocSlot xid logno =>
    simp only [DiscardSystem.step, ite_none_right_eq_some, Option.some.injEq] at hs
    obtain ⟨⟨hl, hrun, horder⟩, rfl⟩ := hs
    exact ⟨h.allocSlot hl hrun horder, fun hr _ => hr.of_eq rfl rfl⟩
  | fillSlot xid logno insert =>
    simp only [DiscardSystem.step] at hs
    split at hs
    case h_1 slot hi =>
      simp only [ite_none_right_eq_some, Option.some.injEq] at hs
      obtain ⟨⟨hl, -, -, hinsert⟩, rfl⟩ := hs
      have := (List.getElem?_eq_some_iff.mp hi).1
      exact ⟨h.fillSlot hl hi (by omega) hinsert.le, fun hr _ => hr.of_eq rfl rfl⟩
    case h_2 => cases hs
  | endXact xid commit =>
    simp only [DiscardSystem.step, ite_none_right_eq_some, Option.some.injEq] at hs
    obtain ⟨⟨hrun, hfilled⟩, rfl⟩ := hs
    exact ⟨h.endXact hrun hfilled, fun hr _ => hr.of_eq rfl rfl⟩
  | finishRollback logno i =>
    simp only [DiscardSystem.step] at hs
    split at hs
    case h_1 slot hi =>
      simp only [ite_none_right_eq_some, Option.some.injEq] at hs
      obtain ⟨⟨hl, hab, -, -⟩, rfl⟩ := hs
      exact ⟨h.finishRollback hl hi hab, fun hr _ => hr.of_eq rfl rfl⟩
    case h_2 => cases hs
  | freezeLog logno =>
    simp only [DiscardSystem.step, ite_none_right_eq_some, Option.some.injEq] at hs
    obtain ⟨⟨hl, hall⟩, rfl⟩ := hs
    exact ⟨h.freezeLog hl hall, fun hr _ => hr.of_eq rfl rfl⟩
  | restartWorker =>
    obtain rfl := Option.some.inj hs
    refine ⟨h.restartWorker, fun _ _ => ⟨?_, fun scan hscan => by cases hscan⟩⟩
    dsimp only
    split_ifs with h0
    · exact h0.le.trans (Nat.zero_le _)
    · exact le_rfl
  | startTurn oldestXmin forceRecycleXid =>
    simp only [DiscardSystem.step] at hs
    split at hs
    case h_1 hphase =>
      simp only [ite_none_right_eq_some] at hs
      obtain ⟨⟨hle, hrun⟩, hs⟩ := hs
      have hturn := h.startTurn hphase hle hrun
      split at hs
      case isTrue =>
        obtain rfl := Option.some.inj hs
        exact ⟨hturn, fun hr _ => ⟨le_rfl, fun scan hscan => hr scan hscan⟩⟩
      case isFalse hgo =>
        obtain rfl := Option.some.inj hs
        refine ⟨hturn.setPhase ?_ nofun, fun _ _ => ⟨le_rfl, ?_⟩⟩
        · rintro _ ⟨⟩
          exact hturn.firstScan fun h0 => hgo (.inl h0)
        · rintro _ ⟨⟩
          exact not_lt.mp fun hlt => hgo (.inr hlt)
    case h_2 => cases hs
  | visitLog =>
    simp only [DiscardSystem.step] at hs
    split at hs
    case h_1 scan hphase =>
      simp only [ite_none_right_eq_some] at hs
      obtain ⟨hl, hs⟩ := hs
      split at hs
      case h_1 scan' log hv =>
        obtain rfl := Option.some.inj hs
        obtain ⟨-, -, -, -, -, hfrom, -, -⟩ := h.visit hl hv
        refine ⟨h.visitLog hphase hl hv, fun hr _ => ⟨le_rfl, ?_⟩⟩
        rintro _ ⟨⟩
        -- the minimum is the old one, the turn's oldest running id or the id of a needed slot
        rcases hfrom with he | he | hp
        · exact he ▸ hr scan hphase
        · exact he ▸ h.frozen_le
        · exact h.pinned _ hl _ hp
      case h_2 => cases hs
    case h_2 => cases hs
  | publish =>
    simp only [DiscardSystem.step] at hs
    split at hs
    case h_1 scan hphase =>
      simp only [ite_none_right_eq_some] at hs
      obtain ⟨hidx, hs⟩ := hs
      have hscan := h.scanning scan hphase
      split at hs
      case isTrue =>
        obtain rfl := Option.some.inj hs
        refine ⟨h.publish hscan hscan.frozen_le h.last_le ?_ ?_ fun _ => hscan.frozen_pos,
          fun hr _ => ⟨hr scan hphase, nofun⟩⟩
        · exact fun l hl xid hp => (hscan.visited l hl (hidx ▸ hl) xid hp).1
        · exact fun h0 => absurd h0 (Nat.pos_iff_ne_zero.mp hscan.frozen_pos)
      case isFalse hunused =>
        obtain rfl := Option.some.inj hs
        obtain ⟨hrise, hle, hlast⟩ := h.forceAdvance
        refine ⟨h.publish hscan hle hlast ?_ ?_ fun hu => absurd hu hunused, fun _ _ => ⟨hrise, nofun⟩⟩
        · exact fun l hl xid hp =>
            hle.trans ((hscan.visited l hl (hidx ▸ hl) xid hp).2 (by simpa using hunused))
        · exact fun h0 => Nat.le_zero.mp (hrise.trans h0.le)
    case h_2 => cases hs
  | retry forceRecycleXid =>
    simp only [DiscardSystem.step] at hs
    split at hs
    case h_1 scan hphase =>
      simp only [ite_none_right_eq_some, Option.some.injEq] at hs
      obtain ⟨-, rfl⟩ := hs
      obtain ⟨hscan, -⟩ := h.published scan hphase
      refine ⟨h.setPhase ?_ nofun, fun _ ha => ⟨le_rfl, ?_⟩⟩
      · rintro _ ⟨⟩
        exact ⟨hscan.frozen_pos, hscan.frozen_le, fun l _ hlt => absurd hlt (Nat.not_lt_zero l),
          fun hne => absurd rfl hne⟩
      · rintro _ ⟨⟩
        exact ha scan hphase
    case h_2 => cases hs
  | endTurn =>
    simp only [DiscardSystem.step] at hs
    split at hs
    case h_1 scan hphase =>
      obtain rfl := Option.some.inj hs
      split_ifs
      · exact ⟨(h.advanceRecycleXid hphase).setPhase nofun nofun,
          fun _ _ => ⟨(globalFrozenXid_advanceRecycleXid scan).ge, nofun⟩⟩
      · exact ⟨h.setPhase nofun nofun, fun _ _ => ⟨le_rfl, nofun⟩⟩
    case h_2 => cases hs

theorem Reached.run {acts : List DiscardAct} (h : Reached n s₀ s)
    (hrun : DiscardSystem.run n acts s = some s') :
    Reached n s₀ s' := by
  induction acts generalizing s with
  | nil => exact Option.some.inj hrun ▸ h
  | cons a acts ih =>
    obtain ⟨s₁, hs₁, hrun⟩ := bind_eq_some_iff.mp hrun
    exact ih (h.step hs₁) hrun

theorem Sound.of_reached
    (h : Reached n (DiscardSystem.boot globalFrozenXid) s) :
    s.Sound n := by
  induction h with
  | start => exact Sound.boot globalFrozenXid
  | step _ hs ih => exact (ih.step hs).1

theorem Sound.keepsNeededUndo (h : s.Sound n) :
    s.KeepsNeededUndo n := by
  intro l hl i slot hi hp
  have hlog := h.logs l hl
  have hle : (s.logs l).recycleSlot ≤ i := by
    by_contra hlt
    exact hlog.passed i slot hi ((not_le.mp hlt).trans_le (Nat.le_max_right _ _)) hp
  refine ⟨hle, fun hstart => ?_, h.pinned l hl slot.xid ⟨slot, mem_of_getElem? hi, rfl, hp⟩⟩
  have hkept := hlog.kept i slot hle hi hstart
  exact ⟨hlog.discard_le.trans hkept, hkept⟩

theorem ReachedInOrder.reached (h : ReachedInOrder n s₀ s) :
    Reached n s₀ s := by
  induction h with
  | start => exact .start
  | step _ _ hs ih => exact ih.step hs

theorem ReachedInOrder.rising
    (h : ReachedInOrder n (DiscardSystem.boot globalFrozenXid) s) :
    s.Sound n ∧ s.Rising := by
  induction h with
  | start => exact ⟨Sound.boot globalFrozenXid, fun scan hscan => by cases hscan⟩
  | step _ ha hs ih => exact ⟨(ih.1.step hs).1, ((ih.1.step hs).2 ih.2 ha).2⟩

end Steps

end DiscardSystem

open DiscardSystem

/-- In every run, undo that a transaction or its rollback needs is kept and is not below the horizon. The
horizon does not decrease in a run whose repeated passes are all made in order. -/
theorem needed_undo_kept_and_horizon_rises (undologTotalCount globalFrozenXid : Nat) :
    (∀ s, Reached undologTotalCount (boot globalFrozenXid) s → s.KeepsNeededUndo undologTotalCount) ∧
    ∀ s s' a, ReachedInOrder undologTotalCount (boot globalFrozenXid) s → s.RetryInOrder a →
      s.step undologTotalCount a = some s' → s.globalFrozenXid ≤ s'.globalFrozenXid := by
  refine ⟨fun s h => (Sound.of_reached h).keepsNeededUndo, fun s s' a h ha hs => ?_⟩
  obtain ⟨hsound, hrising⟩ := h.rising
  exact ((hsound.step hs).2 hrising ha).1

/-- The first pass of a turn over the undo of an aborted transaction that is not rolled back. -/
theorem needed_undo_kept_by_first_pass :
    ∃ s s', Reached 1 (boot 3) s ∧ s.KeepsNeededUndo 1 ∧ s.step 1 .publish = some s' ∧
      s.globalFrozenXid ≤ s'.globalFrozenXid := by
  have h₀ : ReachedInOrder 1 (boot 3) (boot 3) := .start
  have h₁ := h₀.step (a := .beginXact 5) trivial rfl
  have h₂ := h₁.step (a := .allocSlot 5 0) trivial rfl
  have h₃ := h₂.step (a := .fillSlot 5 0 100) trivial rfl
  have h₄ := h₃.step (a := .endXact 5 false) trivial rfl
  have h₅ := h₄.step (a := .startTurn 10 10) trivial rfl
  have h₆ := h₅.step (a := .visitLog) trivial rfl
  obtain ⟨hkept, hrises⟩ := needed_undo_kept_and_horizon_rises 1 3
  exact ⟨_, _, h₆.reached, hkept _ h₆.reached, rfl, hrises _ _ .publish h₆ trivial rfl⟩

/-- The rollback of id 5 ends during a turn, a later pass of the turn finds no log in use and moves the
horizon to 10, and the last pass publishes the minimum that the first one has found. -/
def repeatedPasses : List DiscardAct :=
  [.beginXact 5, .allocSlot 5 0, .fillSlot 5 0 100, .endXact 5 false, .beginXact 10, .endXact 10 true,
    .startTurn 10 10, .visitLog, .publish, .finishRollback 0 0,
    .retry 10, .visitLog, .publish, .retry 10, .visitLog, .publish,
    .beginXact 11, .allocSlot 11 0, .fillSlot 11 0 200, .retry 11, .visitLog]

theorem repeated_pass_lowers_horizon :
    ∃ s s', Reached 1 (boot 3) s ∧ s.step 1 .publish = some s' ∧
      s.globalFrozenXid = 10 ∧ s'.globalFrozenXid = 5 := by
  have hrun : ((run 1 repeatedPasses (boot 3)).bind fun s =>
      (s.step 1 .publish).map fun s' => (s.globalFrozenXid, s'.globalFrozenXid)) = some (10, 5) := by
    decide
  obtain ⟨s, hs, hlast⟩ := Option.bind_eq_some_iff.mp hrun
  obtain ⟨s', hs', heq⟩ := Option.map_eq_some_iff.mp hlast
  obtain ⟨hfrozen, hfrozen'⟩ := Prod.mk.inj heq
  exact ⟨s, s', Reached.start.run hs, hs', hfrozen, hfrozen'⟩

end XStore
