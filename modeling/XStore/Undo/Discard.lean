import XStore.Undo.Snapshot
import XStore.Undo.UndoLog

/-!
# Discarding undo

The discard worker walks over the transaction slots of every log. `advance_frozen_xid` finds the
first slot that is not done with, `recycle_undo_space` gives up the undo of the slots in front of it,
or beyond it by force.
-/
namespace XStore

open List

/-- `FirstNormalTransactionId` -/
def firstNormalXid : Nat := 3

/-- `can_rollback_undo_slot`: `UNDOSLOT_ROLLBACK` is not set. -/
def UndoSlot.canRollback (slot : UndoSlot) : Bool := slot.info &&& 1#8 = 0#8

/-- The undo of a slot is needed: its transaction runs, or has aborted and is not rolled back yet. -/
def UndoSlot.Pinned (status : Nat → Option XactStatus) (slot : UndoSlot) : Prop :=
  status slot.xid = some .inProgress ∨ status slot.xid = some .aborted ∧ slot.canRollback

/-- A log for the discard worker: its slots in the order of allocation, with `recycle_slot_offset` and
`frozen_slot_ptr` as indices into them. -/
structure DiscardLog where
  slots : List UndoSlot
  recycleSlot : Nat
  frozenSlot : Nat
  recycleXid : Nat
  insertOffset : Nat
  discardOffset : Nat
  forceDiscardOffset : Nat
  /-- The log is counted in `undo_log_used_cout`. -/
  used : Bool

/-- `undolog_need_recycle` -/
def DiscardLog.needRecycle (log : DiscardLog) : Bool := log.recycleSlot < log.slots.length

/-- The horizons and the state of the transactions; an id without state is not assigned yet. -/
structure DiscardEnv where
  status : Nat → Option XactStatus
  globalFrozenXid : Nat
  globalRecycleXid : Nat

namespace DiscardEnv

variable (e : DiscardEnv)

/-- `xstore_transaction_id_did_commit` -/
def didCommit (xid : Nat) : Bool :=
  olderThanAllUndo e.globalFrozenXid xid || e.status xid = some .committed

/-- `xstore_transaction_id_is_in_progress` -/
def isInProgress (xid : Nat) : Bool :=
  !olderThanAllUndo e.globalFrozenXid xid && e.status xid = some .inProgress

/-- `recheck_undo_recycle_xid`, which warns or stops the server. -/
def recheckUndoRecycleXid (slot : UndoSlot) : Except Panic Unit :=
  if olderThanAllUndo e.globalFrozenXid e.globalFrozenXid ||
      (slot.xid != invalidXid && olderThanAllUndo e.globalFrozenXid slot.xid &&
        !e.didCommit slot.xid && slot.canRollback) then
    .error (.recycleXidPrecedes slot.xid e.globalFrozenXid)
  else .ok ()

/-- The loop of `advance_frozen_xid` from the slot at index `cur` on. It returns `*oldestFozenXid` and
the new `frozen_slot_ptr`. -/
def advanceFrozenLoop (oldestXmin : Nat) : List UndoSlot → Nat → Nat → Except Panic (Nat × Nat)
  | [], _, frozenSlot => .ok (oldestXmin, frozenSlot)
  | slot :: rest, cur, frozenSlot =>
    if slot.xid = invalidXid then
      (e.recheckUndoRecycleXid slot).map fun _ => (e.globalFrozenXid, frozenSlot)
    else
      (if slot.xid < e.globalFrozenXid then e.recheckUndoRecycleXid slot else .ok ()).bind fun _ =>
        if slot.startUndoPtr = .invalid then .ok (oldestXmin, frozenSlot)
        -- here a rollback is requested
        else if slot.xid < oldestXmin ∧ e.didCommit slot.xid = false ∧ slot.canRollback then
          .ok (slot.xid, cur)
        else if oldestXmin ≤ slot.xid then .ok (oldestXmin, cur)
        else advanceFrozenLoop oldestXmin rest (cur + 1) (cur + 1)

def advanceFrozenXid (log : DiscardLog) (oldestXmin : Nat) : Except Panic (Nat × DiscardLog) :=
  let cur := max log.frozenSlot log.recycleSlot
  (e.advanceFrozenLoop oldestXmin (log.slots.drop cur) cur log.frozenSlot).map fun (xid, frozenSlot) =>
    (xid, { log with frozenSlot := frozenSlot })

/-- The undo of the next slot is given up. The source moves the pointers once for all slots of a
block; a slot that is recycled by force leaves `discard_offset` behind. -/
def recycleSlot (log : DiscardLog) (slot : UndoSlot) (force : Bool) : Except Panic DiscardLog :=
  if slot.startUndoPtr.logno = slot.endUndoPtr.logno ∧ log.forceDiscardOffset ≤ log.insertOffset ∧
      slot.endUndoPtr.offset ≤ log.insertOffset ∧
      slot.startUndoPtr.offset < slot.endUndoPtr.offset then
    .ok { log with
      recycleSlot := log.recycleSlot + 1
      recycleXid := slot.xid
      discardOffset := if force then log.discardOffset else slot.endUndoPtr.offset
      forceDiscardOffset := slot.endUndoPtr.offset }
  else .error (.recycleRange slot.startUndoPtr.offset slot.endUndoPtr.offset)

/-- What is done with a slot that has undo: it is recycled, by force or not, or the loop ends. -/
def recycleDecision (recycleXmin frozenXid forceRecycleXid : Nat) (slot : UndoSlot) (force : Bool) :
    Option Bool :=
  if slot.xid < recycleXmin then if frozenXid ≤ slot.xid then none else some force
  else if ¬ (firstNormalXid ≤ forceRecycleXid ∧ slot.xid < forceRecycleXid) then none
  else if e.isInProgress slot.xid then none
  -- here a rollback is requested
  else if !e.didCommit slot.xid && !e.isInProgress slot.xid && slot.canRollback then none
  else some true

/-- The loop of `recycle_undo_space` over the slots from `recycle_slot_offset` on. -/
def recycleLoop (recycleXmin frozenXid forceRecycleXid : Nat) :
    List UndoSlot → DiscardLog → Bool → Except Panic DiscardLog
  | [], log, _ => .ok log
  | slot :: rest, log, force =>
    if slot.xid = invalidXid then (e.recheckUndoRecycleXid slot).map fun _ => log
    else if slot.startUndoPtr = .invalid then .ok log
    else
      (if slot.xid < e.globalRecycleXid then e.recheckUndoRecycleXid slot else .ok ()).bind fun _ =>
        match e.recycleDecision recycleXmin frozenXid forceRecycleXid slot force with
        | none => .ok log
        | some force =>
          (recycleSlot log slot force).bind fun log =>
            recycleLoop recycleXmin frozenXid forceRecycleXid rest log force

/-- `recycle_undo_space` with `*oldestRecycleXid`. -/
def recycleUndoSpace (log : DiscardLog) (recycleXmin frozenXid forceRecycleXid : Nat) :
    Except Panic (Nat × DiscardLog) :=
  (e.recycleLoop recycleXmin frozenXid forceRecycleXid (log.slots.drop log.recycleSlot) log
    false).map fun log' =>
      let unset := if recycleXmin < frozenXid then recycleXmin else frozenXid
      (if log'.recycleXid = invalidXid then unset else log'.recycleXid, log')

end DiscardEnv

/-- `update_havingundo_xid`: the oldest of the ids, or the invalid one. -/
def updateHavingUndoXid : List Nat → Nat → Nat
  | [], oldest => oldest
  | xid :: xids, oldest =>
    updateHavingUndoXid xids (if oldest = invalidXid ∨ xid < oldest then xid else oldest)

/-- The slots of a log are in the order of their ids and of their undo. Those that have been passed are
not needed any more, and the undo of the others is still there. -/
structure DiscardLog.Sound (status : Nat → Option XactStatus) (log : DiscardLog) : Prop where
  sorted : (log.slots.map UndoSlot.xid).Pairwise (· ≤ ·)
  normal : ∀ slot ∈ log.slots, firstNormalXid ≤ slot.xid
  assigned : ∀ slot ∈ log.slots, status slot.xid ≠ none
  /-- A slot gets its undo in the critical section that allocates it. -/
  unfilled : ∀ slot ∈ log.slots, slot.startUndoPtr = .invalid → status slot.xid = some .inProgress
  recycle_le : log.recycleSlot ≤ log.slots.length
  frozen_le : log.frozenSlot ≤ log.slots.length
  passed : ∀ (i : Nat) (slot : UndoSlot), log.slots[i]? = some slot →
    i < max log.frozenSlot log.recycleSlot → ¬ slot.Pinned status
  ends : ∀ slot ∈ log.slots, slot.endUndoPtr.offset ≤ log.insertOffset
  apart : ∀ (i j : Nat) (a b : UndoSlot), i < j → log.slots[i]? = some a → log.slots[j]? = some b →
    b.startUndoPtr ≠ .invalid → a.endUndoPtr.offset ≤ b.startUndoPtr.offset
  kept : ∀ (i : Nat) (slot : UndoSlot), log.recycleSlot ≤ i → log.slots[i]? = some slot →
    slot.startUndoPtr ≠ .invalid → log.forceDiscardOffset ≤ slot.startUndoPtr.offset
  discard_le : log.discardOffset ≤ log.forceDiscardOffset
  force_le : log.forceDiscardOffset ≤ log.insertOffset
  insert_pos : 0 < log.insertOffset
  unused : log.used = false → log.recycleSlot = log.slots.length

/-- What the worker knows of the ids: none that runs is below its `oldestXmin`, and the horizon is
below every slot that is needed. -/
structure DiscardEnv.Bounds (e : DiscardEnv) (oldestXmin : Nat) (slots : List UndoSlot) : Prop where
  running : ∀ xid, e.status xid = some .inProgress → oldestXmin ≤ xid
  frozen_le : e.globalFrozenXid ≤ oldestXmin
  pinned : ∀ slot ∈ slots, slot.Pinned e.status → e.globalFrozenXid ≤ slot.xid

section Visit

variable {e : DiscardEnv} {oldestXmin : Nat} {slots : List UndoSlot} {slot : UndoSlot}

section

variable (h : e.Bounds oldestXmin slots)

include h

theorem DiscardEnv.Bounds.mono {slots' : List UndoSlot}
    (hs : slots' ⊆ slots) : e.Bounds oldestXmin slots' :=
  ⟨h.running, h.frozen_le, fun slot hslot => h.pinned slot (hs hslot)⟩

/-- Of a slot that is needed, the horizon does not decide the state. -/
theorem DiscardEnv.Bounds.not_older (hmem : slot ∈ slots)
    (hn : firstNormalXid ≤ slot.xid) (hp : slot.Pinned e.status) :
    olderThanAllUndo e.globalFrozenXid slot.xid = false := by
  have hle := h.pinned slot hmem hp
  have hf : frozenXid < slot.xid := hn
  simp only [olderThanAllUndo, Bool.or_eq_false_iff, decide_eq_false_iff_not]
  omega

theorem DiscardEnv.Bounds.didCommit (hmem : slot ∈ slots)
    (hn : firstNormalXid ≤ slot.xid) (hp : slot.Pinned e.status) : e.didCommit slot.xid = false := by
  rw [DiscardEnv.didCommit, h.not_older hmem hn hp]
  rcases hp with hp | ⟨hp, -⟩ <;> simp [hp]

/-- Below `oldestXmin` only slots that can be rolled back are needed. -/
theorem DiscardEnv.Bounds.canRollback (hp : slot.Pinned e.status)
    (hlt : slot.xid < oldestXmin) : slot.canRollback := by
  rcases hp with hp | ⟨-, hp⟩
  · exact absurd (h.running _ hp) (by omega)
  · exact hp

end

/-- A slot at which the scan stops to request a rollback is needed. -/
theorem pinned_of_not_didCommit (has : e.status slot.xid ≠ none)
    (hc : e.didCommit slot.xid = false) (hr : slot.canRollback) : slot.Pinned e.status := by
  simp only [DiscardEnv.didCommit, Bool.or_eq_false_iff, decide_eq_false_iff_not] at hc
  cases hs : e.status slot.xid with
  | none => exact absurd hs has
  | some st =>
    cases st with
    | inProgress => exact .inl hs
    | committed => exact absurd hs hc.2
    | aborted => exact .inr ⟨hs, hr⟩

/-- The id that the scan of a log ends with is a bound for its needed slots, and the slots in front of
the new `frozen_slot_ptr` are not needed. -/
theorem advanceFrozenLoop_spec {cur frozenSlot xid frozenSlot' : Nat}
    (hb : e.Bounds oldestXmin slots) (hsorted : (slots.map UndoSlot.xid).Pairwise (· ≤ ·))
    (hn : ∀ slot ∈ slots, firstNormalXid ≤ slot.xid)
    (has : ∀ slot ∈ slots, e.status slot.xid ≠ none)
    (hun : ∀ slot ∈ slots, slot.startUndoPtr = .invalid → e.status slot.xid = some .inProgress)
    (h : e.advanceFrozenLoop oldestXmin slots cur frozenSlot = .ok (xid, frozenSlot')) :
    xid ≤ oldestXmin ∧ (xid = oldestXmin ∨ ∃ slot ∈ slots, slot.xid = xid ∧ slot.Pinned e.status) ∧
      (∀ slot ∈ slots, slot.Pinned e.status → xid ≤ slot.xid) ∧
      (frozenSlot' = frozenSlot ∨ cur ≤ frozenSlot' ∧ frozenSlot' ≤ cur + slots.length ∧
        ∀ slot ∈ slots.take (frozenSlot' - cur), ¬ slot.Pinned e.status) := by
  induction slots generalizing cur frozenSlot with
  | nil =>
    cases h
    simp
  | cons slot rest ih =>
    obtain ⟨hfirst, hrest⟩ := pairwise_cons.mp hsorted
    have hmem : slot ∈ slot :: rest := mem_cons_self
    -- when the scan ends here, the slots behind have ids that are not smaller
    have hbehind : ∀ x, x ≤ slot.xid → ∀ s ∈ slot :: rest, s.Pinned e.status → x ≤ s.xid := by
      intro x hx s hs _
      rcases mem_cons.mp hs with rfl | hs
      · exact hx
      · exact hx.trans (hfirst _ (mem_map_of_mem hs))
    have hvalid : slot.xid ≠ invalidXid := by
      have := hn slot hmem
      simp only [firstNormalXid] at this
      exact fun h0 => by simp [h0, invalidXid] at this
    rw [DiscardEnv.advanceFrozenLoop, if_neg hvalid] at h
    obtain ⟨-, -, h⟩ := bind_ok h
    split_ifs at h with hstart hroll hxmin
    · cases h
      exact ⟨le_rfl, .inl rfl, hbehind _ (hb.running _ (hun slot hmem hstart)), .inl rfl⟩
    · cases h
      have hp := pinned_of_not_didCommit (has slot hmem) hroll.2.1 hroll.2.2
      exact ⟨hroll.1.le, .inr ⟨slot, hmem, rfl, hp⟩, hbehind _ le_rfl,
        .inr ⟨le_rfl, Nat.le_add_right _ _, by simp⟩⟩
    · cases h
      exact ⟨le_rfl, .inl rfl, hbehind _ hxmin,
        .inr ⟨le_rfl, Nat.le_add_right _ _, by simp⟩⟩
    · have hnot : ¬ slot.Pinned e.status := fun hp =>
        hroll ⟨not_le.mp hxmin, hb.didCommit hmem (hn slot hmem) hp,
          hb.canRollback hp (not_le.mp hxmin)⟩
      obtain ⟨hle, hfound, hall, hpass⟩ := ih (hb.mono (subset_cons_self _ _)) hrest
        (fun s hs => hn s (mem_cons_of_mem _ hs)) (fun s hs => has s (mem_cons_of_mem _ hs))
        (fun s hs => hun s (mem_cons_of_mem _ hs)) h
      refine ⟨hle, hfound.imp_right ?_, ?_, .inr ?_⟩
      · rintro ⟨s, hs, heq, hp⟩
        exact ⟨s, mem_cons_of_mem _ hs, heq, hp⟩
      · intro s hs hp
        rcases mem_cons.mp hs with rfl | hs
        · exact absurd hp hnot
        · exact hall s hs hp
      · have hcur : cur + 1 ≤ frozenSlot' ∧ frozenSlot' ≤ cur + 1 + rest.length := by
          rcases hpass with rfl | ⟨hle, hlen, -⟩
          · exact ⟨le_rfl, Nat.le_add_right _ _⟩
          · exact ⟨hle, hlen⟩
        refine ⟨by omega, by rw [length_cons]; omega, fun s hs => ?_⟩
        rw [show frozenSlot' - cur = frozenSlot' - (cur + 1) + 1 by omega, take_succ_cons] at hs
        rcases mem_cons.mp hs with rfl | hs
        · exact hnot
        · rcases hpass with rfl | ⟨-, -, hpass⟩
          · simp at hs
          · exact hpass s hs

variable {log log' : DiscardLog} {force : Bool}

/-- After `advance_frozen_xid` the log is sound, and the id bounds its needed slots. -/
theorem advanceFrozenXid_spec {xid : Nat} (hs : log.Sound e.status)
    (hb : e.Bounds oldestXmin log.slots) (h : e.advanceFrozenXid log oldestXmin = .ok (xid, log')) :
    log'.Sound e.status ∧ log'.slots = log.slots ∧ xid ≤ oldestXmin ∧
      (xid = oldestXmin ∨ ∃ slot ∈ log.slots, slot.xid = xid ∧ slot.Pinned e.status) ∧
      ∀ slot ∈ log.slots, slot.Pinned e.status → xid ≤ slot.xid := by
  obtain ⟨⟨x, frozenSlot⟩, hloop, heq⟩ := map_ok h
  obtain ⟨rfl, rfl⟩ := Prod.mk.inj heq
  have hdrop : log.slots.drop (max log.frozenSlot log.recycleSlot) ⊆ log.slots :=
    drop_subset _ _
  obtain ⟨hle, hfound, hall, hpass⟩ := advanceFrozenLoop_spec (hb.mono hdrop)
    (by rw [map_drop]; exact hs.sorted.drop) (fun s h => hs.normal s (hdrop h))
    (fun s h => hs.assigned s (hdrop h)) (fun s h => hs.unfilled s (hdrop h)) hloop
  refine ⟨{ hs with frozen_le := ?_, passed := ?_ }, rfl, hle, ?_, ?_⟩
  · have hrecycle := hs.recycle_le
    have hfrozen := hs.frozen_le
    rcases hpass with rfl | ⟨-, hlen, -⟩
    · exact hfrozen
    · rw [length_drop] at hlen
      dsimp only
      omega
  · intro i slot hi hlt
    by_cases hold : i < max log.frozenSlot log.recycleSlot
    · exact hs.passed i slot hi hold
    · rcases hpass with rfl | ⟨-, -, hpass⟩
      · exact absurd hlt hold
      · apply hpass
        rw [mem_iff_getElem?]
        refine ⟨i - max log.frozenSlot log.recycleSlot, ?_⟩
        dsimp only at hlt
        rw [getElem?_take_of_lt (by omega), getElem?_drop,
          Nat.add_sub_cancel' (not_lt.mp hold), hi]
  · rcases hfound with rfl | ⟨slot, hslot, heq, hp⟩
    · exact .inl rfl
    · exact .inr ⟨slot, hdrop hslot, heq, hp⟩
  · intro slot hslot hp
    obtain ⟨i, hi⟩ := mem_iff_getElem?.mp hslot
    by_cases hold : i < max log.frozenSlot log.recycleSlot
    · exact absurd hp (hs.passed i slot hi hold)
    · apply hall slot _ hp
      rw [mem_iff_getElem?]
      exact ⟨i - max log.frozenSlot log.recycleSlot, by
        rw [getElem?_drop, Nat.add_sub_cancel' (not_lt.mp hold), hi]⟩

/-- A slot that is recycled, by force or not, is not needed. -/
theorem not_pinned_of_recycled {frozenXid forceRecycleXid : Nat} {force force' : Bool}
    (hb : e.Bounds oldestXmin slots) (hmem : slot ∈ slots) (hn : firstNormalXid ≤ slot.xid)
    (hfrozen : slot.Pinned e.status → frozenXid ≤ slot.xid)
    (h : e.recycleDecision oldestXmin frozenXid forceRecycleXid slot force = some force') :
    ¬ slot.Pinned e.status := by
  intro hp
  have hcommit := hb.didCommit hmem hn hp
  have hold := hb.not_older hmem hn hp
  unfold DiscardEnv.recycleDecision at h
  split_ifs at h with hlt hfro hforce hprog hroll
  · exact hfro (hfrozen hp)
  · rcases hp with hp | ⟨-, hr⟩
    · simp [DiscardEnv.isInProgress, hold, hp] at hprog
    · simp [hcommit, hprog, hr] at hroll

variable (hs : log.Sound e.status)

include hs

/-- Giving up the undo of the next slot, if that is not needed. -/
theorem recycleSlot_spec
    (hnext : log.slots[log.recycleSlot]? = some slot) (hstart : slot.startUndoPtr ≠ .invalid)
    (hnot : ¬ slot.Pinned e.status) (h : DiscardEnv.recycleSlot log slot force = .ok log') :
    log'.Sound e.status ∧ log'.slots = log.slots ∧ log'.recycleSlot = log.recycleSlot + 1 := by
  obtain ⟨hlt, -⟩ := List.getElem?_eq_some_iff.mp hnext
  have hkept := hs.kept _ slot le_rfl hnext hstart
  unfold DiscardEnv.recycleSlot at h
  split at h
  case isFalse => cases h
  case isTrue hrange =>
    cases h
    refine ⟨⟨hs.sorted, hs.normal, hs.assigned, hs.unfilled, hlt, hs.frozen_le, ?_, hs.ends, hs.apart, ?_,
      ?_, hrange.2.2.1, hs.insert_pos, ?_⟩, rfl, rfl⟩
    · intro i s hi hlt
      by_cases hi' : i = log.recycleSlot
      · subst hi'
        rw [hnext] at hi
        exact Option.some.inj hi ▸ hnot
      · exact hs.passed i s hi (by dsimp only at hlt; omega)
    · intro i s hle hi hstart
      exact hs.apart _ i slot s hle hnext hi hstart
    · have hdiscard := hs.discard_le
      dsimp only
      split <;> omega
    · intro hu
      have := hs.unused hu
      omega

theorem recycleLoop_spec {frozenXid forceRecycleXid : Nat} {rest : List UndoSlot}
    (hb : e.Bounds oldestXmin log.slots)
    (hfrozen : ∀ slot ∈ log.slots, slot.Pinned e.status → frozenXid ≤ slot.xid)
    (hrest : log.slots.drop log.recycleSlot = rest)
    (h : e.recycleLoop oldestXmin frozenXid forceRecycleXid rest log force = .ok log') :
    log'.Sound e.status ∧ log'.slots = log.slots := by
  induction rest generalizing log force with
  | nil =>
    cases h
    exact ⟨hs, rfl⟩
  | cons slot rest ih =>
    have hnext : log.slots[log.recycleSlot]? = some slot := by
      rw [← head?_drop, hrest, head?_cons]
    have hmem : slot ∈ log.slots := mem_of_getElem? hnext
    rw [DiscardEnv.recycleLoop] at h
    split at h
    case isTrue =>
      obtain ⟨-, -, rfl⟩ := map_ok h
      exact ⟨hs, rfl⟩
    case isFalse =>
    split at h
    case isTrue =>
      cases h
      exact ⟨hs, rfl⟩
    case isFalse hstart =>
      obtain ⟨-, -, h⟩ := bind_ok h
      split at h
      case h_1 =>
        cases h
        exact ⟨hs, rfl⟩
      case h_2 force' hdec =>
        obtain ⟨log₁, hone, h⟩ := bind_ok h
        have hnot := not_pinned_of_recycled hb hmem (hs.normal slot hmem) (hfrozen slot hmem) hdec
        obtain ⟨hs₁, hslots, hnext₁⟩ := recycleSlot_spec hs hnext hstart hnot hone
        have hrest₁ : log₁.slots.drop log₁.recycleSlot = rest := by
          rw [hslots, hnext₁, ← tail_drop, hrest, tail_cons]
        obtain ⟨hs', hslots'⟩ := ih hs₁ (hslots ▸ hb) (hslots ▸ hfrozen) hrest₁ h
        exact ⟨hs', hslots'.trans hslots⟩

theorem recycleUndoSpace_spec {frozenXid forceRecycleXid recycleXid : Nat}
    (hb : e.Bounds oldestXmin log.slots)
    (hfrozen : ∀ slot ∈ log.slots, slot.Pinned e.status → frozenXid ≤ slot.xid)
    (h : e.recycleUndoSpace log oldestXmin frozenXid forceRecycleXid = .ok (recycleXid, log')) :
    log'.Sound e.status ∧ log'.slots = log.slots := by
  obtain ⟨log₁, hloop, heq⟩ := map_ok h
  obtain ⟨-, rfl⟩ := Prod.mk.inj heq
  exact recycleLoop_spec hs hb hfrozen rfl hloop

end Visit

end XStore
