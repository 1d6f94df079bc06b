import XStore.Undo.UndoLog

/-!
# What an operation leaves of the slots

Every operation of a transaction leaves the transaction ids of the slots handed out so far, and
the slot it is given carries the id of the top transaction.
-/
namespace XStore

open Function

/-- Slots start behind the page header and do not cross the end of their block. -/
def SlotAligned (off : Nat) : Prop :=
  undoLogBlockHeaderSize ≤ off % blcksz ∧ off % blcksz + sizeOfUndoSlot ≤ blcksz

theorem lt_nextSlotOffset (off : Nat) : off < nextSlotOffset off := by
  unfold nextSlotOffset sizeOfUndoSlot undoLogBlockHeaderSize blcksz
  dsimp only
  split_ifs <;> omega

theorem SlotAligned.next {off : Nat} (h : SlotAligned off) : SlotAligned (nextSlotOffset off) := by
  unfold SlotAligned nextSlotOffset sizeOfUndoSlot undoLogBlockHeaderSize blcksz at *
  dsimp only
  split_ifs <;> omega

namespace UndoLog

variable (u : UndoLog) (off off' : Nat) (slot : UndoSlot) (xid dbid : Nat)

theorem slotAt_setSlot_self : (u.setSlot off slot).slotAt off = slot := by
  simp [slotAt, setSlot, setPage, page]

theorem slotAt_setSlot_of_ne (h : off' ≠ off) : (u.setSlot off slot).slotAt off' = u.slotAt off' := by
  by_cases hb : off' / blcksz = off / blcksz
  · have ho : off' % blcksz ≠ off % blcksz := by
      unfold blcksz at *
      omega
    simp [slotAt, setSlot, setPage, page, hb, update_of_ne ho]
  · simp [slotAt, setSlot, setPage, page, update_of_ne hb]

/-- A page that is replaced by one with the same slots reads the same. -/
theorem slotAt_setPage (blkno : Nat) (pg : SlotPage) (h : pg.slots = (u.page blkno).slots) :
    (u.setPage blkno (some pg)).slotAt off = u.slotAt off := by
  by_cases hb : off / blcksz = blkno
  · simp [slotAt, setPage, page, hb, h]
  · simp [slotAt, setPage, page, update_of_ne hb]

theorem slotAt_advancePageLower : (u.advancePageLower off).slotAt off' = u.slotAt off' :=
  u.slotAt_setPage off' (off / blcksz) _ rfl

theorem slotAt_setSlotLsn (lsn : Nat) : (u.setSlotLsn off lsn).slotAt off' = u.slotAt off' :=
  u.slotAt_setPage off' (off / blcksz) _ rfl

/-- Zeroing the page of a new slot loses no slot below it. -/
theorem slotAt_allocSlotSpace (ha : SlotAligned off) (h : off < u.allocSlotOffset) :
    u.allocSlotSpace.slotAt off = u.slotAt off := by
  unfold allocSlotSpace
  dsimp only
  split_ifs with hz
  · have hb : off / blcksz ≠ u.allocSlotOffset / blcksz := by
      unfold SlotAligned undoLogBlockHeaderSize blcksz at *
      omega
    simp [slotAt, setPage, page, update_of_ne hb]
  · rfl

/-- The slots handed out so far keep their transaction id or are given `xid`. -/
structure KeepsXids (xid : Nat) (u u' : UndoLog) : Prop where
  alloc_le : u.allocSlotOffset ≤ u'.allocSlotOffset
  xid_kept : ∀ off, SlotAligned off → off < u.allocSlotOffset →
    (u'.slotAt off).xid = (u.slotAt off).xid ∨ (u'.slotAt off).xid = xid

namespace KeepsXids

variable {xid : Nat} {u u' u'' : UndoLog}

theorem refl (xid : Nat) (u : UndoLog) : KeepsXids xid u u := ⟨Nat.le_refl _, fun _ _ _ => .inl rfl⟩

theorem trans (h : KeepsXids xid u u') (h' : KeepsXids xid u' u'') : KeepsXids xid u u'' where
  alloc_le := Nat.le_trans h.alloc_le h'.alloc_le
  xid_kept := by
    intro off ha hlt
    rcases h'.xid_kept off ha (Nat.lt_of_lt_of_le hlt h.alloc_le) with heq | heq
    · rw [heq]
      exact h.xid_kept off ha hlt
    · exact .inr heq

theorem of_slotAt (halloc : u.allocSlotOffset = u'.allocSlotOffset)
    (hslot : ∀ off, SlotAligned off → off < u.allocSlotOffset → u'.slotAt off = u.slotAt off) :
    KeepsXids xid u u' :=
  ⟨Nat.le_of_eq halloc, fun off ha hlt => .inl (congrArg UndoSlot.xid (hslot off ha hlt))⟩

theorem setSlot (u : UndoLog) (off : Nat) {slot : UndoSlot}
    (h : slot.xid = (u.slotAt off).xid ∨ slot.xid = xid) : KeepsXids xid u (u.setSlot off slot) where
  alloc_le := Nat.le_refl _
  xid_kept := by
    intro off' _ _
    by_cases heq : off' = off
    · rw [heq, slotAt_setSlot_self]
      exact h
    · rw [slotAt_setSlot_of_ne _ _ _ _ heq]
      exact .inl rfl

end KeepsXids

theorem keepsXids_allocSlotSpace : KeepsXids xid u u.allocSlotSpace := by
  apply KeepsXids.of_slotAt
  · unfold allocSlotSpace
    dsimp only
    split_ifs <;> rfl
  · exact fun off ha hlt => u.slotAt_allocSlotSpace off ha hlt

theorem keepsXids_allocUndoSlot (h : u.allocSlotOffset ≤ off) :
    KeepsXids xid u ((u.allocUndoSlot off xid dbid).advancePageLower off) where
  alloc_le := Nat.le_trans h (Nat.le_of_lt (lt_nextSlotOffset off))
  xid_kept := by
    intro off' ha hlt
    have hset : KeepsXids xid u (u.setSlot off ((u.slotAt off).init xid dbid)) :=
      .setSlot u off (.inr rfl)
    rw [slotAt_advancePageLower]
    exact hset.xid_kept off' ha hlt

end UndoLog

namespace UndoLogs

variable {ulogs ulogs' ulogs'' : UndoLogs} {logno : Nat} {f : UndoLog → UndoLog} {u : UndoLog} {l : Nat}

@[simp] theorem modify_self (h : ulogs logno = some u) : ulogs.modify logno f logno = some (f u) := by
  simp [modify, h]

theorem modify_of_ne (h : l ≠ logno) : ulogs.modify logno f l = ulogs l := by
  simp [modify, update_of_ne h]

theorem modify_some {u' : UndoLog} (h : ulogs.modify logno f l = some u') :
    ∃ u, ulogs l = some u ∧ (u' = u ∨ u' = f u) := by
  by_cases hl : l = logno
  · subst hl
    simp only [modify, update_self, Option.map_eq_some_iff] at h
    obtain ⟨u, hu, rfl⟩ := h
    exact ⟨u, hu, .inr rfl⟩
  · rw [modify_of_ne hl] at h
    exact ⟨u', h, .inl rfl⟩

/-- Every log keeps the transaction ids of its slots, up to slots given `xid`. -/
def KeepXids (xid : Nat) (ulogs ulogs' : UndoLogs) : Prop :=
  ∀ l u, ulogs l = some u → ∃ u', ulogs' l = some u' ∧ UndoLog.KeepsXids xid u u'

theorem KeepXids.trans {xid : Nat} (h : KeepXids xid ulogs ulogs') (h' : KeepXids xid ulogs' ulogs'') :
    KeepXids xid ulogs ulogs'' := by
  intro l u hu
  obtain ⟨u', hu', hk⟩ := h l u hu
  obtain ⟨u'', hu'', hk'⟩ := h' l u' hu'
  exact ⟨u'', hu'', hk.trans hk'⟩

theorem keepXids_modify {xid : Nat}
    (h : ∀ u, ulogs logno = some u → UndoLog.KeepsXids xid u (f u)) :
    KeepXids xid ulogs (ulogs.modify logno f) := by
  intro l u hu
  by_cases hl : l = logno
  · subst hl
    exact ⟨f u, modify_self hu, h u hu⟩
  · exact ⟨u, (modify_of_ne hl).trans hu, UndoLog.KeepsXids.refl xid u⟩

end UndoLogs

/-- Between two operations every log is ready for its next slot. -/
def UndoLogs.Sound (ulogs : UndoLogs) : Prop :=
  ∀ l u, ulogs l = some u → SlotAligned u.allocSlotOffset ∧ u.slotZero = false

namespace UndoWriter

variable {s t v : UndoWriter} {op : UndoWrite} {xid : Nat} {u : UndoLog}

theorem keepXids_switchLog (s : UndoWriter) (target : Option Nat) (xid : Nat) :
    s.ulogs.KeepXids xid (s.switchLog target).ulogs := by
  cases target with
  | none => exact fun l u hu => ⟨u, hu, .refl xid u⟩
  | some logno =>
    have hclose := @UndoLogs.keepXids_modify s.ulogs s.ctx.logno
      (fun u => { u with insertOffset := undoLogMaxSize }) xid
      fun u _ => .of_slotAt rfl fun _ _ _ => rfl
    exact hclose.trans (UndoLogs.keepXids_modify fun u _ => .of_slotAt rfl fun _ _ _ => rfl)

theorem switchLog_some {target : Option Nat} {l : Nat}
    (h : (s.switchLog target).ulogs l = some u) :
    ∃ u₀, s.ulogs l = some u₀ ∧ u.allocSlotOffset = u₀.allocSlotOffset ∧
      u.slotZero = u₀.slotZero := by
  cases target with
  | none => exact ⟨u, h, rfl, rfl⟩
  | some logno =>
    obtain ⟨u₁, hu₁, hcase₁⟩ := UndoLogs.modify_some h
    obtain ⟨u₀, hu₀, hcase₀⟩ := UndoLogs.modify_some hu₁
    refine ⟨u₀, hu₀, ?_⟩
    rcases hcase₁ with rfl | rfl <;> rcases hcase₀ with rfl | rfl <;> exact ⟨rfl, rfl⟩

theorem allocSlotSpace_fields (u : UndoLog) :
    u.allocSlotSpace.allocSlotOffset = u.allocSlotOffset ∧
      u.allocSlotSpace.slotZero = u.slotZero := by
  unfold UndoLog.allocSlotSpace
  dsimp only
  split_ifs <;> exact ⟨rfl, rfl⟩

/-- The slot an operation is given is the next one of its log. -/
structure SpaceAllocated (s : UndoWriter) (op : UndoWrite) (t : UndoWriter) : Prop where
  keep : ∀ xid, s.ulogs.KeepXids xid t.ulogs
  sound : s.ulogs.Sound → t.ulogs.Sound
  slotPtr : s.needsSlot op = true → t.ctx.slotPtr.logno = t.ctx.logno ∧
    ∃ u₀ u, s.ulogs t.ctx.logno = some u₀ ∧ t.ulogs t.ctx.logno = some u ∧
      t.ctx.slotPtr.offset = u₀.allocSlotOffset ∧ u.allocSlotOffset = u₀.allocSlotOffset

theorem allocateUndoSpace_spec (h : s.allocateUndoSpace op = .ok t) : SpaceAllocated s op t := by
  unfold allocateUndoSpace at h
  dsimp only at h
  have hkeep := s.keepXids_switchLog op.switchTo
  have hsound : s.ulogs.Sound → (s.switchLog op.switchTo).ulogs.Sound := by
    intro hs l u hu
    obtain ⟨u₀, hu₀, halloc, hzero⟩ := switchLog_some hu
    rw [halloc, hzero]
    exact hs l u₀ hu₀
  cases hlog : (s.switchLog op.switchTo).ulogs (s.switchLog op.switchTo).ctx.logno with
  | none => simp [hlog] at h
  | some u =>
    simp only [hlog] at h
    split_ifs at h with hneeds
    · cases h
      refine ⟨fun xid => (hkeep xid).trans (UndoLogs.keepXids_modify fun u _ =>
        u.keepsXids_allocSlotSpace xid), ?_, ?_⟩
      · intro hs l u' hu'
        obtain ⟨u₁, hu₁, rfl | rfl⟩ := UndoLogs.modify_some hu'
        · exact hsound hs l u' hu₁
        · rw [(allocSlotSpace_fields u₁).1, (allocSlotSpace_fields u₁).2]
          exact hsound hs l u₁ hu₁
      · intro _
        obtain ⟨u₀, hu₀, halloc, -⟩ := switchLog_some hlog
        exact ⟨rfl, u₀, u.allocSlotSpace, hu₀, UndoLogs.modify_self hlog, halloc,
          (allocSlotSpace_fields u).1.trans halloc⟩
    · cases h
      exact ⟨hkeep, hsound, fun hn => by simp [hn] at hneeds⟩

theorem updateSlot_spec {start stop : UndoPtr} (h : s.updateSlot op start stop = .ok t) :
    t.ctx = s.ctx ∧ (s.ulogs.slot s.ctx.slot).xid = op.xact.topXid ∧
      t.ulogs = s.ulogs.modify s.ctx.slot.logno fun u =>
        u.setSlot s.ctx.slot.offset ((s.ulogs.slot s.ctx.slot).update start stop) := by
  unfold updateSlot at h
  dsimp only at h
  split_ifs at h with hcheck
  cases h
  exact ⟨rfl, not_not.mp (not_or.mp hcheck).1, rfl⟩

/-- What `update_undolog_meta` does to the slots; `alloc` operations have been given the next slot
of the log. -/
structure MetaUpdated (t : UndoWriter) (op : UndoWrite) (alloc : Bool) (u : UndoLog)
    (v : UndoWriter) : Prop where
  logno : v.ctx.logno = t.ctx.logno
  slotPtr : v.ctx.slotPtr = t.ctx.slotPtr
  keep : t.ulogs.KeepXids op.xact.topXid v.ulogs
  newSlot : alloc = true → ∃ u', v.ulogs t.ctx.logno = some u' ∧
    t.ctx.slotPtr.offset < u'.allocSlotOffset ∧
      (u'.slotAt t.ctx.slotPtr.offset).xid = op.xact.topXid
  fresh : ∀ u', v.ulogs t.ctx.logno = some u' → u'.slotZero = true →
    u.slotZero = true ∨ u.pages (t.ctx.slotPtr.offset / blcksz) = none
  sound : t.ulogs.Sound → ∀ l u', v.ulogs l = some u' →
    SlotAligned u'.allocSlotOffset ∧ (l ≠ t.ctx.logno → u'.slotZero = false)

/-- An operation of a transaction that already has its slot. -/
theorem updateSlot_metaUpdated {start stop : UndoPtr}
    (hu : t.ulogs t.ctx.logno = some u) (h : t.updateSlot op start stop = .ok v) :
    MetaUpdated t op false u v := by
  obtain ⟨hctx, hxid, hulogs⟩ := updateSlot_spec h
  have hfields : ∀ l u', v.ulogs l = some u' → ∃ u₀, t.ulogs l = some u₀ ∧
      u'.allocSlotOffset = u₀.allocSlotOffset ∧ u'.slotZero = u₀.slotZero := by
    intro l u' hu'
    rw [hulogs] at hu'
    obtain ⟨u₀, hu₀, rfl | rfl⟩ := UndoLogs.modify_some hu'
    · exact ⟨u', hu₀, rfl, rfl⟩
    · exact ⟨u₀, hu₀, rfl, rfl⟩
  refine ⟨by rw [hctx], by rw [hctx], ?_, nofun, ?_, ?_⟩
  · rw [hulogs]
    exact UndoLogs.keepXids_modify fun u _ => .setSlot u _ (.inr hxid)
  · intro u' hu' hzero
    obtain ⟨u₀, hu₀, -, hz⟩ := hfields _ u' hu'
    cases hu.symm.trans hu₀
    exact .inl (hz ▸ hzero)
  · intro hs l u' hu'
    obtain ⟨u₀, hu₀, halloc, hz⟩ := hfields l u' hu'
    rw [halloc, hz]
    exact ⟨(hs l u₀ hu₀).1, fun _ => (hs l u₀ hu₀).2⟩

/-- An operation that was given the next slot of the log. -/
theorem allocUndoSlot_metaUpdated {start stop : UndoPtr}
    (hu : t.ulogs t.ctx.logno = some u) (hlog : t.ctx.slotPtr.logno = t.ctx.logno)
    (hoff : t.ctx.slotPtr.offset = u.allocSlotOffset)
    (h : (t.allocUndoSlot op).updateSlot op start stop = .ok v) : MetaUpdated t op true u v := by
  obtain ⟨hctx, hxid, hulogs⟩ := updateSlot_spec h
  have hslot : (t.allocUndoSlot op).ctx.slot = t.ctx.slotPtr := rfl
  rw [hslot] at hxid hulogs
  have hu₁ : (t.allocUndoSlot op).ulogs t.ctx.logno = some ((u.allocUndoSlot t.ctx.slotPtr.offset
      op.xact.topXid op.dbid).advancePageLower t.ctx.slotPtr.offset) := UndoLogs.modify_self hu
  have hv : v.ulogs t.ctx.logno = some (((u.allocUndoSlot t.ctx.slotPtr.offset op.xact.topXid
      op.dbid).advancePageLower t.ctx.slotPtr.offset).setSlot t.ctx.slotPtr.offset
        (((t.allocUndoSlot op).ulogs.slot t.ctx.slotPtr).update start stop)) := by
    rw [hulogs, hlog]
    exact UndoLogs.modify_self hu₁
  refine ⟨by rw [hctx]; rfl, by rw [hctx]; rfl, ?_, fun _ => ⟨_, hv, lt_nextSlotOffset _, ?_⟩, ?_, ?_⟩
  · rw [hulogs]
    refine UndoLogs.KeepXids.trans (UndoLogs.keepXids_modify fun u' hu' => ?_)
      (UndoLogs.keepXids_modify fun u _ => .setSlot u _ (.inr hxid))
    rw [Option.some.inj (hu'.symm.trans hu), hoff]
    exact u.keepsXids_allocUndoSlot _ _ _ (Nat.le_refl _)
  · rw [UndoLog.slotAt_setSlot_self]
    exact hxid
  · intro u' hu' hzero
    rw [Option.some.inj (hu'.symm.trans hv)] at hzero
    have hz : (u.slotZero || (u.pages (t.ctx.slotPtr.offset / blcksz)).isNone) = true := hzero
    simpa using hz
  · intro hs l u' hu'
    by_cases hl : l = t.ctx.logno
    · subst hl
      rw [Option.some.inj (hu'.symm.trans hv)]
      refine ⟨?_, fun hne => absurd rfl hne⟩
      have hnext := (hs _ u hu).1.next
      rw [← hoff] at hnext
      exact hnext
    · rw [hulogs, hlog, UndoLogs.modify_of_ne hl] at hu'
      have hu₀ : t.ulogs l = some u' := (UndoLogs.modify_of_ne hl).symm.trans hu'
      exact ⟨(hs l u' hu₀).1, fun _ => (hs l u' hu₀).2⟩

theorem checkUndologMeta_ok {start : UndoPtr}
    (h : s.checkUndologMeta op u start = .ok ()) : frozenXid < op.xact.topXid := by
  unfold checkUndologMeta at h
  split_ifs at h with h1 h2 h3
  exact Nat.lt_of_not_le (not_or.mp h3).1

theorem updateUndologMeta_spec {alloc : Bool} (hu : t.ulogs t.ctx.logno = some u)
    (hslot : alloc = true → t.ctx.slotPtr.logno = t.ctx.logno ∧
      t.ctx.slotPtr.offset = u.allocSlotOffset)
    (h : t.updateUndologMeta op alloc u = .ok v) :
    frozenXid < op.xact.topXid ∧ MetaUpdated t op alloc u v := by
  obtain ⟨_, hcheck, hput⟩ := bind_ok h
  refine ⟨checkUndologMeta_ok hcheck, ?_⟩
  have hu₁ : (t.advanceInsert op).ulogs t.ctx.logno = some _ := UndoLogs.modify_self hu
  have hup : MetaUpdated (t.advanceInsert op) op alloc
      (u.advanceInsert op.lastRecord op.lastRecordSize) v := by
    cases alloc with
    | false => exact updateSlot_metaUpdated hu₁ hput
    | true => exact allocUndoSlot_metaUpdated hu₁ (hslot rfl).1 (hslot rfl).2 hput
  refine ⟨hup.logno, hup.slotPtr, ?_, hup.newSlot, hup.fresh, fun hs => hup.sound ?_⟩
  · have hinsert : t.ulogs.KeepXids op.xact.topXid (t.advanceInsert op).ulogs :=
      UndoLogs.keepXids_modify fun u _ => .of_slotAt rfl fun _ _ _ => rfl
    exact hinsert.trans hup.keep
  · intro l u' hu'
    obtain ⟨u₀, hu₀, rfl | rfl⟩ := UndoLogs.modify_some hu'
    · exact hs l u' hu₀
    · exact hs l u₀ hu₀

/-- What an operation leaves behind, and what its WAL record says. -/
structure Written (s : UndoWriter) (op : UndoWrite) (s' : UndoWriter) (w : UndoMetaWal) : Prop where
  fullXid : w.fullXid = op.xact.currentXid
  slotAlloc : w.undoMeta.slotAlloc = s.needsSlot op
  isSwitch : w.undoMeta.isSwitch = op.switchTo.isSome
  normal : frozenXid < op.xact.topXid
  keep : s.ulogs.KeepXids op.xact.topXid s'.ulogs
  newSlot : s.needsSlot op = true → ∃ u u', s.ulogs w.slot.logno = some u ∧
    s'.ulogs w.slot.logno = some u' ∧ w.slot.offset = u.allocSlotOffset ∧
      w.slot.offset < u'.allocSlotOffset ∧ (u'.slotAt w.slot.offset).xid = op.xact.topXid
  image : ∀ pg, w.slotImage = some pg → ∃ u', s'.ulogs w.slot.logno = some u' ∧
    pg.slots = (u'.page (w.slot.offset / blcksz)).slots
  /-- No slot of the transaction is on a page that the record initialises. -/
  fresh : s.ulogs.Sound → w.undoMeta.slotInit = true → ∀ u off, s.ulogs w.slot.logno = some u →
    SlotAligned off → off < u.allocSlotOffset → off / blcksz = w.slot.offset / blcksz →
      (u.slotAt off).xid ≠ op.xact.topXid
  sound : s.ulogs.Sound → s'.ulogs.Sound

theorem writeUndo_spec {s' : UndoWriter} {w : UndoMetaWal} (h : s.writeUndo op = .ok (s', w)) :
    Written s op s' w := by
  obtain ⟨t, ht, h⟩ := bind_ok h
  cases hu : t.ulogs t.ctx.logno with
  | none => simp [hu] at h
  | some u =>
    simp only [hu] at h
    obtain ⟨v, hv, h⟩ := bind_ok h
    cases hu' : v.ulogs v.ctx.logno with
    | none => simp [hu'] at h
    | some u' =>
      simp only [hu', Except.ok.injEq, Prod.mk.injEq] at h
      obtain ⟨rfl, rfl⟩ := h
      have hspace := allocateUndoSpace_spec ht
      have hslot : s.needsSlot op = true → t.ctx.slotPtr.logno = t.ctx.logno ∧
          t.ctx.slotPtr.offset = u.allocSlotOffset := by
        intro hn
        obtain ⟨hlog, u₀, u₁, -, hu₁, hoff, halloc⟩ := hspace.slotPtr hn
        cases hu.symm.trans hu₁
        exact ⟨hlog, hoff.trans halloc.symm⟩
      obtain ⟨hnormal, hmeta⟩ := updateUndologMeta_spec hu hslot hv
      have hwslot : (v.logUndo op (s.needsSlot op) ⟨t.ctx.logno, u.insertOffset⟩ u').slot =
          ⟨t.ctx.logno, t.ctx.slotPtr.offset⟩ := by
        rw [← hmeta.slotPtr]
        rfl
      rw [hmeta.logno] at hu'
      have hs' : (v.setUndologMetaLsn op.lsn).ulogs t.ctx.logno =
          some (u'.setSlotLsn t.ctx.slotPtr.offset op.lsn) := by
        unfold setUndologMetaLsn
        rw [hmeta.logno, hmeta.slotPtr]
        exact UndoLogs.modify_self hu'
      refine ⟨rfl, rfl, rfl, hnormal, ?_, ?_, ?_, ?_, ?_⟩
      · refine ((hspace.keep _).trans hmeta.keep).trans (UndoLogs.keepXids_modify fun u _ => ?_)
        exact .of_slotAt rfl fun off _ _ => u.slotAt_setSlotLsn _ off _
      · intro hn
        obtain ⟨-, u₀, -, hu₀, -, hoff, -⟩ := hspace.slotPtr hn
        obtain ⟨u'', hu'', hlt, hxid⟩ := hmeta.newSlot hn
        cases hu'.symm.trans hu''
        rw [hwslot]
        refine ⟨u₀, _, hu₀, hs', hoff, hlt, ?_⟩
        rw [UndoLog.slotAt_setSlotLsn]
        exact hxid
      · intro pg hpg
        rw [hwslot]
        refine ⟨_, hs', ?_⟩
        unfold logUndo at hpg
        dsimp only at hpg
        split_ifs at hpg
        cases hpg
        simp [UndoLog.setSlotLsn, UndoLog.setPage, UndoLog.page, hmeta.slotPtr]
      · intro hsound hinit u₀ off hu₀ ha hlt hblk hxid
        rw [hwslot] at hu₀ hblk
        have hzero : u'.slotZero = true := by
          have hboth : (s.needsSlot op && u'.slotZero) = true := hinit
          simp only [Bool.and_eq_true] at hboth
          exact hboth.2
        have hnone : u.pages (t.ctx.slotPtr.offset / blcksz) = none := by
          rcases hmeta.fresh u' hu' hzero with hz | hnone
          · rw [(hspace.sound hsound _ u hu).2] at hz
            cases hz
          · exact hnone
        obtain ⟨u₁, hu₁, hk⟩ := hspace.keep op.xact.topXid _ u₀ hu₀
        cases hu.symm.trans hu₁
        have htop : (u.slotAt off).xid = op.xact.topXid := by
          rcases hk.xid_kept off ha hlt with heq | heq
          · exact heq.trans hxid
          · exact heq
        have hnew : (u.slotAt off).xid = 0 := by
          simp [UndoLog.slotAt, UndoLog.page, hblk, hnone, SlotPage.init, UndoSlot.zero]
        unfold frozenXid at hnormal
        omega
      · intro hsound l u₁ hu₁
        by_cases hl : l = t.ctx.logno
        · subst hl
          cases hs'.symm.trans hu₁
          exact ⟨(hmeta.sound (hspace.sound hsound) _ u' hu').1, rfl⟩
        · have hv' : v.ulogs l = some u₁ := by
            rw [← hu₁]
            exact (UndoLogs.modify_of_ne (hmeta.logno ▸ hl)).symm
          obtain ⟨ha, hz⟩ := hmeta.sound (hspace.sound hsound) l u₁ hv'
          exact ⟨ha, hz hl⟩

end UndoWriter

end XStore
