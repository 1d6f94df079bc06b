import XStore.Undo.MetaInit

/-!
# Undo metadata over a restart

A checkpoint and the recovery behind it, from any file that `init_undo_meta` and earlier checkpoints can
have left.
-/
namespace XStore

theorem setLog_ulogs (sys : UndoSys) (logno : Nat) (u : UndoLogControl) (l : Nat) :
    (sys.setLog logno u).ulogs l = if l = logno then u else sys.ulogs l := by
  simp [UndoSys.setLog, Function.update_apply]

theorem segment_setSegment (u : UndoLogControl) (usp : UndoSegment) (stype stype' : UndoSegmentType) :
    (u.setSegment usp stype).segment stype' = if stype' = stype then usp else u.segment stype' := by
  cases stype <;> cases stype' <;> rfl

section Tables

variable {n : Nat}

theorem undologCountPerPage_eq : undologCountPerPage = 7 := rfl

theorem undosegmentCountPerPage_eq : undosegmentCountPerPage = 15 := rfl

theorem undoLog_last (hn : n = persistUndologCount) : n % undologCountPerPage ≠ 0 := by
  rw [hn]
  decide

theorem undoSegment_last (hn : n = persistUndologCount) : n % undosegmentCountPerPage ≠ 0 := by
  rw [hn]
  decide

theorem undoLogTable_written (sys : UndoSys) (c l : Nat) : ∃ dirty frozen,
    ((undoLogTable n).written sys c).ulogs l = { sys.ulogs l with dirty := dirty, frozen := frozen } ∧
      (l ≠ c → dirty = (sys.ulogs l).dirty ∧ frozen = (sys.ulogs l).frozen) := by
  unfold undoLogTable
  dsimp only
  split
  · by_cases hl : l = c
    · subst hl
      exact ⟨false, true, by simp [UndoSys.setLog], fun h => absurd rfl h⟩
    · exact ⟨_, _, by simp [UndoSys.setLog, hl], fun _ => ⟨rfl, rfl⟩⟩
  · by_cases hl : l = c
    · subst hl
      exact ⟨false, (sys.ulogs l).frozen, by simp [UndoSys.setLog], fun h => absurd rfl h⟩
    · exact ⟨_, _, by simp [UndoSys.setLog, hl], fun _ => ⟨rfl, rfl⟩⟩

theorem undoLogTable_lawful (hn : n = persistUndologCount) : (undoLogTable n).Lawful where
  page := rfl
  last := undoLog_last hn
  record_length := fun u => by simp [undoLogTable, undoLogPages, UndoLogMeta.bytes]
  record_written := by
    intro sys c l
    obtain ⟨dirty, frozen, heq, -⟩ := undoLogTable_written (n := n) sys c l
    rw [heq]
    rfl
  other := by
    intro sys c l hl
    obtain ⟨dirty, frozen, heq, hsame⟩ := undoLogTable_written (n := n) sys c l
    obtain ⟨rfl, rfl⟩ := hsame hl
    exact heq
  write_dvd := by
    intro g hg
    unfold MetaTable.writeSizeAt
    split
    · exact Nat.dvd_mul_left _ _
    · exact Nat.dvd_mul_right _ _
  write_le := by
    intro g hg
    unfold MetaTable.writeSizeAt
    simp only [undoLogTable, undoLogPages, MetaTable.countPerWrite, undoMetaPageSize, undoWriteSize,
      undologCountPerPage_eq] at hg ⊢
    split_ifs <;> omega
  write_end := by
    intro g hg
    have hcount : metaPageCount n 7 = n / 7 + 1 := metaPageCount_of_ne (undoLog_last hn)
    simp only [persistUndologCount, undologTotalCount] at hn
    unfold MetaTable.writeSizeAt MetaTable.fileEnd
    simp only [undoLogTable, undoLogPages, MetaTable.countPerWrite, undoMetaPageSize, undoWriteSize,
      undologCountPerPage_eq, hcount] at hg ⊢
    split_ifs <;> omega

theorem undoSegmentTable_written (stype : UndoSegmentType) (sys : UndoSys) (c l : Nat) : ∃ dirty,
    ((undoSegmentTable n stype).written sys c).ulogs l =
        (sys.ulogs l).setSegment { (sys.ulogs l).segment stype with dirty := dirty } stype ∧
      (l ≠ c → dirty = ((sys.ulogs l).segment stype).dirty) := by
  by_cases hl : l = c
  · subst hl
    exact ⟨false, by simp [undoSegmentTable, UndoSys.setLog], fun h => absurd rfl h⟩
  · refine ⟨_, ?_, fun _ => rfl⟩
    rw [undoSegmentTable, setLog_ulogs, if_neg hl]
    cases stype <;> rfl

theorem undoSegmentTable_lawful (hn : n = persistUndologCount) (stype : UndoSegmentType) :
    (undoSegmentTable n stype).Lawful where
  page := rfl
  last := undoSegment_last hn
  record_length := fun u => by simp [undoSegmentTable, undoSegmentPages, UndoSegmentMeta.bytes]
  record_written := by
    intro sys c l
    obtain ⟨dirty, heq, -⟩ := undoSegmentTable_written (n := n) stype sys c l
    rw [heq]
    simp [undoSegmentTable, segment_setSegment, UndoSegment.getMeta]
  other := by
    intro sys c l hl
    obtain ⟨dirty, heq, hsame⟩ := undoSegmentTable_written (n := n) stype sys c l
    rw [heq, hsame hl]
    cases stype <;> rfl
  write_dvd := by
    intro g hg
    unfold MetaTable.writeSizeAt
    split
    · exact Nat.dvd_mul_left _ _
    · exact Nat.dvd_mul_right _ _
  write_le := by
    intro g hg
    unfold MetaTable.writeSizeAt
    split
    · rename_i hlast
      simp only [undoSegmentTable, undoSegmentPages, MetaTable.countPerWrite, undoMetaPageSize,
        undoWriteSize, undosegmentCountPerPage_eq] at hlast ⊢
      omega
    · exact le_rfl
  write_end := by
    intro g hg
    have hcount : metaPageCount n 15 = n / 15 + 1 :=
      metaPageCount_of_ne (undoSegment_last hn)
    simp only [persistUndologCount, undologTotalCount] at hn
    unfold MetaTable.writeSizeAt MetaTable.fileEnd
    split <;> rename_i hgroup <;>
      simp only [undoSegmentTable, undoSegmentPages, MetaTable.countPerWrite, undoMetaPageSize,
        undoWriteSize, undosegmentCountPerPage_eq, hcount] at hg hgroup ⊢ <;> omega

end Tables

/-- The records of the logs and segments stand in the file, each as it was taken from some log. -/
structure MetaFile.Stored (crc : List UInt8 → UInt32) (n : Nat) (f : MetaFile) (logs : Nat → UndoLogMeta)
    (segs : UndoSegmentType → Nat → UndoSegmentMeta) : Prop where
  logTable : TableAt (undoLogPages n) crc f 0 fun l => (logs l).bytes
  segTable : ∀ stype, TableAt (undoSegmentPages n) crc f (segmentPageBegin n stype) fun l =>
    (segs stype l).bytes
  logs_taken : ∀ l < n, ∃ u : UndoLogControl, logs l = u.getUndoMeta
  segs_taken : ∀ stype, ∀ l < n, ∃ usp : UndoSegment, segs stype l = usp.getMeta

variable {crc : List UInt8 → UInt32} {n l : Nat} {f f' : MetaFile} {sys : UndoSys}
  {stype : UndoSegmentType} {logs : Nat → UndoLogMeta} {segs : UndoSegmentType → Nat → UndoSegmentMeta}
  {T : RecordPages}
  {u v : UndoLogControl}
  {ulogs : Nat → UndoLogControl} {t : MetaTable} {file : MetaFile} {w : MetaInit}

/-- A table is not touched by writes elsewhere in the file. -/
theorem TableAt.of_outside {pos : Nat} {record : Nat → List UInt8}
    (h : TableAt T crc f pos record)
    (hsize : pos + metaPageCount T.total T.perPage * undoMetaPageSize ≤ f'.size)
    (hsame : ∀ a, pos ≤ a → a < pos + metaPageCount T.total T.perPage * undoMetaPageSize →
      f'.bytes a = f.bytes a) : TableAt T crc f' pos record where
  page := h.page
  last := h.last
  size := hsize
  pages := by
    intro p hn
    refine (h.pages p hn).congr fun i hi => (hsame _ (by omega) ?_).symm
    have hp : p ≤ T.total / T.perPage := (Nat.le_div_iff_mul_le T.perPage_pos).mpr hn.le
    have hmul := Nat.mul_le_mul_right undoMetaPageSize hp
    rw [metaPageCount_of_ne h.last, Nat.succ_mul]
    rw [h.page] at hi
    omega

theorem InitTo.tableAt {pos : Nat} {record : List UInt8}
    (hpage : T.page = undoMetaPageSize) (hlast : T.total % T.perPage ≠ 0)
    (h : InitTo T crc file pos record T.total w) :
    w.pos = pos + metaPageCount T.total T.perPage * undoMetaPageSize ∧
      TableAt T crc w.file pos fun _ => record := by
  have hpos := h.pos_eq
  rw [if_pos rfl] at hpos
  refine ⟨hpos, hpage, hlast, hpos ▸ h.pos_le, fun p hn => h.done p hn ?_⟩
  rw [RecordPages.count]
  omega

theorem InitTo.keeps {T T' : RecordPages} {pos pos' : Nat} {record : List UInt8}
    {record' : Nat → List UInt8}
    (h : InitTo T crc file pos record T.total w) (ht : TableAt T' crc file pos' record')
    (hle : pos' + metaPageCount T'.total T'.perPage * undoMetaPageSize ≤ pos) :
    TableAt T' crc w.file pos' record' := by
  have hpos := h.pos_eq
  have := h.pos_le
  exact ht.of_outside (by omega) fun a _ ha => h.before a (by omega)

theorem stored_init (hn : n = persistUndologCount) :
    (initUndoMeta crc n).file.Stored crc n (fun _ => initUndoLog.getUndoMeta)
      fun _ _ => UndoSegment.getMeta ⟨0, 0, 0, false⟩ := by
  have hlog : initUndoLog.getUndoMeta.bytes.length = (undoLogPages n).size := by
    simp [UndoLogMeta.bytes, undoLogPages]
  have hseg : (UndoSegment.getMeta ⟨0, 0, 0, false⟩).bytes.length = (undoSegmentPages n).size := by
    simp [UndoSegmentMeta.bytes, undoSegmentPages]
  have h₁ := @initMetaTable_spec crc (undoLogPages n) ⟨zeroBuffer, 0⟩ 0 _ rfl (undoLog_last hn) hlog
    le_rfl
  have h₂ := @initMetaTable_spec crc (undoSegmentPages n) _ _ _ rfl (undoSegment_last hn) hseg h₁.pos_le
  have h₃ := @initMetaTable_spec crc (undoSegmentPages n) _ _ _ rfl (undoSegment_last hn) hseg h₂.pos_le
  obtain ⟨hpos₁, htable₁⟩ := h₁.tableAt rfl (undoLog_last hn)
  obtain ⟨hpos₂, htable₂⟩ := h₂.tableAt rfl (undoSegment_last hn)
  obtain ⟨-, htable₃⟩ := h₃.tableAt rfl (undoSegment_last hn)
  rw [Nat.zero_add] at hpos₁
  have hbegin₁ : _ = segmentPageBegin n .undoLogSegment := hpos₁
  have hbegin₂ : _ = segmentPageBegin n .undoSlotSegment := hpos₂.trans (congrArg (· + _) hpos₁)
  -- the later tables are written behind the earlier ones
  constructor
  · refine h₃.keeps (h₂.keeps htable₁ ?_) ?_
    · omega
    · omega
  · rintro (_ | _)
    · rw [← hbegin₁]
      exact h₃.keeps htable₂ (by omega)
    · rw [← hbegin₂]
      exact htable₃
  · exact fun _ _ => ⟨initUndoLog, rfl⟩
  · exact fun _ _ _ => ⟨_, rfl⟩

/-- A checkpoint of one table leaves it whole, with new records on the pages it has rewritten. -/
theorem MetaTable.Checkpointed.tableAt {record record' : Nat → List UInt8}
    (h : t.Checkpointed crc ulogs f f')
    (ht : TableAt t.pages crc f t.pageBegin record)
    (hnew : ∀ l < t.pages.total, t.Rewritten ulogs (l / t.pages.perPage) →
      record' l = t.record (ulogs l))
    (hold : ∀ l < t.pages.total, ¬ t.Rewritten ulogs (l / t.pages.perPage) →
      record' l = record l) : TableAt t.pages crc f' t.pageBegin record' where
  page := ht.page
  last := ht.last
  size := h.size ▸ ht.size
  pages := by
    intro p hn
    by_cases hre : t.Rewritten ulogs p
    · have hpage := h.rewritten p hn hre
      exact ⟨fun l hl hp => by rw [hpage.stored l hl hp, hnew l hl (hp ▸ hre)], hpage.checked⟩
    · have hpage := (ht.pages p hn).congr fun i hi => (h.kept p hn hre i (ht.page ▸ hi)).symm
      exact ⟨fun l hl hp => by rw [hpage.stored l hl hp, hold l hl (hp ▸ hre)], hpage.checked⟩

theorem MetaTable.Checkpointed.congr {ulogs ulogs' : Nat → UndoLogControl}
    (h : t.Checkpointed crc ulogs f f') (hdirty : ∀ l, t.dirty (ulogs l) = t.dirty (ulogs' l))
    (hrecord : ∀ l, t.record (ulogs l) = t.record (ulogs' l)) : t.Checkpointed crc ulogs' f f' := by
  have hre : ∀ p, t.Rewritten ulogs p ↔ t.Rewritten ulogs' p := by
    intro p
    simp only [MetaTable.Rewritten, MetaTable.GroupDirty, hdirty]
  have hrec : (fun l => t.record (ulogs l)) = fun l => t.record (ulogs' l) := funext hrecord
  exact ⟨h.size, h.outside, fun p hn hp => hrec ▸ h.rewritten p hn ((hre p).mpr hp),
    fun p hn hp => h.kept p hn fun hp' => hp ((hre p).mp hp')⟩

/-- A table before or behind the one that is checkpointed stays. -/
theorem MetaTable.Checkpointed.keeps
    {pos : Nat} {record : Nat → List UInt8} (h : t.Checkpointed crc ulogs f f')
    (ht : TableAt T crc f pos record)
    (hapart : pos + metaPageCount T.total T.perPage * undoMetaPageSize ≤ t.pageBegin ∨
      t.fileEnd ≤ pos) : TableAt T crc f' pos record :=
  ht.of_outside (h.size ▸ ht.size) fun a _ _ => h.outside a (by omega)

/-- The segments of a log are not changed by the checkpoint of the logs, nor its transaction segment by the
checkpoint of the data segments. -/
theorem segment_checkpoint_logs (file : MetaFile) (stype : UndoSegmentType) (l : Nat) :
    (((undoLogTable n).checkpoint crc sys file).sys.ulogs l).segment stype =
      (sys.ulogs l).segment stype := by
  refine MetaTable.checkpoint_preserves (F := fun u => u.segment stype) (fun sys c l => ?_) l
  obtain ⟨dirty, frozen, heq, -⟩ := undoLogTable_written (n := n) sys c l
  rw [heq]
  cases stype <;> rfl

theorem segment_checkpoint_data (file : MetaFile) (l : Nat) :
    (((undoSegmentTable n .undoLogSegment).checkpoint crc sys file).sys.ulogs l).segment
      .undoSlotSegment = (sys.ulogs l).segment .undoSlotSegment := by
  refine MetaTable.checkpoint_preserves (F := fun u => u.segment .undoSlotSegment)
    (fun sys c l => ?_) l
  obtain ⟨dirty, heq, -⟩ := undoSegmentTable_written (n := n) .undoLogSegment sys c l
  rw [heq]
  rfl

/-- The tables of a file are checkpointed one after the other, each with what the logs had at the start. -/
theorem checkpointUndoMeta_tables (hn : n = persistUndologCount) (h : f.Stored crc n logs segs)
    (hused : sys.undoLogUsedCount ≠ 0) :
    ∃ f₁ f₂, (undoLogTable n).Checkpointed crc sys.ulogs f f₁ ∧
      (undoSegmentTable n .undoLogSegment).Checkpointed crc sys.ulogs f₁ f₂ ∧
      (undoSegmentTable n .undoSlotSegment).Checkpointed crc sys.ulogs f₂
        (checkpointUndoMeta crc n sys f).2 := by
  have h₁ := @MetaTable.checkpoint_file (undoLogTable n) crc sys f (undoLogTable_lawful hn)
    h.logTable.size
  have h₂ := @MetaTable.checkpoint_file (undoSegmentTable n .undoLogSegment) crc
    ((undoLogTable n).checkpoint crc sys f).sys _ (undoSegmentTable_lawful hn .undoLogSegment)
    (h₁.size.symm ▸ (h.segTable .undoLogSegment).size)
  have h₃ := @MetaTable.checkpoint_file (undoSegmentTable n .undoSlotSegment) crc
    ((undoSegmentTable n .undoLogSegment).checkpoint crc ((undoLogTable n).checkpoint crc sys f).sys
      ((undoLogTable n).checkpoint crc sys f).file).sys _ (undoSegmentTable_lawful hn .undoSlotSegment)
    ((h₂.size.trans h₁.size).symm ▸ (h.segTable .undoSlotSegment).size)
  have heq : (checkpointUndoMeta crc n sys f).2 = ((undoSegmentTable n .undoSlotSegment).checkpoint crc
      ((undoSegmentTable n .undoLogSegment).checkpoint crc ((undoLogTable n).checkpoint crc sys f).sys
        ((undoLogTable n).checkpoint crc sys f).file).sys
      ((undoSegmentTable n .undoLogSegment).checkpoint crc ((undoLogTable n).checkpoint crc sys f).sys
        ((undoLogTable n).checkpoint crc sys f).file).file).file := by
    rw [checkpointUndoMeta, if_neg hused]
    rfl
  rw [heq]
  refine ⟨_, _, h₁, h₂.congr (fun l => ?_) (fun l => ?_), h₃.congr (fun l => ?_) (fun l => ?_)⟩
  · simp only [undoSegmentTable, segment_checkpoint_logs]
  · simp only [undoSegmentTable, segment_checkpoint_logs]
  · exact congrArg UndoSegment.dirty
      ((segment_checkpoint_data _ l).trans (segment_checkpoint_logs _ _ l))
  · exact congrArg (fun usp => usp.getMeta.bytes)
      ((segment_checkpoint_data _ l).trans (segment_checkpoint_logs _ _ l))

/-- The records after a checkpoint are those of the logs on the pages that it has rewritten, and the old
ones on the others. -/
theorem MetaFile.Stored.checkpoint (hn : n = persistUndologCount) (h : f.Stored crc n logs segs)
    (hused : sys.undoLogUsedCount ≠ 0) :
    ∃ logs' segs', (checkpointUndoMeta crc n sys f).2.Stored crc n logs' segs' ∧
      (∀ l < n, ((undoLogTable n).Rewritten sys.ulogs (l / undologCountPerPage) →
          logs' l = (sys.ulogs l).getUndoMeta) ∧
        (¬ (undoLogTable n).Rewritten sys.ulogs (l / undologCountPerPage) → logs' l = logs l)) ∧
      ∀ stype, ∀ l < n,
        ((undoSegmentTable n stype).Rewritten sys.ulogs (l / undosegmentCountPerPage) →
          segs' stype l = ((sys.ulogs l).segment stype).getMeta) ∧
        (¬ (undoSegmentTable n stype).Rewritten sys.ulogs (l / undosegmentCountPerPage) →
          segs' stype l = segs stype l) := by
  classical
  obtain ⟨f₁, f₂, h₁, h₂, h₃⟩ := checkpointUndoMeta_tables hn h hused
  let logs' : Nat → UndoLogMeta := fun l =>
    if (undoLogTable n).Rewritten sys.ulogs (l / undologCountPerPage) then (sys.ulogs l).getUndoMeta
    else logs l
  let segs' : UndoSegmentType → Nat → UndoSegmentMeta := fun stype l =>
    if (undoSegmentTable n stype).Rewritten sys.ulogs (l / undosegmentCountPerPage) then
      ((sys.ulogs l).segment stype).getMeta
    else segs stype l
  refine ⟨logs', segs', ⟨?_, ?_, ?_, ?_⟩, fun l _ => ⟨fun hre => if_pos hre, fun hre => if_neg hre⟩,
    fun stype l _ => ⟨fun hre => if_pos hre, fun hre => if_neg hre⟩⟩
  · refine h₃.keeps (h₂.keeps (h₁.tableAt h.logTable ?_ ?_) (.inl ?_)) (.inl ?_)
    · intro l _ hre
      exact congrArg UndoLogMeta.bytes (if_pos hre)
    · intro l _ hre
      exact congrArg UndoLogMeta.bytes (if_neg hre)
    · exact (Nat.zero_add _).le
    · exact (Nat.zero_add _).le.trans (Nat.le_add_right _ _)
  · rintro (_ | _)
    · refine h₃.keeps (h₂.tableAt (h₁.keeps (h.segTable .undoLogSegment) (.inr ?_)) ?_ ?_)
        (.inl le_rfl)
      · exact (Nat.zero_add _).le
      · intro l _ hre
        exact congrArg UndoSegmentMeta.bytes (if_pos hre)
      · intro l _ hre
        exact congrArg UndoSegmentMeta.bytes (if_neg hre)
    · refine h₃.tableAt (h₂.keeps (h₁.keeps (h.segTable .undoSlotSegment) (.inr ?_)) (.inr le_rfl)) ?_ ?_
      · exact (Nat.zero_add _).le.trans (Nat.le_add_right _ _)
      · intro l _ hre
        exact congrArg UndoSegmentMeta.bytes (if_pos hre)
      · intro l _ hre
        exact congrArg UndoSegmentMeta.bytes (if_neg hre)
  · intro l hl
    by_cases hre : (undoLogTable n).Rewritten sys.ulogs (l / undologCountPerPage)
    · exact ⟨sys.ulogs l, if_pos hre⟩
    · obtain ⟨u, hu⟩ := h.logs_taken l hl
      exact ⟨u, (if_neg hre).trans hu⟩
  · intro stype l hl
    by_cases hre : (undoSegmentTable n stype).Rewritten sys.ulogs (l / undosegmentCountPerPage)
    · exact ⟨(sys.ulogs l).segment stype, if_pos hre⟩
    · obtain ⟨usp, husp⟩ := h.segs_taken stype l hl
      exact ⟨usp, (if_neg hre).trans husp⟩

/-- The files that `init_undo_meta` and checkpoints with any logs leave. -/
inductive MetaFile.Valid (crc : List UInt8 → UInt32) (n : Nat) : MetaFile → Prop
  | init : Valid crc n (initUndoMeta crc n).file
  | checkpoint {f : MetaFile} (sys : UndoSys) (h : Valid crc n f) :
      Valid crc n (checkpointUndoMeta crc n sys f).2

theorem MetaFile.Valid.stored (hn : n = persistUndologCount) (h : f.Valid crc n) :
    ∃ logs segs, f.Stored crc n logs segs := by
  induction h with
  | init => exact ⟨_, _, stored_init hn⟩
  | checkpoint sys _ ih =>
    obtain ⟨logs, segs, hs⟩ := ih
    by_cases hused : sys.undoLogUsedCount = 0
    · rw [checkpointUndoMeta, if_pos hused]
      exact ⟨logs, segs, hs⟩
    · obtain ⟨logs', segs', hs', -⟩ := hs.checkpoint hn hused
      exact ⟨logs', segs', hs'⟩

def UndoLogControl.logValues (u : UndoLogControl) : UndoLogMeta :=
  ⟨xstoreUndoVersion, u.lsn, u.allocSlotOffset, u.recycleSlotOffset, u.insertOffset, u.discardOffset,
    u.forceDiscardOffset, u.recycleXid⟩

theorem UndoLogMeta.ofBytes_bytes (r : UndoLogMeta) : UndoLogMeta.ofBytes r.bytes = r := by
  have hword : ∀ i v, [r.version.toUInt64, r.lsn, r.allocateSlotOffset, r.recycleSlotOffset,
      r.insertRecPtr, r.discardRecPtr, r.foreceDiscardRecPtr, r.recycleXid][i]? = some v →
      wordAt r.bytes i = v := fun i v => wordAt_wordBytes
  rw [UndoLogMeta.ofBytes, hword 0 _ rfl, hword 1 _ rfl, hword 2 _ rfl, hword 3 _ rfl, hword 4 _ rfl,
    hword 5 _ rfl, hword 6 _ rfl, hword 7 _ rfl, UInt32.toUInt32_toUInt64]

theorem UndoSegmentMeta.ofBytes_bytes (r : UndoSegmentMeta) : UndoSegmentMeta.ofBytes r.bytes = r := by
  have hword : ∀ i v, [r.version.toUInt64, r.lsn, r.head, r.tail][i]? = some v → wordAt r.bytes i = v :=
    fun i v => wordAt_wordBytes
  rw [UndoSegmentMeta.ofBytes, hword 0 _ rfl, hword 1 _ rfl, hword 2 _ rfl, hword 3 _ rfl,
    UInt32.toUInt32_toUInt64]

theorem undoPtrGetOffset_idem (v : UInt64) :
    undoPtrGetOffset (undoPtrGetOffset v) = undoPtrGetOffset v := by
  rw [undoPtrGetOffset, undoPtrGetOffset, UInt64.and_assoc, UInt64.and_self]

/-- A record that was taken from a log is taken over as it is. -/
theorem logValues_recovery (u u₀ : UndoLogControl) :
    (u₀.recovery u.getUndoMeta).logValues = u.getUndoMeta := by
  simp only [UndoLogControl.logValues, UndoLogControl.recovery, UndoLogControl.getUndoMeta,
    undoPtrGetOffset_idem]

theorem restoreUndoLog_other (sys : UndoSys) (bs : List UInt8) {l l' : Nat} (h : l' ≠ l) :
    (restoreUndoLog sys l bs).ulogs l' = sys.ulogs l' := by
  unfold restoreUndoLog
  dsimp only
  split
  · rw [setLog_ulogs, if_neg h]
  · rfl

theorem restoreUndoSegment_other (stype : UndoSegmentType) (sys : UndoSys) (bs : List UInt8) {l l' : Nat}
    (h : l' ≠ l) : (restoreUndoSegment stype sys l bs).ulogs l' = sys.ulogs l' := by
  have hset : ∀ u, (sys.setLog l u).ulogs l' = sys.ulogs l' := fun u => by rw [setLog_ulogs, if_neg h]
  cases stype with
  | undoLogSegment =>
    simp only [restoreUndoSegment]
    split_ifs <;> exact hset _
  | undoSlotSegment => exact hset _

theorem restoreUndoSegment_self (stype : UndoSegmentType) (sys : UndoSys) (bs : List UInt8) (l : Nat) :
    ((restoreUndoSegment stype sys l bs).ulogs l).logValues = (sys.ulogs l).logValues ∧
      ∀ stype', (((restoreUndoSegment stype sys l bs).ulogs l).segment stype').getMeta =
        if stype' = stype then { UndoSegmentMeta.ofBytes bs with version := xstoreUndoVersion }
        else ((sys.ulogs l).segment stype').getMeta := by
  have hset : ∀ u, (sys.setLog l u).ulogs l = u := fun u => by rw [setLog_ulogs, if_pos rfl]
  have hsame : ∀ frozen, ({ (sys.ulogs l).setSegment ⟨(UndoSegmentMeta.ofBytes bs).lsn,
      (UndoSegmentMeta.ofBytes bs).head, (UndoSegmentMeta.ofBytes bs).tail, false⟩ stype with
        frozen := frozen } : UndoLogControl).logValues = (sys.ulogs l).logValues := by
    intro frozen
    cases stype <;> rfl
  have hseg : ∀ frozen stype', (({ (sys.ulogs l).setSegment ⟨(UndoSegmentMeta.ofBytes bs).lsn,
      (UndoSegmentMeta.ofBytes bs).head, (UndoSegmentMeta.ofBytes bs).tail, false⟩ stype with
        frozen := frozen } : UndoLogControl).segment stype').getMeta =
      if stype' = stype then { UndoSegmentMeta.ofBytes bs with version := xstoreUndoVersion }
      else ((sys.ulogs l).segment stype').getMeta := by
    intro frozen stype'
    cases stype <;> cases stype' <;> rfl
  cases stype with
  | undoLogSegment =>
    simp only [restoreUndoSegment]
    split_ifs
    · rw [hset]
      exact ⟨hsame true, hseg true⟩
    · rw [hset]
      exact ⟨hsame _, hseg _⟩
    · rw [hset]
      exact ⟨hsame _, hseg _⟩
  | undoSlotSegment =>
    rw [show (restoreUndoSegment .undoSlotSegment sys l bs).ulogs l = _ from hset _]
    exact ⟨hsame _, hseg _⟩

theorem foldl_restore {restore : UndoSys → Nat → List UInt8 → UndoSys} {record : Nat → List UInt8}
    (hother : ∀ s l bs l', l' ≠ l → (restore s l bs).ulogs l' = s.ulogs l') (sys : UndoSys) (m : Nat) :
    (∀ l ≥ m, ((List.range m).foldl (fun s l => restore s l (record l)) sys).ulogs l = sys.ulogs l) ∧
      ∀ l < m, ∃ s', s'.ulogs l = sys.ulogs l ∧
        ((List.range m).foldl (fun s l => restore s l (record l)) sys).ulogs l =
          (restore s' l (record l)).ulogs l := by
  induction m with
  | zero => exact ⟨fun _ _ => rfl, fun _ hl => absurd hl (Nat.not_lt_zero _)⟩
  | succ m ih =>
    rw [List.range_succ, List.foldl_append, List.foldl_cons, List.foldl_nil]
    refine ⟨fun l hl => ?_, fun l hl => ?_⟩
    · rw [hother _ _ _ _ (by omega), ih.1 l (by omega)]
    · rcases Nat.lt_succ_iff_lt_or_eq.mp hl with hlt | rfl
      · obtain ⟨s', hs', heq⟩ := ih.2 l hlt
        exact ⟨s', hs', by rw [hother _ _ _ _ (by omega), heq]⟩
      · exact ⟨_, ih.1 l le_rfl, rfl⟩

theorem MetaFile.Stored.recoveryLogs (h : f.Stored crc n logs segs) (sys : UndoSys) :
    ∃ sys', recoveryUndoLogs crc n f sys = .ok sys' ∧ ∀ l < n,
      sys'.ulogs l = if (logs l).insertRecPtr ≠ firstUndoOffset then (sys.ulogs l).recovery (logs l)
        else sys.ulogs l := by
  refine ⟨_, recoveryLoop_ok h.logTable, fun l hl => ?_⟩
  obtain ⟨s', hs', heq⟩ := (foldl_restore (fun s l bs l' => restoreUndoLog_other s bs) sys n).2 l hl
  refine heq.trans ?_
  unfold restoreUndoLog
  dsimp only
  rw [UndoLogMeta.ofBytes_bytes]
  split
  · rw [setLog_ulogs, if_pos rfl, hs']
  · exact hs'

theorem MetaFile.Stored.recoverySegment (h : f.Stored crc n logs segs) (stype : UndoSegmentType)
    (sys : UndoSys) :
    ∃ sys', recoveryUndoSegment crc n stype f sys = .ok sys' ∧ ∀ l < n,
      (sys'.ulogs l).logValues = (sys.ulogs l).logValues ∧
      ∀ stype', ((sys'.ulogs l).segment stype').getMeta =
        if stype' = stype then segs stype l else ((sys.ulogs l).segment stype').getMeta := by
  refine ⟨_, recoveryLoop_ok (h.segTable stype), fun l hl => ?_⟩
  obtain ⟨s', hs', heq⟩ :=
    (foldl_restore (fun s l bs l' => restoreUndoSegment_other stype s bs) sys n).2 l hl
  obtain ⟨hvalues, hsegs⟩ := restoreUndoSegment_self stype s' (segs stype l).bytes l
  obtain ⟨usp, husp⟩ := h.segs_taken stype l hl
  refine ⟨(congrArg _ heq).trans (hvalues.trans (congrArg _ hs')), fun stype' => ?_⟩
  refine (congrArg (fun u => (UndoLogControl.segment u stype').getMeta) heq).trans ?_
  rw [hsegs stype', hs', UndoSegmentMeta.ofBytes_bytes, husp]
  rfl

/-- The values that a log gets from its record at a restart. -/
def UndoLogMeta.restored (r : UndoLogMeta) : UndoLogMeta :=
  if r.insertRecPtr ≠ firstUndoOffset then r else initUndoLog.logValues

theorem MetaFile.Stored.recovery (h : f.Stored crc n logs segs) (undoLogMaxSize : UInt64) :
    ∃ sys, recoveryUndoMeta crc n undoLogMaxSize f = .ok sys ∧ ∀ l < n,
      (sys.ulogs l).logValues = (logs l).restored ∧
      ∀ stype, ((sys.ulogs l).segment stype).getMeta = segs stype l := by
  obtain ⟨sys₁, hrun₁, hlog⟩ := h.recoveryLogs ⟨fun _ => initUndoLog, 0, undoLogMaxSize⟩
  obtain ⟨sys₂, hrun₂, hdata⟩ := h.recoverySegment .undoLogSegment sys₁
  obtain ⟨sys₃, hrun₃, htxn⟩ := h.recoverySegment .undoSlotSegment sys₂
  refine ⟨sys₃, ?_, fun l hl => ⟨?_, ?_⟩⟩
  · simp only [recoveryUndoMeta, hrun₁, hrun₂, hrun₃, Except.bind]
  · rw [(htxn l hl).1, (hdata l hl).1, hlog l hl]
    obtain ⟨u, hu⟩ := h.logs_taken l hl
    unfold UndoLogMeta.restored
    split
    · rw [hu, logValues_recovery]
    · rfl
  · rintro (_ | _)
    · rw [(htxn l hl).2, if_neg (by decide), (hdata l hl).2, if_pos rfl]
    · rw [(htxn l hl).2, if_pos rfl]

def MetaFile.undoLogMeta (f : MetaFile) (l : Nat) : UndoLogMeta :=
  .ofBytes (f.bytes.load (l / undologCountPerPage * undoMetaPageSize + l % undologCountPerPage * 64) 64)

def MetaFile.undoSegmentMeta (f : MetaFile) (n : Nat) (stype : UndoSegmentType) (l : Nat) :
    UndoSegmentMeta :=
  .ofBytes (f.bytes.load (segmentPageBegin n stype + l / undosegmentCountPerPage * undoMetaPageSize +
    l % undosegmentCountPerPage * 32) 32)

theorem MetaFile.Stored.undoLogMeta_eq (h : f.Stored crc n logs segs) (hl : l < n) :
    f.undoLogMeta l = logs l := by
  have hpage := (h.logTable.pages (l / undologCountPerPage)
    ((Nat.div_mul_le_self _ _).trans_lt hl)).stored l hl rfl
  rw [Nat.zero_add] at hpage
  exact (congrArg _ hpage).trans (UndoLogMeta.ofBytes_bytes _)

theorem MetaFile.Stored.undoSegmentMeta_eq (h : f.Stored crc n logs segs) (hl : l < n) :
    f.undoSegmentMeta n stype l = segs stype l := by
  have hpage := ((h.segTable stype).pages (l / undosegmentCountPerPage)
    ((Nat.div_mul_le_self _ _).trans_lt hl)).stored l hl rfl
  exact (congrArg _ hpage).trans (UndoSegmentMeta.ofBytes_bytes _)

/-- The logs and segments that have not changed have the values that are in the file. -/
def UndoSys.CleanIn (sys : UndoSys) (n : Nat) (f : MetaFile) : Prop :=
  ∀ l < n, ((sys.ulogs l).dirty = false → f.undoLogMeta l = (sys.ulogs l).logValues) ∧
    ∀ stype, ((sys.ulogs l).segment stype).dirty = false →
      f.undoSegmentMeta n stype l = ((sys.ulogs l).segment stype).getMeta

/-- A checkpoint and the recovery behind it give every log its values back. -/
def UndoSys.Survives (sys : UndoSys) (crc : List UInt8 → UInt32) (n : Nat) (f : MetaFile) : Prop :=
  ∃ sys', recoveryUndoMeta crc n sys.undoLogMaxSize (checkpointUndoMeta crc n sys f).2 = .ok sys' ∧
    ∀ l < n, (sys'.ulogs l).logValues = (sys.ulogs l).logValues ∧
      ∀ stype, ((sys'.ulogs l).segment stype).getMeta = ((sys.ulogs l).segment stype).getMeta

/-- The first log whose segments the write of the last group does not reach: only its first page is
written. -/
def firstUnwrittenSegment (n : Nat) : Nat :=
  n / (undosegmentCountPerPage * 8) * (undosegmentCountPerPage * 8) + undosegmentCountPerPage

structure UndoSys.Recordable (sys : UndoSys) (n : Nat) (f : MetaFile) : Prop where
  offsets : ∀ l < n, (sys.ulogs l).getUndoMeta = (sys.ulogs l).logValues
  new : ∀ l < n, (sys.ulogs l).insertOffset = firstUndoOffset →
    (sys.ulogs l).logValues = initUndoLog.logValues
  unwritten : ∀ l < n, firstUnwrittenSegment n ≤ l → ∀ stype,
    f.undoSegmentMeta n stype l = ((sys.ulogs l).segment stype).getMeta
  unused : sys.undoLogUsedCount = 0 → ∀ l < n, (f.undoLogMeta l).restored = (sys.ulogs l).logValues ∧
    ∀ stype, f.undoSegmentMeta n stype l = ((sys.ulogs l).segment stype).getMeta

/-- A restart gives the logs the values that the records of the file restore. -/
theorem survives_iff_records {logs' : Nat → UndoLogMeta}
    {segs' : UndoSegmentType → Nat → UndoSegmentMeta}
    (h : (checkpointUndoMeta crc n sys f).2.Stored crc n logs' segs') :
    sys.Survives crc n f ↔ ∀ l < n, (logs' l).restored = (sys.ulogs l).logValues ∧
      ∀ stype, segs' stype l = ((sys.ulogs l).segment stype).getMeta := by
  obtain ⟨sys', hrun, hvalues⟩ := h.recovery sys.undoLogMaxSize
  constructor
  · rintro ⟨sys'', hrun', hsame⟩ l hl
    obtain rfl : sys' = sys'' := Except.ok.inj (hrun.symm.trans hrun')
    rw [← (hvalues l hl).1]
    exact ⟨(hsame l hl).1, fun stype => by rw [← (hvalues l hl).2, (hsame l hl).2]⟩
  · intro hsame
    refine ⟨sys', hrun, fun l hl => ?_⟩
    rw [(hvalues l hl).1]
    exact ⟨(hsame l hl).1, fun stype => by rw [(hvalues l hl).2, (hsame l hl).2]⟩

theorem getUndoMeta_congr (h : u.logValues = v.logValues) :
    u.getUndoMeta = v.getUndoMeta := by
  simp only [UndoLogControl.logValues, UndoLogMeta.mk.injEq] at h
  obtain ⟨-, h₁, h₂, h₃, h₄, h₅, h₆, h₇⟩ := h
  simp only [UndoLogControl.getUndoMeta, h₁, h₂, h₃, h₄, h₅, h₆, h₇]

/-- A log whose values are those of a record has offsets that fit. -/
theorem getUndoMeta_of_taken (h : v.getUndoMeta = u.logValues) :
    u.getUndoMeta = u.logValues :=
  -- the record is the values of the log that recovery makes of it
  (getUndoMeta_congr (h.symm.trans (logValues_recovery v v).symm)).trans <| by
    rw [← h]
    simp only [UndoLogControl.getUndoMeta, UndoLogControl.recovery, undoPtrGetOffset_idem]

theorem getUndoMeta_init : initUndoLog.getUndoMeta = initUndoLog.logValues := by decide

/-- A record that was taken from a log restores that log if and only if the offsets of the log fit, and it
does not look like a new log. -/
theorem restored_getUndoMeta_iff (u : UndoLogControl) :
    u.getUndoMeta.restored = u.logValues ↔ u.getUndoMeta = u.logValues ∧
      (u.insertOffset = firstUndoOffset → u.logValues = initUndoLog.logValues) := by
  unfold UndoLogMeta.restored
  split
  case isTrue hne =>
    refine ⟨fun h => ⟨h, fun hi => absurd ?_ hne⟩, fun h => h.1⟩
    rw [h]
    exact hi
  case isFalse heq =>
    rw [not_not] at heq
    constructor
    · intro h
      exact ⟨(getUndoMeta_congr h.symm).trans (getUndoMeta_init.trans h), fun _ => h.symm⟩
    · rintro ⟨hfit, hnew⟩
      rw [hfit] at heq
      exact (hnew heq).symm

/-- A record in the file restores a log only if a new record of the log would. -/
theorem restored_of_taken (h : v.getUndoMeta.restored = u.logValues) :
    u.getUndoMeta.restored = u.logValues := by
  rw [restored_getUndoMeta_iff]
  unfold UndoLogMeta.restored at h
  split at h
  case isTrue hne =>
    refine ⟨getUndoMeta_of_taken h, fun hi => absurd ?_ hne⟩
    rw [h]
    exact hi
  case isFalse => exact ⟨(getUndoMeta_congr h.symm).trans (getUndoMeta_init.trans h), fun _ => h.symm⟩

theorem undoLog_reached (hn : n = persistUndologCount) (hl : l < n) :
    l / undologCountPerPage % 8 * undoMetaPageSize <
      (undoLogTable n).writeSizeAt (l / undologCountPerPage / 8) := by
  simp only [persistUndologCount, undologTotalCount] at hn
  unfold MetaTable.writeSizeAt
  split <;> rename_i hgroup <;>
    simp only [undoLogTable, undoLogPages, MetaTable.countPerWrite, undoMetaPageSize, undoWriteSize,
      undologCountPerPage_eq] at hgroup ⊢ <;> omega

theorem undoSegment_reached (hn : n = persistUndologCount) (hl : l < n) :
    l / undosegmentCountPerPage % 8 * undoMetaPageSize <
      (undoSegmentTable n stype).writeSizeAt (l / undosegmentCountPerPage / 8) ↔
        l < firstUnwrittenSegment n := by
  simp only [persistUndologCount, undologTotalCount] at hn
  unfold MetaTable.writeSizeAt firstUnwrittenSegment
  split <;> rename_i hgroup <;>
    simp only [undoSegmentTable, undoSegmentPages, MetaTable.countPerWrite, undoMetaPageSize,
      undoWriteSize, undosegmentCountPerPage_eq] at hgroup ⊢ <;> omega

theorem MetaTable.groupDirty_of_dirty
    (hl : l < t.pages.total) (hdirty : t.dirty (ulogs l) = true) :
    t.GroupDirty ulogs (l / t.pages.perPage / 8) := by
  rw [← MetaTable.div_countPerWrite]
  exact ⟨l, Nat.div_mul_le_self _ _, (MetaTable.lt_groupEnd_iff hl).mpr le_rfl, hdirty⟩

theorem survives_iff (hn : n = persistUndologCount) (hf : f.Valid crc n) (hclean : sys.CleanIn n f) :
    sys.Survives crc n f ↔ sys.Recordable n f := by
  obtain ⟨logs, segs, hs⟩ := hf.stored hn
  by_cases hused : sys.undoLogUsedCount = 0
  · -- the file is read as it was
    have hsame : (checkpointUndoMeta crc n sys f).2.Stored crc n logs segs := by
      rw [checkpointUndoMeta, if_pos hused]
      exact hs
    rw [survives_iff_records hsame]
    constructor
    · intro h
      have hrest : ∀ l < n, (sys.ulogs l).getUndoMeta.restored = (sys.ulogs l).logValues := by
        intro l hl
        obtain ⟨u, hu⟩ := hs.logs_taken l hl
        exact restored_of_taken (hu ▸ (h l hl).1)
      refine ⟨fun l hl => ((restored_getUndoMeta_iff _).mp (hrest l hl)).1,
        fun l hl => ((restored_getUndoMeta_iff _).mp (hrest l hl)).2, fun l hl _ stype => ?_,
        fun _ l hl => ?_⟩
      · rw [hs.undoSegmentMeta_eq hl]
        exact (h l hl).2 stype
      · rw [hs.undoLogMeta_eq hl]
        exact ⟨(h l hl).1, fun stype => (hs.undoSegmentMeta_eq hl).trans ((h l hl).2 stype)⟩
    · intro h l hl
      obtain ⟨hlog, hseg⟩ := h.unused hused l hl
      rw [hs.undoLogMeta_eq hl] at hlog
      exact ⟨hlog, fun stype => (hs.undoSegmentMeta_eq hl).symm.trans (hseg stype)⟩
  · obtain ⟨logs', segs', hs', hlogs, hsegs⟩ := @MetaFile.Stored.checkpoint _ _ _ sys _ _ hn hs hused
    -- every log has a record of its own, written now or before
    have hlog : ∀ l < n, logs' l = (sys.ulogs l).getUndoMeta := by
      intro l hl
      by_cases hre : (undoLogTable n).Rewritten sys.ulogs (l / undologCountPerPage)
      · exact (hlogs l hl).1 hre
      · have hnot : (sys.ulogs l).dirty = false := by
          by_contra hdirty
          exact hre ⟨MetaTable.groupDirty_of_dirty (t := undoLogTable n) hl (by simpa [undoLogTable] using hdirty),
            undoLog_reached hn hl⟩
        have hold := (hclean l hl).1 hnot
        obtain ⟨u, hu⟩ := hs.logs_taken l hl
        rw [hs.undoLogMeta_eq hl, hu] at hold
        rw [(hlogs l hl).2 hre, hu, hold, getUndoMeta_of_taken hold]
    have hseg : ∀ l < n, l < firstUnwrittenSegment n → ∀ stype,
        segs' stype l = ((sys.ulogs l).segment stype).getMeta := by
      intro l hl hlt stype
      by_cases hre : (undoSegmentTable n stype).Rewritten sys.ulogs (l / undosegmentCountPerPage)
      · exact (hsegs stype l hl).1 hre
      · have hnot : ((sys.ulogs l).segment stype).dirty = false := by
          by_contra hdirty
          exact hre ⟨MetaTable.groupDirty_of_dirty (t := undoSegmentTable n stype) hl
            (by simpa [undoSegmentTable] using hdirty), (undoSegment_reached hn hl).mpr hlt⟩
        rw [(hsegs stype l hl).2 hre, ← hs.undoSegmentMeta_eq hl]
        exact (hclean l hl).2 stype hnot
    have hunwritten : ∀ l < n, firstUnwrittenSegment n ≤ l → ∀ stype,
        segs' stype l = f.undoSegmentMeta n stype l := by
      intro l hl hle stype
      rw [hs.undoSegmentMeta_eq hl]
      refine (hsegs stype l hl).2 fun hre => ?_
      exact absurd ((undoSegment_reached hn hl).mp hre.2) (not_lt.mpr hle)
    rw [survives_iff_records hs']
    constructor
    · intro h
      have hrest : ∀ l < n, _ := fun l hl =>
        (restored_getUndoMeta_iff (sys.ulogs l)).mp (hlog l hl ▸ (h l hl).1)
      refine ⟨fun l hl => (hrest l hl).1, fun l hl => (hrest l hl).2, fun l hl hle stype => ?_,
        fun h0 => absurd h0 hused⟩
      rw [← hunwritten l hl hle stype]
      exact (h l hl).2 stype
    · intro h l hl
      rw [hlog l hl, restored_getUndoMeta_iff]
      refine ⟨⟨h.offsets l hl, h.new l hl⟩, fun stype => ?_⟩
      rcases Nat.lt_or_ge l (firstUnwrittenSegment n) with hlt | hge
      · exact hseg l hl hlt stype
      · rw [hunwritten l hl hge stype]
        exact h.unwritten l hl hge stype

theorem restart_reads (hn : n = persistUndologCount) (hf : f.Valid crc n) :
    ∃ sys', recoveryUndoMeta crc n sys.undoLogMaxSize (checkpointUndoMeta crc n sys f).2 = .ok sys' := by
  obtain ⟨logs, segs, hs⟩ := (hf.checkpoint sys).stored hn
  obtain ⟨sys', hrun, -⟩ := hs.recovery sys.undoLogMaxSize
  exact ⟨sys', hrun⟩

/-- Every page that a restart reads behind a checkpoint passes its check. The logs and their segments get
all their values back if and only if a checkpoint can carry them: the offsets fit, no log that is in use has
the insert offset of a new log, the segments of the last logs have not changed, and no log has changed when
none is in use. -/
theorem undo_meta_survives_restart {crc : List UInt8 → UInt32} {sys : UndoSys} {f : MetaFile}
    (hf : f.Valid crc persistUndologCount) (hclean : sys.CleanIn persistUndologCount f) :
    (∃ sys', recoveryUndoMeta crc persistUndologCount sys.undoLogMaxSize
        (checkpointUndoMeta crc persistUndologCount sys f).2 = .ok sys') ∧
      (sys.Survives crc persistUndologCount f ↔ sys.Recordable persistUndologCount f) :=
  ⟨restart_reads rfl hf, survives_iff rfl hf hclean⟩

def newLogsBut (l : Nat) (u : UndoLogControl) : UndoSys where
  ulogs := Function.update (fun _ => initUndoLog) l u
  undoLogUsedCount := 1
  undoLogMaxSize := 0

theorem newLogsBut_cleanIn {u : UndoLogControl} {k : Nat} (hn : n = persistUndologCount)
    (hlog : u.dirty = false → u.logValues = initUndoLog.logValues)
    (hseg : ∀ stype, (u.segment stype).dirty = false →
      (u.segment stype).getMeta = (initUndoLog.segment stype).getMeta) :
    (newLogsBut k u).CleanIn n (initUndoMeta crc n).file := by
  intro l hl
  have hs := @stored_init crc n hn
  rw [hs.undoLogMeta_eq hl]
  have hold : ∀ stype, (initUndoMeta crc n).file.undoSegmentMeta n stype l =
      (initUndoLog.segment stype).getMeta := by
    intro stype
    rw [hs.undoSegmentMeta_eq hl]
    cases stype <;> rfl
  rcases eq_or_ne l k with rfl | hne
  · simp only [newLogsBut, Function.update_self]
    exact ⟨fun h => getUndoMeta_init.trans (hlog h).symm,
      fun stype h => (hold stype).trans (hseg stype h).symm⟩
  · simp only [newLogsBut, Function.update_of_ne hne]
    exact ⟨fun _ => getUndoMeta_init, fun stype _ => hold stype⟩

def grownLog : UndoLogControl := { initUndoLog with insertOffset := 100, dirty := true }

theorem grownLog_recordable (hn : n = persistUndologCount) :
    (newLogsBut 0 grownLog).Recordable n (initUndoMeta crc n).file := by
  have hlog : ∀ l, (newLogsBut 0 grownLog).ulogs l = if l = 0 then grownLog else initUndoLog :=
    fun l => by simp only [newLogsBut, Function.update_apply]
  refine ⟨fun l _ => ?_, fun l _ => ?_, fun l hl _ stype => ?_, fun h => absurd h (by decide)⟩
  · rw [hlog]
    split <;> decide
  · rw [hlog]
    split <;> decide
  · rw [(stored_init hn).undoSegmentMeta_eq hl, hlog]
    split <;> cases stype <;> rfl

theorem grown_log_survives_restart :
    (newLogsBut 0 grownLog).Survives (fun _ => 0) persistUndologCount
      (initUndoMeta (fun _ => 0) persistUndologCount).file :=
  (undo_meta_survives_restart .init (newLogsBut_cleanIn rfl (by decide) (by rintro (_ | _) <;> decide))).2.mpr
    (grownLog_recordable rfl)

def grownSegment : UndoLogControl :=
  initUndoLog.setSegment ⟨0, 0, 1048576, true⟩ .undoLogSegment

/-- The segments of the last logs do not come back: only the first page of the last group is written. -/
theorem last_segment_lost_at_restart :
    ¬ ∀ (crc : List UInt8 → UInt32) (sys : UndoSys) (f : MetaFile), f.Valid crc persistUndologCount →
      sys.CleanIn persistUndologCount f → sys.Survives crc persistUndologCount f := by
  intro h
  have hclean : (newLogsBut 131071 grownSegment).CleanIn persistUndologCount
      (initUndoMeta (fun _ => 0) persistUndologCount).file :=
    newLogsBut_cleanIn rfl (by decide) (by rintro (_ | _) <;> decide)
  have hrec := (survives_iff rfl .init hclean).mp (h _ _ _ .init hclean)
  have hold := hrec.unwritten 131071 (by decide) (by decide) .undoLogSegment
  rw [(stored_init rfl).undoSegmentMeta_eq (by decide)] at hold
  simp only [newLogsBut, Function.update_self] at hold
  exact absurd hold (by decide)

end XStore
