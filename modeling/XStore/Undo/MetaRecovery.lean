import XStore.Undo.MetaCheckpoint

/-!
# Reading the metadata file back

The pages of a table are read in batches of `PAGES_READ_NUM`. Where they all stand in the file, the loop
passes every checksum and hands the record of each log to `restore`.
-/
namespace XStore

section Loop

variable {crc : List UInt8 → UInt32} {T : RecordPages} {restore : UndoSys → Nat → List UInt8 → UndoSys}
  {file : MetaFile} {pos L : Nat} {sys : UndoSys} {record : Nat → List UInt8} {w w' : MetaRead}
  {a b : Nat}
  {q : Nat}

/-- All pages of a table stand in the file from a position on. -/
structure TableAt (T : RecordPages) (crc : List UInt8 → UInt32) (file : MetaFile) (pos : Nat)
    (record : Nat → List UInt8) : Prop where
  page : T.page = undoMetaPageSize
  last : T.total % T.perPage ≠ 0
  size : pos + metaPageCount T.total T.perPage * undoMetaPageSize ≤ file.size
  pages : ∀ p, p * T.perPage < T.total →
    T.PageAt crc T.total file.bytes (pos + p * undoMetaPageSize) p record

/-- The pages of the batch of log `L` are in the block. -/
def Batch (T : RecordPages) (crc : List UInt8 → UInt32) (record : Nat → List UInt8) (L : Nat)
    (block : Memory) : Prop :=
  ∀ p, p * T.perPage < T.total → p / pagesReadNum = L / (T.perPage * pagesReadNum) →
    T.PageAt crc T.total block (p % pagesReadNum * undoMetaPageSize) p record

theorem metaPageCount_of_ne {total unit : Nat} (h : total % unit ≠ 0) :
    metaPageCount total unit = total / unit + 1 := if_neg h

/-- The pages that the loop reads at the first log of a batch. -/
def batchSize (T : RecordPages) (L : Nat) : Nat :=
  if T.total - L < T.perPage * pagesReadNum then (T.total - L) / T.perPage + 1
  else pagesReadNum

/-- The batch is a part of the table, and it has all pages of its logs. -/
theorem batchSize_spec (hlast : T.total % T.perPage ≠ 0)
    (hL : L = q * (T.perPage * pagesReadNum)) (hn : L < T.total) :
    q * pagesReadNum + batchSize T L ≤ metaPageCount T.total T.perPage ∧
      ∀ p, p * T.perPage < T.total → p / pagesReadNum = q →
        p % pagesReadNum < batchSize T L := by
  have hpos := T.perPage_pos
  have hR : 0 < pagesReadNum := by decide
  have hLp : L = q * pagesReadNum * T.perPage := by
    rw [hL, Nat.mul_comm T.perPage, Nat.mul_assoc]
  have hsub : (T.total - L) / T.perPage = T.total / T.perPage - q * pagesReadNum := by
    rw [hLp, Nat.mul_comm, Nat.sub_mul_div_of_le]
    rw [Nat.mul_comm, ← hLp]
    exact hn.le
  have hle : q * pagesReadNum ≤ T.total / T.perPage := by
    rw [Nat.le_div_iff_mul_le hpos, ← hLp]
    exact hn.le
  rw [metaPageCount_of_ne hlast]
  unfold batchSize
  split
  case isTrue hshort =>
    refine ⟨by omega, fun p hp hq => ?_⟩
    have hd := Nat.div_add_mod' p pagesReadNum
    have hpn : p ≤ T.total / T.perPage := (Nat.le_div_iff_mul_le hpos).mpr hp.le
    rw [hq] at hd
    omega
  case isFalse hfull =>
    refine ⟨?_, fun p _ _ => Nat.mod_lt _ hR⟩
    have : (q * pagesReadNum + pagesReadNum) * T.perPage ≤ T.total := by
      rw [Nat.add_mul, ← hLp, Nat.mul_comm pagesReadNum]
      omega
    have := (Nat.le_div_iff_mul_le hpos).mpr this
    omega

theorem fill_ok (ht : TableAt T crc file pos record)
    (hL : L = q * (T.perPage * pagesReadNum)) (hn : L < T.total)
    (hpos : w.pos = pos + q * (undoMetaPageSize * pagesReadNum)) :
    ∃ w', w.fill file (batchSize T L * undoMetaPageSize) = .ok w' ∧ w'.sys = w.sys ∧
      w'.pos = w.pos + batchSize T L * undoMetaPageSize ∧ Batch T crc record L w'.persistBlock := by
  obtain ⟨hend, hhas⟩ := batchSize_spec ht.last hL hn
  have hsize := ht.size
  have hroom : batchSize T L * undoMetaPageSize ≤ file.size - w.pos := by
    have hmul := Nat.mul_le_mul_right undoMetaPageSize hend
    rw [Nat.add_mul, Nat.mul_assoc, Nat.mul_comm pagesReadNum] at hmul
    omega
  unfold MetaRead.fill
  dsimp only
  rw [Nat.min_eq_left hroom, if_neg (not_not.mpr rfl)]
  refine ⟨_, rfl, rfl, rfl, fun p hp hq => ?_⟩
  have hB : 0 < T.perPage * pagesReadNum := Nat.mul_pos T.perPage_pos (by decide)
  rw [hL, Nat.mul_div_cancel _ hB] at hq
  refine (ht.pages p hp).congr fun i hi => ?_
  rw [ht.page] at hi
  have hin : p % pagesReadNum * undoMetaPageSize + i < batchSize T L * undoMetaPageSize := by
    have := Nat.mul_le_mul_right undoMetaPageSize (Nat.succ_le_of_lt (hhas p hp hq))
    rw [Nat.succ_mul] at this
    omega
  have haddr : pos + p * undoMetaPageSize + i =
      w.pos + (p % pagesReadNum * undoMetaPageSize + i) := by
    have hd := Nat.div_add_mod' p pagesReadNum
    rw [hq] at hd
    rw [hpos]
    nth_rewrite 1 [← hd]
    rw [Nat.add_mul, Nat.mul_assoc, Nat.mul_comm pagesReadNum]
    omega
  have hinside := Memory.store_load_inside (m := zeroBuffer) (a := 0) (b := file.bytes) (c := w.pos) hin
  rw [Nat.zero_add] at hinside
  rw [haddr]
  exact hinside.symm

theorem checkPage_ok (hb : Batch T crc record L w.persistBlock)
    (hL : L < T.total) (hm : L % T.perPage = 0) :
    w.checkPage crc T L = .ok { w with
      uspMetaBuffer := L / T.perPage % pagesReadNum * undoMetaPageSize } := by
  have hd := Nat.div_add_mod' L T.perPage
  rw [hm, Nat.add_zero] at hd
  have hpage := hb (L / T.perPage) (by omega) (Nat.div_div_eq_div_mul _ _ _)
  have hcount : (if T.total - L < T.perPage then T.total - L else T.perPage) =
      T.count T.total (L / T.perPage) := by
    rw [RecordPages.count, hd]
    split <;> omega
  unfold MetaRead.checkPage
  dsimp only
  rw [hcount, Nat.mod_mul_right_div_self, Nat.mul_comm T.size, if_neg]
  exact not_not.mpr hpage.checked

/-- The loop before the log `L`. -/
structure ReadTo (T : RecordPages) (crc : List UInt8 → UInt32) (record : Nat → List UInt8) (pos L : Nat)
    (w : MetaRead) : Prop where
  start : L % (T.perPage * pagesReadNum) = 0 → L < T.total →
    w.pos = pos + L / (T.perPage * pagesReadNum) * (undoMetaPageSize * pagesReadNum)
  inside : L % (T.perPage * pagesReadNum) ≠ 0 → Batch T crc record L w.persistBlock ∧
    ((L / (T.perPage * pagesReadNum) + 1) * (T.perPage * pagesReadNum) ≤ T.total →
      w.pos = pos + (L / (T.perPage * pagesReadNum) + 1) * (undoMetaPageSize * pagesReadNum))
  buffer : L % T.perPage ≠ 0 → w.uspMetaBuffer = L / T.perPage % pagesReadNum * undoMetaPageSize

theorem succ_div_of_ne (h : (a + 1) % b ≠ 0) : (a + 1) / b = a / b := by
  rw [Nat.succ_div, if_neg fun hd => h (Nat.mod_eq_zero_of_dvd hd), Nat.add_zero]

theorem succ_div_of_eq (h : (a + 1) % b = 0) : (a + 1) / b = a / b + 1 := by
  rw [Nat.succ_div, if_pos (Nat.dvd_of_mod_eq_zero h)]

/-- The block holds the pages of log `L`, read now or before. -/
theorem ReadTo.loaded (ht : TableAt T crc file pos record) (h : ReadTo T crc record pos L w)
    (hL : L < T.total) :
    ∃ w', (if L % (T.perPage * pagesReadNum) = 0 then w.fill file (batchSize T L * undoMetaPageSize)
        else .ok w) = .ok w' ∧ w'.sys = w.sys ∧ Batch T crc record L w'.persistBlock ∧
      ((L / (T.perPage * pagesReadNum) + 1) * (T.perPage * pagesReadNum) ≤ T.total →
        w'.pos = pos + (L / (T.perPage * pagesReadNum) + 1) * (undoMetaPageSize * pagesReadNum)) ∧
      (L % T.perPage ≠ 0 → w'.uspMetaBuffer = L / T.perPage % pagesReadNum * undoMetaPageSize) := by
  split
  case isTrue hm =>
    have hd := Nat.div_add_mod' L (T.perPage * pagesReadNum)
    rw [hm, Nat.add_zero] at hd
    obtain ⟨w', hfill, hsys, hpos, hbatch⟩ := fill_ok ht hd.symm hL (h.start hm hL)
    refine ⟨w', hfill, hsys, hbatch, fun hfull => ?_, fun hne => absurd ?_ hne⟩
    · rw [Nat.succ_mul, hd] at hfull
      rw [hpos, h.start hm hL, batchSize, if_neg (by omega), Nat.succ_mul, Nat.mul_comm undoMetaPageSize]
      omega
    · exact Nat.mod_eq_zero_of_dvd ((Nat.dvd_mul_right _ _).trans (Nat.dvd_of_mod_eq_zero hm))
  case isFalse hm =>
    obtain ⟨hbatch, hpos⟩ := h.inside hm
    exact ⟨w, rfl, rfl, hbatch, hpos, h.buffer⟩

theorem ReadTo.step (ht : TableAt T crc file pos record) (h : ReadTo T crc record pos L w)
    (hL : L < T.total) :
    ∃ w', recoveryStep crc T restore file w L = .ok w' ∧ w'.sys = restore w.sys L (record L) ∧
      ReadTo T crc record pos (L + 1) w' := by
  obtain ⟨w₁, hload, hsys, hbatch, hpos, hbuf⟩ := h.loaded ht hL
  -- the page is checked with its first log
  have hcheck : (if L % T.perPage = 0 then w₁.checkPage crc T L else .ok w₁) =
      .ok { w₁ with uspMetaBuffer := L / T.perPage % pagesReadNum * undoMetaPageSize } := by
    split
    case isTrue hm => exact checkPage_ok hbatch hL hm
    case isFalse hm => rw [← hbuf hm]
  have hread : (if T.total - L < T.perPage * pagesReadNum then
        ((T.total - L) / T.perPage + 1) * undoMetaPageSize
      else undoMetaPageSize * pagesReadNum) = batchSize T L * undoMetaPageSize := by
    unfold batchSize
    split
    · rfl
    · exact Nat.mul_comm _ _
  have hrecord := (hbatch (L / T.perPage) ((Nat.div_mul_le_self _ _).trans_lt hL)
    (Nat.div_div_eq_div_mul _ _ _)).stored L hL rfl
  refine ⟨⟨restore w.sys L (record L), w₁.pos, w₁.persistBlock,
    L / T.perPage % pagesReadNum * undoMetaPageSize⟩, ?_, rfl, ?_⟩
  · unfold recoveryStep
    rw [hread, hload]
    simp only [Except.bind, hcheck, Except.map, hsys, hrecord]
  · constructor
    · intro hm hn
      have hd := Nat.div_add_mod' (L + 1) (T.perPage * pagesReadNum)
      rw [hm, Nat.add_zero, succ_div_of_eq hm] at hd
      rw [succ_div_of_eq hm]
      exact hpos (by omega)
    · intro hm
      rw [succ_div_of_ne hm]
      refine ⟨?_, hpos⟩
      intro p hp hq
      rw [succ_div_of_ne hm] at hq
      exact hbatch p hp hq
    · intro hm
      rw [succ_div_of_ne hm]

theorem readTo_run (ht : TableAt T crc file pos record) (hL : L ≤ T.total) :
    ∃ w, (List.range L).foldlM (recoveryStep crc T restore file) ⟨sys, pos, zeroBuffer, 0⟩ =
        Except.ok w ∧
      w.sys = (List.range L).foldl (fun s l => restore s l (record l)) sys ∧
      ReadTo T crc record pos L w := by
  induction L with
  | zero =>
    refine ⟨_, rfl, rfl, ?_, ?_, ?_⟩
    · intro _ _
      simp
    · exact fun hm => absurd (Nat.zero_mod _) hm
    · exact fun hm => absurd (Nat.zero_mod _) hm
  | succ L ih =>
    obtain ⟨w, hrun, hsys, hread⟩ := ih (by omega)
    obtain ⟨w', hstep, hsys', hread'⟩ : ∃ w', recoveryStep crc T restore file w L = .ok w' ∧
      w'.sys = restore w.sys L (record L) ∧ ReadTo T crc record pos (L + 1) w' :=
        hread.step ht (by omega)
    refine ⟨w', ?_, ?_, hread'⟩
    · rw [List.range_succ, List.foldlM_append, hrun]
      simp only [bind, Except.bind, List.foldlM_cons, List.foldlM_nil, hstep]
      rfl
    · rw [List.range_succ, List.foldl_append, List.foldl_cons, List.foldl_nil, hsys', hsys]

/-- A table that stands in the file is read without an error, every record by its log. -/
theorem recoveryLoop_ok (ht : TableAt T crc file pos record) :
    recoveryLoop crc T restore file pos sys =
      .ok ((List.range T.total).foldl (fun s l => restore s l (record l)) sys) := by
  obtain ⟨w, hrun, hsys, -⟩ := @readTo_run crc T restore file pos T.total sys record ht le_rfl
  rw [recoveryLoop, hrun, ← hsys]
  rfl

end Loop

end XStore
