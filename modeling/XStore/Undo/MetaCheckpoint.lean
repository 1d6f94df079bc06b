import XStore.Undo.MetaFile

/-!
# What a checkpoint leaves in the metadata file

A page is rewritten if its group has a changed record and the write of the group reaches the page; it
then holds the records of its logs and a checksum that fits them. Every other page is left as it was.
-/
namespace XStore

open List

namespace MetaTable

variable (t : MetaTable)

def writeSizeAt (g : Nat) : Nat :=
  if t.pages.total - g * t.countPerWrite < t.countPerWrite then
    t.lastWriteSize (t.pages.total - g * t.countPerWrite)
  else undoWriteSize

def groupEnd (g : Nat) : Nat := min ((g + 1) * t.countPerWrite) t.pages.total

def fileEnd : Nat :=
  t.pageBegin + metaPageCount t.pages.total t.pages.perPage * undoMetaPageSize

structure Lawful : Prop where
  page : t.pages.page = undoMetaPageSize
  last : t.pages.total % t.pages.perPage ≠ 0
  record_length : ∀ u, (t.record u).length = t.pages.size
  record_written : ∀ sys c l, t.record ((t.written sys c).ulogs l) = t.record (sys.ulogs l)
  other : ∀ sys c l, l ≠ c → (t.written sys c).ulogs l = sys.ulogs l
  write_dvd : ∀ g, g * t.countPerWrite < t.pages.total → undoMetaPageSize ∣ t.writeSizeAt g
  write_le : ∀ g, g * t.countPerWrite < t.pages.total → t.writeSizeAt g ≤ undoWriteSize
  write_end : ∀ g, g * t.countPerWrite < t.pages.total →
    t.pageBegin + g * undoWriteSize + t.writeSizeAt g ≤ t.fileEnd

variable {t} {crc : List UInt8 → UInt32} {w : MetaWrite} {b : Memory} {c g k l p : Nat}

theorem countPerWrite_pos : 0 < t.countPerWrite := Nat.mul_pos t.pages.perPage_pos (by decide)

theorem div_countPerWrite (c : Nat) : c / t.countPerWrite = c / t.pages.perPage / 8 :=
  (Nat.div_div_eq_div_mul _ _ _).symm

theorem mod_countPerWrite_div (c : Nat) :
    c % t.countPerWrite / t.pages.perPage = c / t.pages.perPage - 8 * (c / t.countPerWrite) := by
  rw [countPerWrite, Nat.mod_mul_right_div_self, ← Nat.div_div_eq_div_mul]
  omega

theorem fillBuffer_filled (record : Nat → List UInt8) (ht : t.Lawful)
    (h : t.pages.Filled crc t.pages.total b (8 * (c / t.countPerWrite)) c c record)
    (hc : c < t.pages.total) (hlen : (record c).length = t.pages.size) :
    t.pages.Filled crc t.pages.total (t.fillBuffer crc b c (record c))
      (8 * (c / t.countPerWrite)) (c + 1) (c + 1) record := by
  have hp : 8 * (c / t.countPerWrite) ≤ c / t.pages.perPage := by
    rw [div_countPerWrite]
    exact Nat.mul_div_le _ _
  have hrec := h.store_record hp hc hlen
  unfold fillBuffer
  dsimp only
  rw [mod_countPerWrite_div, ← ht.page]
  split
  case isTrue hend =>
    refine hrec.store_check hp hc ?_
    split
    case isTrue hlast => rw [hlast, t.pages.count_last ht.last]
    case isFalse hlast => rw [t.pages.count_full (hend.resolve_right hlast) hc]
  case isFalse hend =>
    exact hrec.of_not_end fun h => hend (h.imp_right fun h => by omega)

/-- The logs of a group up to `c` are in the buffer. -/
structure Flushed (t : MetaTable) (crc : List UInt8 → UInt32) (w w' : MetaWrite) (g c : Nat) : Prop where
  filled : t.pages.Filled crc t.pages.total w'.buffer (8 * g) c c
    fun l => t.record (w.sys.ulogs l)
  writeSize : w'.writeSize = w.writeSize
  record : ∀ l, t.record (w'.sys.ulogs l) = t.record (w.sys.ulogs l)
  other : ∀ l, l < g * t.countPerWrite ∨ c ≤ l → w'.sys.ulogs l = w.sys.ulogs l

theorem div_of_mem_group (hle : g * t.countPerWrite ≤ c) (hlt : c < t.groupEnd g) :
    c / t.countPerWrite = g :=
  Nat.div_eq_of_lt_le hle (hlt.trans_le (Nat.min_le_left _ _))

theorem group_end_iff (hle : g * t.countPerWrite ≤ c) (hlt : c < t.groupEnd g) :
    ((c + 1) % t.countPerWrite = 0 ∨ c = t.pages.total - 1) ↔ c + 1 = t.groupEnd g := by
  have hg := div_of_mem_group hle hlt
  have hd := Nat.div_add_mod' (c + 1) t.countPerWrite
  have hpos := t.countPerWrite_pos
  unfold groupEnd at hlt ⊢
  rw [Nat.succ_mul] at hlt ⊢
  constructor
  · rintro (hm | rfl)
    · -- the next group starts behind `c`
      have hnext : g * t.countPerWrite + t.countPerWrite ≤ c + 1 := by
        rw [hm, Nat.add_zero] at hd
        have hlt' : g < (c + 1) / t.countPerWrite := by
          by_contra hle'
          have := Nat.mul_le_mul_right t.countPerWrite (Nat.le_of_not_lt hle')
          omega
        have := Nat.mul_le_mul_right t.countPerWrite (Nat.succ_le_of_lt hlt')
        rw [Nat.succ_mul] at this
        omega
      omega
    · omega
  · intro heq
    by_cases hfull : g * t.countPerWrite + t.countPerWrite ≤ t.pages.total
    · left
      rw [heq, Nat.min_eq_left hfull, ← Nat.succ_mul]
      exact Nat.mul_mod_left _ _
    · right
      omega

theorem Flushed.start : t.Flushed crc w w g (g * t.countPerWrite) where
  filled := by
    have : t.pages.Filled crc t.pages.total w.buffer (8 * g) (8 * g * t.pages.perPage)
      (8 * g * t.pages.perPage) fun l => t.record (w.sys.ulogs l) := RecordPages.filled_zero
    rw [Nat.mul_comm 8 g, Nat.mul_assoc, Nat.mul_comm 8 t.pages.perPage] at this
    rwa [Nat.mul_comm 8 g]
  writeSize := rfl
  record := fun _ => rfl
  other := fun _ _ => rfl

/-- A round of the inner loop puts one more log into the buffer. -/
theorem Flushed.step {w' : MetaWrite} (ht : t.Lawful) (h : t.Flushed crc w w' g c)
    (hle : g * t.countPerWrite ≤ c) (hlt : c < t.groupEnd g) :
    t.Flushed crc w (t.flushStep crc w' c) g (c + 1) ∧
      if c + 1 = t.groupEnd g then
        (t.flushStep crc w' c).file = w'.file.write (t.pageBegin + g * undoWriteSize)
          ((t.flushStep crc w' c).buffer.load 0 w.writeSize) ∧
        (t.flushStep crc w' c).needFlushMetaPage = false
      else (t.flushStep crc w' c).file = w'.file := by
  have hg := div_of_mem_group hle hlt
  have hfill : t.pages.Filled crc t.pages.total
      (t.fillBuffer crc w'.buffer c (t.record (w'.sys.ulogs c))) (8 * g) (c + 1) (c + 1)
      fun l => t.record (w.sys.ulogs l) := by
    have hn : c < t.pages.total := hlt.trans_le (Nat.min_le_right _ _)
    have := fillBuffer_filled (fun l => t.record (w.sys.ulogs l)) ht (hg.symm ▸ h.filled) hn
      (ht.record_length _)
    rw [h.record c]
    rwa [hg] at this
  have hsys : ∀ l, t.record ((t.written w'.sys c).ulogs l) = t.record (w.sys.ulogs l) :=
    fun l => (ht.record_written _ _ _).trans (h.record l)
  have hother : ∀ l, l < g * t.countPerWrite ∨ c + 1 ≤ l →
      (t.written w'.sys c).ulogs l = w.sys.ulogs l := by
    intro l hl
    rw [ht.other _ _ _ (by omega)]
    exact h.other l (by omega)
  unfold flushStep
  dsimp only
  simp only [group_end_iff hle hlt, hg]
  split
  case isTrue hend => exact ⟨⟨hfill, h.writeSize, hsys, hother⟩, by rw [h.writeSize], rfl⟩
  case isFalse hend => exact ⟨⟨hfill, h.writeSize, hsys, hother⟩, rfl⟩

/-- The inner loop before it reaches the end of the group. -/
theorem flushed_run (ht : t.Lawful) (k : Nat) (hk : g * t.countPerWrite + k < t.groupEnd g) :
    t.Flushed crc w ((List.range' (g * t.countPerWrite) k).foldl (t.flushStep crc) w) g
        (g * t.countPerWrite + k) ∧
      ((List.range' (g * t.countPerWrite) k).foldl (t.flushStep crc) w).file = w.file := by
  induction k with
  | zero => exact ⟨.start, rfl⟩
  | succ k ih =>
    obtain ⟨hflushed, hfile⟩ := ih (by omega)
    obtain ⟨hstep, hcase⟩ := hflushed.step ht (Nat.le_add_right _ _) (by omega)
    rw [List.range'_1_concat, foldl_append, foldl_cons, foldl_nil]
    rw [if_neg (by omega)] at hcase
    exact ⟨hstep, hcase.trans hfile⟩

/-- The whole inner loop writes the buffer of its group. -/
theorem flushed_group (ht : t.Lawful) (hg : g * t.countPerWrite < t.pages.total) {w' : MetaWrite}
    (hw : w' = (List.range' (g * t.countPerWrite) (t.groupEnd g - g * t.countPerWrite)).foldl
      (t.flushStep crc) w) :
    t.Flushed crc w w' g (t.groupEnd g) ∧ w'.needFlushMetaPage = false ∧
      w'.file = w.file.write (t.pageBegin + g * undoWriteSize) (w'.buffer.load 0 w.writeSize) := by
  have hpos := t.countPerWrite_pos
  have hlt : g * t.countPerWrite < t.groupEnd g := by
    rw [groupEnd, Nat.succ_mul]
    omega
  obtain ⟨k, hk⟩ : ∃ k, t.groupEnd g - g * t.countPerWrite = k + 1 :=
    Nat.exists_eq_succ_of_ne_zero (by omega)
  obtain ⟨hflushed, hfile⟩ := @flushed_run t crc w g ht k (by omega)
  obtain ⟨hstep, hcase⟩ := hflushed.step ht (Nat.le_add_right _ _) (by omega)
  rw [hk, List.range'_1_concat, foldl_append, foldl_cons, foldl_nil] at hw
  have hend : g * t.countPerWrite + k + 1 = t.groupEnd g := by omega
  rw [if_pos hend, hfile, ← hw] at hcase
  rw [← hw, hend] at hstep
  exact ⟨hstep, hcase.2, hcase.1⟩

section Write

variable {f : MetaFile} {record : Nat → List UInt8}

def PageKept (t : MetaTable) (f f' : MetaFile) (p : Nat) : Prop :=
  ∀ i < undoMetaPageSize, f'.bytes (t.pageBegin + p * undoMetaPageSize + i) =
    f.bytes (t.pageBegin + p * undoMetaPageSize + i)

def PageHolds (t : MetaTable) (crc : List UInt8 → UInt32) (f : MetaFile) (p : Nat)
    (record : Nat → List UInt8) : Prop :=
  t.pages.PageAt crc t.pages.total f.bytes (t.pageBegin + p * undoMetaPageSize) p record

variable (ht : t.Lawful)

include ht

theorem pageHolds_write (hg : p / 8 * t.countPerWrite < t.pages.total)
    (hb : t.pages.Filled crc t.pages.total b (8 * (p / 8)) (t.groupEnd (p / 8))
      (t.groupEnd (p / 8)) record)
    (hp : p % 8 * undoMetaPageSize < t.writeSizeAt (p / 8))
    (hn : p * t.pages.perPage < t.pages.total) :
    t.PageHolds crc (f.write (t.pageBegin + p / 8 * undoWriteSize) (b.load 0 (t.writeSizeAt (p / 8)))) p
      record := by
  have hend : p * t.pages.perPage + t.pages.count t.pages.total p ≤ t.groupEnd (p / 8) := by
    have hle : (p + 1) * t.pages.perPage ≤ (p / 8 + 1) * t.countPerWrite := by
      rw [countPerWrite, Nat.mul_comm _ 8, ← Nat.mul_assoc]
      exact Nat.mul_le_mul_right _ (by omega)
    rw [Nat.succ_mul] at hle
    unfold groupEnd RecordPages.count
    omega
  have hpage := hb.pageAt (Nat.mul_div_le p 8) hn hend
  refine hpage.congr fun i hi => ?_
  rw [ht.page] at hi ⊢
  -- the write covers whole pages
  obtain ⟨k, hk⟩ := ht.write_dvd (p / 8) hg
  have hin : (p - 8 * (p / 8)) * undoMetaPageSize + i < t.writeSizeAt (p / 8) := by
    rw [hk] at hp ⊢
    have hlt : p % 8 < k := by
      rw [Nat.mul_comm] at hp
      exact Nat.lt_of_mul_lt_mul_left hp
    have hle := Nat.mul_le_mul_left undoMetaPageSize (Nat.succ_le_of_lt hlt)
    have hsub : p - 8 * (p / 8) = p % 8 := by omega
    rw [Nat.mul_succ] at hle
    rw [hsub, Nat.mul_comm]
    omega
  have haddr : t.pageBegin + p * undoMetaPageSize + i =
      t.pageBegin + p / 8 * undoWriteSize + ((p - 8 * (p / 8)) * undoMetaPageSize + i) := by
    simp only [undoWriteSize, undoMetaPageSize]
    omega
  rw [haddr]
  refine Eq.trans ?_ (Memory.store_load_inside hin).symm
  rw [Nat.zero_add]

theorem pageKept_write (hg : g * t.countPerWrite < t.pages.total)
    (hp : p / 8 = g → t.writeSizeAt g ≤ p % 8 * undoMetaPageSize) :
    t.PageKept f (f.write (t.pageBegin + g * undoWriteSize) (b.load 0 (t.writeSizeAt g))) p := by
  intro i hi
  refine Memory.store_load_outside ?_
  have hle := ht.write_le g hg
  simp only [undoMetaPageSize, undoWriteSize] at hp hi hle ⊢
  omega

theorem write_outside (hg : g * t.countPerWrite < t.pages.total) {a : Nat}
    (ha : a < t.pageBegin ∨ t.fileEnd ≤ a) :
    (f.write (t.pageBegin + g * undoWriteSize) (b.load 0 (t.writeSizeAt g))).bytes a = f.bytes a := by
  have := ht.write_end g hg
  exact Memory.store_load_outside (by omega)

theorem write_size (hg : g * t.countPerWrite < t.pages.total)
    (hsize : t.fileEnd ≤ f.size) :
    (f.write (t.pageBegin + g * undoWriteSize) (b.load 0 (t.writeSizeAt g))).size = f.size := by
  have := ht.write_end g hg
  simp only [MetaFile.write, Memory.load_length]
  omega

end Write

section Groups

variable {L q : Nat}

theorem lt_groupEnd_iff (hL : L < t.pages.total) :
    L < t.groupEnd q ↔ L / t.countPerWrite ≤ q := by
  rw [groupEnd, lt_min_iff, ← Nat.lt_succ_iff, Nat.div_lt_iff_lt_mul t.countPerWrite_pos]
  exact and_iff_left hL

theorem groupEnd_le_iff (hq : q * t.countPerWrite < t.pages.total) :
    t.groupEnd q ≤ t.groupEnd g ↔ q ≤ g := by
  constructor
  · intro hle
    by_contra hgt
    have hmul := Nat.mul_le_mul_right t.countPerWrite (show g + 1 ≤ q by omega)
    have hpos := t.countPerWrite_pos
    unfold groupEnd at hle
    rw [Nat.succ_mul q] at hle
    omega
  · intro hle
    exact min_le_min_right _ (Nat.mul_le_mul_right _ (Nat.succ_le_succ hle))

theorem page_group_lt (hn : p * t.pages.perPage < t.pages.total) :
    p / 8 * t.countPerWrite < t.pages.total := by
  refine lt_of_le_of_lt ?_ hn
  rw [countPerWrite, Nat.mul_comm t.pages.perPage, ← Nat.mul_assoc]
  exact Nat.mul_le_mul_right _ (Nat.div_mul_le_self p 8)

end Groups

def GroupDirty (t : MetaTable) (ulogs : Nat → UndoLogControl) (g : Nat) : Prop :=
  ∃ l, g * t.countPerWrite ≤ l ∧ l < t.groupEnd g ∧ t.dirty (ulogs l) = true

def Rewritten (t : MetaTable) (ulogs : Nat → UndoLogControl) (p : Nat) : Prop :=
  t.GroupDirty ulogs (p / 8) ∧ p % 8 * undoMetaPageSize < t.writeSizeAt (p / 8)

/-- The outer loop before the log `L`. -/
structure Written (t : MetaTable) (crc : List UInt8 → UInt32) (sys : UndoSys) (file : MetaFile) (L : Nat)
    (w : MetaWrite) : Prop where
  size : w.file.size = file.size
  outside : ∀ a, a < t.pageBegin ∨ t.fileEnd ≤ a → w.file.bytes a = file.bytes a
  done : ∀ p, p * t.pages.perPage < t.pages.total → t.groupEnd (p / 8) ≤ L →
    t.Rewritten sys.ulogs p → t.PageHolds crc w.file p fun l => t.record (sys.ulogs l)
  kept : ∀ p, p * t.pages.perPage < t.pages.total →
    L < t.groupEnd (p / 8) ∨ ¬ t.Rewritten sys.ulogs p → t.PageKept file w.file p
  record : ∀ l, t.record (w.sys.ulogs l) = t.record (sys.ulogs l)
  later : ∀ l, L < t.groupEnd (l / t.countPerWrite) → w.sys.ulogs l = sys.ulogs l
  group : L % t.countPerWrite ≠ 0 → L < t.pages.total →
    w.cycle = L / t.countPerWrite * t.countPerWrite ∧ w.writeSize = t.writeSizeAt (L / t.countPerWrite) ∧
      (w.needFlushMetaPage = true ↔
        ∃ l, L / t.countPerWrite * t.countPerWrite ≤ l ∧ l < L ∧ t.dirty (sys.ulogs l) = true)
  clear : L % t.countPerWrite = 0 → w.needFlushMetaPage = false

variable {sys : UndoSys} {file : MetaFile} {L : Nat}

/-- The state in which the changed logs of the group up to `L` are known. -/
def markDirty (t : MetaTable) (w : MetaWrite) (loop : Nat) : MetaWrite :=
  if t.dirty ((t.startGroup w loop).sys.ulogs loop) then
    { t.startGroup w loop with needFlushMetaPage := true }
  else t.startGroup w loop

theorem Written.start (h : t.Written crc sys file L w) (hL : L < t.pages.total) :
    (t.startGroup w L).file = w.file ∧ (t.startGroup w L).sys = w.sys ∧
      (t.startGroup w L).cycle = L / t.countPerWrite * t.countPerWrite ∧
      (t.startGroup w L).writeSize = t.writeSizeAt (L / t.countPerWrite) ∧
      ((t.startGroup w L).needFlushMetaPage = true ↔
        ∃ l, L / t.countPerWrite * t.countPerWrite ≤ l ∧ l < L ∧ t.dirty (sys.ulogs l) = true) := by
  have hd := Nat.div_add_mod' L t.countPerWrite
  unfold startGroup
  split
  case isTrue hm =>
    rw [hm, Nat.add_zero] at hd
    refine ⟨rfl, rfl, hd.symm, ?_, ?_⟩
    · rw [writeSizeAt, hd]
    · rw [hd]
      constructor
      · intro hneed
        simp [h.clear hm] at hneed
      · rintro ⟨l, hle, hlt, -⟩
        omega
  case isFalse hm => exact ⟨rfl, rfl, h.group hm hL⟩

theorem Written.mark (h : t.Written crc sys file L w) (hL : L < t.pages.total) :
    (t.markDirty w L).file = w.file ∧ (t.markDirty w L).sys = w.sys ∧
      (t.markDirty w L).cycle = L / t.countPerWrite * t.countPerWrite ∧
      (t.markDirty w L).writeSize = t.writeSizeAt (L / t.countPerWrite) ∧
      ((t.markDirty w L).needFlushMetaPage = true ↔
        ∃ l, L / t.countPerWrite * t.countPerWrite ≤ l ∧ l < L + 1 ∧
          t.dirty (sys.ulogs l) = true) := by
  obtain ⟨hfile, hsys, hcycle, hsize, hneed⟩ := h.start hL
  have hsame : (t.startGroup w L).sys.ulogs L = sys.ulogs L := by
    rw [hsys]
    exact h.later L ((lt_groupEnd_iff hL).mpr le_rfl)
  unfold markDirty
  split
  case isTrue hdirty =>
    refine ⟨hfile, hsys, hcycle, hsize, fun _ => ⟨L, Nat.div_mul_le_self _ _, by omega, ?_⟩, fun _ => rfl⟩
    rwa [hsame] at hdirty
  case isFalse hdirty =>
    refine ⟨hfile, hsys, hcycle, hsize, hneed.trans ⟨?_, ?_⟩⟩
    · rintro ⟨l, hle, hlt, hl⟩
      exact ⟨l, hle, by omega, hl⟩
    · rintro ⟨l, hle, hlt, hl⟩
      refine ⟨l, hle, ?_, hl⟩
      rcases Nat.lt_succ_iff_lt_or_eq.mp hlt with hlt | rfl
      · exact hlt
      · exact absurd (hsame ▸ hl) hdirty

theorem checkpointStep_eq : t.checkpointStep crc w L =
    if (t.markDirty w L).needFlushMetaPage ∧
        ((L + 1) % t.countPerWrite = 0 ∨ L + 1 = t.pages.total) then
      (List.range' (t.markDirty w L).cycle (L + 1 - (t.markDirty w L).cycle)).foldl (t.flushStep crc)
        (t.markDirty w L)
    else t.markDirty w L := rfl

theorem PageHolds.of_kept {f f' : MetaFile} {record : Nat → List UInt8} (ht : t.Lawful)
    (h : t.PageHolds crc f p record) (hkept : t.PageKept f f' p) : t.PageHolds crc f' p record := by
  refine h.congr fun i hi => ?_
  rw [ht.page] at hi
  exact (hkept i hi).symm

theorem Written.flush {w₁ w' : MetaWrite} (ht : t.Lawful) (hfile : t.fileEnd ≤ file.size)
    (h : t.Written crc sys file L w) (hg : g * t.countPerWrite < t.pages.total)
    (hL : g * t.countPerWrite ≤ L) (hend : L + 1 = t.groupEnd g) (hdirty : t.GroupDirty sys.ulogs g)
    (hw₁ : w₁.file = w.file ∧ w₁.sys = w.sys ∧ w₁.writeSize = t.writeSizeAt g)
    (hf : t.Flushed crc w₁ w' g (t.groupEnd g)) (hneed : w'.needFlushMetaPage = false)
    (hw' : w'.file = w₁.file.write (t.pageBegin + g * undoWriteSize) (w'.buffer.load 0 w₁.writeSize)) :
    t.Written crc sys file (L + 1) w' := by
  obtain ⟨hfile₁, hsys₁, hsize₁⟩ := hw₁
  rw [hfile₁, hsize₁] at hw'
  have hLn : L < t.pages.total := by
    have : t.groupEnd g ≤ t.pages.total := Nat.min_le_right _ _
    omega
  have hdiv : L / t.countPerWrite = g := div_of_mem_group hL (by omega)
  have hbuf : t.pages.Filled crc t.pages.total w'.buffer (8 * g) (t.groupEnd g) (t.groupEnd g)
      fun l => t.record (sys.ulogs l) := by
    have := hf.filled
    simp only [hsys₁, h.record] at this
    exact this
  -- the pages of the other groups stay
  have hstay : ∀ p, p / 8 ≠ g → t.PageKept w.file w'.file p := by
    intro p hp
    rw [hw']
    exact pageKept_write ht hg fun he => absurd he hp
  constructor
  · rw [hw', write_size ht hg (by rw [h.size]; exact hfile), h.size]
  · intro a ha
    rw [hw', write_outside ht hg ha]
    exact h.outside a ha
  · intro p hn hle hre
    have hpg : p / 8 ≤ g := (groupEnd_le_iff (page_group_lt hn)).mp (hend ▸ hle)
    by_cases heq : p / 8 = g
    · subst heq
      rw [hw']
      exact pageHolds_write ht hg hbuf hre.2 hn
    · refine (h.done p hn ?_ hre).of_kept ht (hstay p heq)
      rw [← not_lt, lt_groupEnd_iff hLn, hdiv]
      omega
  · intro p hn hcase i hi
    by_cases heq : p / 8 = g
    · subst heq
      have hnot : ¬ t.Rewritten sys.ulogs p := by
        rcases hcase with hlt | hnot
        · omega
        · exact hnot
      have hle : t.writeSizeAt (p / 8) ≤ p % 8 * undoMetaPageSize :=
        not_lt.mp fun hlt => hnot ⟨hdirty, hlt⟩
      have hold := h.kept p hn (.inr hnot) i hi
      rw [hw', pageKept_write ht hg (fun _ => hle) i hi, hold]
    · rw [hstay p heq i hi]
      exact h.kept p hn (hcase.imp_left fun hlt => by omega) i hi
  · intro l
    rw [hf.record l, hsys₁, h.record l]
  · intro l hlt
    rw [hf.other l, hsys₁]
    · exact h.later l (by omega)
    · have hne : l / t.countPerWrite ≠ g := by
        rintro rfl
        omega
      by_contra hin
      exact hne (div_of_mem_group (by omega) (by omega))
  · intro hm hlt
    -- the next group starts here, or there is none
    exfalso
    have := (group_end_iff hL (by omega)).mpr hend
    omega
  · exact fun _ => hneed

/-- The end of a group without a changed log, and a log inside a group. -/
theorem Written.skip {w₁ : MetaWrite} (h : t.Written crc sys file L w) (hL : L < t.pages.total)
    (hw₁ : w₁.file = w.file ∧ w₁.sys = w.sys) (hneed : L + 1 = t.groupEnd (L / t.countPerWrite) →
      w₁.needFlushMetaPage = false ∧ ¬ t.GroupDirty sys.ulogs (L / t.countPerWrite))
    (hgroup : L + 1 < t.groupEnd (L / t.countPerWrite) →
      w₁.cycle = L / t.countPerWrite * t.countPerWrite ∧
        w₁.writeSize = t.writeSizeAt (L / t.countPerWrite) ∧ (w₁.needFlushMetaPage = true ↔
          ∃ l, L / t.countPerWrite * t.countPerWrite ≤ l ∧ l < L + 1 ∧
            t.dirty (sys.ulogs l) = true)) :
    t.Written crc sys file (L + 1) w₁ := by
  obtain ⟨hfile₁, hsys₁⟩ := hw₁
  have hlt := (lt_groupEnd_iff (t := t) hL).mpr le_rfl
  have hiff := group_end_iff (t := t) (Nat.div_mul_le_self L _) hlt
  constructor
  · rw [hfile₁, h.size]
  · rw [hfile₁]
    exact h.outside
  · intro p hn hle hre
    rw [hfile₁]
    refine h.done p hn ?_ hre
    -- the group that ends here is not rewritten
    by_contra hgt
    have heq : t.groupEnd (p / 8) = L + 1 := by omega
    have hpg : p / 8 = L / t.countPerWrite := by
      have hle₁ := (lt_groupEnd_iff hL).mp (not_le.mp hgt)
      have hle₂ := (groupEnd_le_iff (t := t) (page_group_lt hn)).mp (show _ ≤ t.groupEnd (L / t.countPerWrite) by omega)
      omega
    rw [hpg] at heq
    exact (hneed heq.symm).2 (hpg ▸ hre.1)
  · intro p hn hcase
    rw [hfile₁]
    exact h.kept p hn (hcase.imp_left fun hlt => by omega)
  · rw [hsys₁]
    exact h.record
  · intro l hlt
    rw [hsys₁]
    exact h.later l (by omega)
  · intro hm hn
    have hnext : L + 1 ≠ t.groupEnd (L / t.countPerWrite) := by
      intro he
      have := hiff.mpr he
      omega
    have hdiv : (L + 1) / t.countPerWrite = L / t.countPerWrite := by
      refine div_of_mem_group ?_ (by omega)
      exact (Nat.div_mul_le_self _ _).trans (Nat.le_succ _)
    rw [hdiv]
    exact hgroup (by omega)
  · intro hm
    exact (hneed (hiff.mp (.inl hm))).1

theorem Written.step (ht : t.Lawful) (hfile : t.fileEnd ≤ file.size) (h : t.Written crc sys file L w)
    (hL : L < t.pages.total) : t.Written crc sys file (L + 1) (t.checkpointStep crc w L) := by
  obtain ⟨hfile₁, hsys₁, hcycle, hsize, hneed⟩ := h.mark hL
  have hle : L / t.countPerWrite * t.countPerWrite ≤ L := Nat.div_mul_le_self _ _
  have hlt := (lt_groupEnd_iff (t := t) hL).mpr le_rfl
  have hiff := group_end_iff (t := t) hle hlt
  rw [checkpointStep_eq]
  split
  case isTrue hflush =>
    obtain ⟨hdirty, hlast⟩ := hflush
    have hend : L + 1 = t.groupEnd (L / t.countPerWrite) :=
      hiff.mp (hlast.imp_right fun he => by omega)
    obtain ⟨l, hl₁, hl₂, hl₃⟩ := hneed.mp hdirty
    obtain ⟨hf, hclear, hw'⟩ := @flushed_group t crc (t.markDirty w L) _ ht (hle.trans_lt hL) _ rfl
    have hwritten := h.flush ht hfile (hle.trans_lt hL) hle hend ⟨l, hl₁, hend ▸ hl₂, hl₃⟩
      ⟨hfile₁, hsys₁, hsize⟩ hf hclear hw'
    rw [hend] at hwritten
    rwa [hcycle, hend]
  case isFalse hflush =>
    refine h.skip hL ⟨hfile₁, hsys₁⟩ ?_ fun _ => ⟨hcycle, hsize, hneed⟩
    intro hend
    have hclean : ¬ (t.markDirty w L).needFlushMetaPage = true := fun hdirty =>
      hflush ⟨hdirty, (hiff.mpr hend).imp_right fun he => by omega⟩
    refine ⟨by simpa using hclean, ?_⟩
    rintro ⟨l, hl₁, hl₂, hl₃⟩
    exact hclean (hneed.mpr ⟨l, hl₁, hend ▸ hl₂, hl₃⟩)

theorem written_zero : t.Written crc sys file 0 ⟨sys, file, zeroBuffer, 0, 0, false⟩ where
  size := rfl
  outside := fun _ _ => rfl
  done := by
    intro p hn hle
    have hpos := t.countPerWrite_pos
    have hg := page_group_lt hn
    rw [groupEnd, Nat.succ_mul] at hle
    omega
  kept := fun _ _ _ _ _ => rfl
  record := fun _ => rfl
  later := fun _ _ => rfl
  group := fun hm => absurd (Nat.zero_mod _) hm
  clear := fun _ => rfl

theorem written_run (ht : t.Lawful) (hfile : t.fileEnd ≤ file.size) (hL : L ≤ t.pages.total) :
    t.Written crc sys file L ((List.range L).foldl (t.checkpointStep crc)
      ⟨sys, file, zeroBuffer, 0, 0, false⟩) := by
  induction L with
  | zero => exact written_zero
  | succ L ih =>
    rw [range_succ, foldl_append, foldl_cons, foldl_nil]
    exact (ih (by omega)).step ht hfile (by omega)

structure Checkpointed (t : MetaTable) (crc : List UInt8 → UInt32) (ulogs : Nat → UndoLogControl)
    (f f' : MetaFile) : Prop where
  size : f'.size = f.size
  outside : ∀ a, a < t.pageBegin ∨ t.fileEnd ≤ a → f'.bytes a = f.bytes a
  rewritten : ∀ p, p * t.pages.perPage < t.pages.total → t.Rewritten ulogs p →
    t.PageHolds crc f' p fun l => t.record (ulogs l)
  kept : ∀ p, p * t.pages.perPage < t.pages.total → ¬ t.Rewritten ulogs p → t.PageKept f f' p

theorem checkpoint_file (ht : t.Lawful) (hfile : t.fileEnd ≤ file.size) :
    t.Checkpointed crc sys.ulogs file (t.checkpoint crc sys file).file := by
  have h : t.Written crc sys file t.pages.total (t.checkpoint crc sys file) :=
    written_run ht hfile le_rfl
  exact ⟨h.size, h.outside, fun p hn hre => h.done p hn (Nat.min_le_right _ _) hre,
    fun p hn hre => h.kept p hn (.inr hre)⟩

section Preserved

variable {β : Type*} {F : UndoLogControl → β}

theorem foldl_flushStep_preserves (hF : ∀ sys c l, F ((t.written sys c).ulogs l) = F (sys.ulogs l))
    (cs : List Nat) (w : MetaWrite) (l : Nat) :
    F ((cs.foldl (t.flushStep crc) w).sys.ulogs l) = F (w.sys.ulogs l) := by
  induction cs generalizing w with
  | nil => rfl
  | cons c cs ih =>
    rw [foldl_cons, ih]
    refine Eq.trans ?_ (hF w.sys c l)
    unfold flushStep
    dsimp only
    split <;> rfl

/-- A checkpoint keeps what the record of a log does not change when it is taken. -/
theorem checkpoint_preserves (hF : ∀ sys c l, F ((t.written sys c).ulogs l) = F (sys.ulogs l))
    (l : Nat) : F ((t.checkpoint crc sys file).sys.ulogs l) = F (sys.ulogs l) := by
  have hmark : ∀ (w : MetaWrite) (loop : Nat), (t.markDirty w loop).sys = w.sys := by
    intro w loop
    unfold markDirty startGroup
    split_ifs <;> rfl
  have hrun : ∀ (loops : List Nat) (w : MetaWrite),
      F ((loops.foldl (t.checkpointStep crc) w).sys.ulogs l) = F (w.sys.ulogs l) := by
    intro loops
    induction loops with
    | nil => exact fun _ => rfl
    | cons loop loops ih =>
      intro w
      rw [foldl_cons, ih, checkpointStep_eq]
      split
      · rw [foldl_flushStep_preserves hF, hmark]
      · rw [hmark]
  exact hrun _ _

end Preserved

end MetaTable

end XStore
