import XStore.Undo.MetaRecovery

/-!
# The first metadata file

`init_undo_meta` fills one page at a time and writes the three tables one behind the other.
-/
namespace XStore

variable {crc : List UInt8 → UInt32} {T : RecordPages} {file : MetaFile} {pos L : Nat}
  {record : List UInt8} {w : MetaInit}

/-- The loop before the log `L`. -/
structure InitTo (T : RecordPages) (crc : List UInt8 → UInt32) (file : MetaFile) (pos : Nat)
    (record : List UInt8) (L : Nat) (w : MetaInit) : Prop where
  pos_eq : w.pos = pos + (if L = T.total then metaPageCount T.total T.perPage
    else L / T.perPage) * undoMetaPageSize
  pos_le : w.pos ≤ w.file.size
  before : ∀ a < pos, w.file.bytes a = file.bytes a
  done : ∀ p, p * T.perPage < T.total →
    p * T.perPage + T.count T.total p ≤ L →
      T.PageAt crc T.total w.file.bytes (pos + p * undoMetaPageSize) p fun _ => record
  inside : L % T.perPage ≠ 0 → L < T.total →
    T.Filled crc T.total w.buffer (L / T.perPage) L L (fun _ => record) ∧
      w.writeSize = T.count T.total (L / T.perPage) * T.size

def startPage (T : RecordPages) (w : MetaInit) (logno : Nat) : MetaInit :=
  if logno % T.perPage = 0 then
    { w with
      buffer := zeroBuffer
      writeSize := if logno / T.perPage + 1 = metaPageCount T.total T.perPage then
          (T.total - (metaPageCount T.total T.perPage - 1) * T.perPage) * T.size
        else T.size * T.perPage }
  else w

theorem InitTo.started (hlast : T.total % T.perPage ≠ 0)
    (h : InitTo T crc file pos record L w) (hL : L < T.total) :
    (startPage T w L).file = w.file ∧ (startPage T w L).pos = w.pos ∧
      T.Filled crc T.total (startPage T w L).buffer (L / T.perPage) L L (fun _ => record) ∧
      (startPage T w L).writeSize = T.count T.total (L / T.perPage) * T.size := by
  have hd := Nat.div_add_mod' L T.perPage
  have hdn := Nat.div_add_mod' T.total T.perPage
  have hpos := T.perPage_pos
  unfold startPage
  split
  case isTrue hm =>
    rw [hm, Nat.add_zero] at hd
    refine ⟨rfl, rfl, ?_, ?_⟩
    · have hfill : T.Filled crc T.total zeroBuffer (L / T.perPage)
          (L / T.perPage * T.perPage) (L / T.perPage * T.perPage) fun _ => record :=
        RecordPages.filled_zero
      rwa [hd] at hfill
    · dsimp only
      rw [metaPageCount_of_ne hlast, Nat.add_sub_cancel]
      have hmod := Nat.mod_lt T.total hpos
      split
      case isTrue he =>
        have he' : L / T.perPage = T.total / T.perPage := by omega
        rw [RecordPages.count, he', Nat.min_eq_right (by omega)]
      case isFalse he =>
        -- a page that is not the last one is full
        have hle : L / T.perPage ≤ T.total / T.perPage := Nat.div_le_div_right hL.le
        have hmul := Nat.mul_le_mul_right T.perPage
          (show L / T.perPage + 1 ≤ T.total / T.perPage by omega)
        rw [Nat.succ_mul] at hmul
        rw [RecordPages.count, Nat.min_eq_left (by omega), Nat.mul_comm]
  case isFalse hm => exact ⟨rfl, rfl, h.inside hm hL⟩

theorem initMetaStep_eq : initMetaStep crc T record w L =
    if (L + 1) % T.perPage = 0 ∨ (L = T.total - 1 ∧
        L / T.perPage + 1 = metaPageCount T.total T.perPage) then
      { startPage T w L with
        buffer := ((startPage T w L).buffer.store (L % T.perPage * T.size) record).store
          (startPage T w L).writeSize (leBytes 4 (crc (((startPage T w L).buffer.store
            (L % T.perPage * T.size) record).load 0 (startPage T w L).writeSize)).toNat)
        file := (startPage T w L).file.write (startPage T w L).pos
          ((((startPage T w L).buffer.store (L % T.perPage * T.size) record).store
            (startPage T w L).writeSize (leBytes 4 (crc (((startPage T w L).buffer.store
              (L % T.perPage * T.size) record).load 0 (startPage T w L).writeSize)).toNat)).load 0
                undoMetaPageSize)
        pos := (startPage T w L).pos + undoMetaPageSize }
    else
      { startPage T w L with
        buffer := (startPage T w L).buffer.store (L % T.perPage * T.size) record } := rfl

theorem InitTo.step (hpage : T.page = undoMetaPageSize)
    (hlast : T.total % T.perPage ≠ 0) (hlen : record.length = T.size)
    (h : InitTo T crc file pos record L w) (hL : L < T.total) :
    InitTo T crc file pos record (L + 1) (initMetaStep crc T record w L) := by
  obtain ⟨hfile, hpos, hfill, hsize⟩ := h.started hlast hL
  have hposL : w.pos = pos + L / T.perPage * undoMetaPageSize := by
    rw [h.pos_eq, if_neg (by omega)]
  have hrec := hfill.store_record (Nat.le_refl _) hL hlen
  rw [Nat.sub_self, Nat.zero_mul, Nat.zero_add] at hrec
  have htotal := metaPageCount_of_ne hlast
  rw [initMetaStep_eq, hsize, hfile, hpos]
  split
  case isTrue hend =>
    have hend' : (L + 1) % T.perPage = 0 ∨ L + 1 = T.total :=
      hend.imp_right fun h => by omega
    have hdone := hrec.store_check (Nat.le_refl _) hL rfl
    rw [Nat.sub_self, Nat.zero_mul, Nat.zero_add] at hdone
    generalize hb : (((startPage T w L).buffer.store (L % T.perPage * T.size) record).store _ _) = b
      at hdone ⊢
    -- the pages written so far stay, and the page of `L` is added
    have hold : ∀ p, p < L / T.perPage → ∀ i < undoMetaPageSize,
        w.file.bytes (pos + p * undoMetaPageSize + i) =
          (w.file.write w.pos (b.load 0 undoMetaPageSize)).bytes (pos + p * undoMetaPageSize + i) := by
      intro p hp i hi
      refine (Memory.store_load_outside (.inl ?_)).symm
      have := Nat.mul_le_mul_right undoMetaPageSize (Nat.succ_le_of_lt hp)
      rw [Nat.succ_mul] at this
      omega
    constructor
    · dsimp only
      rw [hposL]
      split
      case isTrue hn =>
        have hdiv : L / T.perPage = T.total / T.perPage := by
          rw [← hn]
          exact (succ_div_of_ne (hn ▸ hlast)).symm
        rw [htotal, hdiv, Nat.succ_mul, Nat.add_assoc]
      case isFalse hn =>
        rw [succ_div_of_eq (hend'.resolve_right hn), Nat.succ_mul, Nat.add_assoc]
    · simp only [MetaFile.write, Memory.load_length]
      exact Nat.le_max_right _ _
    · intro a ha
      rw [← h.before a ha]
      exact Memory.store_load_outside (.inl (by omega))
    · intro p hn hle
      by_cases hp : p = L / T.perPage
      · subst hp
        have hnew := hdone.pageAt (Nat.le_refl _) hn hle
        rw [Nat.sub_self, Nat.zero_mul] at hnew
        refine hnew.congr fun i hi => ?_
        rw [hpage] at hi
        rw [← hposL]
        exact (Memory.store_load_inside hi).symm
      · have hcount : 0 < T.count T.total p := lt_min T.perPage_pos (by omega)
        have hlt : p < L / T.perPage := by
          have hle' : p ≤ L / T.perPage := (Nat.le_div_iff_mul_le T.perPage_pos).mpr (by omega)
          omega
        refine (h.done p hn ?_).congr fun i hi => ?_
        · by_contra hgt
          exact hp (T.eq_div_of_end hn (by omega))
        · exact hold p hlt i (hpage ▸ hi)
    · intro hm hn
      omega
  case isFalse hend =>
    have hend' : ¬ ((L + 1) % T.perPage = 0 ∨ L + 1 = T.total) := by
      intro he
      refine hend (he.imp_right fun hn => ⟨by omega, ?_⟩)
      rw [htotal, ← hn, succ_div_of_ne (hn ▸ hlast)]
    have hm : (L + 1) % T.perPage ≠ 0 := fun hm => hend' (.inl hm)
    constructor
    · dsimp only
      rw [hpos, hposL, if_neg fun hn => hend' (.inr hn), succ_div_of_ne hm]
    · dsimp only
      rw [hfile, hpos]
      exact h.pos_le
    · dsimp only
      rw [hfile]
      exact h.before
    · intro p hn hle
      dsimp only
      rw [hfile]
      have := T.end_ne_of_not_end hend' hn
      exact h.done p hn (by omega)
    · intro _ _
      dsimp only
      rw [succ_div_of_ne hm]
      exact ⟨hrec.of_not_end hend', hsize⟩

theorem initMetaTable_spec (hpage : T.page = undoMetaPageSize)
    (hlast : T.total % T.perPage ≠ 0) (hlen : record.length = T.size)
    (hpos : pos ≤ file.size) :
    InitTo T crc file pos record T.total (initMetaTable crc T record file pos) := by
  have hrun : ∀ L ≤ T.total, InitTo T crc file pos record L
      ((List.range L).foldl (initMetaStep crc T record) ⟨file, zeroBuffer, 0, pos⟩) := by
    intro L hL
    induction L with
    | zero =>
      have hne : 0 ≠ T.total := by
        rintro h0
        rw [← h0, Nat.zero_mod] at hlast
        exact hlast rfl
      refine ⟨?_, hpos, fun _ _ => rfl, ?_, fun hm => absurd (Nat.zero_mod _) hm⟩
      · rw [if_neg hne, Nat.zero_div, Nat.zero_mul]
        rfl
      · intro p hn hle
        have : 0 < T.count T.total p := lt_min T.perPage_pos (by omega)
        omega
    | succ L ih =>
      rw [List.range_succ, List.foldl_append, List.foldl_cons, List.foldl_nil]
      exact (ih (by omega)).step hpage hlast hlen (by omega)
  exact hrun _ le_rfl

end XStore
