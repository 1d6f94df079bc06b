import Mathlib.Data.List.Induction
import Mathlib.Data.List.Infix
import Mathlib.Data.List.Nodup
import XStore.Heap.MultiInsert

/-!
# The offsets that a page gives to new rows

A page hands out its free lines from the first one on, as long as its hint says that there are any,
and then the lines behind the array.  `xheap_get_usable_offset_ranges` looks at them in advance.
-/
namespace XStore

open List

def OffsetRange.offsets (r : OffsetRange) : List Nat :=
  List.range' r.startOffset (r.endOffset + 1 - r.startOffset)

def rangesOffsets (rs : List OffsetRange) : List Nat := rs.flatMap OffsetRange.offsets

theorem rangesOffsets_cons (r : OffsetRange) (rs : List OffsetRange) :
    rangesOffsets (r :: rs) = r.offsets ++ rangesOffsets rs := flatMap_cons

namespace XPage

def isFreeLine (p : XPage) (off : Nat) : Bool := !(p.row off).rp.isUsed && !(p.row off).rp.hasStorage

def freeLines (p : XPage) : List Nat :=
  if p.pdFlags.has xheapHasFreeLines then (List.range' 1 p.maxOffset).filter p.isFreeLine else []

/-- What inserting relies on: the space between the lines and the rows has an even length, a line
that is not in use has no storage, and there are no more lines than a page may have. -/
structure Insertable (p : XPage) : Prop where
  lower_le : p.pdLower ≤ p.pdUpper
  upper_even : p.pdUpper % 2 = 0
  bare : ∀ off, (p.row off).rp.isUsed = false → (p.row off).rp.hasStorage = false
  lines_le : p.maxOffset ≤ calculatedMaxXHeapTuplesPerPage

theorem init_insertable : init.Insertable where
  lower_le := by decide
  upper_even := by decide
  bare := fun off _ => by rw [init_row]; rfl
  lines_le := by decide

end XPage

section Slot

variable {p q : XPage} {t : XHeapDiskTuple} {off : Nat}

/-- The lines before the first free one are passed over. -/
theorem filter_range'_findIdx {α : Type*} (f : α → Bool) (as : List α) (g : Nat → Bool)
    (hg : ∀ i (h : i < as.length), g (i + 1) = f as[i]) :
    ((List.range' 1 as.length).filter g).head? =
      if as.findIdx f < as.length then some (as.findIdx f + 1) else none := by
  induction as using List.reverseRecOn with
  | nil => rfl
  | append_singleton as a ih =>
    have hprev := ih fun i h => by
      have := hg i (by simp; omega)
      rwa [getElem_append_left h] at this
    have hlast : g (as.length + 1) = f a := by
      have := hg as.length (by simp)
      simpa using this
    rw [length_append, length_singleton, List.range'_concat, filter_append,
      head?_append, hprev, findIdx_append]
    by_cases h : as.findIdx f < as.length
    · simp [h, Nat.lt_succ_of_lt h]
    · have hlen : as.findIdx f = as.length :=
        Nat.le_antisymm findIdx_le_length (Nat.le_of_not_lt h)
      cases hfa : f a with
      | true => simp [h, Nat.add_comm 1 as.length, hlast, hfa, findIdx_cons]
      | false => simp [h, Nat.add_comm 1 as.length, hlast, hfa, findIdx_cons]

theorem findNextFreeSlot_eq : p.findNextFreeSlot.1 = p.freeLines.head?.getD (p.maxOffset + 1) := by
  have hhead := filter_range'_findIdx (fun r : Row => !r.rp.isUsed && !r.rp.hasStorage) p.rows
    p.isFreeLine (fun i h => by simp [XPage.isFreeLine, XPage.row, getD_eq_getElem?_getD, h])
  unfold XPage.findNextFreeSlot XPage.freeLines XPage.maxOffset firstOffsetNumber
  dsimp only
  by_cases hflag : p.pdFlags.has xheapHasFreeLines = true
  · rw [if_pos hflag, if_pos hflag, hhead]
    have hle := @findIdx_le_length _ (fun r : Row => !r.rp.isUsed && !r.rp.hasStorage) p.rows
    by_cases hlt : p.rows.findIdx (fun r => !r.rp.isUsed && !r.rp.hasStorage) < p.rows.length
    · rw [if_neg (by omega), if_pos hlt]
      rfl
    · rw [if_pos (by omega), if_neg hlt]
      dsimp only [Option.getD_none]
      omega
  · rw [if_neg hflag, if_neg hflag]
    rfl

theorem has_clear (f m : Flag) : Flag.has (f &&& ~~~m) m = false := by
  unfold Flag.has
  rw [BitVec.and_assoc, BitVec.and_comm (~~~m) m, BitVec.and_not_self]
  simp

theorem freeLines_nodup : p.freeLines.Nodup := by
  unfold XPage.freeLines
  split
  · exact List.Nodup.filter _ nodup_range'
  · exact nodup_nil

theorem mem_freeLines (h : off ∈ p.freeLines) :
    p.pdFlags.has xheapHasFreeLines = true ∧ 1 ≤ off ∧ off ≤ p.maxOffset ∧
      p.isFreeLine off = true := by
  unfold XPage.freeLines at h
  split at h
  · rename_i hflag
    obtain ⟨hrange, hfree⟩ := mem_filter.mp h
    rw [mem_range'_1] at hrange
    exact ⟨hflag, hrange.1, by omega, hfree⟩
  · cases h

theorem hint_findNextFreeSlot (h : p.freeLines = []) :
    p.findNextFreeSlot.2.pdFlags.has xheapHasFreeLines = false := by
  have hslot := @findNextFreeSlot_eq p
  rw [h] at hslot
  unfold XPage.findNextFreeSlot at hslot ⊢
  dsimp only at hslot ⊢
  by_cases hflag : p.pdFlags.has xheapHasFreeLines = true
  · rw [if_pos hflag] at hslot ⊢
    by_cases hlim : p.maxOffset + 1 ≤
        p.rows.findIdx (fun r => !r.rp.isUsed && !r.rp.hasStorage) + firstOffsetNumber
    · rw [if_pos hlim]
      exact has_clear _ _
    · rw [if_neg hlim] at hslot
      exact absurd (Nat.le_of_eq hslot.symm) hlim
  · rw [if_neg hflag]
    simpa using hflag

theorem findNextFreeSlot_of_mem (h : p.freeLines ≠ []) : p.findNextFreeSlot.2 = p := by
  have hslot := @findNextFreeSlot_eq p
  obtain ⟨o, os, hcons⟩ := exists_cons_of_ne_nil h
  rw [hcons] at hslot
  obtain ⟨hflag, -, hle, -⟩ := mem_freeLines (by rw [hcons]; exact mem_cons_self : o ∈ p.freeLines)
  unfold XPage.findNextFreeSlot at hslot ⊢
  dsimp only [head?_cons, Option.getD_some] at hslot ⊢
  rw [if_pos hflag] at hslot ⊢
  split
  · rename_i hlim
    rw [if_pos hlim] at hslot
    dsimp only at hslot
    omega
  · rfl

/-- Where a new row goes and what becomes of the page's header. -/
theorem putNewRow_frame (h : putNewRow p t = .ok (off, q)) :
    q.pdFlags = p.findNextFreeSlot.2.pdFlags ∧ q.pdUpper + shortAlign t.size = p.pdUpper ∧
      q.pdLower ≤ q.pdUpper ∧ off ≤ p.maxOffset + 1 ∧
      q.maxOffset = (if off = p.maxOffset + 1 then p.maxOffset + 1 else p.maxOffset) := by
  unfold putNewRow at h
  cases hput : relationPutXtuple p t with
  | error e => simp [hput, bind, Except.bind] at h
  | ok res =>
    obtain ⟨off', q'⟩ := res
    simp only [hput, bind, Except.bind, pure, Except.pure, Except.ok.injEq, Prod.mk.injEq] at h
    obtain ⟨rfl, rfl⟩ := h
    unfold relationPutXtuple at hput
    split_ifs at hput with hlower hmax
    cases hcalc : calculateLowerUpperPointers p.findNextFreeSlot.2 p.findNextFreeSlot.1 t with
    | none => simp [hcalc] at hput
    | some r =>
      simp only [hcalc, Except.ok.injEq, Prod.mk.injEq] at hput
      obtain ⟨rfl, rfl⟩ := hput
      have hrows : p.findNextFreeSlot.2.maxOffset = p.maxOffset := by simp [XPage.maxOffset]
      have hlowerEq : p.findNextFreeSlot.2.pdLower = p.pdLower := by simp [XPage.pdLower]
      have hupperEq := @findNextFreeSlot_pdUpper p
      have hlen : p.findNextFreeSlot.2.rows.length = p.maxOffset := by simp [XPage.maxOffset]
      simp only [calculateLowerUpperPointers, hrows, hlowerEq, hupperEq] at hcalc
      split_ifs at hcalc with hfar hend hfit hfit
      · cases hcalc
        refine ⟨rfl, ?_, ?_, by omega, ?_⟩
        · change p.pdUpper - shortAlign t.size + shortAlign t.size = p.pdUpper
          omega
        · simp only [XPage.pdLower, XPage.recordPotentialFreeSpace, length_append, hlen,
            length_singleton] at hfit ⊢
          simp only [XPage.maxOffset] at *
          omega
        · rw [if_pos hend]
          simp [XPage.maxOffset, XPage.recordPotentialFreeSpace]
      · cases hcalc
        refine ⟨rfl, ?_, ?_, by omega, ?_⟩
        · change p.pdUpper - shortAlign t.size + shortAlign t.size = p.pdUpper
          omega
        · simp only [XPage.pdLower, XPage.recordPotentialFreeSpace, XPage.setRow, length_set,
            hlen] at hfit ⊢
          simp only [XPage.maxOffset] at *
          omega
        · rw [if_neg hend]
          simp [XPage.maxOffset, XPage.recordPotentialFreeSpace, XPage.setRow]

theorem putNewRow_freeLines (h : putNewRow p t = .ok (off, q)) :
    q.freeLines = p.freeLines.tail ∧
      q.maxOffset = (if p.freeLines = [] then p.maxOffset + 1 else p.maxOffset) := by
  obtain ⟨hflags, -, -, hoff, hmax⟩ := putNewRow_frame h
  obtain ⟨hslot, -, offset, -, -, hch⟩ := putNewRow_spec h
  rw [findNextFreeSlot_eq] at hslot
  cases hfree : p.freeLines with
  | nil =>
    rw [hfree] at hslot
    have hnone : q.pdFlags.has xheapHasFreeLines = false := hflags ▸ hint_findNextFreeSlot hfree
    refine ⟨?_, ?_⟩
    · simp [XPage.freeLines, hnone]
    · rw [hmax, if_pos rfl]
      exact if_pos hslot
  | cons o os =>
    rw [hfree] at hslot
    dsimp only [head?_cons, Option.getD_some] at hslot
    subst hslot
    obtain ⟨hflag, -, hle, -⟩ := mem_freeLines (by rw [hfree]; exact mem_cons_self : off ∈ p.freeLines)
    have hsame : q.pdFlags = p.pdFlags := by
      rw [hflags, findNextFreeSlot_of_mem (by simp [hfree])]
    have hlines : q.maxOffset = p.maxOffset := by rw [hmax, if_neg (by omega)]
    refine ⟨?_, ?_⟩
    · have hnodup := @freeLines_nodup p
      rw [hfree, nodup_cons] at hnodup
      have hkeep : ∀ o ∈ List.range' 1 p.maxOffset,
          q.isFreeLine o = (p.isFreeLine o && decide (o ≠ off)) := by
        intro o ho
        rw [mem_range'_1] at ho
        by_cases heq : o = off
        · subst heq
          simp [XPage.isFreeLine, hch.here, RowPtr.isUsed]
        · simp [XPage.isFreeLine, hch.elsewhere o ho.1 heq, heq]
      have hfilter : q.freeLines = p.freeLines.filter fun o => decide (o ≠ off) := by
        simp only [XPage.freeLines, hsame, hlines, hflag, if_true, filter_filter]
        apply filter_congr
        intro o ho
        rw [hkeep o ho, Bool.and_comm]
      rw [hfilter, hfree, tail_cons, filter_cons_of_neg (by simp), filter_eq_self]
      intro o ho
      exact decide_eq_true fun heq => hnodup.1 (heq ▸ ho)
    · rw [hlines, if_neg (by simp)]

theorem findNextFreeSlot_le (hp : p.Insertable) (hspace : 0 < p.freeSpace) :
    p.findNextFreeSlot.1 ≤ calculatedMaxXHeapTuplesPerPage ∧
      p.findNextFreeSlot.1 ≤ p.maxOffset + 1 := by
  have hlines := hp.lines_le
  rw [findNextFreeSlot_eq]
  cases hfree : p.freeLines with
  | cons o os =>
    obtain ⟨-, -, hle, -⟩ := mem_freeLines (by rw [hfree]; exact mem_cons_self : o ∈ p.freeLines)
    dsimp only [head?_cons, Option.getD_some]
    omega
  | nil =>
    dsimp only [head?_nil, Option.getD_none]
    refine ⟨?_, le_rfl⟩
    by_contra hfull
    -- then the page has space only for its hint of a free line, and that line is free
    have hmax : ¬ p.maxOffset < calculatedMaxXHeapTuplesPerPage := by omega
    unfold XPage.freeSpace at hspace
    dsimp only at hspace
    rw [if_neg hmax] at hspace
    split_ifs at hspace with hhint
    · omega
    · rw [Bool.and_eq_true] at hhint
      obtain ⟨r, hr, hunused⟩ := any_eq_true.mp hhint.2
      obtain ⟨i, hi, rfl⟩ := getElem_of_mem hr
      have hrow : p.row (i + 1) = p.rows[i] := by
        simp [XPage.row, getD_eq_getElem?_getD, hi]
      have hbare := hp.bare (i + 1) (by rw [hrow]; simpa using hunused)
      have hmem : i + 1 ∈ p.freeLines := by
        unfold XPage.freeLines
        rw [if_pos hhint.1, mem_filter, mem_range'_1]
        refine ⟨⟨by omega, by unfold XPage.maxOffset; omega⟩, ?_⟩
        rw [hrow] at hbare
        simp only [XPage.isFreeLine, hrow, hbare, Bool.not_false, Bool.and_true]
        exact hunused
      rw [hfree] at hmem
      cases hmem
    · omega

/-- A tuple for which the page reports enough space is put there. -/
theorem putNewRow_isOk (hp : p.Insertable) (hfit : t.size ≤ p.freeSpace) :
    ∃ q, putNewRow p t = .ok (p.findNextFreeSlot.1, q) ∧ q.Insertable := by
  have hsize : 0 < t.size := Nat.lt_of_lt_of_le (by decide) (Nat.le_add_right _ _)
  have hlower := hp.lower_le
  have heven := hp.upper_even
  have hlines := hp.lines_le
  have hpl : p.pdLower % 2 = 0 := by
    simp only [XPage.pdLower, sizeOfXHeapPageHeaderData]
    omega
  -- the space is even, so that the padding of an odd tuple fits too
  have hroom : p.pdLower + 4 + shortAlign t.size ≤ p.pdUpper := by
    have hspace : t.size ≤ p.pdUpper - p.pdLower - 4 := by
      unfold XPage.freeSpace at hfit
      dsimp only at hfit
      split_ifs at hfit <;> omega
    simp only [shortAlign]
    omega
  have hslot := findNextFreeSlot_le hp (Nat.lt_of_lt_of_le hsize hfit)
  have hput : ∃ q, putNewRow p t = .ok (p.findNextFreeSlot.1, q) := by
    have hrows : p.findNextFreeSlot.2.maxOffset = p.maxOffset := by simp [XPage.maxOffset]
    have hlowerEq : p.findNextFreeSlot.2.pdLower = p.pdLower := by simp [XPage.pdLower]
    have hcalc : ∃ q, calculateLowerUpperPointers p.findNextFreeSlot.2 p.findNextFreeSlot.1 t =
        some q := by
      simp only [calculateLowerUpperPointers, hrows, hlowerEq, findNextFreeSlot_pdUpper]
      rw [if_neg (by omega)]
      split_ifs
      · omega
      · exact ⟨_, rfl⟩
      · omega
      · exact ⟨_, rfl⟩
    obtain ⟨q, hq⟩ := hcalc
    refine ⟨q.recordPotentialFreeSpace (-(shortAlign t.size : Int)), ?_⟩
    simp only [putNewRow, relationPutXtuple, hq]
    rw [if_neg (by omega), if_neg (by omega)]
    rfl
  obtain ⟨q, hq⟩ := hput
  obtain ⟨-, hupper, hlow, hoff, hmax⟩ := putNewRow_frame hq
  obtain ⟨-, -, offset, -, -, hch⟩ := putNewRow_spec hq
  have hsa : shortAlign t.size % 2 = 0 := by
    simp only [shortAlign]
    omega
  have hbare : ∀ off, 1 ≤ off → (q.row off).rp.isUsed = false → (q.row off).rp.hasStorage = false := by
    intro off hpos hunused
    by_cases heq : off = p.findNextFreeSlot.1
    · rw [heq, hch.here] at hunused
      cases hunused
    · rw [hch.elsewhere off hpos heq] at hunused ⊢
      exact hp.bare off hunused
  refine ⟨q, hq, hlow, by omega, fun off hunused => ?_, ?_⟩
  · cases off with
    | zero => exact hbare 1 le_rfl hunused
    | succ off => exact hbare (off + 1) (by omega) hunused
  · rw [hmax]
    split <;> omega

/-- The next new rows go to `offs`, in order. -/
def Serves : XPage → List Nat → Prop
  | _, [] => True
  | p, off :: offs => p.findNextFreeSlot.1 = off ∧
      ∀ t o q, putNewRow p t = .ok (o, q) → Serves q offs

/-- A page serves its free lines and then the lines behind the array. -/
theorem serves_of_prefix {offs : List Nat} {m : Nat}
    (h : offs <+: p.freeLines ++ List.range' (p.maxOffset + 1) m) : Serves p offs := by
  induction offs generalizing p m with
  | nil => trivial
  | cons off offs ih =>
    cases hfree : p.freeLines with
    | nil =>
      rw [hfree, nil_append] at h
      cases m with
      | zero => exact absurd h.length_le (by simp)
      | succ m =>
        rw [List.range'_succ, cons_prefix_cons] at h
        obtain ⟨rfl, hrest⟩ := h
        refine ⟨by rw [findNextFreeSlot_eq, hfree]; rfl, fun t o q hput => ?_⟩
        obtain ⟨hlines, hmax⟩ := putNewRow_freeLines hput
        rw [hfree, tail_nil] at hlines
        rw [if_pos hfree] at hmax
        refine ih (m := m) ?_
        rw [hlines, hmax]
        exact hrest
    | cons o os =>
      rw [hfree, cons_append, cons_prefix_cons] at h
      obtain ⟨rfl, hrest⟩ := h
      refine ⟨by rw [findNextFreeSlot_eq, hfree]; rfl, fun t o q hput => ?_⟩
      obtain ⟨hlines, hmax⟩ := putNewRow_freeLines hput
      rw [hfree, tail_cons] at hlines
      rw [if_neg (by simp [hfree])] at hmax
      refine ih (m := m) ?_
      rw [hlines, hmax]
      exact hrest

end Slot

section Ranges

variable {p : XPage} {save : Nat} {tuples : List XHeapDiskTuple}

theorem offsets_extend {r : OffsetRange} {off : Nat} (hr : r.startOffset ≤ r.endOffset)
    (hoff : r.endOffset + 1 = off) :
    OffsetRange.offsets ⟨r.startOffset, off⟩ = r.offsets ++ [off] := by
  have hlen : off + 1 - r.startOffset = r.endOffset + 1 - r.startOffset + 1 := by omega
  simp only [OffsetRange.offsets, hlen, List.range'_concat]
  congr 2
  omega

/-- One more free offset is put at the end of the ranges. -/
theorem addOffset_spec {inRange : Bool} {off : Nat} {ranges : List OffsetRange}
    (hne : ∀ r ∈ ranges, r.startOffset ≤ r.endOffset)
    (hin : inRange = true → ∃ r, ranges.getLast? = some r ∧ r.endOffset + 1 = off) :
    rangesOffsets (addOffset inRange off ranges) = rangesOffsets ranges ++ [off] ∧
      (∀ r ∈ addOffset inRange off ranges, r.startOffset ≤ r.endOffset) ∧
      ∃ r, (addOffset inRange off ranges).getLast? = some r ∧ r.endOffset = off := by
  have hnew : rangesOffsets (ranges ++ [⟨off, off⟩]) = rangesOffsets ranges ++ [off] ∧
      (∀ r ∈ ranges ++ [⟨off, off⟩], r.startOffset ≤ r.endOffset) ∧
      ∃ r, (ranges ++ [(⟨off, off⟩ : OffsetRange)]).getLast? = some r ∧ r.endOffset = off := by
    refine ⟨?_, ?_, ⟨off, off⟩, by simp, rfl⟩
    · simp [rangesOffsets, OffsetRange.offsets]
    · intro r hr
      rcases mem_append.mp hr with hmem | hmem
      · exact hne r hmem
      · rw [mem_singleton.mp hmem]
  cases inRange with
  | false => exact hnew
  | true =>
    obtain ⟨r, hlast, hoff⟩ := hin rfl
    have hr : r.startOffset ≤ r.endOffset := hne r (mem_of_getLast? hlast)
    have hsplit : ranges = ranges.dropLast ++ [r] := (dropLast_append_getLast? r hlast).symm
    have hadd : addOffset true off ranges = ranges.dropLast ++ [⟨r.startOffset, off⟩] := by
      simp [addOffset, hlast]
    rw [hadd]
    refine ⟨?_, ?_, ⟨r.startOffset, off⟩, by simp, rfl⟩
    · conv_rhs => rw [hsplit]
      simp [rangesOffsets, offsets_extend hr hoff]
    · intro x hx
      rcases mem_append.mp hx with hmem | hmem
      · exact hne x (mem_of_mem_dropLast hmem)
      · rw [mem_singleton.mp hmem]
        dsimp only
        omega

/-- What the scan of the lines `offs` has taken for the first `taken` tuples. -/
structure Located (p : XPage) (save : Nat) (offs : List Nat) (s s' : RangeScan) (taken : Nat) :
    Prop where
  tuples : s'.tuples = s.tuples.drop taken
  taken_le : taken ≤ (offs.filter p.isFreeLine).length
  offsets : rangesOffsets s'.ranges = rangesOffsets s.ranges ++ (offs.filter p.isFreeLine).take taken
  nonempty : ∀ r ∈ s'.ranges, r.startOffset ≤ r.endOffset
  first : s'.isFirstInsert = (s.isFirstInsert && taken == 0)
  space : taken = 0 → s'.usedSpace = s.usedSpace
  /-- The scan ends when there are no tuples, no free lines or no space left. -/
  stopped : s'.tuples = [] ∨ taken = (offs.filter p.isFreeLine).length ∨
    ∃ t ts, s'.tuples = t :: ts ∧
      p.exactFreeSpace < s'.usedSpace + t.size + if s'.isFirstInsert then 0 else save

theorem locateUsableItemIds_spec (a n : Nat) (s : RangeScan)
    (hne : ∀ r ∈ s.ranges, r.startOffset ≤ r.endOffset)
    (hin : s.inRange = true → ∃ r, s.ranges.getLast? = some r ∧ r.endOffset + 1 = a) :
    ∃ taken, Located p save (List.range' a n) s
      (locateUsableItemIds p save (List.range' a n) s) taken := by
  induction n generalizing a s with
  | zero => exact ⟨0, rfl, le_rfl, by simp [locateUsableItemIds], hne, by simp [locateUsableItemIds],
      fun _ => rfl, .inr (.inl rfl)⟩
  | succ n ih =>
    rw [List.range'_succ]
    cases htuples : s.tuples with
    | nil =>
      have hstop : locateUsableItemIds p save (a :: List.range' (a + 1) n) s = s := by
        rw [locateUsableItemIds, htuples]
      rw [hstop]
      exact ⟨0, by simp, Nat.zero_le _, by simp, hne, by simp, fun _ => rfl, .inl htuples⟩
    | cons t ts =>
      by_cases hfree : p.isFreeLine a = true
      · have hfree' : (!(p.row a).rp.isUsed && !(p.row a).rp.hasStorage) = true := hfree
        by_cases hroom : p.exactFreeSpace < s.usedSpace + t.size + if s.isFirstInsert then 0 else save
        · have hstop : locateUsableItemIds p save (a :: List.range' (a + 1) n) s = s := by
            rw [locateUsableItemIds, htuples]
            simp only [hfree', if_true, if_pos hroom]
          rw [hstop]
          exact ⟨0, by simp, Nat.zero_le _, by simp, hne, by simp, fun _ => rfl,
            .inr (.inr ⟨t, ts, htuples, hroom⟩)⟩
        · obtain ⟨hoffs, hne', r, hlast, hend⟩ := @addOffset_spec _ a _ hne hin
          obtain ⟨taken, h⟩ := ih (a + 1)
            ⟨ts, s.usedSpace + t.size, true, false, addOffset s.inRange a s.ranges⟩ hne'
            (fun _ => ⟨r, hlast, by omega⟩)
          have hstep : locateUsableItemIds p save (a :: List.range' (a + 1) n) s =
              locateUsableItemIds p save (List.range' (a + 1) n)
                ⟨ts, s.usedSpace + t.size, true, false, addOffset s.inRange a s.ranges⟩ := by
            rw [locateUsableItemIds, htuples]
            simp only [hfree', if_true, if_neg hroom]
          have hcons : (a :: List.range' (a + 1) n).filter p.isFreeLine =
              a :: (List.range' (a + 1) n).filter p.isFreeLine := filter_cons_of_pos hfree
          rw [hstep]
          refine ⟨taken + 1, ?_, ?_, ?_, h.nonempty, ?_, (fun hzero => by cases hzero), ?_⟩
          · rw [h.tuples, htuples, drop_succ_cons]
          · rw [hcons, length_cons]
            exact Nat.succ_le_succ h.taken_le
          · rw [h.offsets, hoffs, hcons, take_succ_cons, append_assoc, singleton_append]
          · rw [h.first]
            simp
          · rw [hcons, length_cons, Nat.add_right_cancel_iff]
            exact h.stopped
      · have hused : (!(p.row a).rp.isUsed && !(p.row a).rp.hasStorage) = false :=
          Bool.eq_false_iff.mpr hfree
        obtain ⟨taken, h⟩ := ih (a + 1) { s with inRange := false } hne (fun h => by cases h)
        have hstep : locateUsableItemIds p save (a :: List.range' (a + 1) n) s =
            locateUsableItemIds p save (List.range' (a + 1) n) { s with inRange := false } := by
          rw [locateUsableItemIds, htuples]
          simp only [hused]
          simp
        have hcons : (a :: List.range' (a + 1) n).filter p.isFreeLine =
            (List.range' (a + 1) n).filter p.isFreeLine := filter_cons_of_neg hfree
        rw [hstep]
        refine ⟨taken, ?_, ?_, ?_, h.nonempty, h.first, h.space, ?_⟩
        · rw [h.tuples]
        · rw [hcons]
          exact h.taken_le
        · rw [hcons]
          exact h.offsets
        · rw [hcons]
          exact h.stopped

/-- The ranges begin where the page puts its next row, go through its free lines without leaving
one out, and then behind the array. -/
structure InAdvance (p : XPage) (ranges : List OffsetRange) : Prop where
  ne_nil : ranges ≠ []
  nonempty : ∀ r ∈ ranges, r.startOffset ≤ r.endOffset
  initial : ∃ m, rangesOffsets ranges <+: p.freeLines ++ List.range' (p.maxOffset + 1) m

/-- The state of `xheap_get_usable_offset_ranges` after the scan of the free lines. -/
def scanFreeLines (p : XPage) (save : Nat) (tuples : List XHeapDiskTuple) : RangeScan :=
  if p.pdFlags.has xheapHasFreeLines then
    locateUsableItemIds p save (List.range' 1 p.maxOffset) ⟨tuples, 0, false, true, []⟩
  else ⟨tuples, 0, false, true, []⟩

structure Scanned (p : XPage) (save : Nat) (tuples : List XHeapDiskTuple) (taken : Nat)
    (s : RangeScan) : Prop where
  tuples_eq : s.tuples = tuples.drop taken
  taken_le : taken ≤ p.freeLines.length
  offsets : rangesOffsets s.ranges = p.freeLines.take taken
  nonempty : ∀ r ∈ s.ranges, r.startOffset ≤ r.endOffset
  first : s.isFirstInsert = (taken == 0)
  space : taken = 0 → s.usedSpace = 0
  stopped : s.tuples = [] ∨ taken = p.freeLines.length ∨ ∃ t ts, s.tuples = t :: ts ∧
    p.exactFreeSpace < s.usedSpace + t.size + if s.isFirstInsert then 0 else save

theorem scanFreeLines_spec (p : XPage) (save : Nat) (tuples : List XHeapDiskTuple) :
    ∃ taken, Scanned p save tuples taken (scanFreeLines p save tuples) := by
  unfold scanFreeLines
  by_cases hhint : p.pdFlags.has xheapHasFreeLines = true
  · rw [if_pos hhint]
    obtain ⟨taken, h⟩ := @locateUsableItemIds_spec p save 1 p.maxOffset ⟨tuples, 0, false, true, []⟩
      (fun r hr => by cases hr) (fun h => by cases h)
    have hlines : p.freeLines = (List.range' 1 p.maxOffset).filter p.isFreeLine := by
      rw [XPage.freeLines, if_pos hhint]
    have hoffs := h.offsets
    have hstop := h.stopped
    have hle := h.taken_le
    rw [← hlines] at hoffs hstop hle
    exact ⟨taken, h.tuples, hle, by simpa [rangesOffsets] using hoffs, h.nonempty, h.first, h.space, hstop⟩
  · rw [if_neg hhint]
    have hlines : p.freeLines = [] := by rw [XPage.freeLines, if_neg hhint]
    refine ⟨0, by simp, Nat.zero_le _, by simp [rangesOffsets], ?_, rfl, fun _ => rfl, ?_⟩
    · intro r hr
      cases hr
    · exact .inr (.inl (by simp [hlines]))

/-- The scan opens a range with the first line it takes. -/
theorem Scanned.isEmpty {taken : Nat} {s : RangeScan}
    (h : Scanned p save tuples taken s) : s.ranges.isEmpty = s.isFirstInsert := by
  have hoffs := congrArg List.length h.offsets
  have hle := h.taken_le
  rw [length_take, Nat.min_eq_left hle] at hoffs
  rw [h.first]
  cases hranges : s.ranges with
  | nil =>
    rw [hranges] at hoffs
    simp [rangesOffsets] at hoffs
    simp [← hoffs]
  | cons r rs =>
    have hr := h.nonempty r (by rw [hranges]; exact mem_cons_self)
    rw [hranges] at hoffs
    simp only [rangesOffsets, flatMap_cons, length_append, OffsetRange.offsets,
      length_range'] at hoffs
    have htaken : taken ≠ 0 := by omega
    simp [htaken]

def rangeBehind (p : XPage) (save : Nat) (s : RangeScan) : List OffsetRange :=
  match s.tuples with
  | [] => []
  | t :: _ =>
    if p.maxOffset + 1 ≤ calculatedMaxXHeapTuplesPerPage ∧
        s.usedSpace + 4 + t.size + (if s.ranges.isEmpty then 0 else save) ≤ p.exactFreeSpace then
      [⟨p.maxOffset + 1, min maxOffsetNumber (p.maxOffset + 1 + s.tuples.length)⟩]
    else []

theorem getUsableOffsetRanges_eq (tuples : List XHeapDiskTuple) :
    getUsableOffsetRanges p save tuples =
      let ranges := (scanFreeLines p save tuples).ranges ++
        rangeBehind p save (scanFreeLines p save tuples)
      if ranges.isEmpty then .error .failedToAddTuple else .ok ranges := by
  have hranges : (match (scanFreeLines p save tuples).tuples with
      | [] => (scanFreeLines p save tuples).ranges
      | t :: _ =>
        if p.maxOffset + 1 ≤ calculatedMaxXHeapTuplesPerPage ∧
            (scanFreeLines p save tuples).usedSpace + 4 + t.size +
              (if (scanFreeLines p save tuples).ranges.isEmpty then 0 else save) ≤
                p.exactFreeSpace then
          (scanFreeLines p save tuples).ranges ++ [⟨p.maxOffset + 1, min maxOffsetNumber
            (p.maxOffset + 1 + (scanFreeLines p save tuples).tuples.length)⟩]
        else (scanFreeLines p save tuples).ranges) =
      (scanFreeLines p save tuples).ranges ++ rangeBehind p save (scanFreeLines p save tuples) := by
    unfold rangeBehind
    cases (scanFreeLines p save tuples).tuples with
    | nil => simp
    | cons t ts =>
      dsimp only
      split_ifs <;> simp
  dsimp only
  rw [← hranges]
  rfl

theorem rangeBehind_nonempty (s : RangeScan) :
    ∀ r ∈ rangeBehind p save s, r.startOffset ≤ r.endOffset := by
  have hmax : calculatedMaxXHeapTuplesPerPage ≤ maxOffsetNumber := by decide
  intro r hr
  unfold rangeBehind at hr
  split at hr
  · cases hr
  · rename_i t _ _
    by_cases hmore : p.maxOffset + 1 ≤ calculatedMaxXHeapTuplesPerPage ∧
        s.usedSpace + 4 + t.size + (if s.ranges.isEmpty then 0 else save) ≤ p.exactFreeSpace
    · rw [if_pos hmore] at hr
      rw [mem_singleton.mp hr]
      dsimp only
      omega
    · rw [if_neg hmore] at hr
      cases hr

theorem getUsableOffsetRanges_spec {ranges : List OffsetRange}
    (h : getUsableOffsetRanges p save tuples = .ok ranges) : InAdvance p ranges := by
  have hne := getUsableOffsetRanges_ne_nil h
  obtain ⟨taken, hs⟩ := scanFreeLines_spec p save tuples
  rw [getUsableOffsetRanges_eq] at h
  set s := scanFreeLines p save tuples
  dsimp only at h
  split at h
  · cases h
  cases h
  refine ⟨hne, ?_, ?_⟩
  · intro r hr
    rcases mem_append.mp hr with hmem | hmem
    · exact hs.nonempty r hmem
    · exact rangeBehind_nonempty s r hmem
  · rw [rangesOffsets, flatMap_append, ← rangesOffsets, ← rangesOffsets, hs.offsets]
    cases hst : s.tuples with
    | nil =>
      refine ⟨0, ?_⟩
      simp only [rangeBehind, hst, rangesOffsets, flatMap_nil, append_nil, List.range'_zero]
      exact take_prefix _ _
    | cons t ts =>
      simp only [rangeBehind, hst]
      by_cases hmore : p.maxOffset + 1 ≤ calculatedMaxXHeapTuplesPerPage ∧
          s.usedSpace + 4 + t.size + (if s.ranges.isEmpty then 0 else save) ≤ p.exactFreeSpace
      · rw [if_pos hmore]
        -- the range behind the array is opened only when every free line was taken
        have hall : taken = p.freeLines.length := by
          rcases hs.stopped with hnil | hall | ⟨t', ts', hcons, hfull⟩
          · rw [hst] at hnil
            cases hnil
          · exact hall
          · rw [hst] at hcons
            cases hcons
            have hneeded := hmore.2
            rw [hs.isEmpty] at hneeded
            omega
        rw [hall, take_length]
        simp only [rangesOffsets, flatMap_cons, flatMap_nil, append_nil,
          OffsetRange.offsets]
        exact ⟨_, prefix_rfl⟩
      · rw [if_neg hmore]
        refine ⟨0, ?_⟩
        simp only [rangesOffsets, flatMap_nil, append_nil, List.range'_zero]
        exact take_prefix _ _

/-- A page with space for the first tuple gives a range. -/
theorem getUsableOffsetRanges_isOk {t : XHeapDiskTuple} {ts : List XHeapDiskTuple}
    (hp : p.Insertable) (hfit : t.size ≤ p.freeSpace) :
    ∃ ranges, getUsableOffsetRanges p save (t :: ts) = .ok ranges := by
  have hsize : 0 < t.size := Nat.lt_of_lt_of_le (by decide) (Nat.le_add_right _ _)
  have hslot := (findNextFreeSlot_le hp (Nat.lt_of_lt_of_le hsize hfit)).1
  obtain ⟨taken, hs⟩ := scanFreeLines_spec p save (t :: ts)
  have hspace : t.size + 4 ≤ p.exactFreeSpace := by
    unfold XPage.freeSpace at hfit
    unfold XPage.exactFreeSpace
    dsimp only at hfit
    split_ifs at hfit <;> omega
  have hempty := hs.isEmpty
  rw [getUsableOffsetRanges_eq]
  set s := scanFreeLines p save (t :: ts)
  dsimp only
  rw [if_neg]
  · exact ⟨_, rfl⟩
  intro hnone
  obtain ⟨hranges, hbehind⟩ := append_eq_nil_iff.mp (List.isEmpty_iff.mp hnone)
  have hzero : taken = 0 := by
    rw [hranges, hs.first] at hempty
    simpa using hempty.symm
  subst hzero
  have htuples : s.tuples = t :: ts := hs.tuples_eq
  have hfree : p.freeLines = [] := by
    rcases hs.stopped with hnil | hall | ⟨t', ts', hcons, hfull⟩
    · rw [htuples] at hnil
      cases hnil
    · exact eq_nil_of_length_eq_zero hall.symm
    · rw [htuples] at hcons
      cases hcons
      have hzero := hs.space rfl
      rw [hs.first] at hfull
      simp only [beq_self_eq_true, if_true] at hfull
      omega
  rw [findNextFreeSlot_eq, hfree] at hslot
  have hzero := hs.space rfl
  have hmore : p.maxOffset + 1 ≤ calculatedMaxXHeapTuplesPerPage ∧
      s.usedSpace + 4 + t.size + (if s.ranges.isEmpty then 0 else save) ≤ p.exactFreeSpace := by
    refine ⟨hslot, ?_⟩
    rw [hempty, hs.first]
    simp only [beq_self_eq_true, if_true]
    omega
  simp only [rangeBehind, htuples] at hbehind
  rw [if_pos hmore] at hbehind
  cases hbehind

end Ranges

end XStore
