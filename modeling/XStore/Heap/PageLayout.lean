import Mathlib.Algebra.BigOperators.Ring.List
import XStore.Heap.HeaderBytes
import XStore.Heap.PageChange

/-!
# The layout of a page over its life

Every page starts with `xpage_init`.  Rows are added with `xpage_add_item`, taken out when an insert
is rolled back, grown in place, and freed, cut and moved by pruning.  Through all of it the rows
that are in use lie apart between `pd_upper` and the special space.
-/
namespace XStore

namespace PageImage

/-- `xpage_init` on a heap or toast page. -/
def init : PageImage where
  bytes := fun _ => 0
  rps := []
  pdFlags := 0#16
  pdUpper := blcksz
  pdSpecial := blcksz

/-- `check_offset_validity`: whether the lines from `off` on have to be moved, or `none` when the
line is taken. -/
def checkOffsetValidity (inRecovery : Bool) (p : PageImage) (off : Nat) (overwrite : Bool) :
    Option Bool :=
  let limit := p.rps.length + 1
  if overwrite then
    if off < limit ∧
        (if inRecovery then (p.rp off).hasStorage else (p.rp off).isUsed || (p.rp off).hasStorage) = true
    then none
    else some false
  else some (decide (off < limit))

/-- `find_next_free_slot`.  A hint that turns out wrong is reset. -/
def findNextFreeSlot (p : PageImage) : Nat × PageImage :=
  let limit := p.rps.length + 1
  if p.pdFlags.has xheapHasFreeLines then
    let off := p.rps.findIdx (fun r => !r.isUsed && !r.hasStorage) + firstOffsetNumber
    if limit ≤ off then (off, { p with pdFlags := p.pdFlags &&& ~~~xheapHasFreeLines })
    else (off, p)
  else (limit, p)

/-- The line of a new row, whether the lines from there on have to be moved, and the page with its
hint. -/
def chooseLine (inRecovery : Bool) (p : PageImage) (off : Nat) (overwrite : Bool) :
    Option (Nat × Bool × PageImage) :=
  if firstOffsetNumber ≤ off ∧ off ≤ maxOffsetNumber then
    (p.checkOffsetValidity inRecovery off overwrite).map fun needshuffle => (off, needshuffle, p)
  else some (p.findNextFreeSlot.1, false, p.findNextFreeSlot.2)

def calculateLowerUpperPointers (p : PageImage) (off : Nat) (item : List UInt8)
    (needshuffle : Bool) : Option PageImage :=
  let limit := p.rps.length + 1
  if limit < off then none
  else
    let lower := if off = limit ∨ needshuffle = true then p.pdLower + 4 else p.pdLower
    if p.pdUpper < lower + shortAlign item.length then none
    else if needshuffle then some (p.insertItem (off - 1) item)
    else some (p.addItem (off - 1) item)

/-- `xpage_add_item`, with the offset it returns. -/
def xpageAddItem (inRecovery : Bool) (p : PageImage) (item : List UInt8) (off : Nat)
    (overwrite : Bool) : Except Panic (Nat × PageImage) :=
  if p.pdUpper < p.pdLower then .error (.corruptedPagePointers p.pdLower p.pdUpper)
  else match p.chooseLine inRecovery off overwrite with
    | none => .ok (invalidOffsetNumber, p)
    | some (off, needshuffle, p) =>
      if inRecovery = false ∧ calculatedMaxXHeapTuplesPerPage < off then .ok (invalidOffsetNumber, p)
      else match p.calculateLowerUpperPointers off item needshuffle with
        | none => .ok (invalidOffsetNumber, p)
        | some q => .ok (off, q)

/-- `execute_undo_insert` on the page bytes. -/
def executeUndoInsert (p : PageImage) (off : Nat) (u : HeapRecord) : RollbackResult × PageImage :=
  let rp := p.rp off
  if !rp.hasStorage then (.rok, p)
  else match undoGate u (tupleAt p.bytes rp.offset rp.len) with
    | .apply =>
      (.rok, { p.setLine (off - 1) RowPtr.unused with
        pdFlags := p.pdFlags ||| xheapHasFreeLines
        bytes := ((p.bytes.store (rp.offset + offModifiedXid) (leBytes 8 invalidXid)).store
          (rp.offset + offLockerXid) (leBytes 8 invalidXid)).store
            (rp.offset + offUrec) (leBytes 8 invalidUndoRecPtr) })
    | g => (g.result, p)

/-- `put_inplace_update_xtuple` on the page bytes. -/
def putInplaceUpdateXtuple (p : PageImage) (off : Nat) (newtup : XHeapDiskTuple) :
    Except Panic PageImage :=
  let rp := p.rp off
  let old := tupleAt p.bytes rp.offset rp.len
  let flag := (old.flag &&& xheapVisStatusMask) ||| (newtup.flag &&& ~~~xheapVisStatusMask)
  let flag2 := (old.flag2 &&& ~~~xheapNattsMask) ||| (newtup.flag2 &&& xheapNattsMask)
  (if rp.len < newtup.size then rp.changeLen newtup.size else .ok rp).map fun rp' =>
    { p.setLine (off - 1) rp' with
      bytes := (((p.bytes.store (rp.offset + sizeOfXHeapDiskTupleData) newtup.body).store
        (rp.offset + offFlag) (leBytes 2 flag.toNat)).store
          (rp.offset + offFlag2) (leBytes 2 flag2.toNat)).store
            (rp.offset + offTHoff) (leBytes 1 newtup.tHoff) }

/-- The space of the row of line `i` holds a row of length `n`: it ends where the next row that is
in use begins, or at the special space. -/
def HasSpace (p : PageImage) (i n : Nat) : Prop :=
  (p.line i).offset + n ≤ p.pdSpecial ∧ ∀ j, j ≠ i → (p.line j).isUsed = true →
    (p.line i).offset + n ≤ (p.line j).offset ∨
      (p.line j).offset + (p.line j).len ≤ (p.line i).offset

end PageImage

inductive LayoutAct where
  | addItem (inRecovery : Bool) (item : List UInt8) (off : Nat) (overwrite : Bool)
  | undoInsert (off : Nat) (u : HeapRecord)
  | inplaceUpdate (off : Nat) (newtup : XHeapDiskTuple)
  | pruneExecute (prstate : XPruneState)
  | repaire (targetOffnum spaceRequired : Nat)

namespace LayoutAct

def apply (p : PageImage) : LayoutAct → Except Panic PageImage
  | addItem inRecovery item off overwrite => (p.xpageAddItem inRecovery item off overwrite).map Prod.snd
  | undoInsert off u => .ok (p.executeUndoInsert off u).2
  | inplaceUpdate off newtup => p.putInplaceUpdateXtuple off newtup
  | pruneExecute prstate => xheapPagePruneExecute p prstate
  | repaire t s => (xheapPageRepaireFregmentation p t s).map Prod.fst

/-- What the callers see to: an item is a disk tuple, a row is rolled back or updated in a line of
the page and grows inside its space, a scan of the page reports rows that are longer than their
tuple, and the target of the repair is no line at all or one of the page. -/
def Allowed (p : PageImage) : LayoutAct → Prop
  | addItem _ item _ _ => sizeOfXHeapDiskTupleData ≤ item.length
  | undoInsert off _ => 1 ≤ off ∧ off ≤ p.rps.length
  | inplaceUpdate off newtup =>
    1 ≤ off ∧ (p.rp off).isUsed = true ∧ p.HasSpace (off - 1) newtup.size
  | pruneExecute prstate => PageImage.FixedSound p prstate.nowfixed
  | repaire t _ => t ≤ p.rps.length

/-- The length of the target and the room asked for it stay below `2 ^ 16`. -/
def RoomFits (p : PageImage) : LayoutAct → Prop
  | repaire t s => p.RoomFits t s
  | _ => True

end LayoutAct

/-- The pages that come about from `xpage_init`. -/
inductive LaidOut : PageImage → Prop
  | init : LaidOut PageImage.init
  | step {p q : PageImage} {act : LayoutAct} :
      LaidOut p → act.Allowed p → act.RoomFits p → act.apply p = .ok q → LaidOut q

namespace PageImage

/-- Rows begin at even offsets, so that the padding of one never meets the next. -/
structure Layout (p : PageImage) : Prop extends p.Sound where
  upper_even : p.pdUpper % 2 = 0
  row_even : ∀ i, (p.line i).isUsed = true → (p.line i).offset % 2 = 0

section Steps

variable {p q : PageImage} {t s : Nat} {off off' : Nat}

theorem shortAlign_even (n : Nat) : shortAlign n % 2 = 0 := by
  unfold shortAlign
  omega

theorem shortAlign_le_of_even {n m : Nat} (h : n ≤ m) (hm : m % 2 = 0) : shortAlign n ≤ m := by
  unfold shortAlign
  omega

theorem init_layout : init.Layout where
  lower_le := by decide
  upper_le := by decide
  special_le := by decide
  special_aligned := by decide
  header := fun i hi => absurd (lt_of_isUsed hi) (Nat.not_lt_zero i)
  inside := fun i hi => absurd (lt_of_isUsed hi) (Nat.not_lt_zero i)
  apart := fun i _ _ hi => absurd (lt_of_isUsed hi) (Nat.not_lt_zero i)
  upper_even := by decide
  row_even := fun i hi => absurd (lt_of_isUsed hi) (Nat.not_lt_zero i)

theorem Layout.of_lines (h : p.Layout) (hlen : q.rps.length = p.rps.length)
    (hupper : q.pdUpper = p.pdUpper) (hspecial : q.pdSpecial = p.pdSpecial)
    (hline : ∀ i, q.line i = p.line i) : q.Layout where
  toSound := h.toSound.of_lines hlen hupper hspecial hline
  upper_even := hupper ▸ h.upper_even
  row_even := by
    intro i hi
    rw [hline] at hi ⊢
    exact h.row_even i hi

theorem Grown.layout {i n : Nat} {old : Nat → Nat} (hq : Grown p q i old n) (h : p.Layout)
    (hsize : sizeOfXHeapDiskTupleData ≤ n) : q.Layout := by
  have hsum := hq.upper_add
  have heven := h.upper_even
  have halign := shortAlign_even n
  refine ⟨hq.sound h.toSound hsize, by omega, fun j hj => ?_⟩
  by_cases hji : j = i
  · rw [hji, hq.here]
    dsimp only
    omega
  · rw [hq.elsewhere j hji] at hj ⊢
    exact h.row_even _ hj

theorem Cut.layout (hq : Cut p q) (h : p.Layout) : q.Layout := by
  refine ⟨hq.sound h.toSound, ?_, fun i hi => ?_⟩
  · rw [hq.frame]
    exact h.upper_even
  · rw [(hq.line i hi).2.1]
    exact h.row_even i (hq.line i hi).1

theorem findNextFreeSlot_lines : p.findNextFreeSlot.2.rps = p.rps ∧
    p.findNextFreeSlot.2.pdUpper = p.pdUpper ∧ p.findNextFreeSlot.2.pdSpecial = p.pdSpecial := by
  unfold findNextFreeSlot
  dsimp only
  split_ifs <;> exact ⟨rfl, rfl, rfl⟩

theorem findNextFreeSlot_pos : 1 ≤ p.findNextFreeSlot.1 := by
  unfold findNextFreeSlot firstOffsetNumber
  dsimp only
  split_ifs <;> dsimp only <;> omega

/-- The line that is chosen is a line of the page or the one behind them, and the page stays as it
is but for the hint. -/
theorem chooseLine_spec {inRecovery overwrite needshuffle : Bool}
    (h : p.Layout) (hc : p.chooseLine inRecovery off overwrite = some (off', needshuffle, q)) :
    1 ≤ off' ∧ q.Layout := by
  unfold chooseLine at hc
  split_ifs at hc with hvalid
  · obtain ⟨b, -, heq⟩ := Option.map_eq_some_iff.mp hc
    cases heq
    exact ⟨hvalid.1, h⟩
  · cases hc
    obtain ⟨hrps, hupper, hspecial⟩ := @findNextFreeSlot_lines p
    refine ⟨findNextFreeSlot_pos, h.of_lines (by rw [hrps]) hupper hspecial fun i => ?_⟩
    rw [line, hrps]
    rfl

theorem calculateLowerUpperPointers_layout {off : Nat} {item : List UInt8} {needshuffle : Bool}
    (h : p.Layout) (hoff : 1 ≤ off) (hsize : sizeOfXHeapDiskTupleData ≤ item.length)
    (hq : p.calculateLowerUpperPointers off item needshuffle = some q) : q.Layout := by
  simp only [calculateLowerUpperPointers] at hq
  split_ifs at hq with hfar hlower hroom hshuffle hroom hshuffle
  all_goals cases hq
  · exact (grown_insertItem (by omega) (by omega)).layout h hsize
  · refine (grown_addItem (by omega) ?_).layout h hsize
    split <;> omega
  · simp_all
  · have hne : off - 1 ≠ p.rps.length := by
      intro heq
      exact hlower (.inl (by omega))
    refine (grown_addItem (by omega) ?_).layout h hsize
    rw [if_neg hne]
    omega

theorem xpageAddItem_layout {inRecovery overwrite : Bool} {item : List UInt8}
    (h : p.Layout) (hsize : sizeOfXHeapDiskTupleData ≤ item.length)
    (hq : p.xpageAddItem inRecovery item off overwrite = .ok (off', q)) : q.Layout := by
  unfold xpageAddItem at hq
  split at hq
  · cases hq
  cases hc : p.chooseLine inRecovery off overwrite with
  | none =>
    simp only [hc] at hq
    cases hq
    exact h
  | some choice =>
    obtain ⟨off₁, needshuffle, p₁⟩ := choice
    obtain ⟨hpos, hp₁⟩ := chooseLine_spec h hc
    simp only [hc] at hq
    split at hq
    · cases hq
      exact hp₁
    · cases hcalc : p₁.calculateLowerUpperPointers off₁ item needshuffle with
      | none =>
        simp only [hcalc] at hq
        cases hq
        exact hp₁
      | some q₁ =>
        simp only [hcalc] at hq
        cases hq
        exact calculateLowerUpperPointers_layout hp₁ hpos hsize hcalc

theorem executeUndoInsert_layout (h : p.Layout) (off : Nat) (u : HeapRecord) :
    (p.executeUndoInsert off u).2.Layout := by
  have hcut : Cut p (p.setLine (off - 1) RowPtr.unused) :=
    Cut.setLine h.toSound fun hu => absurd hu (by decide)
  simp only [executeUndoInsert]
  split
  · exact h
  · split
    · exact (hcut.layout h).of_lines rfl rfl rfl fun _ => rfl
    · exact h

theorem putInplaceUpdateXtuple_layout {off : Nat} {newtup : XHeapDiskTuple} (h : p.Layout)
    (hused : (p.rp off).isUsed = true) (hspace : p.HasSpace (off - 1) newtup.size)
    (hq : p.putInplaceUpdateXtuple off newtup = .ok q) : q.Layout := by
  obtain ⟨hroom, hapart⟩ := hspace
  have hidx : off - 1 < p.rps.length := lt_of_isUsed hused
  have heven := h.row_even _ hused
  simp only [putInplaceUpdateXtuple] at hq
  obtain ⟨rp', hrp', rfl⟩ := map_ok hq
  split at hrp'
  · -- the row grows; its end is rounded up to an even offset, where the next row may begin
    obtain ⟨-, rfl⟩ := RowPtr.changeLen_ok hrp'
    have hspecial := h.special_aligned
    have hlift : ∀ m, m % 2 = 0 → (p.line (off - 1)).offset + newtup.size ≤ m →
        (p.line (off - 1)).offset + shortAlign newtup.size ≤ m := by
      intro m hm hle
      have := shortAlign_le_of_even (n := newtup.size) (m := m - (p.line (off - 1)).offset)
        (by omega) (by omega)
      have := le_shortAlign newtup.size
      omega
    have hsize : sizeOfXHeapDiskTupleData ≤ newtup.size := Nat.le_add_right _ _
    have hrow := sound_rewriteRow h.toSound [] hused hsize (hlift _ (by omega) hroom) fun j hj hju => by
      rcases hapart j hj hju with hlow | hhigh
      · exact .inl (hlift _ (h.row_even j hju) hlow)
      · refine .inr ?_
        have := shortAlign_le_of_even (n := (p.line j).len)
          (m := (p.line (off - 1)).offset - (p.line j).offset) (by omega)
          (by have := h.row_even j hju; omega)
        have := le_shortAlign (p.line j).len
        omega
    refine ⟨hrow.of_lines rfl rfl rfl fun _ => rfl, h.upper_even, fun j hj => ?_⟩
    by_cases hji : j = off - 1
    · subst hji
      exact (congrArg (fun r : RowPtr => r.offset % 2) (p.line_setLine_self _ hidx)).trans heven
    · have hline := p.line_setLine_of_ne { p.rp off with len := newtup.size } hji
      exact (congrArg (fun r : RowPtr => r.offset % 2) hline).trans
        (h.row_even j ((congrArg RowPtr.isUsed hline).symm.trans hj))
  · cases hrp'
    refine h.of_lines (by simp) rfl rfl fun j => ?_
    by_cases hji : j = off - 1
    · subst hji
      exact p.line_setLine_self _ hidx
    · exact p.line_setLine_of_ne _ hji

/-- Items have even lengths, so that the compaction puts rows at even offsets. -/
theorem items_even {x : ItemIdCompact} (hx : x ∈ p.items t s) : 2 ∣ x.alignedlen := by
  obtain ⟨-, hitem⟩ := mem_items.mp hx
  have heven := shortAlign_even
    (if x.offsetindex + 1 = t then (p.line x.offsetindex).len + s else (p.line x.offsetindex).len)
  rw [hitem]
  simp only [item]
  omega

theorem itemsLen_even (t s : Nat) : itemsLen (p.items t s) % 2 = 0 := by
  have hdvd : 2 ∣ itemsLen (p.items t s) := by
    apply List.dvd_sum
    intro n hn
    obtain ⟨x, hx, rfl⟩ := List.mem_map.mp hn
    exact items_even hx
  omega

theorem packedOffset_even (h : p.Sound) (t s i : Nat) : p.packedOffset t s i % 2 = 0 := by
  have hspecial := h.special_aligned
  have htotal := itemsLen_even (p := p) t s
  have habove : 2 ∣ itemsAbove (p.movedItems t s) (p.item t s i) := by
    apply List.dvd_sum
    intro n hn
    obtain ⟨x, hx, rfl⟩ := List.mem_map.mp hn
    split
    · exact items_even (mem_movedItems.mp hx).1
    · exact Nat.dvd_zero 2
  unfold packedOffset
  split <;> omega

theorem Repaired.layout (hq : Repaired p t s q) (h : p.Layout) : q.Layout := by
  refine ⟨hq.sound, ?_, fun i hi => ?_⟩
  · have heven := h.upper_even
    have hspecial := h.special_aligned
    have htotal := itemsLen_even (p := p) t s
    rcases hq.upper with hsame | hsum
    · omega
    · omega
  · have hused : (p.line i).isUsed = true := by
      by_contra hn
      rw [hq.unused i (by simpa using hn)] at hi
      cases hi
    rw [hq.line i hused]
    simp only [repairedOffset]
    split
    · exact packedOffset_even h.toSound t s i
    · exact h.row_even i hused

/-- On a page with a sound layout the repair never finds a corrupted pointer. -/
theorem repaire_isOk (h : p.Sound) (t s : Nat) :
    ∃ q pruned, xheapPageRepaireFregmentation p t s = .ok (q, pruned) := by
  have hfind : (p.items t s).find?
      (fun it => decide (it.itemoff < p.pdUpper ∨ p.pdSpecial ≤ it.itemoff)) = none := by
    rw [List.find?_eq_none]
    intro x hx
    obtain ⟨hused, hitem⟩ := mem_items.mp hx
    have hin := h.inside _ hused
    have hlen := h.header _ hused
    have hle := le_shortAlign (p.line x.offsetindex).len
    have hoff : x.itemoff = (p.line x.offsetindex).offset := congrArg ItemIdCompact.itemoff hitem
    simp only [sizeOfXHeapDiskTupleData] at hlen
    rw [decide_eq_true_iff, hoff]
    omega
  have hlower := h.lower_le
  have hupper := h.upper_le
  have hspecial := h.special_le
  have haligned := h.special_aligned
  unfold xheapPageRepaireFregmentation
  rw [if_neg (by omega)]
  simp only [hfind]
  split_ifs
  · exact ⟨_, _, rfl⟩
  · exact ⟨_, _, rfl⟩
  · exact ⟨_, _, rfl⟩

/-- When the repair reports success, the target has the room that was asked for. -/
theorem hasSpace_of_repaired (h : p.Sound) (hroom : p.RoomFits t s) (hpos : 1 ≤ t)
    (hused : (p.rp t).isUsed = true) (hq : Repaired p t s q)
    (hfit : itemsLen (p.items t s) ≤ p.pdSpecial - p.pdLower) :
    q.HasSpace (t - 1) ((p.rp t).len + s) := by
  have hfit' : itemsLen (p.items t s) ≤ p.pdSpecial := hfit.trans (Nat.sub_le _ _)
  have hit : t - 1 + 1 = t := by omega
  have hline : ∀ i, (p.line i).isUsed = true → (q.line i).offset = p.packedOffset t s i := by
    intro i hi
    rw [hq.line i hi]
    exact if_pos hfit
  have htarget := hline (t - 1) hused
  refine ⟨?_, fun j hj hju => .inl ?_⟩
  · have htotal := totalLen_movedItems_add (s := s) hpos hused
    have hal := alignedlen_item h hroom hused
    have hle := le_shortAlign ((p.line (t - 1)).len + s)
    rw [if_pos hit] at hal
    rw [htarget, hq.special_eq, packedOffset, if_pos hit, rp]
    omega
  · have hju' : (p.line j).isUsed = true := by
      by_contra hn
      rw [hq.unused j (by simpa using hn)] at hju
      cases hju
    have hbelow := (packedOffset_target_below h hroom hfit' hused hit (by omega : j + 1 ≠ t)).1
    rw [htarget, hline j hju', rp]
    omega

end Steps

/-- The rows that are in use lie apart between `pd_upper` and the special space. -/
structure RowsApart (p : PageImage) : Prop where
  lower_le : p.pdLower ≤ p.pdUpper
  inside : ∀ i, (p.line i).isUsed = true →
    p.pdUpper ≤ (p.line i).offset ∧ (p.line i).offset + (p.line i).len ≤ p.pdSpecial
  apart : ∀ i j, i ≠ j → (p.line i).isUsed = true → (p.line j).isUsed = true →
    (p.line i).offset + (p.line i).len ≤ (p.line j).offset ∨
      (p.line j).offset + (p.line j).len ≤ (p.line i).offset

/-- Every row in use is a row of `q` with the same bytes. -/
def KeepsRows (p q : PageImage) : Prop :=
  ∀ i, (p.line i).isUsed = true → (q.line i).isUsed = true ∧
    q.bytes.load (q.line i).offset (q.line i).len = p.bytes.load (p.line i).offset (p.line i).len

theorem Sound.rowsApart {p : PageImage} (h : p.Sound) : RowsApart p where
  lower_le := h.lower_le
  inside := by
    intro i hi
    have := h.inside i hi
    have := le_shortAlign (p.line i).len
    omega
  apart := by
    intro i j hij hi hj
    have := h.apart i j hij hi hj
    have := le_shortAlign (p.line i).len
    have := le_shortAlign (p.line j).len
    omega

theorem Repaired.keepsRows {p q : PageImage} {t s : Nat} (hq : Repaired p t s q) : KeepsRows p q := by
  intro i hi
  rw [hq.line i hi]
  refine ⟨hi, ?_⟩
  rw [Memory.load_eq_iff]
  exact hq.content i hi

end PageImage

open PageImage

theorem LayoutAct.layout {p q : PageImage} {act : LayoutAct} (h : p.Layout) (ha : act.Allowed p)
    (hroom : act.RoomFits p) (hq : act.apply p = .ok q) : q.Layout := by
  cases act with
  | addItem inRecovery item off overwrite =>
    obtain ⟨⟨off', q'⟩, hadd, rfl⟩ := map_ok hq
    exact xpageAddItem_layout h ha hadd
  | undoInsert off u =>
    cases hq
    exact executeUndoInsert_layout h off u
  | inplaceUpdate off newtup => exact putInplaceUpdateXtuple_layout h ha.2.1 ha.2.2 hq
  | pruneExecute prstate => exact (pruneExecute_cut h.toSound ha hq).layout h
  | repaire t s =>
    obtain ⟨⟨q', pruned⟩, hrep, rfl⟩ := map_ok hq
    exact (repaire_spec h.toSound hroom hrep).layout h

theorem LaidOut.layout {p : PageImage} (h : LaidOut p) : p.Layout := by
  induction h with
  | init => exact init_layout
  | step _ ha hroom hq ih => exact LayoutAct.layout ih ha hroom hq

/-- On every page that comes about from `xpage_init` the rows lie apart, and a repair of it keeps
the bytes of every row and leaves a target the room it reports. -/
theorem page_layout_holds {p : PageImage} (h : LaidOut p) :
    RowsApart p ∧ ∀ t s, (LayoutAct.repaire t s).Allowed p → (LayoutAct.repaire t s).RoomFits p →
      ∃ q pruned, xheapPageRepaireFregmentation p t s = .ok (q, pruned) ∧ RowsApart q ∧
        KeepsRows p q ∧
        (pruned = true → 1 ≤ t → (p.rp t).isUsed = true →
          q.HasSpace (t - 1) ((p.rp t).len + s)) := by
  have hp := h.layout.toSound
  refine ⟨hp.rowsApart, fun t s _ hroom => ?_⟩
  obtain ⟨q, pruned, hrep⟩ := repaire_isOk hp t s
  have hspec := repaire_spec hp hroom hrep
  refine ⟨q, pruned, hrep, hspec.sound.rowsApart, hspec.keepsRows, ?_⟩
  rintro rfl hpos hused
  exact hasSpace_of_repaired hp hroom hpos hused hspec (repaire_fits hrep)

def twoRowImage : PageImage := (init.addItem 0 (List.replicate 30 0)).addItem 1 (List.replicate 30 1)

theorem twoRowImage_laidOut : LaidOut twoRowImage := by
  have hsize : ∀ b : UInt8, sizeOfXHeapDiskTupleData ≤ (List.replicate 30 b).length := by
    simp [sizeOfXHeapDiskTupleData]
  have hfirst : LaidOut (init.addItem 0 (List.replicate 30 0)) :=
    @LaidOut.step _ _ (.addItem false (List.replicate 30 0) 0 false) .init (hsize 0) trivial rfl
  exact @LaidOut.step _ _ (.addItem false (List.replicate 30 1) 0 false) hfirst (hsize 1) trivial rfl

theorem twoRowImage_repaired : ∃ q pruned,
    xheapPageRepaireFregmentation twoRowImage 2 10 = .ok (q, pruned) ∧ RowsApart q ∧
      KeepsRows twoRowImage q ∧
      (pruned = true → 1 ≤ 2 → (twoRowImage.rp 2).isUsed = true →
        q.HasSpace (2 - 1) ((twoRowImage.rp 2).len + 10)) := by
  refine (page_layout_holds twoRowImage_laidOut).2 2 10 (Nat.le_refl 2) ?_
  rintro i hi -
  obtain rfl : i = 1 := by omega
  decide

/-- The length of the target with the room asked for wraps around to nothing, and the target is
written over the other row. -/
theorem huge_room_overlaps_rows : LaidOut twoRowImage ∧
    (LayoutAct.repaire 2 65506).Allowed twoRowImage ∧
    ∃ q, xheapPageRepaireFregmentation twoRowImage 2 65506 = .ok (q, true) ∧ ¬ RowsApart q := by
  refine ⟨twoRowImage_laidOut, Nat.le_refl 2, _, rfl, fun h => ?_⟩
  have hapart := h.apart 0 1 (by decide) (by decide) (by decide)
  exact absurd hapart (by decide)

end XStore
