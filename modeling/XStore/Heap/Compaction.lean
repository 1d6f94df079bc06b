import Mathlib.Data.List.Sigma
import Mathlib.Data.List.Sort
import XStore.Bytes.Memory
import XStore.Heap.Operations
import XStore.Layout.Stack

/-!
# Pruning and compaction of the page bytes

The page as it lies in the buffer: its bytes, its row pointers and the fields of its header that
the repair of fragmentation uses.  Row pointers are kept apart from the bytes, and a line is
addressed here by its index in the array, one less than its offset number.
-/
namespace XStore

open List

structure PageImage where
  bytes : Memory
  rps : List RowPtr
  pdFlags : Flag
  pdUpper : Nat
  pdSpecial : Nat

namespace PageImage

def pdLower (p : PageImage) : Nat := sizeOfXHeapPageHeaderData + 4 * p.rps.length

def line (p : PageImage) (i : Nat) : RowPtr := p.rps.getD i RowPtr.unused

/-- `XPageGetRowPtr` -/
def rp (p : PageImage) (off : Nat) : RowPtr := p.line (off - 1)

def setLine (p : PageImage) (i : Nat) (r : RowPtr) : PageImage := { p with rps := p.rps.set i r }

/-- `lp->offset = curr` after the row was moved there. -/
def moveRow (p : PageImage) (i curr src n : Nat) : PageImage :=
  { p.setLine i { p.line i with offset := curr } with bytes := p.bytes.move curr src n }

end PageImage

/-- `itemIdCompactData` -/
structure ItemIdCompact where
  offsetindex : Nat
  itemoff : Nat
  alignedlen : Nat
  deriving DecidableEq

/-- The space that the items at or above `x` take. -/
abbrev itemsAbove (its : List ItemIdCompact) (x : ItemIdCompact) : Nat :=
  aboveLen ItemIdCompact.itemoff ItemIdCompact.alignedlen its x

abbrev itemsLen (its : List ItemIdCompact) : Nat := totalLen ItemIdCompact.alignedlen its

/-- The entry that the repair keeps for a used line; the target row gets room to grow, and the
length goes into a field of sixteen bits. -/
def compactItem (targetOffnum spaceRequired : Nat) (l : RowPtr × Nat) : Option ItemIdCompact :=
  if l.1.isUsed then
    some ⟨l.2, l.1.offset,
      shortAlign (if l.2 + 1 = targetOffnum then l.1.len + spaceRequired else l.1.len) % 2 ^ 16⟩
  else none

/-- `itemidbase` -/
def PageImage.items (p : PageImage) (targetOffnum spaceRequired : Nat) : List ItemIdCompact :=
  p.rps.zipIdx.filterMap (compactItem targetOffnum spaceRequired)

/-- The loop of `compactify_xtuples` over the sorted items: the page, `curr` and `new_tuple_len`. -/
def moveRows (targetOffnum : Nat) :
    PageImage → Nat → Nat → List ItemIdCompact → PageImage × Nat × Nat
  | p, curr, newTupleLen, [] => (p, curr, newTupleLen)
  | p, curr, newTupleLen, it :: its =>
    if targetOffnum = it.offsetindex + 1 then moveRows targetOffnum p curr it.alignedlen its
    else
      moveRows targetOffnum
        (p.moveRow it.offsetindex (curr - it.alignedlen) it.itemoff it.alignedlen)
        (curr - it.alignedlen) newTupleLen its

/-- `compactify_xtuples`.  The items have different offsets, so that any sort gives the order of
`qsort`. -/
def compactifyXtuples (p : PageImage) (items : List ItemIdCompact) (targetOffnum : Nat) :
    PageImage :=
  let target := p.rp targetOffnum
  let saved := p.bytes.load target.offset target.len
  let moved := moveRows targetOffnum p p.pdSpecial 0
    (items.insertionSort fun a b => b.itemoff ≤ a.itemoff)
  let q := moved.1
  let curr := moved.2.1
  if targetOffnum = invalidOffsetNumber then { q with pdUpper := curr }
  else
    let curr := curr - moved.2.2
    { q.setLine (targetOffnum - 1) { q.rp targetOffnum with offset := curr } with
      bytes := q.bytes.store curr saved
      pdUpper := curr }

/-- `RowPtrSetUnused` on every line that is not used. -/
def PageImage.clearUnused (p : PageImage) : PageImage :=
  { p with rps := p.rps.map fun r => if r.isUsed then r else RowPtr.unused }

def PageImage.noteFreeLines (p : PageImage) : PageImage :=
  { p with
    pdFlags :=
      if p.rps.any (fun r => !r.isUsed) then p.pdFlags ||| xheapHasFreeLines
      else p.pdFlags &&& ~~~xheapHasFreeLines }

/-- `xheap_page_repaire_fregmentation`, with whether the page was compacted. -/
def xheapPageRepaireFregmentation (p : PageImage) (targetOffnum spaceRequired : Nat) :
    Except Panic (PageImage × Bool) :=
  if p.pdUpper < p.pdLower ∨ p.pdSpecial < p.pdUpper ∨ blcksz < p.pdSpecial ∨
      p.pdSpecial % 8 ≠ 0 then
    .error (.corruptedPage p.pdLower p.pdUpper p.pdSpecial)
  else
    let items := p.items targetOffnum spaceRequired
    match items.find? (fun it => decide (it.itemoff < p.pdUpper ∨ p.pdSpecial ≤ it.itemoff)) with
    | some it => .error (.corruptedItemPointer it.itemoff)
    | none =>
      let p := p.clearUnused
      if items = [] then .ok (({ p with pdUpper := p.pdSpecial } : PageImage).noteFreeLines, true)
      else if p.pdSpecial - p.pdLower < itemsLen items then .ok (p, false)
      else .ok ((compactifyXtuples p items targetOffnum).noteFreeLines, true)

/-- What a scan of the page found to do: `nowunused`, and `nowfixed` with `fixedlen`. -/
structure XPruneState where
  nowunused : List Nat
  nowfixed : List (Nat × Nat)
  deriving DecidableEq

def xheapPagePruneExecute (p : PageImage) (prstate : XPruneState) : Except Panic PageImage :=
  prstate.nowfixed.foldlM
    (fun p f => ((p.rp f.1).changeLen f.2).map fun r => p.setLine (f.1 - 1) r)
    (prstate.nowunused.foldl (fun p off => p.setLine (off - 1) RowPtr.unused) p)

/-- The changes of `xheap_page_prune_guts` to the page once it has decided to prune. -/
def xheapPagePrune (p : PageImage) (prstate : XPruneState) (targetOffnum spaceRequired : Nat) :
    Except Panic PageImage :=
  (xheapPagePruneExecute p prstate).bind fun p =>
    (xheapPageRepaireFregmentation p targetOffnum spaceRequired).map Prod.fst

namespace PageImage

section Lines

variable (p : PageImage) {i j : Nat} (r : RowPtr)

@[simp] theorem setLine_length : (p.setLine i r).rps.length = p.rps.length := by
  simp [setLine]

theorem line_setLine_self (h : i < p.rps.length) : (p.setLine i r).line i = r := by
  simp [line, setLine, getD_eq_getElem?_getD, h]

theorem line_setLine_of_ne (h : j ≠ i) : (p.setLine i r).line j = p.line j := by
  simp [line, setLine, getD_eq_getElem?_getD, getElem?_set_ne h.symm]

variable {p}

theorem lt_of_isUsed (h : (p.line i).isUsed = true) : i < p.rps.length := by
  by_contra hge
  have hnone : p.line i = RowPtr.unused := by
    simp [line, getD_eq_getElem?_getD, getElem?_eq_none (by omega : p.rps.length ≤ i)]
  rw [hnone] at h
  cases h

theorem line_eq_of_getElem? {r : RowPtr} (h : p.rps[i]? = some r) : p.line i = r := by
  simp [line, getD_eq_getElem?_getD, h]

end Lines

/-- The entry of line `i` in `itemidbase`. -/
def item (p : PageImage) (targetOffnum spaceRequired i : Nat) : ItemIdCompact where
  offsetindex := i
  itemoff := (p.line i).offset
  alignedlen :=
    shortAlign (if i + 1 = targetOffnum then (p.line i).len + spaceRequired else (p.line i).len) %
      2 ^ 16

section Items

variable {p : PageImage} {t s : Nat} {it : ItemIdCompact}

theorem mem_items :
    it ∈ p.items t s ↔ (p.line it.offsetindex).isUsed = true ∧ it = p.item t s it.offsetindex := by
  simp only [items, mem_filterMap, mem_zipIdx_iff_getElem?, Prod.exists]
  constructor
  · rintro ⟨r, i, hget, hit⟩
    have hline := line_eq_of_getElem? hget
    unfold compactItem at hit
    split at hit
    · cases hit
      refine ⟨by simpa [hline] using ‹r.isUsed = true›, ?_⟩
      simp [item, hline]
    · cases hit
  · rintro ⟨hused, hit⟩
    have hlt := lt_of_isUsed hused
    refine ⟨p.line it.offsetindex, it.offsetindex, ?_, ?_⟩
    · simp [line, getD_eq_getElem?_getD, hlt]
    · simp only [compactItem, hused, if_true]
      exact congrArg some hit.symm

theorem item_mem_items {i : Nat} (h : (p.line i).isUsed = true) : p.item t s i ∈ p.items t s :=
  mem_items.mpr ⟨h, rfl⟩

theorem items_distinct : (p.items t s).Pairwise fun a b => a.offsetindex ≠ b.offsetindex := by
  have hnodup : p.rps.zipIdx.Pairwise fun a b => a.2 ≠ b.2 :=
    pairwise_map.mp (nodup_zipIdx_map_snd p.rps)
  apply hnodup.filterMap
  intro a b hab x hx y hy
  unfold compactItem at hx hy
  split at hx <;> split at hy <;> cases hx <;> cases hy
  exact hab

end Items

end PageImage

/-- The moves of `moveRows` on the rows other than the target. -/
def slideRows : PageImage → Nat → List ItemIdCompact → PageImage × Nat
  | p, curr, [] => (p, curr)
  | p, curr, it :: its =>
    slideRows (p.moveRow it.offsetindex (curr - it.alignedlen) it.itemoff it.alignedlen)
      (curr - it.alignedlen) its

theorem moveRows_eq (t : Nat) (p : PageImage) (curr n : Nat) (its : List ItemIdCompact) :
    moveRows t p curr n its =
      ((slideRows p curr (its.filter fun it => t ≠ it.offsetindex + 1)).1,
        (slideRows p curr (its.filter fun it => t ≠ it.offsetindex + 1)).2,
        (its.filter fun it => t = it.offsetindex + 1).foldl (fun _ it => it.alignedlen) n) := by
  induction its generalizing p curr n with
  | nil => rfl
  | cons it its ih =>
    by_cases h : t = it.offsetindex + 1
    · rw [moveRows, if_pos h, ih]
      simp [h]
    · rw [moveRows, if_neg h, ih]
      simp [slideRows, h]

/-- What sliding the rows of `its` up below `top` does to a page; `low` is where the last one is. -/
structure Slid (p : PageImage) (top : Nat) (its : List ItemIdCompact) (q : PageImage) (low : Nat) :
    Prop where
  header : q = { p with bytes := q.bytes, rps := q.rps }
  length_eq : q.rps.length = p.rps.length
  low_add : low + itemsLen its = top
  line : ∀ x ∈ its, q.line x.offsetindex = { p.line x.offsetindex with
    offset := top - itemsAbove its x }
  others : ∀ i, (∀ x ∈ its, x.offsetindex ≠ i) → q.line i = p.line i
  outside : ∀ i, i < low ∨ top ≤ i → q.bytes i = p.bytes i
  moved : ∀ x ∈ its, ∀ i < x.alignedlen,
    q.bytes (top - itemsAbove its x + i) =
      p.bytes (x.itemoff + i)

theorem Slid.special_eq {p q : PageImage} {top low : Nat} {its : List ItemIdCompact}
    (h : Slid p top its q low) : q.pdSpecial = p.pdSpecial := by
  rw [h.header]

/-- Rows that are apart and taken from the highest down are moved without damage: a row goes up, so
that it never reaches one that is still to be moved. -/
theorem slideRows_spec (p : PageImage) (top : Nat) (its : List ItemIdCompact)
    (hdesc : Descending ItemIdCompact.itemoff ItemIdCompact.alignedlen its)
    (hpos : ∀ x ∈ its, 0 < x.alignedlen) (htop : ∀ x ∈ its, x.itemoff + x.alignedlen ≤ top)
    (hdist : its.Pairwise fun a b => a.offsetindex ≠ b.offsetindex)
    (hidx : ∀ x ∈ its, x.offsetindex < p.rps.length) :
    Slid p top its (slideRows p top its).1 (slideRows p top its).2 := by
  induction its generalizing p top with
  | nil =>
    exact ⟨rfl, rfl, rfl, fun x hx => absurd hx (by simp), fun _ _ => rfl, fun _ _ => rfl,
      fun x hx => absurd hx (by simp)⟩
  | cons a its ih =>
    have hposT : ∀ x ∈ its, 0 < x.alignedlen := fun x hx => hpos x (by simp [hx])
    have ha := htop a (by simp)
    have hbelow : ∀ x ∈ its, x.itemoff + x.alignedlen ≤ a.itemoff := fun x hx =>
      rel_of_pairwise_cons hdesc hx
    have hne : ∀ x ∈ its, a.offsetindex ≠ x.offsetindex := fun x hx =>
      rel_of_pairwise_cons hdist hx
    have haidx := hidx a (by simp)
    set curr := top - a.alignedlen with hcurr
    set p₁ := p.moveRow a.offsetindex curr a.itemoff a.alignedlen with hp₁
    have hlen₁ : p₁.rps.length = p.rps.length := by simp [hp₁, PageImage.moveRow]
    have hline_of_ne : ∀ i, i ≠ a.offsetindex → p₁.line i = p.line i := fun i hi =>
      p.line_setLine_of_ne _ hi
    have hline_self : p₁.line a.offsetindex = { p.line a.offsetindex with offset := curr } :=
      p.line_setLine_self _ haidx
    have h := ih p₁ curr (List.Pairwise.of_cons hdesc) hposT
      (fun x hx => (hbelow x hx).trans (by omega)) (List.Pairwise.of_cons hdist)
      (fun x hx => hlen₁ ▸ hidx x (by simp [hx]))
    have hhead : itemsAbove (a :: its) a = a.alignedlen := aboveLen_head hdesc hposT
    have htail : ∀ x ∈ its, top - itemsAbove (a :: its) x =
        curr - itemsAbove its x := by
      intro x hx
      have habove : itemsAbove (a :: its) x = a.alignedlen + itemsAbove its x :=
        aboveLen_tail hdesc hx
      omega
    have hrun : slideRows p top (a :: its) = slideRows p₁ curr its := rfl
    have hlow := h.low_add
    rw [hrun]
    refine ⟨h.header, h.length_eq.trans hlen₁, ?_, ?_, ?_, ?_, ?_⟩
    · simp only [totalLen, map_cons, sum_cons] at hlow ⊢
      omega
    · intro x hx
      rcases mem_cons.mp hx with rfl | hmem
      · rw [hhead]
        exact (h.others _ fun y hy => (hne y hy).symm).trans hline_self
      · rw [htail x hmem, ← hline_of_ne _ (hne x hmem).symm]
        exact h.line x hmem
    · intro i hi
      rw [← hline_of_ne i (hi a (by simp)).symm]
      exact h.others i fun x hx => hi x (by simp [hx])
    · intro i hi
      rw [← p.bytes.move_outside a.alignedlen (by omega : i < curr ∨ curr + a.alignedlen ≤ i)]
      exact h.outside i (by omega)
    · intro x hx i hi
      rcases mem_cons.mp hx with rfl | hmem
      · rw [hhead, ← p.bytes.move_inside x.alignedlen hi]
        exact h.outside _ (by omega)
      · have hx' := hbelow x hmem
        rw [htail x hmem, ← p.bytes.move_outside a.alignedlen
          (by omega : x.itemoff + i < curr ∨ curr + a.alignedlen ≤ x.itemoff + i)]
        exact h.moved x hmem i hi

namespace PageImage

/-- Used rows hold a header, lie between `pd_upper` and the special space, and do not meet, with
the padding to their alignment counted in. -/
structure Sound (p : PageImage) : Prop where
  lower_le : p.pdLower ≤ p.pdUpper
  upper_le : p.pdUpper ≤ p.pdSpecial
  special_le : p.pdSpecial ≤ blcksz
  special_aligned : p.pdSpecial % 8 = 0
  header : ∀ i, (p.line i).isUsed = true → sizeOfXHeapDiskTupleData ≤ (p.line i).len
  inside : ∀ i, (p.line i).isUsed = true → p.pdUpper ≤ (p.line i).offset ∧
    (p.line i).offset + shortAlign (p.line i).len ≤ p.pdSpecial
  apart : ∀ i j, i ≠ j → (p.line i).isUsed = true → (p.line j).isUsed = true →
    (p.line i).offset + shortAlign (p.line i).len ≤ (p.line j).offset ∨
      (p.line j).offset + shortAlign (p.line j).len ≤ (p.line i).offset

/-- With the room that is asked for, the length of the target still fits its field. -/
def RoomFits (p : PageImage) (t s : Nat) : Prop :=
  ∀ i, i + 1 = t → (p.line i).isUsed = true → shortAlign ((p.line i).len + s) < 2 ^ 16

/-- The items that the compaction moves up; the target comes below all of them. -/
def movedItems (p : PageImage) (t s : Nat) : List ItemIdCompact :=
  (p.items t s).filter fun it => t ≠ it.offsetindex + 1

/-- Where the compaction puts the row of line `i`. -/
def packedOffset (p : PageImage) (t s i : Nat) : Nat :=
  if i + 1 = t then p.pdSpecial - itemsLen (p.items t s)
  else p.pdSpecial -
    itemsAbove (p.movedItems t s) (p.item t s i)

section Sorted

variable {p : PageImage} {t s : Nat} {x : ItemIdCompact}

theorem shortAlign_mono {m n : Nat} (h : m ≤ n) : shortAlign m ≤ shortAlign n := by
  unfold shortAlign
  omega

theorem len_lt (h : p.Sound) {i : Nat} (hused : (p.line i).isUsed = true) :
    shortAlign (p.line i).len < 2 ^ 16 := by
  have hin := h.inside i hused
  have hspecial := h.special_le
  simp only [blcksz] at hspecial
  omega

theorem Sound.roomFits (h : p.Sound) (hs : s ≤ blcksz) : p.RoomFits t s := by
  intro i _ hused
  have hin := h.inside i hused
  have hle := le_shortAlign (p.line i).len
  have hspecial := h.special_le
  simp only [shortAlign, blcksz] at *
  omega

theorem mem_movedItems :
    x ∈ p.movedItems t s ↔ x ∈ p.items t s ∧ t ≠ x.offsetindex + 1 := by
  simp [movedItems]

theorem alignedlen_of_mem_movedItems (h : p.Sound)
    (hx : x ∈ p.movedItems t s) :
    x.itemoff = (p.line x.offsetindex).offset ∧
      x.alignedlen = shortAlign (p.line x.offsetindex).len := by
  obtain ⟨hmem, hne⟩ := mem_movedItems.mp hx
  obtain ⟨hused, hitem⟩ := mem_items.mp hmem
  constructor
  · exact congrArg ItemIdCompact.itemoff hitem
  · rw [congrArg ItemIdCompact.alignedlen hitem]
    simpa [item, hne.symm] using Nat.mod_eq_of_lt (len_lt h hused)

theorem movedItem_pos (h : p.Sound) (hx : x ∈ p.movedItems t s) :
    0 < x.alignedlen := by
  have hlen := h.header _ (mem_items.mp (mem_movedItems.mp hx).1).1
  rw [(alignedlen_of_mem_movedItems h hx).2]
  simp only [shortAlign, sizeOfXHeapDiskTupleData] at hlen ⊢
  omega

def sortedItems (p : PageImage) (t s : Nat) : List ItemIdCompact :=
  ((p.items t s).insertionSort fun a b => b.itemoff ≤ a.itemoff).filter
    fun it => t ≠ it.offsetindex + 1

theorem sortedItems_perm : (p.sortedItems t s).Perm (p.movedItems t s) :=
  (perm_insertionSort _ _).filter _

theorem itemsLen_sortedItems : itemsLen (p.sortedItems t s) = itemsLen (p.movedItems t s) :=
  totalLen_perm sortedItems_perm

theorem sortedItems_distinct :
    (p.sortedItems t s).Pairwise fun a b => a.offsetindex ≠ b.offsetindex := by
  have hperm : (p.sortedItems t s).Perm (p.movedItems t s) := sortedItems_perm
  exact hperm.symm.pairwise (items_distinct.filter _) fun h => h.symm

theorem sortedItems_descending (h : p.Sound) :
    Descending ItemIdCompact.itemoff ItemIdCompact.alignedlen (p.sortedItems t s) := by
  have hsort : (p.sortedItems t s).Pairwise fun a b => b.itemoff ≤ a.itemoff := by
    apply List.Pairwise.filter
    have : Std.Total fun a b : ItemIdCompact => b.itemoff ≤ a.itemoff :=
      ⟨fun a b => Nat.le_total b.itemoff a.itemoff⟩
    have : IsTrans ItemIdCompact fun a b => b.itemoff ≤ a.itemoff :=
      ⟨fun a b c hab hbc => Nat.le_trans hbc hab⟩
    exact pairwise_insertionSort _ _
  refine (hsort.and sortedItems_distinct).imp_of_mem ?_
  intro x y hx hy hxy
  have hx' := sortedItems_perm.mem_iff.mp hx
  have hy' := sortedItems_perm.mem_iff.mp hy
  obtain ⟨hxm, -⟩ := mem_movedItems.mp hx'
  obtain ⟨hym, -⟩ := mem_movedItems.mp hy'
  obtain ⟨hxo, hxl⟩ := alignedlen_of_mem_movedItems h hx'
  obtain ⟨hyo, hyl⟩ := alignedlen_of_mem_movedItems h hy'
  have hpos := movedItem_pos h hx'
  rcases h.apart _ _ hxy.2 (mem_items.mp hxm).1 (mem_items.mp hym).1 with hap | hap
  · have := hxy.1
    omega
  · omega

theorem slid_sortedItems (h : p.Sound) :
    Slid p p.pdSpecial (p.sortedItems t s) (slideRows p p.pdSpecial (p.sortedItems t s)).1
      (slideRows p p.pdSpecial (p.sortedItems t s)).2 := by
  have hmem : ∀ x ∈ p.sortedItems t s, x ∈ p.movedItems t s := fun x hx =>
    sortedItems_perm.mem_iff.mp hx
  apply slideRows_spec _ _ _ (sortedItems_descending h) _ _ sortedItems_distinct
  · intro x hx
    exact lt_of_isUsed (mem_items.mp (mem_movedItems.mp (hmem x hx)).1).1
  · intro x hx
    exact movedItem_pos h (hmem x hx)
  · intro x hx
    obtain ⟨ho, hl⟩ := alignedlen_of_mem_movedItems h (hmem x hx)
    rw [ho, hl]
    exact (h.inside _ (mem_items.mp (mem_movedItems.mp (hmem x hx)).1).1).2

end Sorted

/-- `q` is `p` with its used rows stacked below the special space. -/
structure Packed (p : PageImage) (t s : Nat) (q : PageImage) : Prop where
  length_eq : q.rps.length = p.rps.length
  special_eq : q.pdSpecial = p.pdSpecial
  upper_add : q.pdUpper + itemsLen (p.items t s) = p.pdSpecial
  line : ∀ i, (p.line i).isUsed = true →
    q.line i = { p.line i with offset := p.packedOffset t s i }
  unused : ∀ i, (p.line i).isUsed = false → (q.line i).isUsed = false
  content : ∀ i, (p.line i).isUsed = true → ∀ j < (p.line i).len,
    q.bytes (p.packedOffset t s i + j) = p.bytes ((p.line i).offset + j)

section Compactify

variable {p : PageImage} {t s : Nat} {i : Nat} {its : List ItemIdCompact} {q : PageImage} {low : Nat}

theorem movedItems_of_invalid : p.movedItems invalidOffsetNumber s = p.items invalidOffsetNumber s := by
  simp [movedItems, invalidOffsetNumber]

theorem filter_target_eq (hpos : 1 ≤ t) (hused : (p.line (t - 1)).isUsed = true)
    (hperm : its.Perm (p.items t s)) :
    (its.filter fun it => t = it.offsetindex + 1) = [p.item t s (t - 1)] := by
  have hall : ∀ x ∈ its.filter (fun it => t = it.offsetindex + 1), x = p.item t s (t - 1) := by
    intro x hx
    obtain ⟨hmem, htx⟩ := mem_filter.mp hx
    have hidx : x.offsetindex = t - 1 := by
      have := of_decide_eq_true htx
      omega
    exact hidx ▸ (mem_items.mp (hperm.mem_iff.mp hmem)).2
  have hin : p.item t s (t - 1) ∈ its.filter (fun it => t = it.offsetindex + 1) := by
    refine mem_filter.mpr ⟨hperm.mem_iff.mpr (item_mem_items hused), ?_⟩
    exact decide_eq_true (by simp only [item]; omega)
  have hnodup : (its.filter fun it => t = it.offsetindex + 1).Nodup := by
    apply List.Nodup.filter
    have hdist : its.Pairwise fun a b => a.offsetindex ≠ b.offsetindex :=
      hperm.symm.pairwise items_distinct fun h => h.symm
    exact hdist.imp fun hab heq => hab (congrArg _ heq)
  have hrep := eq_replicate_of_mem hall
  rw [hrep, nodup_replicate] at hnodup
  have hlen := length_pos_of_mem hin
  rw [hrep]
  rw [hrep, length_replicate] at hlen
  have hone : (its.filter fun it => decide (t = it.offsetindex + 1)).length = 1 := by omega
  rw [hone]
  rfl

theorem totalLen_movedItems_add (hpos : 1 ≤ t) (hused : (p.line (t - 1)).isUsed = true) :
    itemsLen (p.movedItems t s) + (p.item t s (t - 1)).alignedlen =
      itemsLen (p.items t s) := by
  have hsplit := filter_append_perm (fun it : ItemIdCompact => decide (t = it.offsetindex + 1))
    (p.items t s)
  have htarget := filter_target_eq hpos hused (List.Perm.refl (p.items t s))
  have htotal : itemsLen _ = itemsLen (p.items t s) := totalLen_perm hsplit
  rw [← htotal, htarget]
  have hmoved : (p.items t s).filter (fun it => !decide (t = it.offsetindex + 1)) =
      p.movedItems t s := by
    simp [movedItems]
  rw [hmoved]
  simp [totalLen, Nat.add_comm]

/-- The rows that the loop moves go where `packedOffset` says. -/
theorem packedOffset_of_ne (h : i + 1 ≠ t) : p.packedOffset t s i = p.pdSpecial -
    itemsAbove (p.sortedItems t s) (p.item t s i) := by
  rw [packedOffset, if_neg h]
  exact congrArg _ (aboveLen_perm sortedItems_perm _).symm

theorem item_mem_sortedItems (hused : (p.line i).isUsed = true) (h : i + 1 ≠ t) :
    p.item t s i ∈ p.sortedItems t s :=
  sortedItems_perm.mem_iff.mpr (mem_movedItems.mpr ⟨item_mem_items hused, Ne.symm h⟩)

theorem alignedlen_item (h : p.Sound) (hroom : p.RoomFits t s)
    (hused : (p.line i).isUsed = true) :
    (p.item t s i).alignedlen =
      shortAlign (if i + 1 = t then (p.line i).len + s else (p.line i).len) := by
  simp only [item]
  apply Nat.mod_eq_of_lt
  split_ifs with hit
  · exact hroom i hit hused
  · exact len_lt h hused

theorem shortAlign_le_alignedlen (h : p.Sound) (hroom : p.RoomFits t s)
    (hused : (p.line i).isUsed = true) :
    shortAlign (p.line i).len ≤ (p.item t s i).alignedlen := by
  rw [alignedlen_item h hroom hused]
  apply shortAlign_mono
  split <;> omega

/-- What the loop leaves of a row other than the target. -/
theorem line_of_slid (hp : p.Sound)
    (hq : Slid p p.pdSpecial (p.sortedItems t s) q low)
    (hused : (p.line i).isUsed = true) (h : i + 1 ≠ t) :
    q.line i = { p.line i with offset := p.packedOffset t s i } ∧ ∀ j < (p.line i).len,
      q.bytes (p.packedOffset t s i + j) = p.bytes ((p.line i).offset + j) := by
  have hmem := item_mem_sortedItems hused h (s := s)
  have hlen := (alignedlen_of_mem_movedItems hp (sortedItems_perm.mem_iff.mp hmem)).2
  rw [packedOffset_of_ne h]
  refine ⟨hq.line _ hmem, fun j hj => hq.moved _ hmem j ?_⟩
  rw [hlen]
  exact hj.trans_le (le_shortAlign _)

theorem line_of_slid_of_unused
    (hq : Slid p p.pdSpecial (p.sortedItems t s) q low)
    (h : (p.line i).isUsed = false ∨ i + 1 = t) : q.line i = p.line i := by
  apply hq.others
  rintro x hx rfl
  obtain ⟨hmem, hne⟩ := mem_movedItems.mp (sortedItems_perm.mem_iff.mp hx)
  rcases h with h | h
  · exact absurd (mem_items.mp hmem).1 (by simp [h])
  · exact hne h.symm

theorem compactifyXtuples_of_invalid :
    compactifyXtuples p (p.items invalidOffsetNumber s) invalidOffsetNumber =
      { (slideRows p p.pdSpecial (p.sortedItems invalidOffsetNumber s)).1 with
        pdUpper := (slideRows p p.pdSpecial (p.sortedItems invalidOffsetNumber s)).2 } := by
  simp only [compactifyXtuples, moveRows_eq, if_true]
  rfl

theorem compactifyXtuples_packed_of_invalid (h : p.Sound) :
    Packed p invalidOffsetNumber s
      (compactifyXtuples p (p.items invalidOffsetNumber s) invalidOffsetNumber) := by
  have hq := slid_sortedItems h (t := invalidOffsetNumber) (s := s)
  have hne : ∀ i, i + 1 ≠ invalidOffsetNumber := fun i => Nat.succ_ne_zero i
  have hspecial := hq.special_eq
  rw [compactifyXtuples_of_invalid]
  refine ⟨hq.length_eq, hspecial, ?_, ?_, ?_, ?_⟩
  · rw [← movedItems_of_invalid, ← itemsLen_sortedItems]
    exact hq.low_add
  · intro i hused
    exact (line_of_slid h hq hused (hne i)).1
  · intro i hunused
    exact (congrArg RowPtr.isUsed (line_of_slid_of_unused hq (.inl hunused))).trans hunused
  · intro i hused
    exact (line_of_slid h hq hused (hne i)).2

theorem compactifyXtuples_of_pos (hpos : 1 ≤ t)
    (hits : ((p.items t s).insertionSort fun a b => b.itemoff ≤ a.itemoff).filter
      (fun it => t = it.offsetindex + 1) = its) :
    let q := (slideRows p p.pdSpecial (p.sortedItems t s)).1
    let curr := (slideRows p p.pdSpecial (p.sortedItems t s)).2 -
      its.foldl (fun _ it => it.alignedlen) 0
    compactifyXtuples p (p.items t s) t =
      { q.setLine (t - 1) { q.rp t with offset := curr } with
        bytes := q.bytes.store curr (p.bytes.load (p.rp t).offset (p.rp t).len)
        pdUpper := curr } := by
  have hne0 : t ≠ invalidOffsetNumber := Nat.ne_of_gt hpos
  simp only [compactifyXtuples, moveRows_eq, if_neg hne0, hits]
  rfl

section

variable (h : p.Sound)

include h

/-- The target row is put below the others, with room to grow. -/
theorem compactifyXtuples_packed_of_target (hroom : p.RoomFits t s) (hpos : 1 ≤ t)
    (htarget : (p.line (t - 1)).isUsed = true)
    (hfit : itemsLen (p.items t s) ≤ p.pdSpecial) :
    Packed p t s (compactifyXtuples p (p.items t s) t) := by
  have hq := slid_sortedItems h (t := t) (s := s)
  have htotal := totalLen_movedItems_add hpos htarget (s := s)
  have hlow := hq.low_add
  rw [itemsLen_sortedItems] at hlow
  rw [compactifyXtuples_of_pos hpos (filter_target_eq hpos htarget (perm_insertionSort _ _))]
  simp only [foldl_cons, foldl_nil]
  set q := (slideRows p p.pdSpecial (p.sortedItems t s)).1
  set low := (slideRows p p.pdSpecial (p.sortedItems t s)).2
  have hidx : t - 1 < q.rps.length := hq.length_eq ▸ lt_of_isUsed htarget
  have hqt : q.rp t = p.line (t - 1) := line_of_slid_of_unused hq (.inr (by omega))
  have hplace : p.packedOffset t s (t - 1) = low - (p.item t s (t - 1)).alignedlen := by
    rw [packedOffset, if_pos (by omega)]
    omega
  have hlen : (p.line (t - 1)).len ≤ (p.item t s (t - 1)).alignedlen :=
    (le_shortAlign _).trans (shortAlign_le_alignedlen h hroom htarget)
  have hsaved : (p.bytes.load (p.rp t).offset (p.rp t).len).length = (p.line (t - 1)).len := by
    simp [rp]
  have hspecial := hq.special_eq
  refine ⟨?_, hspecial, ?_, ?_, ?_, ?_⟩
  · simpa using hq.length_eq
  · change low - (p.item t s (t - 1)).alignedlen + _ = _
    omega
  · intro i hused
    by_cases hi : i = t - 1
    · subst hi
      rw [hplace, ← hqt]
      exact q.line_setLine_self _ hidx
    · exact (q.line_setLine_of_ne _ hi).trans (line_of_slid h hq hused (by omega)).1
  · intro i hunused
    have hi : i ≠ t - 1 := by
      rintro rfl
      rw [htarget] at hunused
      cases hunused
    refine (congrArg RowPtr.isUsed (q.line_setLine_of_ne _ hi)).trans ?_
    rw [line_of_slid_of_unused hq (.inl hunused)]
    exact hunused
  · intro i hused j hj
    by_cases hi : i = t - 1
    · subst hi
      have hin : j < (p.bytes.load (p.rp t).offset (p.rp t).len).length := by omega
      rw [hplace]
      refine (q.bytes.store_inside _ _ hin).trans ?_
      simp [Memory.load, rp]
    · have hi' : i + 1 ≠ t := by omega
      have habove : itemsAbove (p.sortedItems t s)
          (p.item t s i) ≤ itemsLen (p.movedItems t s) := by
        rw [← itemsLen_sortedItems]
        exact aboveLen_le_totalLen _ _
      have hout : low ≤ p.packedOffset t s i + j := by
        rw [packedOffset_of_ne hi']
        omega
      refine (q.bytes.store_outside _ _ (.inr ?_)).trans ((line_of_slid h hq hused hi').2 j hj)
      rw [hsaved]
      omega

/-- A target that is not in use takes no part: only the offset of its free line is set. -/
theorem compactifyXtuples_packed_of_unused (hpos : 1 ≤ t)
    (htarget : p.line (t - 1) = RowPtr.unused) :
    Packed p t s (compactifyXtuples p (p.items t s) t) := by
  have hq := slid_sortedItems h (t := t) (s := s)
  have hnot : ∀ x ∈ p.items t s, t ≠ x.offsetindex + 1 := by
    intro x hx heq
    have hused := (mem_items.mp hx).1
    have hidx : x.offsetindex = t - 1 := by omega
    rw [hidx, htarget] at hused
    cases hused
  have hmoved : p.movedItems t s = p.items t s := by
    rw [movedItems, filter_eq_self]
    intro x hx
    exact decide_eq_true (hnot x hx)
  have hnone : ((p.items t s).insertionSort fun a b => b.itemoff ≤ a.itemoff).filter
      (fun it => t = it.offsetindex + 1) = [] := by
    rw [filter_eq_nil_iff]
    intro x hx
    simpa using hnot x ((perm_insertionSort _ _).mem_iff.mp hx)
  have hlow := hq.low_add
  rw [itemsLen_sortedItems, hmoved] at hlow
  have hload : p.bytes.load (p.rp t).offset (p.rp t).len = [] := by
    rw [rp, htarget]
    rfl
  rw [compactifyXtuples_of_pos hpos hnone]
  simp only [foldl_nil, Nat.sub_zero, hload, Memory.store_nil]
  set q := (slideRows p p.pdSpecial (p.sortedItems t s)).1
  set low := (slideRows p p.pdSpecial (p.sortedItems t s)).2
  have hqt : q.rp t = RowPtr.unused := (line_of_slid_of_unused hq (.inr (by omega))).trans htarget
  have hspecial := hq.special_eq
  have hused_ne : ∀ i, (p.line i).isUsed = true → i ≠ t - 1 := by
    rintro i hused rfl
    rw [htarget] at hused
    cases hused
  refine ⟨?_, hspecial, hlow, ?_, ?_, ?_⟩
  · simpa using hq.length_eq
  · intro i hused
    have hi := hused_ne i hused
    exact (q.line_setLine_of_ne _ hi).trans (line_of_slid h hq hused (by omega)).1
  · intro i hunused
    by_cases hi : i = t - 1
    · subst hi
      by_cases hlt : t - 1 < q.rps.length
      · refine (congrArg RowPtr.isUsed (q.line_setLine_self _ hlt)).trans ?_
        rw [hqt]
        rfl
      · refine (congrArg RowPtr.isUsed (?_ : _ = q.line (t - 1))).trans (by rw [← rp, hqt]; rfl)
        simp [line, setLine, set_eq_of_length_le (by omega : q.rps.length ≤ t - 1)]
    · refine (congrArg RowPtr.isUsed (q.line_setLine_of_ne _ hi)).trans ?_
      rw [line_of_slid_of_unused hq (.inl hunused)]
      exact hunused
  · intro i hused
    have hi := hused_ne i hused
    exact (line_of_slid h hq hused (by omega)).2

theorem compactifyXtuples_packed (hroom : p.RoomFits t s)
    (ht : (p.line (t - 1)).isUsed = true ∨ p.line (t - 1) = RowPtr.unused)
    (hfit : itemsLen (p.items t s) ≤ p.pdSpecial) :
    Packed p t s (compactifyXtuples p (p.items t s) t) := by
  rcases Nat.eq_zero_or_pos t with rfl | hpos
  · exact compactifyXtuples_packed_of_invalid h
  rcases ht with hused | hunused
  · exact compactifyXtuples_packed_of_target h hroom hpos hused hfit
  · exact compactifyXtuples_packed_of_unused h hpos hunused

/-- Among the rows that are moved up, the lower one stays the lower one. -/
theorem packedOffset_below (hfit : itemsLen (p.items t s) ≤ p.pdSpecial)
    {i j : Nat} (hi : (p.line i).isUsed = true) (hit : i + 1 ≠ t) (hjt : j + 1 ≠ t)
    (hlt : (p.line i).offset < (p.line j).offset) :
    p.packedOffset t s i + shortAlign (p.line i).len ≤ p.packedOffset t s j := by
  have hmem : p.item t s i ∈ p.movedItems t s :=
    mem_movedItems.mpr ⟨item_mem_items hi, Ne.symm hit⟩
  have hstep : itemsAbove (p.movedItems t s) (p.item t s j) + (p.item t s i).alignedlen ≤
      itemsAbove (p.movedItems t s) (p.item t s i) := aboveLen_add_size_le hmem hlt
  have hal : (p.item t s i).alignedlen = shortAlign (p.line i).len :=
    (alignedlen_of_mem_movedItems h hmem).2
  have hle : itemsAbove (p.movedItems t s) (p.item t s i) ≤ itemsLen (p.movedItems t s) :=
    aboveLen_le_totalLen _ _
  have hsub : itemsLen (p.movedItems t s) ≤ itemsLen (p.items t s) :=
    List.Sublist.sum_le_sum (filter_sublist.map _) fun _ _ => Nat.zero_le _
  simp only [packedOffset, if_neg hit, if_neg hjt]
  omega

variable (hroom : p.RoomFits t s)

include hroom

theorem packedOffset_target_below
    (hfit : itemsLen (p.items t s) ≤ p.pdSpecial) {i j : Nat}
    (hi : (p.line i).isUsed = true) (hit : i + 1 = t) (hjt : j + 1 ≠ t) :
    p.packedOffset t s i + (p.line i).len + s ≤ p.packedOffset t s j ∧
      p.packedOffset t s i + shortAlign (p.line i).len ≤ p.packedOffset t s j := by
  have hidx : t - 1 = i := by omega
  have htotal := totalLen_movedItems_add (t := t) (s := s) (p := p) (by omega) (hidx ▸ hi)
  have hle : itemsAbove (p.movedItems t s) (p.item t s j) ≤ itemsLen (p.movedItems t s) :=
    aboveLen_le_totalLen _ _
  have hal : shortAlign (p.line i).len ≤ (p.item t s (t - 1)).alignedlen :=
    hidx.symm ▸ shortAlign_le_alignedlen h hroom hi
  have hgap : (p.line i).len + s ≤ (p.item t s (t - 1)).alignedlen := by
    rw [hidx, alignedlen_item h hroom hi, if_pos hit]
    exact le_shortAlign _
  simp only [packedOffset, if_pos hit, if_neg hjt]
  omega

theorem packedOffset_apart
    (hfit : itemsLen (p.items t s) ≤ p.pdSpecial) {i j : Nat} (hij : i ≠ j)
    (hi : (p.line i).isUsed = true) (hj : (p.line j).isUsed = true) :
    p.packedOffset t s i + shortAlign (p.line i).len ≤ p.packedOffset t s j ∨
      p.packedOffset t s j + shortAlign (p.line j).len ≤ p.packedOffset t s i := by
  by_cases hit : i + 1 = t
  · exact .inl (packedOffset_target_below h hroom hfit hi hit (by omega)).2
  by_cases hjt : j + 1 = t
  · exact .inr (packedOffset_target_below h hroom hfit hj hjt hit).2
  have hleni := h.header i hi
  have hlenj := h.header j hj
  simp only [sizeOfXHeapDiskTupleData] at hleni hlenj
  have hsi := le_shortAlign (p.line i).len
  have hsj := le_shortAlign (p.line j).len
  rcases h.apart i j hij hi hj with hap | hap
  · exact .inl (packedOffset_below h hfit hi hit hjt (by omega))
  · exact .inr (packedOffset_below h hfit hj hjt hit (by omega))

theorem packedOffset_inside
    (hfit : itemsLen (p.items t s) ≤ p.pdSpecial) (hi : (p.line i).isUsed = true) :
    p.pdSpecial - itemsLen (p.items t s) ≤ p.packedOffset t s i ∧
      p.packedOffset t s i + shortAlign (p.line i).len ≤ p.pdSpecial := by
  have hsub : itemsLen (p.movedItems t s) ≤ itemsLen (p.items t s) :=
    List.Sublist.sum_le_sum (filter_sublist.map _) fun _ _ => Nat.zero_le _
  by_cases hit : i + 1 = t
  · have hidx : t - 1 = i := by omega
    have htotal := totalLen_movedItems_add (t := t) (s := s) (p := p) (by omega) (hidx ▸ hi)
    have hal : shortAlign (p.line i).len ≤ (p.item t s (t - 1)).alignedlen :=
      hidx.symm ▸ shortAlign_le_alignedlen h hroom hi
    simp only [packedOffset, if_pos hit]
    omega
  · have hmem : p.item t s i ∈ p.movedItems t s :=
      mem_movedItems.mpr ⟨item_mem_items hi, Ne.symm hit⟩
    have hle : itemsAbove (p.movedItems t s) (p.item t s i) ≤ itemsLen (p.movedItems t s) :=
      aboveLen_le_totalLen _ _
    have hge : (p.item t s i).alignedlen ≤ itemsAbove (p.movedItems t s) (p.item t s i) :=
      size_le_aboveLen hmem
    have hal : (p.item t s i).alignedlen = shortAlign (p.line i).len :=
      (alignedlen_of_mem_movedItems h hmem).2
    simp only [packedOffset, if_neg hit]
    omega

end

theorem Packed.sound (hq : Packed p t s q) (h : p.Sound) (hroom : p.RoomFits t s)
    (hfit : itemsLen (p.items t s) ≤ p.pdSpecial - p.pdLower) : q.Sound := by
  have hlower := h.lower_le
  have hupper := h.upper_le
  have hsum := hq.upper_add
  have hfit' : itemsLen (p.items t s) ≤ p.pdSpecial := by omega
  have hused : ∀ i, (q.line i).isUsed = true → (p.line i).isUsed = true := by
    intro i hi
    by_contra hn
    rw [hq.unused i (by simpa using hn)] at hi
    cases hi
  refine ⟨?_, ?_, ?_, ?_, ?_, ?_, ?_⟩
  · have hlen := hq.length_eq
    simp only [pdLower] at hfit hlower ⊢
    omega
  · rw [hq.special_eq]
    omega
  · exact hq.special_eq ▸ h.special_le
  · exact hq.special_eq ▸ h.special_aligned
  · intro i hi
    rw [hq.line i (hused i hi)]
    exact h.header i (hused i hi)
  · intro i hi
    have hin := packedOffset_inside h hroom hfit' (hused i hi)
    rw [hq.line i (hused i hi), hq.special_eq]
    exact ⟨by dsimp only; omega, hin.2⟩
  · intro i j hij hi hj
    rw [hq.line i (hused i hi), hq.line j (hused j hj)]
    exact packedOffset_apart h hroom hfit' hij (hused i hi) (hused j hj)

end Compactify

/-- Where the repair leaves the row of line `i`: it does nothing when the rows would not fit. -/
def repairedOffset (p : PageImage) (t s i : Nat) : Nat :=
  if itemsLen (p.items t s) ≤ p.pdSpecial - p.pdLower then p.packedOffset t s i
  else (p.line i).offset

/-- What `xheap_page_repaire_fregmentation` does to a sound page. -/
structure Repaired (p : PageImage) (t s : Nat) (q : PageImage) : Prop where
  sound : q.Sound
  length_eq : q.rps.length = p.rps.length
  special_eq : q.pdSpecial = p.pdSpecial
  upper : q.pdUpper = p.pdUpper ∨ q.pdUpper + itemsLen (p.items t s) = p.pdSpecial
  line : ∀ i, (p.line i).isUsed = true →
    q.line i = { p.line i with offset := p.repairedOffset t s i }
  unused : ∀ i, (p.line i).isUsed = false → (q.line i).isUsed = false
  content : ∀ i, (p.line i).isUsed = true → ∀ j < (p.line i).len,
    q.bytes (p.repairedOffset t s i + j) = p.bytes ((p.line i).offset + j)

section Repair

variable {p : PageImage} {t s : Nat} {i : Nat} {q : PageImage}

theorem line_clearUnused (i : Nat) :
    p.clearUnused.line i = if (p.line i).isUsed then p.line i else RowPtr.unused := by
  rcases hget : p.rps[i]? with _ | r
  · simp [line, clearUnused, getD_eq_getElem?_getD, hget]
  · simp [line, clearUnused, getD_eq_getElem?_getD, hget]

theorem line_clearUnused_of_isUsed (h : (p.line i).isUsed = true) :
    p.clearUnused.line i = p.line i := by
  simp [line_clearUnused, h]

theorem isUsed_clearUnused (i : Nat) : (p.clearUnused.line i).isUsed = (p.line i).isUsed := by
  rw [line_clearUnused]
  split
  · rfl
  · simp_all

theorem items_clearUnused : p.clearUnused.items t s = p.items t s := by
  simp only [items, clearUnused, zipIdx_map, filterMap_map]
  congr 1
  funext l
  obtain ⟨r, i⟩ := l
  by_cases h : r.isUsed = true <;> simp [compactItem, h]

theorem pdLower_clearUnused : p.clearUnused.pdLower = p.pdLower := by
  simp [pdLower, clearUnused]

theorem Sound.clearUnused (h : p.Sound) : p.clearUnused.Sound where
  lower_le := pdLower_clearUnused.symm ▸ h.lower_le
  upper_le := h.upper_le
  special_le := h.special_le
  special_aligned := h.special_aligned
  header := by
    intro i hi
    rw [isUsed_clearUnused] at hi
    exact (line_clearUnused_of_isUsed hi).symm ▸ h.header i hi
  inside := by
    intro i hi
    rw [isUsed_clearUnused] at hi
    exact (line_clearUnused_of_isUsed hi).symm ▸ h.inside i hi
  apart := by
    intro i j hij hi hj
    rw [isUsed_clearUnused] at hi hj
    rw [line_clearUnused_of_isUsed hi, line_clearUnused_of_isUsed hj]
    exact h.apart i j hij hi hj

theorem item_clearUnused (h : (p.line i).isUsed = true) :
    p.clearUnused.item t s i = p.item t s i := by
  simp [item, line_clearUnused_of_isUsed h]

theorem packedOffset_clearUnused (h : (p.line i).isUsed = true) :
    p.clearUnused.packedOffset t s i = p.packedOffset t s i := by
  simp only [packedOffset, movedItems, items_clearUnused, item_clearUnused h]
  rfl

/-- Only the row pointers, the bounds and the bytes of the rows matter for soundness. -/
theorem Sound.of_lines (h : p.Sound) (hlen : q.rps.length = p.rps.length)
    (hupper : q.pdUpper = p.pdUpper) (hspecial : q.pdSpecial = p.pdSpecial)
    (hline : ∀ i, q.line i = p.line i) : q.Sound := by
  have hlower : q.pdLower = p.pdLower := by simp [pdLower, hlen]
  refine ⟨?_, ?_, ?_, ?_, ?_, ?_, ?_⟩
  · exact hlower ▸ hupper ▸ h.lower_le
  · exact hupper ▸ hspecial ▸ h.upper_le
  · exact hspecial ▸ h.special_le
  · exact hspecial ▸ h.special_aligned
  · intro i hi
    exact hline i ▸ h.header i (hline i ▸ hi)
  · intro i hi
    rw [hline, hupper, hspecial]
    exact h.inside i (hline i ▸ hi)
  · intro i j hij hi hj
    rw [hline, hline]
    exact h.apart i j hij (hline i ▸ hi) (hline j ▸ hj)

theorem Sound.noteFreeLines (h : p.Sound) : p.noteFreeLines.Sound :=
  h.of_lines rfl rfl rfl fun _ => rfl

theorem Sound.of_allUnused (h : p.Sound) (hnone : ∀ i, (p.line i).isUsed = false) :
    ({ p with pdUpper := p.pdSpecial } : PageImage).Sound where
  lower_le := h.lower_le.trans h.upper_le
  upper_le := le_rfl
  special_le := h.special_le
  special_aligned := h.special_aligned
  header := fun i hi => absurd ((hnone i).symm.trans hi) (by decide)
  inside := fun i hi => absurd ((hnone i).symm.trans hi) (by decide)
  apart := fun i _ _ hi => absurd ((hnone i).symm.trans hi) (by decide)

theorem RoomFits.clearUnused (h : p.RoomFits t s) : p.clearUnused.RoomFits t s := by
  intro i hit hused
  rw [isUsed_clearUnused] at hused
  rw [line_clearUnused_of_isUsed hused]
  exact h i hit hused

theorem repaire_spec {pruned : Bool} (h : p.Sound) (hroom : p.RoomFits t s)
    (hq : xheapPageRepaireFregmentation p t s = .ok (q, pruned)) : Repaired p t s q := by
  have hclear := h.clearUnused
  unfold xheapPageRepaireFregmentation at hq
  split at hq
  · cases hq
  dsimp only at hq
  split at hq
  · cases hq
  rw [pdLower_clearUnused] at hq
  split_ifs at hq with hnil hfit
  · -- no used row at all
    have hnone : ∀ i, (p.line i).isUsed = false := by
      intro i
      by_contra hi
      have hmem := item_mem_items (t := t) (s := s) (by simpa using hi : (p.line i).isUsed = true)
      rw [hnil] at hmem
      cases hmem
    cases hq
    refine ⟨(hclear.of_allUnused fun i => ?_).noteFreeLines, ?_, rfl, .inr ?_, ?_, ?_, ?_⟩
    · rw [isUsed_clearUnused, hnone]
    · simp [clearUnused, noteFreeLines]
    · simp [hnil, totalLen, clearUnused, noteFreeLines]
    · intro i hi
      rw [hnone] at hi
      cases hi
    · intro i hi
      exact (isUsed_clearUnused i).trans hi
    · intro i hi
      rw [hnone] at hi
      cases hi
  · -- too long with the room for the target: the rows stay
    cases hq
    have hstay : ∀ i, p.repairedOffset t s i = (p.line i).offset := by
      intro i
      rw [repairedOffset, if_neg]
      have : p.clearUnused.pdSpecial = p.pdSpecial := rfl
      omega
    refine ⟨hclear, ?_, rfl, .inl rfl, ?_, ?_, ?_⟩
    · simp [clearUnused]
    · intro i hi
      rw [hstay, line_clearUnused_of_isUsed hi]
    · intro i hi
      exact (isUsed_clearUnused i).trans hi
    · intro i _ j _
      rw [hstay]
      rfl
  · cases hq
    have hfit' : itemsLen (p.items t s) ≤ p.pdSpecial - p.pdLower := by
      have : p.clearUnused.pdSpecial = p.pdSpecial := rfl
      omega
    have hmove : ∀ i, p.repairedOffset t s i = p.packedOffset t s i := fun i => if_pos hfit'
    have hpacked : Packed p.clearUnused t s (compactifyXtuples p.clearUnused (p.items t s) t) := by
      rw [← items_clearUnused]
      apply compactifyXtuples_packed hclear hroom.clearUnused
      · rw [line_clearUnused]
        split
        · exact .inl ‹_›
        · exact .inr rfl
      · rw [items_clearUnused]
        exact hfit'.trans (Nat.sub_le _ _)
    have hupper := hpacked.upper_add
    rw [items_clearUnused] at hupper
    refine ⟨(hpacked.sound hclear hroom.clearUnused ?_).noteFreeLines, ?_, hpacked.special_eq,
      .inr hupper, ?_, ?_, ?_⟩
    · rw [items_clearUnused, pdLower_clearUnused]
      exact hfit'
    · have hlength := hpacked.length_eq
      simpa [clearUnused, noteFreeLines] using hlength
    · intro i hi
      rw [hmove, ← packedOffset_clearUnused hi, ← line_clearUnused_of_isUsed hi]
      exact hpacked.line i ((isUsed_clearUnused i).trans hi)
    · intro i hi
      exact hpacked.unused i ((isUsed_clearUnused i).trans hi)
    · intro i hi j hj
      rw [hmove, ← packedOffset_clearUnused hi]
      rw [← line_clearUnused_of_isUsed hi] at hj ⊢
      exact hpacked.content i ((isUsed_clearUnused i).trans hi) j hj

/-- The repair reports success only when the rows fit with the room asked for. -/
theorem repaire_fits (hq : xheapPageRepaireFregmentation p t s = .ok (q, true)) :
    itemsLen (p.items t s) ≤ p.pdSpecial - p.pdLower := by
  unfold xheapPageRepaireFregmentation at hq
  split at hq
  · cases hq
  dsimp only at hq
  split at hq
  · cases hq
  rw [pdLower_clearUnused] at hq
  have hspecial : p.clearUnused.pdSpecial = p.pdSpecial := rfl
  split_ifs at hq with hnil hfit
  · simp [hnil, totalLen]
  · simp at hq
  · omega

end Repair

/-- `q` is `p` with some rows taken out and some cut to a shorter length, none of them moved. -/
structure Cut (p q : PageImage) : Prop where
  frame : q = { p with rps := q.rps }
  length_eq : q.rps.length = p.rps.length
  line : ∀ i, (q.line i).isUsed = true → (p.line i).isUsed = true ∧
    q.line i = { p.line i with len := (q.line i).len } ∧
    sizeOfXHeapDiskTupleData ≤ (q.line i).len ∧ (q.line i).len ≤ (p.line i).len

section Prune

variable {p q r : PageImage} {fixed : List (Nat × Nat)}

theorem Cut.refl (h : p.Sound) : Cut p p :=
  ⟨rfl, rfl, fun i hi => ⟨hi, rfl, h.header i hi, le_rfl⟩⟩

theorem Cut.trans (hpq : Cut p q) (hqr : Cut q r) : Cut p r := by
  refine ⟨?_, hqr.length_eq.trans hpq.length_eq, fun i hi => ?_⟩
  · rw [hqr.frame, hpq.frame]
  · obtain ⟨hq, hline, hge, hle⟩ := hqr.line i hi
    obtain ⟨hp, hline', -, hle'⟩ := hpq.line i hq
    refine ⟨hp, ?_, hge, hle.trans hle'⟩
    rw [hline, hline']

theorem Cut.sound (h : Cut p q) (hp : p.Sound) : q.Sound := by
  have hlower : q.pdLower = p.pdLower := by simp [pdLower, h.length_eq]
  have hupper : q.pdUpper = p.pdUpper := by rw [h.frame]
  have hspecial : q.pdSpecial = p.pdSpecial := by rw [h.frame]
  have hoff : ∀ i, (q.line i).isUsed = true → (q.line i).offset = (p.line i).offset := by
    intro i hi
    rw [(h.line i hi).2.1]
  refine ⟨?_, ?_, ?_, ?_, fun i hi => (h.line i hi).2.2.1, ?_, ?_⟩
  · exact hlower ▸ hupper ▸ hp.lower_le
  · exact hupper ▸ hspecial ▸ hp.upper_le
  · exact hspecial ▸ hp.special_le
  · exact hspecial ▸ hp.special_aligned
  · intro i hi
    obtain ⟨hused, -, -, hle⟩ := h.line i hi
    have hin := hp.inside i hused
    have hal := shortAlign_mono hle
    rw [hoff i hi, hupper, hspecial]
    omega
  · intro i j hij hi hj
    have hali := shortAlign_mono (h.line i hi).2.2.2
    have halj := shortAlign_mono (h.line j hj).2.2.2
    have hap := hp.apart i j hij (h.line i hi).1 (h.line j hj).1
    rw [hoff i hi, hoff j hj]
    omega

/-- A line is taken out, or set to a length that leaves it its header. -/
theorem Cut.setLine (h : p.Sound) {i : Nat} {l : RowPtr}
    (hl : l.isUsed = true → (p.line i).isUsed = true ∧ l = { p.line i with len := l.len } ∧
      sizeOfXHeapDiskTupleData ≤ l.len ∧ l.len ≤ (p.line i).len) : Cut p (p.setLine i l) := by
  refine ⟨rfl, p.setLine_length l, fun j hj => ?_⟩
  by_cases hji : j = i
  · subst hji
    by_cases hlt : j < p.rps.length
    · rw [p.line_setLine_self l hlt] at hj ⊢
      exact hl hj
    · have hnone : p.setLine j l = p := by
        simp [PageImage.setLine, set_eq_of_length_le (by omega : p.rps.length ≤ j)]
      rw [hnone] at hj ⊢
      exact (Cut.refl h).line j hj
  · rw [p.line_setLine_of_ne l hji] at hj ⊢
    exact (Cut.refl h).line j hj

/-- The rows that a scan reports as shorter than their length: each once, none past its end. -/
structure FixedSound (p : PageImage) (fixed : List (Nat × Nat)) : Prop where
  distinct : fixed.Pairwise fun f g => f.1 ≠ g.1
  pos : ∀ f ∈ fixed, 1 ≤ f.1
  fits : ∀ f ∈ fixed, (p.rp f.1).isUsed = true →
    sizeOfXHeapDiskTupleData ≤ f.2 ∧ f.2 ≤ (p.rp f.1).len

theorem cut_nowunused (h : p.Sound) (dead : List Nat) :
    Cut p (dead.foldl (fun p off => p.setLine (off - 1) RowPtr.unused) p) := by
  induction dead generalizing p with
  | nil => exact Cut.refl h
  | cons off dead ih =>
    have hcut : Cut p (p.setLine (off - 1) RowPtr.unused) :=
      Cut.setLine h fun hused => absurd hused (by decide)
    exact hcut.trans (ih (hcut.sound h))

theorem cut_nowfixed (h : p.Sound) (hf : FixedSound p fixed)
    (hq : fixed.foldlM (fun p f => ((p.rp f.1).changeLen f.2).map fun r => p.setLine (f.1 - 1) r) p =
      .ok q) : Cut p q := by
  induction fixed generalizing p with
  | nil =>
    cases hq
    exact Cut.refl h
  | cons f fixed ih =>
    obtain ⟨p₁, hp₁, hrest⟩ := bind_ok hq
    obtain ⟨l, hl, rfl⟩ := map_ok hp₁
    obtain ⟨-, rfl⟩ := RowPtr.changeLen_ok hl
    have hcut : Cut p (p.setLine (f.1 - 1) { p.rp f.1 with len := f.2 }) := by
      refine Cut.setLine h fun hused => ?_
      obtain ⟨hge, hle⟩ := hf.fits f (by simp) hused
      exact ⟨hused, rfl, hge, hle⟩
    refine hcut.trans (ih (hcut.sound h) ⟨hf.distinct.of_cons, ?_, ?_⟩ hrest)
    · exact fun g hg => hf.pos g (by simp [hg])
    · intro g hg
      have hne : g.1 - 1 ≠ f.1 - 1 := by
        have := rel_of_pairwise_cons hf.distinct hg
        have := hf.pos f (by simp)
        have := hf.pos g (by simp [hg])
        omega
      rw [rp, p.line_setLine_of_ne _ hne]
      exact hf.fits g (by simp [hg])

theorem FixedSound.of_cut (hf : FixedSound p fixed) (hq : Cut p q)
    (hsame : ∀ i, (q.line i).isUsed = true → q.line i = p.line i) : FixedSound q fixed := by
  refine ⟨hf.distinct, hf.pos, fun f hmem hused => ?_⟩
  have hline := hsame (f.1 - 1) hused
  rw [rp, hline]
  exact hf.fits f hmem (hq.line _ hused).1

theorem line_nowunused (dead : List Nat) (i : Nat)
    (h : ((dead.foldl (fun p off => p.setLine (off - 1) RowPtr.unused) p).line i).isUsed = true) :
    (dead.foldl (fun p off => p.setLine (off - 1) RowPtr.unused) p).line i = p.line i := by
  induction dead generalizing p with
  | nil => rfl
  | cons off dead ih =>
    have hline := ih h
    rw [foldl_cons, hline] at h
    refine hline.trans ?_
    by_cases hi : i = off - 1
    · subst hi
      by_cases hlt : off - 1 < p.rps.length
      · rw [p.line_setLine_self _ hlt] at h
        cases h
      · simp [PageImage.setLine, set_eq_of_length_le (by omega : p.rps.length ≤ off - 1)]
    · exact p.line_setLine_of_ne _ hi

theorem pruneExecute_cut (h : p.Sound) {prstate : XPruneState} (hf : FixedSound p prstate.nowfixed)
    (hq : xheapPagePruneExecute p prstate = .ok q) : Cut p q := by
  have hcut := cut_nowunused h prstate.nowunused
  exact hcut.trans (cut_nowfixed (hcut.sound h)
    (hf.of_cut hcut fun i => line_nowunused prstate.nowunused i) hq)

end Prune

end PageImage

end XStore
