import Mathlib.Data.List.Induction
import XStore.Chain.Linked
import XStore.Heap.Tuple

/-!
# One page of the recycle queue

The items of a queue page are slots of an array, linked by their offsets: the occupied ones in the order of
their xids, the removed ones on a free list, and the slots below `free_items` have never been used.
-/

namespace XStore

open Option Function List

namespace RecycleQueue

def invalidOffset : Nat := 65535

/-- The previous or next item is in another block. -/
def otherBlockOffset : Nat := 65534

def isNormalOffset (offset : Nat) : Bool := offset < otherBlockOffset

/-- `InvalidBlockNumber` -/
def invalidBlkno : Nat := 0xFFFFFFFF

/-- `XBTRecycleQueueItemData` -/
structure QueueItem where
  xid : Nat
  blkno : Nat
  prev : Nat
  next : Nat
  deriving DecidableEq

/-- `XBTRecycleQueueHeaderData` without the items. -/
structure QueueHeader where
  flags : Nat
  head : Nat
  tail : Nat
  freeItems : Nat
  freeListHead : Nat
  prevBlkno : Nat
  nextBlkno : Nat
  deriving DecidableEq

structure QueuePage where
  header : QueueHeader
  items : Nat → QueueItem

/-- `XBTRecycleMaxItems`: the header of the page and that of the queue take 24 bytes each, an item 16. -/
def recycleMaxItems : Nat := (blcksz - 24 - 24) / 16

/-- The two first blocks also hold the 20 bytes of the meta data. -/
def blockGetMaxItems (blkno : Nat) : Nat :=
  (blcksz - 24 - 24 - if blkno < 2 then 20 else 0) / 16

/-- `HeaderGetItem`, which reports a corrupted index behind the items. -/
def QueuePage.getItem (p : QueuePage) (offset : Nat) : Option QueueItem :=
  if offset ≤ recycleMaxItems then some (p.items offset) else none

def QueuePage.putItem (p : QueuePage) (offset : Nat) (item : QueueItem) : QueuePage :=
  { p with items := Function.update p.items offset item }

def QueuePage.setPrev (p : QueuePage) (offset prev : Nat) : Option QueuePage := do
  let item ← p.getItem offset
  return p.putItem offset { item with prev := prev }

def QueuePage.setNext (p : QueuePage) (offset next : Nat) : Option QueuePage := do
  let item ← p.getItem offset
  return p.putItem offset { item with next := next }

/-- The next link of the item at `offset`, if there is one on this page. -/
def QueuePage.linkNext (p : QueuePage) (offset next : Nat) : Option QueuePage :=
  if isNormalOffset offset then p.setNext offset next else some p

def QueuePage.linkPrev (p : QueuePage) (offset prev : Nat) : Option QueuePage :=
  if isNormalOffset offset then p.setPrev offset prev else some p

/-- `xbtree_init_recycle_queue_page`: a page without items. -/
def initRecycleQueuePage (blkno : Nat) : QueuePage where
  header := ⟨if blkno < 2 then 3 else 0, invalidOffset, invalidOffset, blockGetMaxItems blkno, invalidOffset,
    invalidBlkno, invalidBlkno⟩
  items := fun _ => ⟨0, 0, 0, 0⟩

def pageAllocateItem (p : QueuePage) : Nat :=
  if 0 < p.header.freeItems then p.header.freeItems - 1
  else if p.header.freeListHead ≠ invalidOffset then p.header.freeListHead
  else invalidOffset

/-- `xl_xbtree2_recycle_queue_modify` -/
structure QueueModify where
  isInsert : Bool
  offset : Nat
  item : QueueItem
  header : QueueHeader

def logModifyPage (isInsert : Bool) (offset : Nat) (item : QueueItem) (header : QueueHeader)
    (freeListOffset : Nat) : QueueModify :=
  ⟨isInsert, offset, item, { header with freeListHead := freeListOffset }⟩

/-- The loop from the tail to the item behind which the new one belongs. -/
def findInsertLoc (p : QueuePage) (xid : Nat) : Nat → Nat → Option Nat
  | 0, _ => none
  | fuel + 1, cur => do
    let item ← p.getItem cur
    if xid < item.xid then findInsertLoc p xid fuel item.prev else return cur

/-- The slot leaves the place that it was allocated from. -/
def QueuePage.takeSlot (p : QueuePage) (offset : Nat) (item : QueueItem) : QueuePage :=
  let h := if p.header.freeListHead = offset then { p.header with freeListHead := item.next } else p.header
  { p with header := if h.freeItems = offset + 1 then { h with freeItems := h.freeItems - 1 } else h }

/-- The links of the new item and of its neighbours. -/
def linkItem (p : QueuePage) (offset : Nat) (item : QueueItem) : Option QueuePage :=
  if !isNormalOffset p.header.head then
    let p := p.putItem offset { item with prev := p.header.head, next := invalidOffset }
    return { p with header := { p.header with head := offset, tail := offset } }
  else do
    let headItem ← p.getItem p.header.head
    if item.xid ≤ headItem.xid then
      let p := p.putItem offset { item with prev := headItem.prev, next := p.header.head }
      let p ← p.setPrev p.header.head offset
      return { p with header := { p.header with head := offset } }
    else
      let cur ← findInsertLoc p item.xid (recycleMaxItems + 1) p.header.tail
      let curItem ← p.getItem cur
      let p := p.putItem offset { item with prev := cur, next := curItem.next }
      let p ← p.linkPrev curItem.next offset
      let p := if isNormalOffset curItem.next then p else { p with header := { p.header with tail := offset } }
      p.setNext cur offset

def insertOnRecycleQueuePage (p : QueuePage) (offset blkno xid : Nat) : Option (QueuePage × QueueModify) := do
  let item ← p.getItem offset
  let item := { item with blkno := blkno, xid := xid }
  let p ← linkItem ((p.putItem offset item).takeSlot offset item) offset item
  let item ← p.getItem offset
  return (p, logModifyPage true offset item p.header p.header.freeListHead)

/-- The item is cleared and put on the free list. -/
def QueuePage.freeItem (p : QueuePage) (offset : Nat) : QueuePage :=
  let p := p.putItem offset ⟨0, invalidBlkno, invalidOffset, p.header.freeListHead⟩
  { p with header := { p.header with freeListHead := offset } }

/-- The neighbours of a removed item. -/
def unlinkItem (p : QueuePage) (item : QueueItem) : Option QueuePage := do
  let p ← p.linkNext item.prev item.next
  p.linkPrev item.next item.prev

/-- `remove_one_item_from_page`, without the move of the head to the next page. -/
def removeOneItemFromPage (p : QueuePage) (offset : Nat) : Option (QueuePage × QueueModify) := do
  let oldItem ← p.getItem offset
  let h := if p.header.head = offset then { p.header with head := oldItem.next } else p.header
  let h := if h.tail = offset then { h with tail := oldItem.prev } else h
  let p ← unlinkItem { p with header := h } oldItem
  let freeListHead := p.header.freeListHead
  let p := p.freeItem offset
  return (p, logModifyPage false offset oldItem p.header freeListHead)

/-- `xbtree_xlog_recycle_queue_modify_page` -/
def xlogRecycleQueueModifyPage (p : QueuePage) (xlrec : QueueModify) : Option QueuePage := do
  let p : QueuePage := { p with header := xlrec.header }
  let _ ← p.getItem xlrec.offset
  let p := p.putItem xlrec.offset xlrec.item
  if xlrec.isInsert then
    let p ← p.linkNext xlrec.item.prev xlrec.offset
    p.linkPrev xlrec.item.next xlrec.offset
  else
    let p ← unlinkItem p xlrec.item
    return p.freeItem xlrec.offset

/-- The occupied items `L`, the free list `F` and the never used slots share out the `n` slots. -/
structure QueuePage.Holds (p : QueuePage) (n : Nat) (L F : List Nat) : Prop where
  linked : DoublyLinked (fun x => (p.items x).prev) (fun x => (p.items x).next) invalidOffset L invalidOffset
  head : p.header.head = L.headD invalidOffset
  tail : p.header.tail = L.getLastD invalidOffset
  sorted : L.Pairwise fun x y => (p.items x).xid ≤ (p.items y).xid
  free : Stacked (fun x => (p.items x).next) F invalidOffset
  freeHead : p.header.freeListHead = F.headD invalidOffset
  slots : (L ++ F ++ List.range p.header.freeItems).Perm (List.range n)

/-- An item with its slot. -/
def QueuePage.entry (p : QueuePage) (x : Nat) : Nat × Nat × Nat := (x, (p.items x).blkno, (p.items x).xid)

/-- The pages that insertions and removals lead to, with the slots and pairs inserted and not yet removed. -/
inductive QueueReached (blkno : Nat) : QueuePage → List (Nat × Nat × Nat) → Prop
  | init : QueueReached blkno (initRecycleQueuePage blkno) []
  | insert {p p' rec held b xid} : QueueReached blkno p held → pageAllocateItem p ≠ invalidOffset →
      insertOnRecycleQueuePage p (pageAllocateItem p) b xid = some (p', rec) →
      QueueReached blkno p' ((pageAllocateItem p, b, xid) :: held)
  | remove {p p' rec held held' e} : QueueReached blkno p held → held.Perm (e :: held') →
      removeOneItemFromPage p e.1 = some (p', rec) → QueueReached blkno p' held'

section Slots

variable {p : QueuePage} {n : Nat} {L F A B : List Nat} {x off : Nat}

theorem QueuePage.Holds.nodup (h : p.Holds n L F) : (L ++ F ++ List.range p.header.freeItems).Nodup :=
  h.slots.nodup_iff.mpr nodup_range

theorem QueuePage.Holds.lt (h : p.Holds n L F) (hx : x ∈ L ++ F) : x < n :=
  List.mem_range.mp (h.slots.subset (mem_append_left _ hx))

theorem getItem_of_lt (hn : n ≤ recycleMaxItems) (hx : x < n) : p.getItem x = some (p.items x) :=
  if_pos (by omega)

theorem normal_of_lt (hn : n ≤ recycleMaxItems) (hx : x < n) : isNormalOffset x = true := by
  have : recycleMaxItems < otherBlockOffset := by decide
  simp only [isNormalOffset, decide_eq_true_eq]
  omega

theorem not_normal_invalid : isNormalOffset invalidOffset = false := by decide

/-- The link of an end is normal exactly when there is a neighbour. -/
theorem normal_last (hn : n ≤ recycleMaxItems) (hA : ∀ x ∈ A, x < n) :
    isNormalOffset (A.getLastD invalidOffset) = !A.isEmpty := by
  cases A with
  | nil => exact not_normal_invalid
  | cons a A => exact normal_of_lt hn (hA _ (getLastD_mem_of_ne_nil (cons_ne_nil a A)))

theorem normal_first (hn : n ≤ recycleMaxItems) (hB : ∀ x ∈ B, x < n) :
    isNormalOffset (B.headD invalidOffset) = !B.isEmpty := by
  cases B with
  | nil => exact not_normal_invalid
  | cons b B => exact normal_of_lt hn (hB b (mem_cons_self ..))

/-- The last item of `A` gets the next link `c`, the first one of `B` the previous link `d`. -/
def patched (items : Nat → QueueItem) (A B : List Nat) (c d : Nat) : Nat → QueueItem := fun x =>
  if A ≠ [] ∧ x = A.getLastD invalidOffset then { items x with next := c }
  else if B ≠ [] ∧ x = B.headD invalidOffset then { items x with prev := d }
  else items x

variable {items : Nat → QueueItem} {c d : Nat} {item : QueueItem}

theorem patched_of_notMem (hA : x ∉ A) (hB : x ∉ B) : patched items A B c d x = items x := by
  have hlast : ¬ (A ≠ [] ∧ x = A.getLastD invalidOffset) := fun h =>
    hA (h.2 ▸ getLastD_mem_of_ne_nil h.1)
  have hfirst : ¬ (B ≠ [] ∧ x = B.headD invalidOffset) := fun h => hB (h.2 ▸ headD_mem_of_ne_nil h.1)
  rw [patched, if_neg hlast, if_neg hfirst]

theorem patched_nil : patched items [] [] c d = items :=
  funext fun _ => patched_of_notMem not_mem_nil not_mem_nil

theorem patched_update (hA : off ∉ A) (hB : off ∉ B) :
    patched (Function.update items off item) A B c d = Function.update (patched items A B c d) off item := by
  funext x
  by_cases hx : x = off
  · subst hx
    rw [patched_of_notMem hA hB, update_self, update_self]
  · simp only [patched, update_of_ne hx]

@[simp]
theorem patched_xid : (patched items A B c d x).xid = (items x).xid := by
  unfold patched
  split_ifs <;> rfl

@[simp]
theorem patched_blkno : (patched items A B c d x).blkno = (items x).blkno := by
  unfold patched
  split_ifs <;> rfl

/-- What the two neighbours are set to leaves the links inside of `A` and of `B` as they are. -/
theorem patched_linked (hA : DoublyLinked (fun x => (items x).prev) (fun x => (items x).next) invalidOffset A a)
    (hB : DoublyLinked (fun x => (items x).prev) (fun x => (items x).next) b B invalidOffset)
    (hn : (A ++ B).Nodup) (hoffA : off ∉ A) (hoffB : off ∉ B) :
    let items' := Function.update (patched items A B c d) off item
    DoublyLinked (fun x => (items' x).prev) (fun x => (items' x).next) invalidOffset A c ∧
      DoublyLinked (fun x => (items' x).prev) (fun x => (items' x).next) d B invalidOffset := by
  obtain ⟨hnA, hnB, hdisj⟩ := nodup_append'.mp hn
  have hfirst : ∀ x ∈ A, ¬ (B ≠ [] ∧ x = B.headD invalidOffset) := fun x hx h =>
    hdisj hx (h.2 ▸ headD_mem_of_ne_nil h.1)
  have hlast : ∀ x ∈ B, ¬ (A ≠ [] ∧ x = A.getLastD invalidOffset) := fun x hx h =>
    hdisj (h.2 ▸ getLastD_mem_of_ne_nil h.1) hx
  constructor
  · refine hA.relink_end hnA (fun x hx => ?_) fun x hx => ?_
    all_goals
      have hoff : x ≠ off := fun heq => hoffA (heq ▸ hx)
      simp only [update_of_ne hoff, patched, if_neg (hfirst x hx), ne_nil_of_mem hx, ne_eq,
        not_false_eq_true, true_and]
      split_ifs <;> rfl
  · refine hB.relink_front hnB (fun x hx => ?_) fun x hx => ?_
    all_goals
      have hoff : x ≠ off := fun heq => hoffB (heq ▸ hx)
      simp only [update_of_ne hoff, patched, if_neg (hlast x hx), ne_nil_of_mem hx, ne_eq,
        not_false_eq_true, true_and]
      split_ifs <;> rfl

theorem setNext_of_lt (hn : n ≤ recycleMaxItems) (hx : x < n) :
    p.setNext x c = some (p.putItem x { p.items x with next := c }) := by
  rw [QueuePage.setNext, getItem_of_lt hn hx]
  rfl

theorem setPrev_of_lt (hn : n ≤ recycleMaxItems) (hx : x < n) :
    p.setPrev x d = some (p.putItem x { p.items x with prev := d }) := by
  rw [QueuePage.setPrev, getItem_of_lt hn hx]
  rfl

theorem linkNext_last (hn : n ≤ recycleMaxItems) (hA : ∀ x ∈ A, x < n) :
    p.linkNext (A.getLastD invalidOffset) c = some { p with items := patched p.items A [] c d } := by
  rw [QueuePage.linkNext, normal_last hn hA]
  cases A with
  | nil =>
    rw [patched_nil]
    rfl
  | cons a A =>
    rw [setNext_of_lt hn (hA _ (getLastD_mem_of_ne_nil (cons_ne_nil a A)))]
    simp only [isEmpty_cons, Bool.not_false, if_true, QueuePage.putItem, Option.some.injEq,
      QueuePage.mk.injEq, true_and]
    funext x
    by_cases hx : x = (a :: A).getLastD invalidOffset
    · rw [hx, update_self, patched, if_pos ⟨cons_ne_nil a A, rfl⟩]
    · rw [update_of_ne hx, patched, if_neg fun h => hx h.2, if_neg fun h => h.1 rfl]

theorem linkPrev_first (hn : n ≤ recycleMaxItems) (hB : ∀ x ∈ B, x < n) :
    p.linkPrev (B.headD invalidOffset) d = some { p with items := patched p.items [] B c d } := by
  rw [QueuePage.linkPrev, normal_first hn hB]
  cases B with
  | nil =>
    rw [patched_nil]
    rfl
  | cons b B =>
    rw [setPrev_of_lt hn (hB _ (headD_mem_of_ne_nil (cons_ne_nil b B)))]
    simp only [isEmpty_cons, Bool.not_false, if_true, QueuePage.putItem, Option.some.injEq,
      QueuePage.mk.injEq, true_and]
    funext x
    by_cases hx : x = (b :: B).headD invalidOffset
    · rw [hx, update_self, patched, if_neg fun h => h.1 rfl, if_pos ⟨cons_ne_nil b B, rfl⟩]
    · rw [update_of_ne hx, patched, if_neg fun h => h.1 rfl, if_neg fun h => hx h.2]

theorem setNext_last (hn : n ≤ recycleMaxItems) (hA : ∀ x ∈ A, x < n) (hne : A ≠ []) :
    p.setNext (A.getLastD invalidOffset) c = some { p with items := patched p.items A [] c d } := by
  rw [← linkNext_last hn hA, QueuePage.linkNext, if_pos (normal_of_lt hn (hA _ (getLastD_mem_of_ne_nil hne)))]

theorem patched_patched (hdisj : A.Disjoint B) :
    patched (patched items A [] c d) [] B c d = patched items A B c d ∧
      patched (patched items [] B c d) A [] c d = patched items A B c d := by
  have hboth : ∀ x, ¬ ((A ≠ [] ∧ x = A.getLastD invalidOffset) ∧ B ≠ [] ∧ x = B.headD invalidOffset) :=
    fun x h => hdisj (h.1.2 ▸ getLastD_mem_of_ne_nil h.1.1) (h.2.2 ▸ headD_mem_of_ne_nil h.2.1)
  constructor <;> funext x <;> have := hboth x <;> unfold patched <;>
    simp only [ne_eq, not_true_eq_false, false_and, if_false] <;> split_ifs <;> tauto

/-- The two writes to the neighbours. -/
theorem link_neighbours (hn : n ≤ recycleMaxItems) (hA : ∀ x ∈ A, x < n) (hB : ∀ x ∈ B, x < n)
    (hdisj : A.Disjoint B) :
    (p.linkNext (A.getLastD invalidOffset) c >>= fun p => p.linkPrev (B.headD invalidOffset) d) =
      some { p with items := patched p.items A B c d } := by
  rw [@linkNext_last p n A c d hn hA, bind_eq_bind, bind_some, @linkPrev_first _ n B c d hn hB,
    (patched_patched hdisj).1]

theorem le_getLastD {f : Nat → Nat} (h : (A ++ B).Pairwise fun x y => f x ≤ f y) (hx : x ∈ A) :
    f x ≤ f (A.getLastD c) := by
  induction A using List.reverseRecOn with
  | nil => cases hx
  | append_singleton A a ih =>
    rw [getLastD_append]
    rcases mem_append.mp hx with h' | h'
    · exact (pairwise_append.mp (pairwise_append.mp h).1).2.2 x h' a (mem_singleton.mpr rfl)
    · exact mem_singleton.mp h' ▸ Nat.le_refl _

/-- The loop stops behind the last item that is not newer. -/
theorem findInsertLoc_spec (hn : n ≤ recycleMaxItems) (hA : ∀ x ∈ A, x < n)
    (hlinked : DoublyLinked (fun x => (p.items x).prev) (fun x => (p.items x).next) invalidOffset A c)
    (hne : A ≠ []) (hhead : (p.items (A.headD invalidOffset)).xid ≤ d) (hfuel : A.length ≤ fuel) :
    ∃ A₁ A₂, A = A₁ ++ A₂ ∧ A₁ ≠ [] ∧ (p.items (A₁.getLastD invalidOffset)).xid ≤ d ∧
      (∀ x ∈ A₂, d < (p.items x).xid) ∧
      findInsertLoc p d fuel (A.getLastD invalidOffset) = some (A₁.getLastD invalidOffset) := by
  induction A using List.reverseRecOn generalizing fuel c with
  | nil => exact absurd rfl hne
  | append_singleton A a ih =>
    obtain ⟨hl, hprev, -⟩ := doublyLinked_append.mp hlinked
    obtain ⟨fuel, rfl⟩ : ∃ k, fuel = k + 1 := ⟨fuel - 1, by simp at hfuel; omega⟩
    have hlast : (A ++ [a]).getLastD invalidOffset = a := by rw [getLastD_append]; rfl
    have hget : p.getItem a = some (p.items a) := getItem_of_lt hn (hA a (by simp))
    rw [hlast]
    unfold findInsertLoc
    rw [hget, bind_eq_bind, bind_some]
    by_cases hlt : d < (p.items a).xid
    · have hAne : A ≠ [] := by
        rintro rfl
        exact absurd hhead (Nat.not_le.mpr hlt)
      have hsame : (A ++ [a]).headD invalidOffset = A.headD invalidOffset := by
        cases A with
        | nil => exact absurd rfl hAne
        | cons y A => rfl
      obtain ⟨A₁, A₂, rfl, hne₁, hle, hgt, hfind⟩ := ih (fun x hx => hA x (mem_append_left _ hx)) hl hAne
        (hsame ▸ hhead) (by simp at hfuel; omega)
      refine ⟨A₁, A₂ ++ [a], append_assoc .., hne₁, hle, fun x hx => ?_, ?_⟩
      · rcases mem_append.mp hx with h | h
        · exact hgt x h
        · exact mem_singleton.mp h ▸ hlt
      · have hback : (p.items a).prev = (A₁ ++ A₂).getLastD invalidOffset := hprev
        rw [if_pos hlt, hback]
        exact hfind
    · refine ⟨A ++ [a], [], (append_nil _).symm, hne, ?_, fun x hx => absurd hx not_mem_nil, ?_⟩
      · rw [hlast]
        omega
      · rw [if_neg hlt, hlast]
        rfl

/-- A new item goes between the items that are not newer and those that are not older. -/
theorem linkItem_spec (hn : n ≤ recycleMaxItems) (hL : ∀ x ∈ L, x < n) (hlen : L.length ≤ n)
    (hlinked : DoublyLinked (fun x => (p.items x).prev) (fun x => (p.items x).next) invalidOffset L invalidOffset)
    (hhead : p.header.head = L.headD invalidOffset) (htail : p.header.tail = L.getLastD invalidOffset)
    (hsorted : L.Pairwise fun x y => (p.items x).xid ≤ (p.items y).xid) (hnodup : L.Nodup) (hoff : off ∉ L) :
    ∃ A B, L = A ++ B ∧ (∀ x ∈ A, (p.items x).xid ≤ item.xid) ∧ (∀ x ∈ B, item.xid ≤ (p.items x).xid) ∧
      linkItem p off item = some
        ⟨{ p.header with
            head := (A ++ off :: B).headD invalidOffset, tail := (A ++ off :: B).getLastD invalidOffset },
          Function.update (patched p.items A B off off) off
            { item with prev := A.getLastD invalidOffset, next := B.headD invalidOffset }⟩ := by
  unfold linkItem
  rw [hhead, normal_first hn hL]
  cases L with
  | nil =>
    refine ⟨[], [], rfl, fun x hx => absurd hx not_mem_nil, fun x hx => absurd hx not_mem_nil, ?_⟩
    rw [patched_nil]
    rfl
  | cons h L =>
    have hh := hL h (mem_cons_self ..)
    simp only [isEmpty_cons, Bool.not_false, Bool.not_true, Bool.false_eq_true, if_false, headD_cons,
      getItem_of_lt hn hh, bind_eq_bind, bind_some]
    by_cases hle : item.xid ≤ (p.items h).xid
    · refine ⟨[], h :: L, rfl, fun x hx => absurd hx not_mem_nil, fun x hx => ?_, ?_⟩
      · rcases mem_cons.mp hx with rfl | hx
        · exact hle
        · exact Nat.le_trans hle ((pairwise_cons.mp hsorted).1 x hx)
      · have hset := @linkPrev_first (p.putItem off { item with prev := (p.items h).prev, next := h }) n (h :: L)
          off off hn hL
        rw [QueuePage.linkPrev, headD_cons, if_pos (normal_of_lt hn hh)] at hset
        rw [if_pos hle]
        simp only [QueuePage.putItem, hhead, headD_cons] at hset ⊢
        rw [hset, bind_some, patched_update not_mem_nil hoff]
        have hprev : (p.items h).prev = invalidOffset := hlinked.1
        simp [htail, hprev]
    · obtain ⟨A, B, heq, hne, hlast, hgt, hfind⟩ := findInsertLoc_spec hn hL hlinked (cons_ne_nil h L)
        (Nat.le_of_not_le hle) (show (h :: L).length ≤ recycleMaxItems + 1 by omega)
      rw [heq] at hL hhead hlinked hsorted hnodup hoff htail
      have hA : ∀ x ∈ A, x < n := fun x hx => hL x (mem_append_left B hx)
      have hB : ∀ x ∈ B, x < n := fun x hx => hL x (mem_append_right A hx)
      have hmem := getLastD_mem_of_ne_nil (a := invalidOffset) hne
      have hnext : (p.items (A.getLastD invalidOffset)).next = B.headD invalidOffset :=
        (doublyLinked_append.mp hlinked).1.next_last hne
      have hdisj := (nodup_append'.mp hnodup).2.2
      refine ⟨A, B, heq, fun x hx => Nat.le_trans
        (le_getLastD (f := fun x => (p.items x).xid) hsorted hx) hlast, fun x hx =>
        Nat.le_of_lt (hgt x hx), ?_⟩
      rw [if_neg hle, htail, ← heq, hfind, bind_some, getItem_of_lt hn (hA _ hmem), bind_some, hnext,
        @linkPrev_first _ n B off off hn hB, bind_some, normal_first hn hB]
      have hitems : ∀ it, patched (patched (Function.update p.items off it) [] B off off) A [] off off =
          Function.update (patched p.items A B off off) off it := fun it => by
        rw [(patched_patched hdisj).2, patched_update (fun h' => hoff (mem_append_left B h'))
          fun h' => hoff (mem_append_right A h')]
      have hsame : (A ++ off :: B).headD invalidOffset = p.header.head := by
        rw [hhead]
        cases A with
        | nil => exact absurd rfl hne
        | cons a A => rfl
      rw [hsame]
      cases B with
      | nil =>
        simp only [isEmpty_nil, Bool.not_true, Bool.false_eq_true, if_false, getLastD_append]
        rw [@setNext_last _ n A off off hn hA hne]
        simp only [QueuePage.putItem, hitems, getLastD_cons, getLastD_nil]
      | cons b B =>
        simp only [isEmpty_cons, Bool.not_false, if_true]
        rw [@setNext_last _ n A off off hn hA hne]
        have hend : (A ++ off :: b :: B).getLastD invalidOffset = p.header.tail := by
          rw [htail, getLastD_append, getLastD_append, getLastD_cons, getLastD_cons, getLastD_cons]
        simp only [QueuePage.putItem, hitems, hend]

end Slots

section Insert

variable {p p' : QueuePage} {n off x c d : Nat} {L F A B : List Nat} {held : List (Nat × Nat × Nat)}
  {item : QueueItem}

/-- The allocated slot comes off the free list or the never used ones. -/
theorem takeSlot_spec (hn : n ≤ recycleMaxItems) (h : p.Holds n L F) (halloc : pageAllocateItem p ≠ invalidOffset)
    (hitem : item.next = (p.items (pageAllocateItem p)).next) :
    ∃ F' m, (p.takeSlot (pageAllocateItem p) item).header =
        { p.header with freeListHead := F'.headD invalidOffset, freeItems := m } ∧
      Stacked (fun x => (p.items x).next) F' invalidOffset ∧
      (pageAllocateItem p :: L ++ F' ++ List.range m).Perm (List.range n) := by
  have hslots := h.slots
  have hhead := h.freeHead
  unfold pageAllocateItem at *
  unfold QueuePage.takeSlot
  rcases hm : p.header.freeItems with _ | m
  · rw [hm] at halloc hitem hslots
    simp only [Nat.lt_irrefl, if_false] at halloc hitem ⊢
    cases F with
    | nil =>
      rw [hhead] at halloc
      exact absurd (by simp) halloc
    | cons f F =>
      have hf : f ≠ invalidOffset := by
        have := h.lt (x := f) (by simp)
        have : recycleMaxItems < invalidOffset := by decide
        omega
      rw [hhead] at hitem ⊢
      simp only [headD_cons, ne_eq, hf, not_false_eq_true, if_true] at hitem ⊢
      refine ⟨F, 0, ?_, h.free.2, ?_⟩
      · have hnext : (p.items f).next = F.headD invalidOffset := h.free.1
        simp [hm, hitem, hnext]
      · refine List.Perm.trans ?_ hslots
        simpa using perm_middle.symm
  · rw [hm] at halloc hitem hslots
    simp only [Nat.succ_pos, if_true, Nat.add_sub_cancel] at halloc hitem ⊢
    have hmem : m ∉ F := by
      have hnd := h.nodup
      rw [hm, nodup_append'] at hnd
      exact fun hF => hnd.2.2 (mem_append_right L hF) (List.mem_range.mpr (Nat.lt_succ_self m))
    have hne : F.headD invalidOffset ≠ m := by
      cases F with
      | nil => exact halloc.symm
      | cons f F => exact fun heq => hmem (heq ▸ mem_cons_self ..)
    refine ⟨F, m, ?_, h.free, ?_⟩
    · have hfree : ¬ p.header.freeListHead = m := hhead.symm ▸ hne
      simp only [if_neg hfree, hm, ← hhead, Nat.add_sub_cancel, if_true]
    · refine List.Perm.trans ?_ hslots
      rw [range_succ]
      simpa using @perm_append_comm _ [m] (L ++ F ++ List.range m)

theorem entry_patched (hx : x ≠ off) (hitems : p'.items = Function.update (patched p.items A B c d) off item) :
    p'.entry x = p.entry x := by
  simp only [QueuePage.entry, hitems, update_of_ne hx, patched_xid, patched_blkno]

/-- What stays of the lists when one slot is written and its neighbours are linked anew. -/
theorem stacked_patched (h : Stacked (fun x => (p.items x).next) F invalidOffset) (hoff : off ∉ F)
    (hF : ∀ x ∈ F, x ∉ A ∧ x ∉ B)
    (hitems : p'.items = Function.update (patched p.items A B c d) off item) :
    Stacked (fun x => (p'.items x).next) F invalidOffset := by
  refine h.congr fun x hx => ?_
  have hne : x ≠ off := fun heq => hoff (heq ▸ hx)
  simp only [hitems, update_of_ne hne, patched_of_notMem (hF x hx).1 (hF x hx).2]

theorem pairwise_insert {f g : Nat → Nat} (h : (A ++ B).Pairwise fun x y => f x ≤ f y)
    (hfg : ∀ x ∈ A ++ B, g x = f x) (hA : ∀ x ∈ A, f x ≤ g off) (hB : ∀ x ∈ B, g off ≤ f x) :
    (A ++ off :: B).Pairwise fun x y => g x ≤ g y := by
  have hg : (A ++ B).Pairwise fun x y => g x ≤ g y := h.imp_of_mem fun hx hy hxy => by
    rwa [hfg _ hx, hfg _ hy]
  obtain ⟨hgA, hgB, hgAB⟩ := pairwise_append.mp hg
  refine pairwise_append.mpr ⟨hgA, pairwise_cons.mpr ⟨fun y hy => ?_, hgB⟩, fun x hx y hy => ?_⟩
  · rw [hfg y (mem_append_right A hy)]
    exact hB y hy
  · rcases mem_cons.mp hy with rfl | hy
    · rw [hfg x (mem_append_left B hx)]
      exact hA x hx
    · exact hgAB x hx y hy

/-- The page with a new item between `A` and `B`. -/
def insertedAt (p : QueuePage) (A B F : List Nat) (m off : Nat) (item : QueueItem) : QueuePage where
  header := { p.header with
    head := (A ++ off :: B).headD invalidOffset
    tail := (A ++ off :: B).getLastD invalidOffset
    freeListHead := F.headD invalidOffset
    freeItems := m }
  items := Function.update (patched p.items A B off off) off
    { item with prev := A.getLastD invalidOffset, next := B.headD invalidOffset }

/-- The slot that a new item takes, and where it goes. -/
structure QueuePage.Place (p : QueuePage) (n off xid : Nat) (A B F : List Nat) (m : Nat) : Prop where
  slots : (off :: (A ++ B) ++ F ++ List.range m).Perm (List.range n)
  free : Stacked (fun x => (p.items x).next) F invalidOffset
  older : ∀ x ∈ A, (p.items x).xid ≤ xid
  newer : ∀ x ∈ B, xid ≤ (p.items x).xid

theorem slots_apart (h : (off :: (A ++ B) ++ F ++ List.range m).Perm (List.range n)) :
    (A ++ B).Nodup ∧ off ∉ A ∧ off ∉ B ∧ off ∉ F ∧ (∀ x ∈ F, x ∉ A ∧ x ∉ B) ∧ ∀ x ∈ off :: (A ++ B), x < n := by
  have hnd := (nodup_append'.mp (h.nodup_iff.mpr nodup_range)).1
  obtain ⟨hcons, -, hdisj⟩ := nodup_append'.mp hnd
  obtain ⟨hoff, hAB⟩ := nodup_cons.mp hcons
  simp only [mem_append, not_or] at hoff
  refine ⟨hAB, hoff.1, hoff.2, fun hx => hdisj (mem_cons_self ..) hx, fun x hx => ⟨fun hA => ?_, fun hB => ?_⟩,
    fun x hx => List.mem_range.mp (h.subset (mem_append_left _ (mem_append_left _ hx)))⟩
  · exact hdisj (mem_cons_of_mem off (mem_append_left B hA)) hx
  · exact hdisj (mem_cons_of_mem off (mem_append_right A hB)) hx

theorem insertOn_eq (hn : n ≤ recycleMaxItems) (h : p.Holds n L F) (halloc : pageAllocateItem p ≠ invalidOffset)
    (blkno xid : Nat) :
    ∃ A B F' m item, L = A ++ B ∧ p.Place n (pageAllocateItem p) xid A B F' m ∧ item.blkno = blkno ∧
      item.xid = xid ∧ insertOnRecycleQueuePage p (pageAllocateItem p) blkno xid =
        some (insertedAt p A B F' m (pageAllocateItem p) item, logModifyPage true (pageAllocateItem p)
          { item with prev := A.getLastD invalidOffset, next := B.headD invalidOffset }
          (insertedAt p A B F' m (pageAllocateItem p) item).header (F'.headD invalidOffset)) := by
  obtain ⟨item, hitem⟩ : ∃ item : QueueItem, item = ⟨xid, blkno, (p.items (pageAllocateItem p)).prev,
    (p.items (pageAllocateItem p)).next⟩ := ⟨_, rfl⟩
  obtain ⟨F', m, hheader, hstack, hperm⟩ := @takeSlot_spec p n L F item hn h halloc (hitem ▸ rfl)
  generalize hoffset : pageAllocateItem p = off at *
  obtain ⟨hndL, -, hoffL, -, -, hlt⟩ := @slots_apart n off F' [] L m hperm
  have hlen : L.length ≤ n := by
    have := hperm.length_eq
    simp at this
    omega
  have hkeep : ∀ x ∈ L, Function.update p.items off item x = p.items x := fun x hx => by
    have hne : x ≠ off := fun heq => hoffL (heq ▸ hx)
    rw [update_of_ne hne]
  obtain ⟨A, B, rfl, hle, hge, hlink⟩ := @linkItem_spec
    ⟨{ p.header with freeListHead := F'.headD invalidOffset, freeItems := m }, Function.update p.items off item⟩
    n L off item hn (fun x hx => hlt x (mem_cons_of_mem off hx)) hlen
    (h.linked.congr (fun x hx => congrArg QueueItem.prev (hkeep x hx))
      fun x hx => congrArg QueueItem.next (hkeep x hx)) h.head h.tail
    (h.sorted.imp_of_mem fun hx hy hxy => by
      dsimp only
      rwa [hkeep _ hx, hkeep _ hy]) hndL hoffL
  have hplace : p.Place n off xid A B F' m := by
    refine ⟨hperm, hstack, fun x hx => ?_, fun x hx => ?_⟩
    · have := hle x hx
      dsimp only at this
      rwa [hkeep x (mem_append_left B hx), hitem] at this
    · have := hge x hx
      dsimp only at this
      rwa [hkeep x (mem_append_right A hx), hitem] at this
  obtain ⟨-, hoffA, hoffB, -⟩ := slots_apart hplace.slots
  rw [patched_update hoffA hoffB, update_idem] at hlink
  have hstart : (p.putItem off item).takeSlot off item =
      ⟨{ p.header with freeListHead := F'.headD invalidOffset, freeItems := m }, Function.update p.items off item⟩ :=
    congrArg (QueuePage.mk · (Function.update p.items off item)) hheader
  have hget : ∀ q : QueuePage, q.getItem off = some (q.items off) := fun q =>
    getItem_of_lt hn (hlt off (mem_cons_self ..))
  refine ⟨A, B, F', m, item, rfl, hplace, hitem ▸ rfl, hitem ▸ rfl, ?_⟩
  rw [insertOnRecycleQueuePage, hget]
  simp only [bind_eq_bind, bind_some]
  rw [← hitem, hstart, hlink, bind_some, hget]
  simp only [update_self, bind_some]
  rfl

theorem redo_insertedAt (hn : n ≤ recycleMaxItems) (h : p.Place n off xid A B F m) :
    xlogRecycleQueueModifyPage p (logModifyPage true off
        { item with prev := A.getLastD invalidOffset, next := B.headD invalidOffset }
        (insertedAt p A B F m off item).header (F.headD invalidOffset)) = some (insertedAt p A B F m off item) := by
  obtain ⟨hnd, hoffA, hoffB, -, -, hlt⟩ := slots_apart h.slots
  have hA : ∀ x ∈ A, x < n := fun x hx => hlt x (mem_cons_of_mem off (mem_append_left B hx))
  have hB : ∀ x ∈ B, x < n := fun x hx => hlt x (mem_cons_of_mem off (mem_append_right A hx))
  rw [xlogRecycleQueueModifyPage]
  simp only [logModifyPage]
  rw [getItem_of_lt hn (hlt off (mem_cons_self ..))]
  simp only [bind_eq_bind, bind_some, if_true, QueuePage.putItem]
  rw [← bind_eq_bind, @link_neighbours _ n A B off off hn hA hB (nodup_append'.mp hnd).2.2,
    patched_update hoffA hoffB]
  rfl

theorem insertedAt_holds (h : p.Holds n (A ++ B) G) (hplace : p.Place n off item.xid A B F m) :
    (insertedAt p A B F m off item).Holds n (A ++ off :: B) F := by
  obtain ⟨hnd, hoffA, hoffB, hoffF, hF, -⟩ := slots_apart hplace.slots
  obtain ⟨hlA, hlB⟩ := doublyLinked_append.mp h.linked
  obtain ⟨hlA', hlB'⟩ := @patched_linked A B off p.items off off
    { item with prev := A.getLastD invalidOffset, next := B.headD invalidOffset } _ _ hlA hlB hnd hoffA hoffB
  have hself : (insertedAt p A B F m off item).items off =
      { item with prev := A.getLastD invalidOffset, next := B.headD invalidOffset } := update_self ..
  have hxid : ∀ x ∈ A ++ B, ((insertedAt p A B F m off item).items x).xid = (p.items x).xid := fun x hx => by
    have hne : x ≠ off := fun heq => (mem_append.mp (heq ▸ hx)).elim hoffA hoffB
    have hentry : (insertedAt p A B F m off item).entry x = p.entry x := entry_patched hne rfl
    exact congrArg (fun e => e.2.2) hentry
  refine ⟨doublyLinked_append.mpr ⟨hlA', ?_, ?_, hlB'⟩, rfl, rfl, ?_, stacked_patched hplace.free hoffF hF rfl, rfl, ?_⟩
  · exact congrArg QueueItem.prev hself
  · exact congrArg QueueItem.next hself
  · refine pairwise_insert h.sorted hxid (fun x hx => ?_) fun x hx => ?_
    · rw [hself]
      exact hplace.older x hx
    · rw [hself]
      exact hplace.newer x hx
  · exact List.Perm.trans (by simp [insertedAt]) hplace.slots

theorem insertedAt_entries (hplace : p.Place n off xid A B F m) :
    ((A ++ off :: B).map (insertedAt p A B F m off item).entry).Perm
      ((off, item.blkno, item.xid) :: (A ++ B).map p.entry) := by
  obtain ⟨-, hoffA, hoffB, -⟩ := slots_apart hplace.slots
  have hsame : ∀ x, x ≠ off → (insertedAt p A B F m off item).entry x = p.entry x := fun x hx => entry_patched hx rfl
  have hself : (insertedAt p A B F m off item).entry off = (off, item.blkno, item.xid) := by
    simp [QueuePage.entry, insertedAt]
  rw [map_append, map_cons, hself, map_append,
    map_congr_left fun x hx => hsame x fun heq => hoffA (heq ▸ hx),
    map_congr_left fun x hx => hsame x fun heq => hoffB (heq ▸ hx)]
  exact perm_middle

end Insert

section Remove

variable {p : QueuePage} {n off : Nat} {A B F : List Nat}

/-- The page without the item between `A` and `B`. -/
def removedAt (p : QueuePage) (A B : List Nat) (off : Nat) : QueuePage where
  header := { p.header with
    head := (A ++ B).headD invalidOffset
    tail := (A ++ B).getLastD invalidOffset
    freeListHead := off }
  items := Function.update (patched p.items A B (B.headD invalidOffset) (A.getLastD invalidOffset)) off
    ⟨0, invalidBlkno, invalidOffset, p.header.freeListHead⟩

theorem QueuePage.Holds.apart (h : p.Holds n (A ++ off :: B) F) :
    (A ++ B).Nodup ∧ off ∉ A ∧ off ∉ B ∧ off ∉ F ∧ (∀ x ∈ F, x ∉ A ∧ x ∉ B) ∧ ∀ x ∈ off :: (A ++ B), x < n := by
  refine slots_apart (m := p.header.freeItems) (List.Perm.trans ?_ h.slots)
  simpa using perm_middle.symm

theorem removed_links (h : p.Holds n (A ++ off :: B) F) :
    (p.items off).prev = A.getLastD invalidOffset ∧ (p.items off).next = B.headD invalidOffset := by
  obtain ⟨-, hprev, hnext, -⟩ := doublyLinked_append.mp h.linked
  exact ⟨hprev, hnext⟩

theorem unlinkItem_eq (hn : n ≤ recycleMaxItems) (h : p.Holds n (A ++ off :: B) F) (hd : QueueHeader) :
    unlinkItem ⟨hd, p.items⟩ (p.items off) =
      some ⟨hd, patched p.items A B (B.headD invalidOffset) (A.getLastD invalidOffset)⟩ := by
  obtain ⟨hnd, -, -, -, -, hlt⟩ := h.apart
  obtain ⟨hprev, hnext⟩ := removed_links h
  rw [unlinkItem, hprev, hnext]
  exact link_neighbours hn (fun x hx => hlt x (mem_cons_of_mem off (mem_append_left B hx)))
    (fun x hx => hlt x (mem_cons_of_mem off (mem_append_right A hx))) (nodup_append'.mp hnd).2.2

theorem removeOne_eq (hn : n ≤ recycleMaxItems) (h : p.Holds n (A ++ off :: B) F) :
    removeOneItemFromPage p off = some (removedAt p A B off,
      logModifyPage false off (p.items off) (removedAt p A B off).header p.header.freeListHead) := by
  obtain ⟨-, hoffA, hoffB, -, -, hlt⟩ := h.apart
  obtain ⟨hprev, hnext⟩ := removed_links h
  have hhead : (if p.header.head = off then { p.header with head := (p.items off).next } else p.header) =
      { p.header with head := (A ++ B).headD invalidOffset } := by
    rw [h.head, hnext]
    cases A with
    | nil => exact if_pos rfl
    | cons a A =>
      have hne : a ≠ off := fun heq => hoffA (heq ▸ mem_cons_self ..)
      refine (if_neg hne).trans ?_
      rw [cons_append, headD_cons, ← (show p.header.head = a from h.head)]
  have htail : (if p.header.tail = off then (p.items off).prev else p.header.tail) =
      (A ++ B).getLastD invalidOffset := by
    rw [h.tail, hprev, getLastD_append, getLastD_append, getLastD_cons]
    cases B with
    | nil => exact if_pos rfl
    | cons b B =>
      have hne : (b :: B).getLastD off ≠ off := fun heq =>
        hoffB (heq ▸ getLastD_mem_of_ne_nil (cons_ne_nil b B))
      rw [if_neg hne]
      exact getLastD_congr (cons_ne_nil b B)
  rw [removeOneItemFromPage, getItem_of_lt hn (hlt off (mem_cons_self ..))]
  simp only [bind_eq_bind, bind_some, hhead]
  have hboth : ∀ H, (if p.header.tail = off then { p.header with head := H, tail := (p.items off).prev }
      else { p.header with head := H }) =
      { p.header with head := H, tail := (A ++ B).getLastD invalidOffset } := fun H => by
    rw [← htail]
    split_ifs <;> rfl
  rw [hboth, unlinkItem_eq hn h, bind_some]
  rfl

theorem redo_removedAt (hn : n ≤ recycleMaxItems) (h : p.Holds n (A ++ off :: B) F) :
    xlogRecycleQueueModifyPage p
        (logModifyPage false off (p.items off) (removedAt p A B off).header p.header.freeListHead) =
      some (removedAt p A B off) := by
  rw [xlogRecycleQueueModifyPage]
  simp only [logModifyPage]
  rw [getItem_of_lt hn (h.apart.2.2.2.2.2 off (mem_cons_self ..))]
  simp only [bind_eq_bind, bind_some, QueuePage.putItem, update_eq_self, Bool.false_eq_true,
    if_false]
  rw [unlinkItem_eq hn h, bind_some]
  rfl

theorem removedAt_holds (h : p.Holds n (A ++ off :: B) F) : (removedAt p A B off).Holds n (A ++ B) (off :: F) := by
  obtain ⟨hnd, hoffA, hoffB, hoffF, hF, -⟩ := h.apart
  obtain ⟨hlA, -, -, hlB⟩ := doublyLinked_append.mp h.linked
  obtain ⟨hlA', hlB'⟩ := @patched_linked A B off p.items (B.headD invalidOffset) (A.getLastD invalidOffset)
    ⟨0, invalidBlkno, invalidOffset, p.header.freeListHead⟩ _ _ hlA hlB hnd hoffA hoffB
  refine ⟨doublyLinked_append.mpr ⟨hlA', hlB'⟩, rfl, rfl, ?_, ⟨?_, stacked_patched h.free hoffF hF rfl⟩, rfl, ?_⟩
  · have hsub : (A ++ B).Sublist (A ++ off :: B) := (List.Sublist.refl A).append (sublist_cons_self off B)
    refine (h.sorted.sublist hsub).imp_of_mem fun {x y} hx hy hxy => ?_
    have hentry : ∀ z ∈ A ++ B, ((removedAt p A B off).items z).xid = (p.items z).xid := fun z hz => by
      have hne : z ≠ off := fun heq => (mem_append.mp (heq ▸ hz)).elim hoffA hoffB
      simp only [removedAt, update_of_ne hne, patched_xid]
    rwa [hentry x hx, hentry y hy]
  · simp only [removedAt, update_self]
    exact h.freeHead
  · refine List.Perm.trans ?_ h.slots
    simp only [removedAt, append_assoc, cons_append]
    refine List.Perm.append_left A ?_
    simp

theorem removedAt_entries (h : p.Holds n (A ++ off :: B) F) :
    ((A ++ off :: B).map p.entry).Perm (p.entry off :: (A ++ B).map (removedAt p A B off).entry) := by
  obtain ⟨-, hoffA, hoffB, -⟩ := h.apart
  have hsame : (A ++ B).map (removedAt p A B off).entry = (A ++ B).map p.entry :=
    map_congr_left fun x hx =>
      entry_patched (fun heq => (mem_append.mp (heq ▸ hx)).elim hoffA hoffB) rfl
  rw [hsame, map_append, map_append]
  exact perm_middle

end Remove

theorem blockGetMaxItems_le (blkno : Nat) : blockGetMaxItems blkno ≤ recycleMaxItems :=
  Nat.div_le_div_right (Nat.sub_le _ _)

theorem initRecycleQueuePage_holds (blkno : Nat) :
    (initRecycleQueuePage blkno).Holds (blockGetMaxItems blkno) [] [] :=
  ⟨trivial, rfl, rfl, .nil, trivial, rfl, List.Perm.refl _⟩

variable {held : List (Nat × Nat × Nat)} {p : QueuePage}

/-- An item of the page that was put there stands in the list of the occupied ones. -/
theorem occupied_split {L : List Nat} {e : Nat × Nat × Nat}
    (h : (L.map p.entry).Perm held) (he : e ∈ held) : p.entry e.1 = e ∧ ∃ A B, L = A ++ e.1 :: B := by
  obtain ⟨x, hx, rfl⟩ := mem_map.mp (h.mem_iff.mpr he)
  exact ⟨rfl, append_of_mem hx⟩

/-- Every page that insertions and removals lead to keeps its lists. -/
theorem QueueReached.holds {blkno : Nat}
    (h : QueueReached blkno p held) :
    ∃ L F, p.Holds (blockGetMaxItems blkno) L F ∧ (L.map p.entry).Perm held := by
  have hn := blockGetMaxItems_le blkno
  induction h with
  | init => exact ⟨[], [], initRecycleQueuePage_holds blkno, List.Perm.refl _⟩
  | @insert p p' rec held b xid _ halloc hins ih =>
    obtain ⟨L, F, hp, hheld⟩ := ih
    obtain ⟨A, B, F', m, item, rfl, hplace, rfl, rfl, heq⟩ := insertOn_eq hn hp halloc b xid
    cases hins.symm.trans heq
    exact ⟨_, _, insertedAt_holds hp hplace, (insertedAt_entries hplace).trans (hheld.cons _)⟩
  | remove _ hperm hrem ih =>
    obtain ⟨L, F, hp, hheld⟩ := ih
    obtain ⟨hentry, A, B, rfl⟩ := occupied_split hheld (hperm.mem_iff.mpr (mem_cons_self ..))
    cases hrem.symm.trans (removeOne_eq hn hp)
    have hrest := (removedAt_entries hp).symm.trans (hheld.trans hperm)
    rw [hentry] at hrest
    exact ⟨_, _, removedAt_holds hp, hrest.cons_inv⟩

/-- On every page that insertions and removals lead to, the occupied items form one doubly linked list in the
order of their xids with exactly the pairs inserted and not yet removed, the slots are shared out between this
list, the free list and the never used slots, and every further insertion or removal goes through and is
repeated by its record. -/
theorem recycle_queue_page_lists (blkno : Nat) (p : QueuePage) (held : List (Nat × Nat × Nat))
    (h : QueueReached blkno p held) :
    (∃ L F, p.Holds (blockGetMaxItems blkno) L F ∧ (L.map p.entry).Perm held) ∧
      (∀ b xid, pageAllocateItem p ≠ invalidOffset →
        ∃ p' rec, insertOnRecycleQueuePage p (pageAllocateItem p) b xid = some (p', rec) ∧
          xlogRecycleQueueModifyPage p rec = some p') ∧
      ∀ e ∈ held, ∃ p' rec, removeOneItemFromPage p e.1 = some (p', rec) ∧
        xlogRecycleQueueModifyPage p rec = some p' := by
  have hn := blockGetMaxItems_le blkno
  obtain ⟨L, F, hp, hheld⟩ := h.holds
  refine ⟨⟨L, F, hp, hheld⟩, fun b xid halloc => ?_, fun e he => ?_⟩
  · obtain ⟨A, B, F', m, item, rfl, hplace, -, -, heq⟩ := insertOn_eq hn hp halloc b xid
    exact ⟨_, _, heq, redo_insertedAt hn hplace⟩
  · obtain ⟨-, A, B, rfl⟩ := occupied_split hheld he
    exact ⟨_, _, removeOne_eq hn hp, redo_removedAt hn hp⟩

/-- Two items, the newer one inserted first. -/
theorem recycle_queue_page_two_items : ∃ p, QueueReached 5 p [(507, 41, 7), (508, 40, 9)] ∧
    ∃ L F, p.Holds (blockGetMaxItems 5) L F ∧ (L.map p.entry).Perm [(507, 41, 7), (508, 40, 9)] := by
  have h₁ := @QueueReached.insert 5 _ _ _ _ 40 9 .init (by decide) rfl
  have h₂ := @QueueReached.insert 5 _ _ _ _ 41 7 h₁ (by decide) rfl
  exact ⟨_, h₂, (recycle_queue_page_lists 5 _ _ h₂).1⟩

end RecycleQueue

end XStore
