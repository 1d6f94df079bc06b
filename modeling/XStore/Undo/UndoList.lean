import XStore.Undo.Record
import XStore.Sort.PgQsortCorrect

/-!
# The sorted undo list

`push_undo_list` numbers the records in fetch order, `undo_record_comparator` compares two of
them, and `qsort_undo_list` sorts the list so that the records of one block can be applied
together.  `execute_undo_actions` relies on the records of a block being adjacent and newest first.
-/
namespace XStore

open List

variable {β : Type*}

def pushUndoList (ulist : List (UnpackedUndoRecord β)) (u : UnpackedUndoRecord β) :
    List (UnpackedUndoRecord β) :=
  ulist ++ [{ u with bufferIdx := ulist.length }]

/-- The undo list of the given records in the order they were fetched, newest first. -/
def fetchedList (rs : List (UnpackedUndoRecord β)) : List (UnpackedUndoRecord β) :=
  rs.foldl pushUndoList []

def undoRecordComparator (luur ruur : UnpackedUndoRecord β) : Int :=
  if luur.uurTablespace < ruur.uurTablespace then -1
  else if luur.uurTablespace > ruur.uurTablespace then 1
  else if luur.uurRelfilenode < ruur.uurRelfilenode then -1
  else if luur.uurRelfilenode > ruur.uurRelfilenode then 1
  else if luur.uurBlkno = ruur.uurBlkno then
    if luur.bufferIdx < ruur.bufferIdx then -1 else 1
  else if luur.uurBlkno < ruur.uurBlkno then -1
  else if luur.subxidValue < ruur.subxidValue then -1
  else 1

def qsortUndoList [Inhabited β] (ulist : List (UnpackedUndoRecord β)) :
    List (UnpackedUndoRecord β) :=
  (Sort.qsort undoRecordComparator (.ofList ulist)).toList

def SameRelation (a b : UnpackedUndoRecord β) : Prop :=
  a.uurTablespace = b.uurTablespace ∧ a.uurRelfilenode = b.uurRelfilenode

/-- Two records are of one block, as `execute_undo_actions` groups them. -/
def SameBlock (a b : UnpackedUndoRecord β) : Prop := SameRelation a b ∧ a.uurBlkno = b.uurBlkno

instance (a b : UnpackedUndoRecord β) : Decidable (SameRelation a b) :=
  inferInstanceAs (Decidable (_ ∧ _))

instance (a b : UnpackedUndoRecord β) : Decidable (SameBlock a b) :=
  inferInstanceAs (Decidable (_ ∧ _))

/-- The comparator is a strict total order on the records of the list. -/
structure StrictTotalOrder (cmp : UnpackedUndoRecord β → UnpackedUndoRecord β → Int)
    (l : List (UnpackedUndoRecord β)) : Prop where
  total : ∀ a ∈ l, ∀ b ∈ l, a ≠ b → cmp a b < 0 ∨ cmp b a < 0
  flip : ∀ a ∈ l, ∀ b ∈ l, a ≠ b → (cmp a b < 0 ↔ 0 < cmp b a)
  trans : ∀ a ∈ l, ∀ b ∈ l, ∀ c ∈ l, a ≠ b → b ≠ c → a ≠ c →
    cmp a b < 0 → cmp b c < 0 → cmp a c < 0

/-- The records of one block stand next to each other, in fetch order. -/
structure GroupedInFetchOrder (l : List (UnpackedUndoRecord β)) : Prop where
  contiguous : ∀ a b c, [a, b, c].Sublist l → SameBlock a c → SameBlock a b
  newestFirst : ∀ a b, [a, b].Sublist l → SameBlock a b → a.bufferIdx < b.bufferIdx

/-- The order the sort is meant to produce: relation file, block, fetch index. -/
def BlockBefore (a b : UnpackedUndoRecord β) : Prop :=
  a.uurTablespace < b.uurTablespace ∨ a.uurTablespace = b.uurTablespace ∧
    (a.uurRelfilenode < b.uurRelfilenode ∨ a.uurRelfilenode = b.uurRelfilenode ∧
      (a.uurBlkno < b.uurBlkno ∨ a.uurBlkno = b.uurBlkno ∧ a.bufferIdx < b.bufferIdx))

/-- Within one relation file, a record of a higher block never has the smaller subtransaction
id.  Records written at top level count with id zero. -/
def SubxidsFollowBlocks (l : List (UnpackedUndoRecord β)) : Prop :=
  ∀ a ∈ l, ∀ b ∈ l, SameRelation a b → b.uurBlkno < a.uurBlkno → b.subxidValue ≤ a.subxidValue

section FetchOrder

theorem foldl_push_idx (rs acc : List (UnpackedUndoRecord β))
    (hacc : ∀ i (h : i < acc.length), acc[i].bufferIdx = i) :
    ∀ i (h : i < (rs.foldl pushUndoList acc).length),
      (rs.foldl pushUndoList acc)[i].bufferIdx = i := by
  induction rs generalizing acc with
  | nil => exact hacc
  | cons r rs ih =>
    refine ih (pushUndoList acc r) fun i hi => ?_
    simp only [pushUndoList, length_append, length_singleton] at hi
    rcases Nat.lt_or_ge i acc.length with hlt | hge
    · simp [pushUndoList, getElem_append_left hlt, hacc i hlt]
    · have heq : i = acc.length := by omega
      subst heq
      simp [pushUndoList]

/-- Record `i` of a fetched list carries the index `i`. -/
theorem fetchedList_bufferIdx (rs : List (UnpackedUndoRecord β)) (i : Nat)
    (h : i < (fetchedList rs).length) : (fetchedList rs)[i].bufferIdx = i :=
  foldl_push_idx rs [] (by simp) i h

theorem fetchedList_eq_of_bufferIdx {rs : List (UnpackedUndoRecord β)} {a b : UnpackedUndoRecord β}
    (ha : a ∈ fetchedList rs) (hb : b ∈ fetchedList rs) (h : a.bufferIdx = b.bufferIdx) :
    a = b := by
  obtain ⟨i, hi, rfl⟩ := getElem_of_mem ha
  obtain ⟨j, hj, rfl⟩ := getElem_of_mem hb
  rw [fetchedList_bufferIdx, fetchedList_bufferIdx] at h
  simp [h]

end FetchOrder

section Order

variable {rs : List (UnpackedUndoRecord β)} {a b : UnpackedUndoRecord β}

section

variable (h : SubxidsFollowBlocks (fetchedList rs))

include h

/-- When subtransaction ids follow the blocks, the branch on them changes nothing. -/
theorem comparator_neg_iff
    (ha : a ∈ fetchedList rs) (hb : b ∈ fetchedList rs) :
    undoRecordComparator a b < 0 ↔ BlockBefore a b := by
  have hab := h a ha b hb
  unfold SameRelation at hab
  unfold undoRecordComparator BlockBefore
  split_ifs <;> omega

theorem comparator_pos_iff
    (ha : a ∈ fetchedList rs) (hb : b ∈ fetchedList rs) (hab : a ≠ b) :
    0 < undoRecordComparator a b ↔ BlockBefore b a := by
  have hne : a.bufferIdx ≠ b.bufferIdx := fun he => hab (fetchedList_eq_of_bufferIdx ha hb he)
  have hsub := h a ha b hb
  unfold SameRelation at hsub
  unfold undoRecordComparator BlockBefore
  split_ifs <;> omega

theorem strictTotalOrder_of_subxids :
    StrictTotalOrder undoRecordComparator (fetchedList rs) := by
  refine ⟨fun a ha b hb hab => ?_, fun a ha b hb hab => ?_, fun a ha b hb c hc _ _ _ h1 h2 => ?_⟩
  · have hne : a.bufferIdx ≠ b.bufferIdx := fun he => hab (fetchedList_eq_of_bufferIdx ha hb he)
    rw [comparator_neg_iff h ha hb, comparator_neg_iff h hb ha]
    unfold BlockBefore
    omega
  · rw [comparator_neg_iff h ha hb, comparator_pos_iff h hb ha hab.symm]
  · rw [comparator_neg_iff h ha hb] at h1
    rw [comparator_neg_iff h hb hc] at h2
    rw [comparator_neg_iff h ha hc]
    unfold BlockBefore at *
    omega

end

/-- A record of a higher block with the smaller subtransaction id compares "less" both ways. -/
theorem subxids_of_strictTotalOrder (h : StrictTotalOrder undoRecordComparator (fetchedList rs)) :
    SubxidsFollowBlocks (fetchedList rs) := by
  intro a ha b hb ⟨hts, hrf⟩ hblk
  by_contra hsub
  have hne : a ≠ b := by rintro rfl; omega
  have hab : undoRecordComparator a b < 0 := by
    unfold undoRecordComparator
    split_ifs <;> omega
  have hba : undoRecordComparator b a < 0 := by
    unfold undoRecordComparator
    split_ifs <;> omega
  have := (h.flip a ha b hb hne).mp hab
  omega

/-- Sorted by block, the records of one block are adjacent and in fetch order. -/
theorem grouped_of_sorted {l : List (UnpackedUndoRecord β)} (h : l.Pairwise BlockBefore) :
    GroupedInFetchOrder l := by
  refine ⟨fun a b c hsub hac => ?_, fun a b hsub hab => ?_⟩
  · have hp := h.sublist hsub
    simp only [pairwise_cons, mem_cons, not_mem_nil, or_false, forall_eq_or_imp,
      forall_eq] at hp
    obtain ⟨⟨h1, -⟩, h2, -⟩ := hp
    unfold SameBlock SameRelation at *
    unfold BlockBefore at h1 h2
    omega
  · have hp := h.sublist hsub
    simp only [pairwise_cons, mem_singleton, forall_eq] at hp
    obtain ⟨h1, -⟩ := hp
    unfold SameBlock SameRelation at hab
    unfold BlockBefore at h1
    omega

end Order

section Sorting

variable [Inhabited β] {rs : List (UnpackedUndoRecord β)}

theorem ofList_get {l : List (UnpackedUndoRecord β)} {i : Nat} (h : i < l.length) :
    (Sort.Cells.ofList l).get i = l[i] := by
  simp [Sort.Cells.ofList, getD_eq_getElem?_getD, h]

theorem ofList_toList (l : List (UnpackedUndoRecord β)) : (Sort.Cells.ofList l).toList = l := by
  refine ext_getElem (by simp [Sort.Cells.toList, Sort.Cells.ofList]) fun i _ hi => ?_
  simp only [Sort.Cells.toList, getElem_map, getElem_range]
  exact ofList_get hi

theorem strictOn_of_strictTotalOrder
    (h : StrictTotalOrder undoRecordComparator (fetchedList rs)) :
    Sort.StrictOn undoRecordComparator 0 (fetchedList rs).length
      (.ofList (fetchedList rs)) := by
  have hlt : ∀ {i}, Sort.InSeg 0 (fetchedList rs).length i → i < (fetchedList rs).length :=
    fun hi => by unfold Sort.InSeg at hi; omega
  have hne : ∀ {i j} (hi : i < (fetchedList rs).length) (hj : j < (fetchedList rs).length),
      i ≠ j → (fetchedList rs)[i] ≠ (fetchedList rs)[j] := by
    intro i j hi hj hij heq
    have := congrArg UnpackedUndoRecord.bufferIdx heq
    rw [fetchedList_bufferIdx, fetchedList_bufferIdx] at this
    exact hij this
  refine ⟨fun i j hi hj hij => ?_, fun i j hi hj hij => ?_, fun i j k hi hj hk hij hjk hik => ?_⟩
  · rw [ofList_get (hlt hi), ofList_get (hlt hj)]
    exact h.total _ (getElem_mem _) _ (getElem_mem _) (hne _ _ hij)
  · rw [ofList_get (hlt hi), ofList_get (hlt hj)]
    exact (h.flip _ (getElem_mem _) _ (getElem_mem _) (hne _ _ hij.symm)).symm
  · rw [ofList_get (hlt hi), ofList_get (hlt hj), ofList_get (hlt hk)]
    exact h.trans _ (getElem_mem _) _ (getElem_mem _) _ (getElem_mem _)
      (hne _ _ hij) (hne _ _ hjk) (hne _ _ hik)

/-- Sorting under a strict total order rearranges the list into increasing order. -/
theorem qsortUndoList_sorted (h : StrictTotalOrder undoRecordComparator (fetchedList rs)) :
    (qsortUndoList (fetchedList rs)).Perm (fetchedList rs) ∧
      (qsortUndoList (fetchedList rs)).Pairwise fun a b => undoRecordComparator a b < 0 := by
  obtain ⟨hperm, hsorted⟩ := Sort.pgQsort_spec (fetchedList rs).length 0 (fetchedList rs).length _
    le_rfl (strictOn_of_strictTotalOrder h)
  have hsize : (Sort.qsort undoRecordComparator (.ofList (fetchedList rs))).size =
      (fetchedList rs).length := by
    obtain ⟨σ, -, hσ⟩ := hperm
    exact congrArg Sort.Cells.size hσ
  unfold qsortUndoList Sort.Cells.toList
  rw [hsize]
  constructor
  · have := hperm.map_range_perm
    rwa [show (List.range (fetchedList rs).length).map (Sort.Cells.ofList (fetchedList rs)).get =
      fetchedList rs from ofList_toList _] at this
  · rw [pairwise_map]
    refine pairwise_lt_range.imp_of_mem fun {i j} hi hj hij => ?_
    exact hsorted i j (Nat.zero_le i) hij (by simpa using hj)

end Sorting

/-- The comparator orders the undo list strictly and totally, and sorting leaves the records of
each block adjacent and in fetch order, exactly when no record of a higher block of a relation
carries a smaller subtransaction id than a record of a lower one. -/
theorem undoRecordComparator_sorts_iff [Inhabited β] (rs : List (UnpackedUndoRecord β)) :
    (StrictTotalOrder undoRecordComparator (fetchedList rs) ∧
      (qsortUndoList (fetchedList rs)).Perm (fetchedList rs) ∧
      GroupedInFetchOrder (qsortUndoList (fetchedList rs))) ↔
      SubxidsFollowBlocks (fetchedList rs) := by
  constructor
  · rintro ⟨h, -⟩
    exact subxids_of_strictTotalOrder h
  · intro h
    have hord := strictTotalOrder_of_subxids h
    obtain ⟨hperm, hsorted⟩ := qsortUndoList_sorted hord
    refine ⟨hord, hperm, grouped_of_sorted (hsorted.imp_of_mem fun {a b} ha hb hab => ?_)⟩
    exact (comparator_neg_iff h (hperm.mem_iff.mp ha) (hperm.mem_iff.mp hb)).mp hab

/-- Three insert records in fetch order: block 2 at top level, block 1 in subtransaction 12, block
2 at top level. -/
def mixedSubxids : List HeapRecord :=
  [⟨7, 2, 16384, 16384, 1663, 2, 2, 0, 0, 0#16, none, .insert, 300, 0⟩,
   ⟨7, 1, 16384, 16384, 1663, 1, 1, 0, 0, 0#16, some 12, .insert, 200, 0⟩,
   ⟨7, 0, 16384, 16384, 1663, 2, 1, 0, 0, 0#16, none, .insert, 100, 0⟩]

/-- The first two of these records compare "less" in both orders, and the sort leaves the records
of block 2 on either side of the record of block 1. -/
theorem undoRecordComparator_not_antisymmetric :
    undoRecordComparator (fetchedList mixedSubxids)[0] (fetchedList mixedSubxids)[1] < 0 ∧
      undoRecordComparator (fetchedList mixedSubxids)[1] (fetchedList mixedSubxids)[0] < 0 ∧
      ¬ GroupedInFetchOrder (qsortUndoList (fetchedList mixedSubxids)) := by
  refine ⟨by decide, by decide, fun h => ?_⟩
  have hsort : qsortUndoList (fetchedList mixedSubxids) = fetchedList mixedSubxids := by decide
  rw [hsort] at h
  exact absurd (h.contiguous _ _ _ (List.Sublist.refl _) (by decide)) (by decide)

end XStore
