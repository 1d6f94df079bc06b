import XStore.Heap.Compaction
import XStore.Heap.TupleRoundTrip

/-!
# Which rows pruning touches

The scan of a page that decides which rows are freed and which give up spare bytes.  A row is freed when
a delete or a non-in-place update of it is older than every snapshot; a row that was updated in place
gives up what its tuple does not need once the update has committed, however recent it is.
-/
namespace XStore

open List

/-- A session that prunes, with the transaction status it finds. -/
structure PruneEnv extends ReadEnv where
  /-- `TransactionIdIsInProgress` -/
  isInProgress : Nat → Bool

inductive XHTSVResult where
  | dead
  | live
  | recentlyDead
  | insertInProgress
  | deleteInProgress
  | abortInProgress
  deriving DecidableEq

/-- The result of `xheap_tuple_satisfies_oldest_xmin` with what it stores. -/
structure OldestXminCheck where
  result : XHTSVResult
  xid : Nat
  inplaceUpdated : Bool
  deriving DecidableEq

section Scan

variable (env : PruneEnv) (load : Nat → UndoLoad HeapUndo)

/-- `xheap_tuple_get_trans_info` ends with `UNDO_TRAVERSAL_ABORT`: the row is one of the session's own,
and its undo record has been discarded by force. -/
def undoAborted (t : XHeapDiskTuple) : Bool :=
  env.isCurrentTransactionId t.modifiedXid &&
    match fetchUndoRecord load invalidXid 1 t.urec with
    | some .abort => true
    | _ => false

/-- `xheap_tuple_satisfies_oldest_xmin` with `resolve_abort_in_progress` unset. -/
def xheapTupleSatisfiesOldestXmin (oldestXmin : Nat) (t : XHeapDiskTuple) : OldestXminCheck :=
  let xid := t.modifiedXid
  if t.isDeleted then
    if undoAborted env load t then ⟨.recentlyDead, xid, false⟩
    else if olderThanAllUndo env.globalFrozenXid xid then ⟨.dead, xid, false⟩
    else if env.isInProgress xid then ⟨.deleteInProgress, xid, false⟩
    else if env.didCommit xid then
      if ¬ xid < oldestXmin then ⟨.recentlyDead, xid, false⟩ else ⟨.dead, xid, false⟩
    else ⟨.abortInProgress, xid, false⟩
  else if undoAborted env load t then ⟨.live, invalidXid, t.isInPlaceUpdated⟩
  else if olderThanAllUndo env.globalFrozenXid xid then ⟨.live, xid, t.isInPlaceUpdated⟩
  else if env.isInProgress xid then ⟨.insertInProgress, xid, false⟩
  else if env.didCommit xid then ⟨.live, xid, t.isInPlaceUpdated⟩
  else ⟨.abortInProgress, xid, false⟩

def xstoreTransactionIdIsInProgress (xid : Nat) : Bool :=
  !olderThanAllUndo env.globalFrozenXid xid && env.isInProgress xid

def xstoreTransactionIdDidCommit (xid : Nat) : Bool :=
  olderThanAllUndo env.globalFrozenXid xid || env.didCommit xid

structure PruneScan where
  prstate : XPruneState
  newPruneXid : Nat
  latestRemovedXid : Nat
  remain : Nat
  ndeleted : Nat
  spaceFreed : Nat
  deriving DecidableEq

/-- `xheap_prune_record_prunable` -/
def PruneScan.recordPrunable (s : PruneScan) (xid : Nat) : PruneScan :=
  if s.newPruneXid = invalidXid ∨ xid < s.newPruneXid then { s with newPruneXid := xid } else s

/-- What the switch of `xheap_prune_item` counts. -/
def PruneScan.count (s : PruneScan) (t : XHeapDiskTuple) (c : OldestXminCheck) : PruneScan :=
  match c.result with
  | .deleteInProgress => { s with remain := s.remain + 1 }.recordPrunable c.xid
  | .live => { s with remain := s.remain + 1 }
  | .abortInProgress =>
    if t.isDeleted || t.isInPlaceUpdated then { s with remain := s.remain + 1 } else s
  | _ => s

/-- `xheap_prune_record_fixed` where the row has spare bytes. -/
def PruneScan.fixLength (s : PruneScan) (desc : TupleDesc) (off : Nat) (r : Row) : PruneScan :=
  let tupSize := xheapCalTupleSize r.tup desc
  if tupSize < r.rp.len then
    { s with prstate :=
        { s.prstate with nowfixed := s.prstate.nowfixed ++ [(off, tupSize % 2 ^ 16)] } }
  else s

/-- What `xheap_prune_item` does with a dead row. -/
def PruneScan.removeRow (s : PruneScan) (off : Nat) (r : Row) (xid : Nat) : Except Panic PruneScan :=
  if xid ≠ invalidXid ∧ xstoreTransactionIdIsInProgress env xid then
    .error (.prunedInProgress xid env.globalFrozenXid)
  else .ok
    { s with
      latestRemovedXid :=
        if xstoreTransactionIdDidCommit env xid then max xid s.latestRemovedXid
        else s.latestRemovedXid
      ndeleted := s.ndeleted + 1
      spaceFreed := s.spaceFreed + shortAlign r.rp.len
      prstate := { s.prstate with nowunused := s.prstate.nowunused ++ [off] } }

def xheapPruneItem (desc : TupleDesc) (oldestXmin : Nat) (isTarget : Bool) (off : Nat) (r : Row)
    (s : PruneScan) : Except Panic PruneScan :=
  let c := xheapTupleSatisfiesOldestXmin env load oldestXmin r.tup
  let s := s.count r.tup c
  let s := if c.inplaceUpdated && !isTarget then s.fixLength desc off r else s
  if c.result = .dead then s.removeRow env off r c.xid else .ok s

/-- The scan of `xheap_page_prune_guts` and `xheap_page_prune` over the page.  No offset is met twice, so
that none is `marked` yet. -/
def pruneScan (desc : TupleDesc) (oldestXmin : Nat) (isTarget : Nat → Bool) (p : XPage)
    (s : PruneScan) : Except Panic PruneScan :=
  (List.range' firstOffsetNumber p.maxOffset).foldlM
    (fun s off =>
      if (p.row off).rp.isUsed then
        xheapPruneItem env load desc oldestXmin (isTarget off) off (p.row off) s
      else .ok s) s

end Scan

/-- The row with the bytes that a shorter row pointer leaves it. -/
def XHeapDiskTuple.cut (t : XHeapDiskTuple) (len : Nat) : XHeapDiskTuple :=
  { t with body := t.body.take (len - sizeOfXHeapDiskTupleData) }

section Safety

variable (env : PruneEnv) (load : Nat → UndoLoad HeapUndo) (desc : TupleDesc) (oldestXmin : Nat)

/-- What holds on every page while transactions run.  The changes of an aborted transaction are undone
before it is older than all undo, so that one which is still on a row has committed; and the undo of a
running transaction is kept. -/
structure PruneEnv.Meets (p : XPage) : Prop where
  older_committed : ∀ off, (p.row off).rp.isUsed = true →
    olderThanAllUndo env.globalFrozenXid (p.row off).tup.modifiedXid = true →
    env.didCommit (p.row off).tup.modifiedXid = true
  own_kept : ∀ off, (p.row off).rp.isUsed = true → undoAborted env load (p.row off).tup = false

/-- Nobody needs the row: its delete or non-in-place update has committed, cannot be rolled back any
more, and is seen by every snapshot there is. -/
structure Removable (t : XHeapDiskTuple) : Prop where
  deleted : t.isDeleted = true
  committed : env.didCommit t.modifiedXid = true
  ended : xstoreTransactionIdIsInProgress env t.modifiedXid = false
  older : t.modifiedXid < oldestXmin ∨ olderThanAllUndo env.globalFrozenXid t.modifiedXid = true
  seen : ∀ s : Snapshot, frozenXid < s.xmin → oldestXmin ≤ s.xmin → env.globalFrozenXid ≤ s.xmin →
    env.sees s t.modifiedXid = true

/-- The row keeps its columns in the first `len` bytes, and the update that left spare bytes behind them
has committed. -/
structure Shortened (r : Row) (len : Nat) : Prop where
  inplace : r.tup.isInPlaceUpdated = true
  kept : r.tup.isDeleted = false
  committed : env.didCommit r.tup.modifiedXid = true
  ended : xstoreTransactionIdIsInProgress env r.tup.modifiedXid = false
  shorter : len < r.rp.len
  size_eq : ∀ (desc₀ : TupleDesc) (row : RowValues desc₀) (opt : Bool), r.tup.Stores row opt →
    desc.Extends desc₀ → len = row.size opt
  values_eq : ∀ (desc₀ : TupleDesc) (row : RowValues desc₀) (opt : Bool), r.tup.Stores row opt →
    desc.Extends desc₀ → columnValues desc.attrs (xheapDeformTuple (r.tup.cut len) desc) =
      columnValues desc.attrs (xheapDeformTuple r.tup desc)

variable {env load desc oldestXmin} {desc₀ : TupleDesc} {t : XHeapDiskTuple} {opt : Bool}

theorem sees_of_older {xid : Nat} (hcommit : env.didCommit xid = true)
    (holder : xid < oldestXmin ∨ olderThanAllUndo env.globalFrozenXid xid = true) {s : Snapshot}
    (hnormal : frozenXid < s.xmin) (hxmin : oldestXmin ≤ s.xmin)
    (hfrozen : env.globalFrozenXid ≤ s.xmin) : env.sees s xid = true := by
  have hlt : xid < s.xmin := by
    simp only [olderThanAllUndo, Bool.or_eq_true, decide_eq_true_eq] at holder
    rcases holder with h | h | h
    · omega
    · omega
    · omega
  simp [ReadEnv.sees, xidInMVCCSnapshot, hlt, hcommit]

theorem removable_of_dead
    (holder : olderThanAllUndo env.globalFrozenXid t.modifiedXid = true →
      env.didCommit t.modifiedXid = true)
    (h : (xheapTupleSatisfiesOldestXmin env load oldestXmin t).result = .dead) :
    Removable env oldestXmin t := by
  simp only [xheapTupleSatisfiesOldestXmin] at h
  split_ifs at h with hdel habort hold hprog hcommit hrecent
  all_goals try cases h
  · have hc := holder hold
    exact ⟨hdel, hc, by simp [xstoreTransactionIdIsInProgress, hold], .inr hold,
      fun s h₁ h₂ h₃ => sees_of_older hc (.inr hold) h₁ h₂ h₃⟩
  · exact ⟨hdel, hcommit, by simp [xstoreTransactionIdIsInProgress, hprog], .inl hrecent,
      fun s h₁ h₂ h₃ => sees_of_older hcommit (.inl hrecent) h₁ h₂ h₃⟩

theorem committed_of_inplaceUpdated
    (holder : olderThanAllUndo env.globalFrozenXid t.modifiedXid = true →
      env.didCommit t.modifiedXid = true) (hkept : undoAborted env load t = false)
    (h : (xheapTupleSatisfiesOldestXmin env load oldestXmin t).inplaceUpdated = true) :
    t.isInPlaceUpdated = true ∧ t.isDeleted = false ∧ env.didCommit t.modifiedXid = true ∧
      xstoreTransactionIdIsInProgress env t.modifiedXid = false := by
  simp only [xheapTupleSatisfiesOldestXmin, hkept, Bool.false_eq_true, if_false] at h
  split_ifs at h with hdel hold hprog hcommit hrecent hold' hprog' hcommit'
  · exact ⟨h, by simpa using hdel, holder hold', by simp [xstoreTransactionIdIsInProgress, hold']⟩
  · exact ⟨h, by simpa using hdel, hcommit', by simp [xstoreTransactionIdIsInProgress, hprog']⟩

theorem XHeapDiskTuple.Stores.cut {row : RowValues desc₀}
    (h : t.Stores row opt) : (t.cut (row.size opt)).Stores row opt := by
  obtain ⟨spare, hbody⟩ := h.body
  refine ⟨h.natts, h.hasNulls, h.tHoff, [], ?_⟩
  have hlen : (row.formed opt).body.length = row.size opt - sizeOfXHeapDiskTupleData := by
    obtain ⟨hdata, hbitmap⟩ := row.filled_data opt
    simp only [RowValues.formed, length_append, hdata, hbitmap, RowValues.size,
      RowValues.headerSize]
    omega
  show t.body.take _ = _
  rw [hbody, ← hlen, take_left, append_nil]

theorem columnValues_congr {as bs : List PgAttribute} (h : List.Forall₂ PgAttribute.SameFormat as bs)
    (vals : List (Option Datum)) : columnValues as vals = columnValues bs vals := by
  induction h generalizing vals with
  | nil => rfl
  | @cons a b as bs hab _ ih =>
    have hvalue : a.value = b.value := by
      funext d
      cases d with
      | byval w => simp only [PgAttribute.value, hab.attlen]
      | pointer p => simp only [PgAttribute.value, attLength, hab.attlen]
    cases vals with
    | nil => rfl
    | cons v vals =>
      show v.map a.value :: columnValues as vals = v.map b.value :: columnValues bs vals
      rw [hvalue, ih vals]

/-- Two tuples that store one row have the same columns. -/
theorem XHeapDiskTuple.Stores.columnValues_eq {t t' : XHeapDiskTuple}
    {row : RowValues desc₀} (h : t.Stores row opt) (h' : t'.Stores row opt)
    (hext : desc.Extends desc₀) :
    columnValues desc.attrs (xheapDeformTuple t' desc) =
      columnValues desc.attrs (xheapDeformTuple t desc) := by
  obtain ⟨hvals, hmiss⟩ := h.carries.deform row.length_eq row.holds hext
  obtain ⟨hvals', hmiss'⟩ := h'.carries.deform row.length_eq row.holds hext
  have hlen : ∀ u : XHeapDiskTuple, desc₀.attrs.length ≤ (xheapDeformTuple u desc).length := fun u => by
    rw [xheapDeformTuple, xheapDeformTupleGuts_length le_rfl]
    exact hext.length_le
  -- the columns of the row come first, and the others are not in either tuple
  have hsplit : ∀ u : XHeapDiskTuple, columnValues desc.attrs (xheapDeformTuple u desc) =
      columnValues desc₀.attrs ((xheapDeformTuple u desc).take desc₀.attrs.length) ++
        columnValues (desc.attrs.drop desc₀.attrs.length)
          ((xheapDeformTuple u desc).drop desc₀.attrs.length) := by
    intro u
    rw [← columnValues_congr hext]
    conv_lhs => rw [← take_append_drop desc₀.attrs.length (xheapDeformTuple u desc),
      ← take_append_drop desc₀.attrs.length desc.attrs]
    refine zipWith_append ?_
    rw [length_take, length_take]
    have := hlen u
    have := hext.length_le
    omega
  rw [hsplit t, hsplit t', hvals, hvals', hmiss, hmiss']

theorem shortened_of_inplaceUpdated {r : Row}
    (holder : olderThanAllUndo env.globalFrozenXid r.tup.modifiedXid = true →
      env.didCommit r.tup.modifiedXid = true) (hkept : undoAborted env load r.tup = false)
    (h : (xheapTupleSatisfiesOldestXmin env load oldestXmin r.tup).inplaceUpdated = true)
    (hlen : r.rp.len ≤ blcksz) (hlt : xheapCalTupleSize r.tup desc < r.rp.len) :
    Shortened env desc r (xheapCalTupleSize r.tup desc % 2 ^ 16) := by
  obtain ⟨hin, hdel, hcommit, hended⟩ := committed_of_inplaceUpdated holder hkept h
  have hmod : xheapCalTupleSize r.tup desc % 2 ^ 16 = xheapCalTupleSize r.tup desc :=
    Nat.mod_eq_of_lt (by unfold blcksz at hlen; omega)
  rw [hmod]
  have hsize : ∀ (desc₀ : TupleDesc) (row : RowValues desc₀) (opt : Bool), r.tup.Stores row opt →
      desc.Extends desc₀ → xheapCalTupleSize r.tup desc = row.size opt := by
    intro desc₀ row opt hs hext
    rw [hs.carries.calTupleSize row.length_eq row.holds hext, hs.tHoff]
    rfl
  refine ⟨hin, hdel, hcommit, hended, hlt, hsize, fun desc₀ row opt hs hext => ?_⟩
  rw [hsize desc₀ row opt hs hext]
  exact hs.columnValues_eq hs.cut hext

structure PruneScan.Sound (env : PruneEnv) (desc : TupleDesc) (oldestXmin : Nat) (p : XPage)
    (s : PruneScan) : Prop where
  unused : ∀ off ∈ s.prstate.nowunused, (p.row off).rp.isUsed = true ∧
    Removable env oldestXmin (p.row off).tup
  fixed : ∀ f ∈ s.prstate.nowfixed, (p.row f.1).rp.isUsed = true ∧ Shortened env desc (p.row f.1) f.2

variable {p : XPage} {off : Nat} {s s' : PruneScan}

@[simp] theorem PruneScan.count_prstate (t : XHeapDiskTuple) (c : OldestXminCheck) :
    (s.count t c).prstate = s.prstate := by
  unfold count recordPrunable
  split
  · split <;> rfl
  · rfl
  · split <;> rfl
  · rfl

theorem PruneScan.Sound.item {isTarget : Bool} (h : s.Sound env desc oldestXmin p)
    (hmeets : env.Meets load p) (hused : (p.row off).rp.isUsed = true)
    (hlen : (p.row off).rp.len ≤ blcksz)
    (hrun : xheapPruneItem env load desc oldestXmin isTarget off (p.row off) s = .ok s') :
    s'.Sound env desc oldestXmin p := by
  have holder := hmeets.older_committed off hused
  have hkept := hmeets.own_kept off hused
  obtain ⟨c, hc⟩ : ∃ c, c = xheapTupleSatisfiesOldestXmin env load oldestXmin (p.row off).tup := ⟨_, rfl⟩
  simp only [xheapPruneItem, ← hc] at hrun
  -- the row may be recorded with a new length
  have hfix : (if c.inplaceUpdated && !isTarget then
      (s.count (p.row off).tup c).fixLength desc off (p.row off)
      else s.count (p.row off).tup c).Sound env desc oldestXmin p := by
    have hcount : (s.count (p.row off).tup c).Sound env desc oldestXmin p := by
      refine ⟨?_, ?_⟩
      · rw [count_prstate]
        exact h.unused
      · rw [count_prstate]
        exact h.fixed
    split
    case isFalse => exact hcount
    case isTrue hin =>
      simp only [Bool.and_eq_true] at hin
      simp only [PruneScan.fixLength]
      split
      case isFalse => exact hcount
      case isTrue hlt =>
        refine ⟨hcount.unused, fun f hf => ?_⟩
        rcases mem_append.mp hf with hf | hf
        · exact hcount.fixed f hf
        · rw [mem_singleton] at hf
          subst hf
          exact ⟨hused, shortened_of_inplaceUpdated holder hkept (hc ▸ hin.1) hlen hlt⟩
  generalize (if c.inplaceUpdated && !isTarget then _ else _ : PruneScan) = s₁ at hrun hfix
  split at hrun
  case isFalse =>
    cases hrun
    exact hfix
  case isTrue hdead =>
    unfold PruneScan.removeRow at hrun
    split at hrun
    · cases hrun
    · cases hrun
      refine ⟨fun o ho => ?_, hfix.fixed⟩
      rcases mem_append.mp ho with ho | ho
      · exact hfix.unused o ho
      · rw [mem_singleton] at ho
        subst ho
        exact ⟨hused, removable_of_dead holder (hc ▸ hdead)⟩

theorem PruneScan.Sound.items {isTarget : Nat → Bool} {offs : List Nat}
    (h : s.Sound env desc oldestXmin p) (hmeets : env.Meets load p)
    (hlen : ∀ off, (p.row off).rp.len ≤ blcksz)
    (hrun : offs.foldlM (fun s off =>
      if (p.row off).rp.isUsed then
        xheapPruneItem env load desc oldestXmin (isTarget off) off (p.row off) s
      else .ok s) s = .ok s') : s'.Sound env desc oldestXmin p := by
  induction offs generalizing s with
  | nil =>
    cases hrun
    exact h
  | cons off offs ih =>
    rw [foldlM_cons] at hrun
    obtain ⟨s₁, hitem, hrest⟩ := bind_ok hrun
    refine ih ?_ hrest
    split at hitem
    case isTrue hused => exact h.item hmeets hused (hlen off) hitem
    case isFalse =>
      cases hitem
      exact h

/-- Pruning frees a row only when its delete or non-in-place update has committed and is older than the
oldest xmin or than all undo.  It shortens a row only when the update in place has committed, to the size
that its tuple was formed with, and the columns stay as they are. -/
theorem prune_frees_and_shortens_safely {env : PruneEnv} {load : Nat → UndoLoad HeapUndo}
    {desc : TupleDesc} {oldestXmin : Nat} {isTarget : Nat → Bool} {p : XPage} {s s' : PruneScan}
    (hmeets : env.Meets load p) (hlen : ∀ off, (p.row off).rp.len ≤ blcksz)
    (hstart : s.prstate = ⟨[], []⟩)
    (hrun : pruneScan env load desc oldestXmin isTarget p s = .ok s') :
    (∀ off ∈ s'.prstate.nowunused, (p.row off).rp.isUsed = true ∧
        Removable env oldestXmin (p.row off).tup) ∧
      ∀ f ∈ s'.prstate.nowfixed, (p.row f.1).rp.isUsed = true ∧
        Shortened env desc (p.row f.1) f.2 := by
  have hempty : s.Sound env desc oldestXmin p := by
    refine ⟨?_, ?_⟩
    · rw [hstart]
      exact fun _ h => absurd h List.not_mem_nil
    · rw [hstart]
      exact fun _ h => absurd h List.not_mem_nil
  have hs := hempty.items hmeets hlen hrun
  exact ⟨hs.unused, hs.fixed⟩

end Safety

/-- Transactions 4 and 10 have committed; all undo from transaction 3 on is there. -/
def pruneAfterTen : PruneEnv where
  isCurrentTransactionId := fun _ => false
  didCommit := fun xid => xid == 4 || xid == 10
  subTransGetTopmostTransaction := id
  currentCommandId := 0
  currentCommandIdUsed := false
  globalFrozenXid := 3
  isInProgress := fun _ => false

/-- Transaction 4 has deleted the first row; transaction 10 has updated the second in place to a text of
two bytes, and two bytes are left over. -/
def shrunkTextPage : XPage where
  pdFlags := 0#16
  pdUpper := 8124
  pdSpecial := 8192
  pdPruneXid := 4
  potentialFreespace := 0
  rows :=
    [⟨⟨8158, .normal, 34⟩, ⟨4, 0, 1, xheapDeleted ||| xheapHasVarwidth, 1#16, 29, [11, 97, 98, 99, 100]⟩⟩,
      ⟨⟨8124, .normal, 34⟩, ⟨10, 0, 2, xheapInplaceUpdated ||| xheapHasVarwidth, 1#16, 29,
        [7, 97, 98, 120, 121]⟩⟩]

def emptyScan : PruneScan := ⟨⟨[], []⟩, 0, 0, 0, 0, 0⟩

/-- With 5 as the oldest xmin, the first row is freed and the second is shortened. -/
theorem shrunkTextPage_scan : pruneScan pruneAfterTen (fun _ => .invalid) (textColumns 1) 5
    (fun _ => false) shrunkTextPage emptyScan =
      .ok ⟨⟨[1], [(2, 32)]⟩, 0, 4, 1, 1, 34⟩ := rfl

theorem shrunkTextPage_row (off : Nat) : shrunkTextPage.row off ∈ Row.zero :: shrunkTextPage.rows := by
  rcases Nat.lt_or_ge (off - 1) shrunkTextPage.rows.length with hlt | hge
  · rw [XPage.row, getD_eq_getElem?_getD, getElem?_eq_getElem hlt]
    exact mem_cons_of_mem _ (getElem_mem hlt)
  · rw [XPage.row, getD_eq_getElem?_getD, getElem?_eq_none hge]
    exact mem_cons_self

theorem shrunkTextPage_meets : pruneAfterTen.Meets (fun _ => .invalid) shrunkTextPage where
  older_committed := by
    intro off hused hold
    have hall : ∀ r ∈ Row.zero :: shrunkTextPage.rows, r.rp.isUsed = true →
        olderThanAllUndo 3 r.tup.modifiedXid = false := by decide
    rw [show pruneAfterTen.globalFrozenXid = 3 from rfl, hall _ (shrunkTextPage_row off) hused] at hold
    cases hold
  own_kept := fun _ _ => rfl

theorem shrunkTextPage_len (off : Nat) : (shrunkTextPage.row off).rp.len ≤ blcksz := by
  have hall : ∀ r ∈ Row.zero :: shrunkTextPage.rows, r.rp.len ≤ blcksz := by decide
  exact hall _ (shrunkTextPage_row off)

theorem prune_of_shrunk_text : Removable pruneAfterTen 5 (shrunkTextPage.row 1).tup ∧
    Shortened pruneAfterTen (textColumns 1) (shrunkTextPage.row 2) 32 := by
  have h := prune_frees_and_shortens_safely shrunkTextPage_meets shrunkTextPage_len rfl shrunkTextPage_scan
  exact ⟨(h.1 1 (by decide)).2, (h.2 (2, 32) (by decide)).2⟩

/-- As `pruneAfterTen`, with the undo discarded up to transaction 5. -/
def pruneAfterDiscard : PruneEnv := { pruneAfterTen with globalFrozenXid := 5 }

theorem shrunkTextPage_meets_discard : pruneAfterDiscard.Meets (fun _ => .invalid) shrunkTextPage where
  older_committed := by
    intro off hused hold
    have hall : ∀ r ∈ Row.zero :: shrunkTextPage.rows, r.rp.isUsed = true →
        pruneAfterDiscard.didCommit r.tup.modifiedXid = true := by decide
    exact hall _ (shrunkTextPage_row off) hused
  own_kept := fun _ _ => rfl

/-- With 4 as the oldest xmin, the row that transaction 4 has deleted is freed all the same. -/
theorem shrunkTextPage_scan_discard : pruneScan pruneAfterDiscard (fun _ => .invalid) (textColumns 1) 4
    (fun _ => false) shrunkTextPage emptyScan = .ok ⟨⟨[1], [(2, 32)]⟩, 0, 4, 1, 1, 34⟩ := rfl

/-- A row is shortened although its update is not older than the oldest xmin, and a row is freed although
its delete is only older than all undo. -/
theorem recent_changes_are_pruned :
    (¬ ∀ (env : PruneEnv) (load : Nat → UndoLoad HeapUndo) (desc : TupleDesc) (oldestXmin : Nat)
      (isTarget : Nat → Bool) (p : XPage) (s : PruneScan), env.Meets load p →
      (∀ off, (p.row off).rp.len ≤ blcksz) →
      pruneScan env load desc oldestXmin isTarget p emptyScan = .ok s →
      ∀ f ∈ s.prstate.nowfixed, (p.row f.1).tup.modifiedXid < oldestXmin) ∧
    ¬ ∀ (env : PruneEnv) (load : Nat → UndoLoad HeapUndo) (desc : TupleDesc) (oldestXmin : Nat)
      (isTarget : Nat → Bool) (p : XPage) (s : PruneScan), env.Meets load p →
      (∀ off, (p.row off).rp.len ≤ blcksz) →
      pruneScan env load desc oldestXmin isTarget p emptyScan = .ok s →
      ∀ off ∈ s.prstate.nowunused, (p.row off).tup.modifiedXid < oldestXmin := by
  constructor
  · intro h
    have hlt := h _ _ _ _ _ _ _ shrunkTextPage_meets shrunkTextPage_len shrunkTextPage_scan (2, 32) (by decide)
    exact absurd hlt (by decide)
  · intro h
    have hlt := h _ _ _ _ _ _ _ shrunkTextPage_meets_discard shrunkTextPage_len shrunkTextPage_scan_discard 1
      (by decide)
    exact absurd hlt (by decide)

end XStore
