import XStore.Heap.Modify

/-!
# The operations on a page

A transaction changes a page by inserting a row, deleting one, updating one in place, marking one
as the old row of a non-in-place update, or placing the new row of such an update.  The last two
are the halves of one `xheap_update`; the new row may lie on another page.
-/
namespace XStore

namespace XPage

/-- `pd_lower`: the header and four bytes for each line pointer. -/
def pdLower (p : XPage) : Nat := sizeOfXHeapPageHeaderData + 4 * p.rows.length

/-- `find_next_free_slot`.  A hint that turns out wrong is reset. -/
def findNextFreeSlot (p : XPage) : Nat × XPage :=
  let limit := p.maxOffset + 1
  if p.pdFlags.has xheapHasFreeLines then
    let off := p.rows.findIdx (fun r => !r.rp.isUsed && !r.rp.hasStorage) + firstOffsetNumber
    if limit ≤ off then (off, { p with pdFlags := p.pdFlags &&& ~~~xheapHasFreeLines })
    else (off, p)
  else (limit, p)

end XPage

def calculatedMaxXHeapTuplesPerPage : Nat :=
  (blcksz - sizeOfXHeapPageHeaderData) / (sizeOfXHeapDiskTupleData + 4)

/-- `calculate_lower_upper_pointers`: the tuple goes below `pd_upper`, its row pointer into line
`off` or behind the array, provided both fit. -/
def calculateLowerUpperPointers (p : XPage) (off : Nat) (t : XHeapDiskTuple) : Option XPage :=
  let r : Row := ⟨⟨p.pdUpper - shortAlign t.size, .normal, t.size⟩, t⟩
  if p.maxOffset + 1 < off then none
  else if off = p.maxOffset + 1 then
    if p.pdUpper < p.pdLower + 4 + shortAlign t.size then none
    else some { p with pdUpper := p.pdUpper - shortAlign t.size, rows := p.rows ++ [r] }
  else if p.pdUpper < p.pdLower + shortAlign t.size then none
  else some { p.setRow off r with pdUpper := p.pdUpper - shortAlign t.size }

/-- `relation_put_xtuple` with `xpage_add_item`. -/
def relationPutXtuple (p : XPage) (t : XHeapDiskTuple) : Except Panic (Nat × XPage) :=
  if p.pdUpper < p.pdLower then .error (.corruptedPagePointers p.pdLower p.pdUpper)
  else if calculatedMaxXHeapTuplesPerPage < p.findNextFreeSlot.1 then .error .failedToAddTuple
  else match calculateLowerUpperPointers p.findNextFreeSlot.2 p.findNextFreeSlot.1 t with
    | none => .error .failedToAddTuple
    | some p' => .ok (p.findNextFreeSlot.1, p')

inductive HeapOp where
  | insert (newtup : XHeapDiskTuple)
  | delete (off : Nat) (changingPart : Bool)
  | inplaceUpdate (off : Nat) (newtup : XHeapDiskTuple)
  /-- The old row of a non-in-place update; `ctid` is where its new row went. -/
  | updateOld (off : Nat) (lockerIsUs : Bool) (ctid : Nat × Nat)
  | updateNew (newtup : XHeapDiskTuple)
  deriving DecidableEq

def putNewRow (p : XPage) (t : XHeapDiskTuple) : Except Panic (Nat × XPage) := do
  let (off, p) ← relationPutXtuple p t
  return (off, p.recordPotentialFreeSpace (-(shortAlign t.size : Int)))

/-- One operation on the page, with the undo record it writes. -/
def performOp (c : OpCtx) (o : HeapOp) (p : XPage) : Except Panic (HeapRecord × XPage) :=
  match o with
  | .insert newtup => do
    let (off, p) ← putNewRow p (insertTuple c newtup)
    return (insertRecord c off, p)
  | .delete off changingPart =>
    let r := p.row off
    .ok (deleteRecord c off r.tup,
      ((p.setPrunable c.fxid).recordPotentialFreeSpace (shortAlign r.rp.len)).setRow off
        { r with tup := deleteTuple c changingPart r.tup })
  | .inplaceUpdate off newtup => do
    let r := p.row off
    let p := if newtup.size < r.rp.len then p.setPrunable c.fxid else p
    let r' ← inplaceRow c r newtup
    return (inplaceRecord c off r newtup, p.setRow off r')
  | .updateOld off lockerIsUs ctid =>
    let r := p.row off
    .ok (updateRecord c off lockerIsUs ctid r.tup,
      ((p.setPrunable c.fxid).setRow off { r with tup := updateTuple c lockerIsUs r.tup })
        |>.recordPotentialFreeSpace (shortAlign r.rp.len))
  | .updateNew newtup => do
    let (off, p) ← putNewRow p (newTuple c c.newUrecptr newtup)
    return (updateInsertRecord c off, p)

namespace HeapOp

def site (p : XPage) : HeapOp → Nat
  | insert _ => p.findNextFreeSlot.1
  | delete off _ => off
  | inplaceUpdate off _ => off
  | updateOld off _ _ => off
  | updateNew _ => p.findNextFreeSlot.1

def addsRow : HeapOp → Bool
  | insert _ => true
  | updateNew _ => true
  | _ => false

def isUpdateOld : HeapOp → Bool
  | updateOld _ _ _ => true
  | _ => false

/-- A row `xheap_tuple_satisfies_update` lets a transaction change. -/
structure Modifiable (p : XPage) (off : Nat) : Prop where
  off_pos : 1 ≤ off
  off_le : off ≤ p.maxOffset
  isNormal : (p.row off).rp.isNormal = true
  not_deleted : (p.row off).tup.isDeleted = false

/-- What the code has checked before it performs the operation. -/
def Allowed (p : XPage) : HeapOp → Prop
  | insert newtup => newtup.WellFormed
  | delete off _ => Modifiable p off
  | inplaceUpdate off newtup => Modifiable p off ∧ newtup.WellFormed
  | updateOld off _ _ => Modifiable p off
  | updateNew newtup => newtup.WellFormed

end HeapOp

/-- A row with storage fills its length and lies within the page. -/
structure Row.Sound (r : Row) : Prop extends r.Filled where
  room : r.rp.offset + r.rp.len ≤ blcksz

structure XPage.Sound (p : XPage) : Prop where
  upper_le : p.pdUpper ≤ blcksz
  row : ∀ off, 1 ≤ off → (p.row off).rp.isNormal = true → (p.row off).Sound

theorem le_shortAlign (n : Nat) : n ≤ shortAlign n := by
  unfold shortAlign
  omega

section Placement

variable {p p' : XPage} {t : XHeapDiskTuple} {off : Nat}

@[simp] theorem findNextFreeSlot_rows : p.findNextFreeSlot.2.rows = p.rows := by
  unfold XPage.findNextFreeSlot
  dsimp only
  split_ifs <;> rfl

@[simp] theorem findNextFreeSlot_pdUpper : p.findNextFreeSlot.2.pdUpper = p.pdUpper := by
  unfold XPage.findNextFreeSlot
  dsimp only
  split_ifs <;> rfl

theorem findNextFreeSlot_pos : 1 ≤ p.findNextFreeSlot.1 := by
  unfold XPage.findNextFreeSlot firstOffsetNumber
  dsimp only
  split_ifs <;> dsimp only <;> omega

theorem findNextFreeSlot_unused : (p.row p.findNextFreeSlot.1).rp.isUsed = false := by
  rcases Nat.lt_or_ge p.rows.length p.findNextFreeSlot.1 with hlt | hge
  · rw [p.row_of_length_lt _ hlt]
    rfl
  · unfold XPage.findNextFreeSlot XPage.maxOffset firstOffsetNumber at *
    dsimp only at *
    split_ifs at * with hflag hlim
    · dsimp only at *; omega
    · dsimp only at *
      have hidx : p.rows.findIdx (fun r => !r.rp.isUsed && !r.rp.hasStorage) < p.rows.length := by
        omega
      have hfree := List.findIdx_getElem (w := hidx)
      simp only [Bool.and_eq_true, Bool.not_eq_true'] at hfree
      simpa [XPage.row, List.getD_eq_getElem?_getD, List.getElem?_eq_getElem hidx] using hfree.1
    · dsimp only at *; omega

theorem calculateLowerUpperPointers_spec (h1 : 1 ≤ off)
    (h : calculateLowerUpperPointers p off t = some p') :
    p'.pdUpper ≤ p.pdUpper ∧ ∃ offset, sizeOfXHeapPageHeaderData < offset ∧
      offset + t.size ≤ p.pdUpper ∧ p.ChangedAt p' off ⟨⟨offset, .normal, t.size⟩, t⟩ := by
  have hle := le_shortAlign t.size
  unfold calculateLowerUpperPointers at h
  simp only [XPage.maxOffset] at h
  split_ifs at h with hfar hend hfit hfit
  all_goals
    cases h
    unfold XPage.pdLower at hfit
    refine ⟨Nat.sub_le _ _, p.pdUpper - shortAlign t.size, by omega, by omega, ?_⟩
  · subst hend
    exact (XPage.ChangedAt.append p _).congr_rows rfl rfl
  · exact (XPage.ChangedAt.setRow h1 (by omega) _).congr_rows rfl rfl

theorem relationPutXtuple_spec (h : relationPutXtuple p t = .ok (off, p')) :
    off = p.findNextFreeSlot.1 ∧ p'.pdUpper ≤ p.pdUpper ∧
      ∃ offset, sizeOfXHeapPageHeaderData < offset ∧ offset + t.size ≤ p.pdUpper ∧
        p.ChangedAt p' off ⟨⟨offset, .normal, t.size⟩, t⟩ := by
  unfold relationPutXtuple at h
  split_ifs at h
  cases hput : calculateLowerUpperPointers p.findNextFreeSlot.2 p.findNextFreeSlot.1 t with
  | none => simp [hput] at h
  | some q =>
    simp only [hput, Except.ok.injEq, Prod.mk.injEq] at h
    obtain ⟨rfl, rfl⟩ := h
    obtain ⟨hupper, offset, hheader, hroom, hch⟩ :=
      calculateLowerUpperPointers_spec findNextFreeSlot_pos hput
    rw [findNextFreeSlot_pdUpper] at hupper hroom
    exact ⟨rfl, hupper, offset, hheader, hroom, hch.congr_rows (by simp) rfl⟩

theorem putNewRow_spec (h : putNewRow p t = .ok (off, p')) :
    off = p.findNextFreeSlot.1 ∧ p'.pdUpper ≤ p.pdUpper ∧
      ∃ offset, sizeOfXHeapPageHeaderData < offset ∧ offset + t.size ≤ p.pdUpper ∧
        p.ChangedAt p' off ⟨⟨offset, .normal, t.size⟩, t⟩ := by
  unfold putNewRow at h
  cases hput : relationPutXtuple p t with
  | error e => simp [hput, bind, Except.bind] at h
  | ok res =>
    obtain ⟨off', q⟩ := res
    simp only [hput, bind, Except.bind, pure, Except.pure, Except.ok.injEq, Prod.mk.injEq] at h
    obtain ⟨rfl, rfl⟩ := h
    obtain ⟨hoff, hupper, offset, hheader, hroom, hch⟩ := relationPutXtuple_spec hput
    exact ⟨hoff, hupper, offset, hheader, hroom, hch.congr_rows rfl rfl⟩

end Placement

/-- Everything an operation can do to the row it works on, with the record it leaves. -/
inductive RowChange (c : OpCtx) : HeapOp → Row → HeapRecord → Row → Prop
  | insert (newtup : XHeapDiskTuple) (r : Row) (off offset : Nat) :
      newtup.WellFormed → r.rp.isUsed = false → offset + newtup.size ≤ blcksz →
      RowChange c (.insert newtup) r (insertRecord c off)
        ⟨⟨offset, .normal, newtup.size⟩, insertTuple c newtup⟩
  | delete (off : Nat) (changingPart : Bool) (r : Row) :
      r.rp.isNormal = true → r.Sound →
      RowChange c (.delete off changingPart) r (deleteRecord c off r.tup)
        { r with tup := deleteTuple c changingPart r.tup }
  | inplaceUpdate (off : Nat) (newtup : XHeapDiskTuple) (r r' : Row) :
      r.rp.isNormal = true → r.Sound → newtup.WellFormed → inplaceRow c r newtup = .ok r' →
      RowChange c (.inplaceUpdate off newtup) r (inplaceRecord c off r newtup) r'
  | updateOld (off : Nat) (lockerIsUs : Bool) (ctid : Nat × Nat) (r : Row) :
      r.rp.isNormal = true → r.Sound →
      RowChange c (.updateOld off lockerIsUs ctid) r (updateRecord c off lockerIsUs ctid r.tup)
        { r with tup := updateTuple c lockerIsUs r.tup }
  | updateNew (newtup : XHeapDiskTuple) (r : Row) (off offset : Nat) :
      newtup.WellFormed → r.rp.isUsed = false → offset + newtup.size ≤ blcksz →
      RowChange c (.updateNew newtup) r (updateInsertRecord c off)
        ⟨⟨offset, .normal, newtup.size⟩, newTuple c c.newUrecptr newtup⟩

section Spec

variable {c : OpCtx} {o : HeapOp} {p p' : XPage} {u : HeapRecord} {r r' : Row}

@[simp] theorem insertTuple_size (t : XHeapDiskTuple) : (insertTuple c t).size = t.size := rfl

@[simp] theorem newTuple_size (urp : Nat) (t : XHeapDiskTuple) :
    (newTuple c urp t).size = t.size := rfl

@[simp] theorem setPrunable_pdUpper (xid : Nat) : (p.setPrunable xid).pdUpper = p.pdUpper := by
  unfold XPage.setPrunable
  split <;> rfl

@[simp] theorem setPrunable_row (xid off : Nat) : (p.setPrunable xid).row off = p.row off :=
  XPage.row_eq_of_rows_eq (p.setPrunable_rows xid) off

/-- An operation changes the row at its site in one of the ways of `RowChange` and no other row. -/
theorem performOp_spec (hp : p.Sound) (ha : o.Allowed p) (h : performOp c o p = .ok (u, p')) :
    u.uurOffset = o.site p ∧ p'.pdUpper ≤ blcksz ∧
      ∃ r', p.ChangedAt p' (o.site p) r' ∧ RowChange c o (p.row (o.site p)) u r' := by
  have hupper := hp.upper_le
  cases o with
  | insert newtup =>
    simp only [performOp] at h
    cases hput : putNewRow p (insertTuple c newtup) with
    | error e => simp [hput, bind, Except.bind] at h
    | ok res =>
      obtain ⟨off, q⟩ := res
      simp only [hput, bind, Except.bind, pure, Except.pure, Except.ok.injEq, Prod.mk.injEq] at h
      obtain ⟨rfl, rfl⟩ := h
      obtain ⟨rfl, hle, offset, -, hroom, hch⟩ := putNewRow_spec hput
      rw [insertTuple_size] at hroom
      exact ⟨rfl, by omega, _, hch, .insert _ _ _ _ ha findNextFreeSlot_unused (by omega)⟩
  | delete off changingPart =>
    cases h
    have hch := XPage.ChangedAt.setRow ha.off_pos ha.off_le
      { p.row off with tup := deleteTuple c changingPart (p.row off).tup }
    refine ⟨rfl, ?_, _, hch.congr_rows rfl (by simp [XPage.setRow]), ?_⟩
    · simpa [XPage.recordPotentialFreeSpace, XPage.setRow] using hupper
    · exact .delete off changingPart _ ha.isNormal (hp.row off ha.off_pos ha.isNormal)
  | inplaceUpdate off newtup =>
    obtain ⟨hm, hnew⟩ := ha
    simp only [performOp] at h
    cases hrow : inplaceRow c (p.row off) newtup with
    | error e => simp [hrow, bind, Except.bind] at h
    | ok r' =>
      simp only [hrow, bind, Except.bind, pure, Except.pure, Except.ok.injEq, Prod.mk.injEq] at h
      obtain ⟨rfl, rfl⟩ := h
      have hch := XPage.ChangedAt.setRow hm.off_pos hm.off_le r'
      refine ⟨rfl, ?_, r', hch.congr_rows rfl ?_, ?_⟩
      · simp only [XPage.setRow]
        split <;> simpa using hupper
      · simp only [XPage.setRow]
        split <;> simp
      · exact .inplaceUpdate off newtup _ r' hm.isNormal (hp.row off hm.off_pos hm.isNormal) hnew hrow
  | updateOld off lockerIsUs ctid =>
    cases h
    have hch := XPage.ChangedAt.setRow ha.off_pos ha.off_le
      { p.row off with tup := updateTuple c lockerIsUs (p.row off).tup }
    refine ⟨rfl, ?_, _, hch.congr_rows rfl (by simp [XPage.setRow]), ?_⟩
    · simpa [XPage.recordPotentialFreeSpace, XPage.setRow] using hupper
    · exact .updateOld off lockerIsUs ctid _ ha.isNormal (hp.row off ha.off_pos ha.isNormal)
  | updateNew newtup =>
    simp only [performOp] at h
    cases hput : putNewRow p (newTuple c c.newUrecptr newtup) with
    | error e => simp [hput, bind, Except.bind] at h
    | ok res =>
      obtain ⟨off, q⟩ := res
      simp only [hput, bind, Except.bind, pure, Except.pure, Except.ok.injEq, Prod.mk.injEq] at h
      obtain ⟨rfl, rfl⟩ := h
      obtain ⟨rfl, hle, offset, -, hroom, hch⟩ := putNewRow_spec hput
      rw [newTuple_size] at hroom
      exact ⟨rfl, by omega, _, hch, .updateNew _ _ _ _ ha findNextFreeSlot_unused (by omega)⟩

/-- The row an operation leaves is owned by its transaction and points to its record. -/
structure OwnedBy (c : OpCtx) (u : HeapRecord) (r : Row) : Prop where
  isNormal : r.rp.isNormal = true
  sound : r.Sound
  modifiedXid : r.tup.modifiedXid = c.fxid
  urec : r.tup.urec = u.uurUrp
  uurXid : u.uurXid = c.fxid
  uurSubxid : u.uurSubxid = none

theorem RowChange.owned (h : RowChange c o r u r') : OwnedBy c u r' := by
  cases h with
  | insert newtup _ off offset hw _ hroom =>
    exact ⟨rfl, ⟨⟨rfl, hw.hoff_ge, hw.hoff_le⟩, hroom⟩, rfl, rfl, rfl, rfl⟩
  | delete off changingPart _ hn hs =>
    cases changingPart with
    | false => exact ⟨hn, ⟨⟨hs.len_eq, hs.hoff_ge, hs.hoff_le⟩, hs.room⟩, rfl, rfl, rfl, rfl⟩
    | true => exact ⟨hn, ⟨⟨hs.len_eq, hs.hoff_ge, hs.hoff_le⟩, hs.room⟩, rfl, rfl, rfl, rfl⟩
  | inplaceUpdate off newtup _ _ hn hs hw hrow =>
    obtain ⟨rp, hrp, rfl⟩ := inplaceRow_ok hrow
    have hlen := hs.len_eq
    have hnew : newtup.size = sizeOfXHeapDiskTupleData + newtup.body.length := rfl
    have hoff := hs.room
    have hhoff := hw.hoff_le
    refine ⟨?_, ⟨⟨?_, hw.hoff_ge, ?_⟩, ?_⟩, rfl, rfl, rfl, rfl⟩
    · simpa [RowPtr.isNormal, hrp.flags] using hn
    · simp only [hrp.len, List.length_append, List.length_drop]
      omega
    · simp only [hrp.len]
      omega
    · exact hrp.room hoff
  | updateOld off lockerIsUs ctid _ hn hs =>
    have hbody : (updateTuple c lockerIsUs r.tup).body = r.tup.body := by
      unfold updateTuple lockForUpdate
      split <;> rfl
    have hhoff : (updateTuple c lockerIsUs r.tup).tHoff = r.tup.tHoff := by
      unfold updateTuple lockForUpdate
      split <;> rfl
    refine ⟨hn, ⟨⟨?_, ?_, ?_⟩, hs.room⟩, rfl, rfl, rfl, rfl⟩
    · simpa [hbody] using hs.len_eq
    · simpa [hhoff] using hs.hoff_ge
    · simpa [hhoff] using hs.hoff_le
  | updateNew newtup _ off offset hw _ hroom =>
    exact ⟨rfl, ⟨⟨rfl, hw.hoff_ge, hw.hoff_le⟩, hroom⟩, rfl, rfl, rfl, rfl⟩

theorem RowChange.unused_of_addsRow (h : RowChange c o r u r') (ho : o.addsRow = true) :
    r.rp.isUsed = false := by
  cases h with
  | insert => assumption
  | updateNew => assumption
  | _ => cases ho

theorem performOp_sound (hp : p.Sound) (ha : o.Allowed p) (h : performOp c o p = .ok (u, p')) :
    p'.Sound := by
  obtain ⟨-, hupper, r', hch, hrow⟩ := performOp_spec hp ha h
  refine ⟨hupper, fun off hoff hn => ?_⟩
  by_cases hs : off = o.site p
  · rw [hs, hch.here]
    exact hrow.owned.sound
  · rw [hch.elsewhere off hoff hs] at hn ⊢
    exact hp.row off hoff hn

end Spec

end XStore
