import XStore.Redo.HeapWal

/-!
# Replaying single-row heap changes

`xheap_xlog_insert`, `xheap_xlog_delete` and `xheap_xlog_update`.  Each rebuilds the undo record
first, with the transaction ids of the undo header, and then changes the page, with the
transaction id of the WAL record.
-/
namespace XStore

namespace HeapWalRecord

def undoXid (w : HeapWalRecord) : Nat := w.undo.topXid.getD w.fullXid

/-- `sub_full_xid`, which is set when the top id was swapped in. -/
def undoSubXid (w : HeapWalRecord) : Option Nat :=
  match w.undo.topXid with
  | some _ => if w.fullXid = invalidXid then none else some w.fullXid
  | none => none

/-- A record rebuilt during replay; its command id is zero. -/
def undoRecord (w : HeapWalRecord) (blkno off urp prevxid tpprev : Nat) (flag : Flag)
    (subxid : Option Nat) (body : HeapUndo) : HeapRecord where
  uurXid := w.undoXid
  uurCid := 0
  uurReloid := w.undo.relOid
  uurRelfilenode := w.relNumber
  uurTablespace := w.spcOid
  uurBlkno := blkno
  uurOffset := off
  uurTpprevurp := tpprev
  uurPrevxid := prevxid
  uurDataheaderflag := flag
  uurSubxid := subxid
  body := body
  uurUrp := urp
  bufferIdx := 0

end HeapWalRecord

def XlXheapUpdate.oldBlkno (x : XlXheapUpdate) (blkno : Nat) : Nat := x.oldBlk.getD blkno

/-- `xheap_xlog_undo_for_insert`, `xheap_xlog_undo_for_delete` and `xheap_xlog_undo_for_update`. -/
def xheapXlogUndo (w : HeapWalRecord) : List HeapRecord :=
  let prev := w.undo.blkprev.getD invalidUndoRecPtr
  match w.change with
  | .insert x => [w.undoRecord w.blkno x.offnum w.undo.urecptr invalidXid prev 0#16 none .insert]
  | .delete x =>
    [w.undoRecord w.blkno x.offnum w.undo.urecptr x.oldxid prev x.oldHdr.flag w.undoSubXid .delete]
  | .inplaceUpdate x =>
    [w.undoRecord w.blkno x.offnum w.undo.urecptr x.oldxid prev 0#16 w.undoSubXid
      (.inplaceUpdate x.delta)]
  | .update x =>
    [w.undoRecord (x.oldBlkno w.blkno) x.oldOffnum w.undo.urecptr x.oldxid prev x.oldHdr.flag
       w.undoSubXid (.update (w.blkno, x.newOffnum)),
     w.undoRecord w.blkno x.newOffnum x.newUrecptr w.undoXid invalidUndoRecPtr 0#16 none .insert]

/-- `get_xheap_disk_tuple_from_redo_data` -/
def diskTupleFromRedoData (hdr : XlXheapHeader) (data : List UInt8) (xid urp : Nat) :
    XHeapDiskTuple :=
  ⟨xid, invalidXid, urp, hdr.flag, hdr.flag2, hdr.tHoff, data⟩

/-- `xpage_add_item` at a given offset during replay: a line with storage is not overwritten. -/
def redoAddItem (p : XPage) (off : Nat) (t : XHeapDiskTuple) : Except Panic XPage :=
  if p.pdUpper < p.pdLower then .error (.corruptedPagePointers p.pdLower p.pdUpper)
  else if off < p.maxOffset + 1 ∧ (p.row off).rp.hasStorage = true then .error .failedToAddTuple
  else match calculateLowerUpperPointers p off t with
    | none => .error .failedToAddTuple
    | some p' => .ok p'

/-- The page part of `xheap_xlog_insert`. -/
def redoInsertPage (w : HeapWalRecord) (x : XlXheapInsert) (p : XPage) : Except Panic XPage :=
  let t := diskTupleFromRedoData x.hdr x.data w.fullXid w.undo.urecptr
  if p.maxOffset + 1 < x.offnum then .error .invalidMaxOffsetNumber
  else (redoAddItem p x.offnum t).map fun p =>
    p.recordPotentialFreeSpace (-(shortAlign t.size : Int))

/-- The page part of `xheap_xlog_delete`. -/
def redoDeletePage (w : HeapWalRecord) (x : XlXheapDelete) (p : XPage) : Except Panic XPage :=
  let r := p.row x.offnum
  if p.maxOffset < x.offnum then .error .invalidRp
  else
    .ok (((p.recordPotentialFreeSpace
        (shortAlign (sizeOfXHeapDiskTupleData + x.oldData.length))).setRow x.offnum
      { r with tup := { r.tup with
          modifiedXid := w.fullXid, urec := w.undo.urecptr, flag := x.flag } }).setPrunable w.fullXid)

/-- `get_xheap_disk_tuple_from_update_new_redo_data`: the bytes of the new tuple, with prefix and
suffix taken from the old row. -/
def updateNewBody (old : Row) (hdr : XlXheapHeader) (prefixlen suffixlen : Nat)
    (data : List UInt8) : List UInt8 :=
  let bitmap := hdr.tHoff - sizeOfXHeapDiskTupleData
  let suffix := (old.tup.body.drop (old.rp.len - sizeOfXHeapDiskTupleData - suffixlen)).take suffixlen
  if 0 < prefixlen then
    data.take bitmap ++ old.tup.columns.take prefixlen ++ data.drop bitmap ++ suffix
  else data ++ suffix

/-- The old row of an update, as `xheap_xlog_update` marks it. -/
def redoOldRow (w : HeapWalRecord) (oldTupleFlag : Flag) (r : Row) : Row :=
  { r with tup := { r.tup with
      flag := oldTupleFlag, modifiedXid := w.fullXid, urec := w.undo.urecptr } }

def redoUpdateOldPage (w : HeapWalRecord) (x : XlXheapUpdate) (p : XPage) : Except Panic XPage :=
  let r := p.row x.oldOffnum
  if p.maxOffset < x.oldOffnum then .error .invalidRp
  else
    let p := (p.setRow x.oldOffnum (redoOldRow w x.oldTupleFlag r)).setPrunable w.fullXid
    .ok (if x.oldBlk.isSome then p.recordPotentialFreeSpace (shortAlign r.rp.len) else p)

/-- `SHORTALIGN` of a difference of lengths, which may be negative. -/
def shortAlignDelta (d : Int) : Int := (d + 1) / 2 * 2

/-- The new page of a non-in-place update; bytes are shared only with an old row on that page. -/
def redoUpdateNewPage (w : HeapWalRecord) (x : XlXheapUpdate) (p : XPage) : Except Panic XPage :=
  let old := p.row x.oldOffnum
  let body := match x.oldBlk with
    | some _ => x.newData
    | none => updateNewBody old x.newHdr (x.prefixlen.getD 0) (x.suffixlen.getD 0) x.newData
  let t := diskTupleFromRedoData x.newHdr body w.fullXid x.newUrecptr
  (redoAddItem p x.newOffnum t).map fun p => p.recordPotentialFreeSpace
    (match x.oldBlk with
      | some _ => -(shortAlign t.size : Int)
      | none => -shortAlignDelta ((t.size : Int) - old.rp.len))

/-- An in-place update: the new tuple is copied over the old one, header included. -/
def redoInplacePage (w : HeapWalRecord) (x : XlXheapInplaceUpdate) (p : XPage) :
    Except Panic XPage :=
  let r := redoOldRow w x.oldTupleFlag (p.row x.offnum)
  let t := diskTupleFromRedoData x.newHdr (updateNewBody r x.newHdr (x.delta.prefixlen.getD 0)
    (x.delta.suffixlen.getD 0) x.newData) w.fullXid w.undo.urecptr
  if p.maxOffset < x.offnum then .error .invalidRp
  else (if r.rp.len ≤ t.size || x.prefixFromOld || x.suffixFromOld then r.rp.changeLen t.size
      else .ok r.rp).map fun rp =>
    let p := p.setRow x.offnum
      { rp := rp, tup := { t with body := t.body ++ r.tup.body.drop t.body.length } }
    if t.size < r.rp.len then p.setPrunable w.fullXid else p

def redoBlock (needsRedo : Nat → Bool) (pages : Nat → XPage) (blkno : Nat)
    (f : XPage → Except Panic XPage) : Except Panic (Nat → XPage) :=
  if needsRedo blkno then (f (pages blkno)).map (Function.update pages blkno) else .ok pages

def HeapWalRecord.initPage (w : HeapWalRecord) : Bool :=
  match w.change with
  | .insert x => x.initPage
  | .update x => x.oldBlk.isSome && x.initPage
  | _ => false

/-- A block that the record initialises is replayed in any case. -/
def HeapWalRecord.replays (w : HeapWalRecord) (needsRedo : Nat → Bool) (blkno : Nat) : Bool :=
  needsRedo blkno || w.initPage && decide (blkno = w.blkno)

/-- The page part of `xheap_redo`.  `needsRedo` says which blocks are older than the record. -/
def xheapRedoPages (needsRedo : Nat → Bool) (w : HeapWalRecord) (pages : Nat → XPage) :
    Except Panic (Nat → XPage) :=
  let start := fun p : XPage => if w.initPage then XPage.init else p
  match w.change with
  | .insert x =>
    redoBlock (w.replays needsRedo) pages w.blkno fun p => redoInsertPage w x (start p)
  | .delete x => redoBlock needsRedo pages w.blkno (redoDeletePage w x)
  | .inplaceUpdate x => redoBlock needsRedo pages w.blkno (redoInplacePage w x)
  | .update x => match x.oldBlk with
    | none => redoBlock needsRedo pages w.blkno fun p =>
        (redoUpdateOldPage w x p).bind (redoUpdateNewPage w x)
    | some oldBlk => (redoBlock needsRedo pages oldBlk (redoUpdateOldPage w x)).bind fun pages =>
        redoBlock (w.replays needsRedo) pages w.blkno fun p => redoUpdateNewPage w x (start p)

/-- `xheap_redo` on the undo space and the pages. -/
def xheapRedo (needsRedo : Nat → Bool) (w : HeapWalRecord) (pages : Nat → XPage) :
    Except Panic (List HeapRecord × (Nat → XPage)) :=
  (xheapRedoPages needsRedo w pages).map fun pages => (xheapXlogUndo w, pages)

/-- Offset numbers start at one, and block reference 1 is used only for another page. -/
structure HeapWalRecord.WellFormed (w : HeapWalRecord) : Prop where
  offset_pos : ∀ u ∈ xheapXlogUndo w, 1 ≤ u.uurOffset
  oldBlk_ne : ∀ x, w.change = .update x → x.oldBlk ≠ some w.blkno

/-- The rows of the rebuilt records on the replayed blocks are owned by the transactions that own
the records. -/
def OwnersMatch (needsRedo : Nat → Bool) (w : HeapWalRecord) (recs : List HeapRecord)
    (pages : Nat → XPage) : Prop :=
  ∀ u ∈ recs, w.replays needsRedo u.uurBlkno = true →
    ((pages u.uurBlkno).row u.uurOffset).tup.modifiedXid = u.uurXid

section Owner

variable {w : HeapWalRecord} {p p' : XPage} {off : Nat} {x : XlXheapUpdate}

/-- The row is owned by the transaction id of the WAL record. -/
def OwnedByWal (w : HeapWalRecord) (p : XPage) (off : Nat) : Prop :=
  (p.row off).tup.modifiedXid = w.fullXid

theorem redoAddItem_spec {t : XHeapDiskTuple} (hoff : 1 ≤ off) (h : redoAddItem p off t = .ok p') :
    ∃ offset, p.ChangedAt p' off ⟨⟨offset, .normal, t.size⟩, t⟩ := by
  unfold redoAddItem at h
  split_ifs at h
  cases hput : calculateLowerUpperPointers p off t with
  | none => simp [hput] at h
  | some q =>
    simp only [hput, Except.ok.injEq] at h
    obtain ⟨-, offset, -, -, hch⟩ := calculateLowerUpperPointers_spec hoff hput
    exact ⟨offset, h ▸ hch⟩

theorem redoInsertPage_owned {x : XlXheapInsert} (hoff : 1 ≤ x.offnum)
    (h : redoInsertPage w x p = .ok p') : OwnedByWal w p' x.offnum := by
  unfold redoInsertPage at h
  split_ifs at h
  obtain ⟨q, hq, rfl⟩ := map_ok h
  obtain ⟨offset, hch⟩ := redoAddItem_spec hoff hq
  exact congrArg (fun r : Row => r.tup.modifiedXid) hch.here

theorem redoDeletePage_owned {x : XlXheapDelete} (hoff : 1 ≤ x.offnum)
    (h : redoDeletePage w x p = .ok p') : OwnedByWal w p' x.offnum := by
  unfold redoDeletePage at h
  split_ifs at h with hlen
  cases h
  have hch := XPage.ChangedAt.setRow hoff (Nat.not_lt.mp hlen)
    { p.row x.offnum with tup := { (p.row x.offnum).tup with
      modifiedXid := w.fullXid, urec := w.undo.urecptr, flag := x.flag } }
  rw [OwnedByWal, (hch.congr_rows rfl (by simp [XPage.setRow])).here]

theorem redoInplacePage_owned {x : XlXheapInplaceUpdate} (hoff : 1 ≤ x.offnum)
    (h : redoInplacePage w x p = .ok p') : OwnedByWal w p' x.offnum := by
  unfold redoInplacePage at h
  split_ifs at h with hlen
  all_goals
    obtain ⟨rp, -, rfl⟩ := map_ok h
    have hch := fun r => XPage.ChangedAt.setRow hoff (Nat.not_lt.mp hlen) r
    dsimp only
    split
    · rw [OwnedByWal, setPrunable_row, (hch _).here]
      rfl
    · rw [OwnedByWal, (hch _).here]
      rfl

theorem redoUpdateOldPage_spec (hoff : 1 ≤ x.oldOffnum)
    (h : redoUpdateOldPage w x p = .ok p') :
    p.ChangedAt p' x.oldOffnum (redoOldRow w x.oldTupleFlag (p.row x.oldOffnum)) := by
  unfold redoUpdateOldPage at h
  split_ifs at h with hlen
  all_goals
    cases h
    have hch := XPage.ChangedAt.setRow hoff (Nat.not_lt.mp hlen)
      (redoOldRow w x.oldTupleFlag (p.row x.oldOffnum))
    exact hch.congr_rows rfl (by simp)

theorem redoUpdateNewPage_spec (hoff : 1 ≤ x.newOffnum)
    (h : redoUpdateNewPage w x p = .ok p') :
    ∃ r, p.ChangedAt p' x.newOffnum r ∧ r.tup.modifiedXid = w.fullXid := by
  unfold redoUpdateNewPage at h
  obtain ⟨q, hq, rfl⟩ := map_ok h
  obtain ⟨offset, hch⟩ := redoAddItem_spec hoff hq
  exact ⟨_, hch.congr_rows rfl rfl, rfl⟩

theorem redoUpdateNewPage_keeps (hold : 1 ≤ x.oldOffnum)
    (hnew : 1 ≤ x.newOffnum) (h : redoUpdateNewPage w x p = .ok p')
    (ho : OwnedByWal w p x.oldOffnum) : OwnedByWal w p' x.oldOffnum := by
  obtain ⟨r, hch, hr⟩ := redoUpdateNewPage_spec hnew h
  by_cases heq : x.oldOffnum = x.newOffnum
  · rw [OwnedByWal, heq, hch.here, hr]
  · rw [OwnedByWal, hch.elsewhere _ hold heq]
    exact ho

theorem redoBlock_ok {needsRedo : Nat → Bool} {pages pages' : Nat → XPage} {blkno : Nat}
    {f : XPage → Except Panic XPage} (h : redoBlock needsRedo pages blkno f = .ok pages') :
    (needsRedo blkno = true → f (pages blkno) = .ok (pages' blkno)) ∧
      ∀ b, b ≠ blkno → pages' b = pages b := by
  unfold redoBlock at h
  split_ifs at h with hn
  · obtain ⟨q, hq, rfl⟩ := map_ok h
    simp only [Function.update_self]
    exact ⟨fun _ => hq, fun b hb => Function.update_of_ne hb _ _⟩
  · cases h
    exact ⟨fun hn' => absurd hn' hn, fun _ _ => rfl⟩

end Owner

section Redo

variable {needsRedo : Nat → Bool} {w : HeapWalRecord} {pages pages' : Nat → XPage}

theorem replays_of_not_init (h : w.initPage = false) (b : Nat) :
    w.replays needsRedo b = needsRedo b := by
  simp [HeapWalRecord.replays, h]

/-- Every rebuilt record carries the id of the undo header. -/
theorem xheapXlogUndo_uurXid {u : HeapRecord} (hu : u ∈ xheapXlogUndo w) :
    u.uurXid = w.undoXid := by
  unfold xheapXlogUndo at hu
  dsimp only at hu
  split at hu <;> simp only [List.mem_cons, List.not_mem_nil, or_false] at hu
  · rw [hu]; rfl
  · rw [hu]; rfl
  · rw [hu]; rfl
  · rcases hu with rfl | rfl <;> rfl

theorem redoUpdate_owned {x : XlXheapUpdate} (hw : w.WellFormed) (hchange : w.change = .update x)
    (hold : 1 ≤ x.oldOffnum) (hnew : 1 ≤ x.newOffnum)
    (h : (match x.oldBlk with
      | none => redoBlock needsRedo pages w.blkno fun p =>
          (redoUpdateOldPage w x p).bind (redoUpdateNewPage w x)
      | some oldBlk => (redoBlock needsRedo pages oldBlk (redoUpdateOldPage w x)).bind fun pages =>
          redoBlock (w.replays needsRedo) pages w.blkno fun p =>
            redoUpdateNewPage w x (if w.initPage then XPage.init else p)) = .ok pages') :
    (w.replays needsRedo (x.oldBlkno w.blkno) = true →
        OwnedByWal w (pages' (x.oldBlkno w.blkno)) x.oldOffnum) ∧
      (w.replays needsRedo w.blkno = true → OwnedByWal w (pages' w.blkno) x.newOffnum) := by
  cases hblk : x.oldBlk with
  | none =>
    have hinit : w.initPage = false := by simp [HeapWalRecord.initPage, hchange, hblk]
    rw [hblk] at h
    simp only [XlXheapUpdate.oldBlkno, hblk, Option.getD_none, replays_of_not_init hinit]
    have hblock := (redoBlock_ok h).1
    constructor
    · intro hr
      obtain ⟨q, hq, hput⟩ := bind_ok (hblock hr)
      apply redoUpdateNewPage_keeps hold hnew hput
      rw [OwnedByWal, (redoUpdateOldPage_spec hold hq).here]
      rfl
    · intro hr
      obtain ⟨q, -, hput⟩ := bind_ok (hblock hr)
      obtain ⟨r, hch, hxid⟩ := redoUpdateNewPage_spec hnew hput
      rw [OwnedByWal, hch.here, hxid]
  | some oldBlk =>
    have hne : oldBlk ≠ w.blkno := fun heq => hw.oldBlk_ne x hchange (by rw [hblk, heq])
    rw [hblk] at h
    simp only [XlXheapUpdate.oldBlkno, hblk, Option.getD_some]
    obtain ⟨pages₁, h₁, h₂⟩ := bind_ok h
    constructor
    · intro hr
      have hr' : needsRedo oldBlk = true := by simpa [HeapWalRecord.replays, hne] using hr
      rw [(redoBlock_ok h₂).2 oldBlk hne, OwnedByWal,
        (redoUpdateOldPage_spec hold ((redoBlock_ok h₁).1 hr')).here]
      rfl
    · intro hr
      obtain ⟨r, hch, hxid⟩ := redoUpdateNewPage_spec hnew ((redoBlock_ok h₂).1 hr)
      rw [OwnedByWal, hch.here, hxid]

/-- Every replayed row carries the id of the WAL record. -/
theorem xheapRedoPages_owned (hw : w.WellFormed) (h : xheapRedoPages needsRedo w pages = .ok pages')
    {u : HeapRecord} (hu : u ∈ xheapXlogUndo w) (hr : w.replays needsRedo u.uurBlkno = true) :
    OwnedByWal w (pages' u.uurBlkno) u.uurOffset := by
  have hpos := hw.offset_pos
  unfold xheapRedoPages at h
  unfold xheapXlogUndo at hu hpos
  cases hchange : w.change with
  | insert x =>
    simp only [hchange, List.mem_singleton, forall_eq] at h hu hpos
    subst hu
    exact redoInsertPage_owned hpos ((redoBlock_ok h).1 hr)
  | delete x =>
    have hinit : w.initPage = false := by simp [HeapWalRecord.initPage, hchange]
    simp only [hchange, List.mem_singleton, forall_eq] at h hu hpos
    subst hu
    rw [replays_of_not_init hinit] at hr
    exact redoDeletePage_owned hpos ((redoBlock_ok h).1 hr)
  | inplaceUpdate x =>
    have hinit : w.initPage = false := by simp [HeapWalRecord.initPage, hchange]
    simp only [hchange, List.mem_singleton, forall_eq] at h hu hpos
    subst hu
    rw [replays_of_not_init hinit] at hr
    exact redoInplacePage_owned hpos ((redoBlock_ok h).1 hr)
  | update x =>
    simp only [hchange, List.mem_cons, List.not_mem_nil, or_false, forall_eq_or_imp,
      forall_eq] at h hu hpos
    obtain ⟨hold, hnew⟩ := hpos
    have howned := redoUpdate_owned hw hchange hold hnew h
    rcases hu with rfl | rfl
    · exact howned.1 hr
    · exact howned.2 hr

/-- Inside a subtransaction the replayed rows belong to the subtransaction and the rebuilt undo
records to the top transaction; at top level the two are one. -/
theorem redo_owners_match_iff (xs : XactState) (hwritten : w.WrittenIn xs) (hw : w.WellFormed)
    {recs : List HeapRecord} (h : xheapRedo needsRedo w pages = .ok (recs, pages')) :
    OwnersMatch needsRedo w recs pages' ↔
      xs.isSubTransaction = false ∨ ∀ u ∈ recs, w.replays needsRedo u.uurBlkno = false := by
  obtain ⟨q, hq, heq⟩ := map_ok h
  cases heq
  have hxid : w.fullXid = w.undoXid ↔ xs.isSubTransaction = false := by
    rw [← xs.currentXid_eq_topXid_iff, hwritten.fullXid, HeapWalRecord.undoXid, hwritten.topXid,
      hwritten.fullXid]
    cases hsub : xs.isSubTransaction with
    | false => simpa using (xs.currentXid_eq_topXid_iff.mpr hsub)
    | true => rfl
  rw [← hxid]
  have howned := fun u hu hr => @xheapRedoPages_owned needsRedo w pages pages' hw hq u hu hr
  constructor
  · intro hm
    by_cases hany : ∃ u ∈ xheapXlogUndo w, w.replays needsRedo u.uurBlkno = true
    · obtain ⟨u, hu, hr⟩ := hany
      left
      rw [← howned u hu hr, hm u hu hr, xheapXlogUndo_uurXid hu]
    · right
      intro u hu
      exact Bool.eq_false_iff.mpr fun hr => hany ⟨u, hu, hr⟩
  · rintro (heq | hnone) u hu hr
    · rw [howned u hu hr, heq, xheapXlogUndo_uurXid hu]
    · rw [hnone u hu] at hr
      cases hr

end Redo

section Savepoint

/-- The WAL record of a delete of row 1 in block 0 in a transaction state. -/
def deleteWal (xs : XactState) : HeapWalRecord where
  fullXid := xs.currentXid
  relNumber := 16384
  spcOid := 1663
  blkno := 0
  undo := ⟨100, 16384, some 90, none, if xs.isSubTransaction then some xs.topXid else none⟩
  change := .delete ⟨1, 5, xheapDeleted, ⟨1#16, 0#16, 32⟩, List.replicate 11 1⟩

def liveRowPages : Nat → XPage := fun _ =>
  ⟨0#16, 8152, blcksz, 0, 8000, [⟨⟨8152, .normal, 40⟩, ⟨5, 0, 90, 0#16, 1#16, 32,
    List.replicate 11 1⟩⟩]⟩

theorem deleteWal_written (xs : XactState) : (deleteWal xs).WrittenIn xs := ⟨rfl, rfl⟩

theorem deleteWal_wellFormed (xs : XactState) : (deleteWal xs).WellFormed where
  offset_pos := by
    intro u hu
    cases List.mem_singleton.mp hu
    exact Nat.le_refl 1
  oldBlk_ne := by
    intro x hx
    cases hx

/-- A delete made inside a savepoint is replayed into a row that its own undo record passes over
as already done. -/
theorem redo_savepoint_delete_already_done :
    ∃ pages u, xheapRedo (fun _ => true) (deleteWal insideSavepoint) liveRowPages =
        .ok ([u], pages) ∧ u.uurXid = 7 ∧ ((pages 0).row 1).tup.modifiedXid = 9 ∧
      ((pages 0).row 1).tup.urec = u.uurUrp ∧
      undoGate u ((pages 0).row 1).tup = .alreadyDone :=
  ⟨_, _, rfl, rfl, rfl, rfl, rfl⟩

theorem redo_owners_match_at_top_level :
    ∃ recs pages, xheapRedo (fun _ => true) (deleteWal atTopLevel) liveRowPages =
        .ok (recs, pages) ∧ OwnersMatch (fun _ => true) (deleteWal atTopLevel) recs pages := by
  obtain ⟨recs, pages, h⟩ : ∃ recs pages, xheapRedo (fun _ => true) (deleteWal atTopLevel)
      liveRowPages = .ok (recs, pages) := ⟨_, _, rfl⟩
  exact ⟨recs, pages, h, (redo_owners_match_iff atTopLevel (deleteWal_written _)
    (deleteWal_wellFormed _) h).mpr (.inl rfl)⟩

end Savepoint

end XStore
