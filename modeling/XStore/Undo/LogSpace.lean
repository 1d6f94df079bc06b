import XStore.Heap.FreeOffsets
import XStore.Undo.Prepare
import Mathlib.Algebra.Order.BigOperators.Group.List

/-!
# Space in an undo log

Before an operation writes undo, `check_need_switch_undolog` asks whether the log has room for all its
records, and `allocate_undo_space` takes the room in this log or in a new one.  The size is a sum over
the records in 32 bits, and the test sees 16 of them.
-/
namespace XStore

open List

def indexSizeMask : Nat := 0x1FFF

/-- What one operation hands to `prepare_undo`.  The raw data of a row are not longer than a page. -/
inductive UndoOperation where
  /-- An insert, a delete or an in-place update. -/
  | row (u : HeapRecord) (raw_le : u.body.rawdata.length ≤ blcksz)
  /-- An update that moves the row. -/
  | move (old new : HeapRecord) (ctid : Nat × Nat) (old_body : old.body = .update ctid)
      (new_body : new.body = .insert)
  /-- The record of a range, for every range of the page. -/
  | multiInsert (u : HeapRecord) (p : XPage) (saveFreeSpace : Nat) (tuples : List XHeapDiskTuple)
      (insertable : p.Insertable)
  /-- An insert into an index or a delete from it. -/
  | index (u : RawUndoRecord) (raw_le : u.uurPayload.length ≤ indexSizeMask)

namespace UndoOperation

/-- The record that `xheap_prepare_undo_multi_insert` builds for a range. -/
def rangeRecord (u : HeapRecord) (r : OffsetRange) : HeapRecord :=
  { u with
    body := .multiInsert r.startOffset r.endOffset
    uurPrevxid := invalidXid
    uurSubxid := none }

/-- Only the first record of a list names the previous one behind a switch. -/
def prepareAll (txnprevurp : Nat) (isSwitch : Bool) : List HeapRecord → List RawUndoRecord
  | [] => []
  | u :: us => u.prepared txnprevurp isSwitch :: us.map fun u => u.prepared txnprevurp false

/-- The records of the operation after `prepare_undo_record_info`. -/
def records (txnprevurp : Nat) (isSwitch : Bool) : UndoOperation → Except Panic (List RawUndoRecord)
  | row u _ => .ok (prepareAll txnprevurp isSwitch [u])
  | move old new _ _ _ => .ok (prepareAll txnprevurp isSwitch [old, new])
  | multiInsert u p saveFreeSpace tuples _ =>
    (getUsableOffsetRanges p saveFreeSpace tuples).map fun ranges =>
      prepareAll txnprevurp isSwitch (ranges.map (rangeRecord u))
  | index u _ => .ok [{ u with uurInfo := u.uurInfo ||| infoIf isSwitch urecInfoPreurp }]

end UndoOperation

/-- `prepare_buffers_total_size`, in the 32 bits of `total_size`. -/
def totalSize (us : List RawUndoRecord) : Nat :=
  (us.map fun u => undoRecordExpectedSize u % 2 ^ 16).sum % 2 ^ 32

section Sizes

variable {txnprevurp : Nat} {isSwitch : Bool} {us : List RawUndoRecord} {n : Nat}

def maxRecordOverhead : Nat := 76

theorem undoRecordExpectedSize_le (u : RawUndoRecord) :
    undoRecordExpectedSize u ≤ maxRecordOverhead + u.uurPayload.length := by
  unfold undoRecordExpectedSize maxRecordOverhead sizeOfUndoRecordHeader sizeOfUndoRecordBlock
    sizeOfUndoRecordSize
  split_ifs <;> omega

/-- Records with short raw data take as much space as there are of them, at most. -/
theorem totalSize_le (h : ∀ u ∈ us, u.uurPayload.length ≤ n) :
    totalSize us ≤ us.length * (maxRecordOverhead + n) := by
  have hsum : (us.map fun u => undoRecordExpectedSize u % 2 ^ 16).sum ≤
      (us.map fun u => undoRecordExpectedSize u % 2 ^ 16).length • (maxRecordOverhead + n) := by
    apply sum_le_card_nsmul
    intro x hx
    obtain ⟨u, hu, rfl⟩ := mem_map.mp hx
    have hsize := undoRecordExpectedSize_le u
    have hraw := h u hu
    have hmod := Nat.mod_le (undoRecordExpectedSize u) (2 ^ 16)
    omega
  rw [length_map, nsmul_eq_mul, Nat.cast_id] at hsum
  exact Nat.le_trans (Nat.mod_le _ _) hsum

theorem prepareAll_totalSize_le {us : List HeapRecord}
    (h : ∀ u ∈ us, u.body.rawdata.length ≤ n) :
    totalSize (UndoOperation.prepareAll txnprevurp isSwitch us) ≤ us.length * (maxRecordOverhead + n) := by
  have hlen : (UndoOperation.prepareAll txnprevurp isSwitch us).length = us.length := by
    cases us <;> simp [UndoOperation.prepareAll]
  rw [← hlen]
  apply totalSize_le
  cases us with
  | nil => simp [UndoOperation.prepareAll]
  | cons u us =>
    intro v hv
    rcases mem_cons.mp hv with rfl | hv
    · exact h u mem_cons_self
    · obtain ⟨w, hw, rfl⟩ := mem_map.mp hv
      exact h w (mem_cons_of_mem u hw)

/-- A page has at most one range for every free line and one behind the lines. -/
theorem getUsableOffsetRanges_length {p : XPage} {save : Nat} {tuples : List XHeapDiskTuple}
    {ranges : List OffsetRange} (h : getUsableOffsetRanges p save tuples = .ok ranges) :
    ranges.length ≤ p.maxOffset + 1 := by
  obtain ⟨taken, hs⟩ := scanFreeLines_spec p save tuples
  have hlines : p.freeLines.length ≤ p.maxOffset := by
    unfold XPage.freeLines
    split_ifs
    · exact Nat.le_trans (length_filter_le _ _) (by simp)
    · exact Nat.zero_le _
  have hone : ∀ rs : List OffsetRange, (∀ r ∈ rs, r.startOffset ≤ r.endOffset) →
      rs.length ≤ (rangesOffsets rs).length := by
    intro rs hrs
    induction rs with
    | nil => exact Nat.zero_le _
    | cons r rs ih =>
      have hr := hrs r mem_cons_self
      have hrest := ih fun x hx => hrs x (mem_cons_of_mem r hx)
      rw [rangesOffsets_cons, length_append, OffsetRange.offsets, length_range', length_cons]
      omega
  have hscan := hone _ hs.nonempty
  rw [hs.offsets, length_take] at hscan
  have hbehind : (rangeBehind p save (scanFreeLines p save tuples)).length ≤ 1 := by
    unfold rangeBehind
    split
    · exact Nat.zero_le _
    · split_ifs <;> simp
  rw [getUsableOffsetRanges_eq] at h
  dsimp only at h
  split_ifs at h
  cases h
  rw [length_append]
  omega

theorem UndoOperation.totalSize_lt {op : UndoOperation}
    (h : op.records txnprevurp isSwitch = .ok us) : totalSize us < 2 ^ 16 := by
  have hpage : blcksz = 8192 := rfl
  have hover : maxRecordOverhead = 76 := rfl
  cases op with
  | row u hraw =>
    cases h
    have hsize : totalSize (prepareAll txnprevurp isSwitch [u]) ≤ 1 * (maxRecordOverhead + blcksz) :=
      prepareAll_totalSize_le (by simpa using hraw)
    omega
  | move old new ctid hold hnew =>
    cases h
    have hsize : totalSize (prepareAll txnprevurp isSwitch [old, new]) ≤ 2 * (maxRecordOverhead + 6) := by
      apply prepareAll_totalSize_le
      simp [hold, hnew, HeapUndo.rawdata, itemPointerBytes]
    omega
  | multiInsert u p save tuples hp =>
    obtain ⟨ranges, hranges, rfl⟩ := map_ok h
    have hsize : totalSize (prepareAll txnprevurp isSwitch (ranges.map (rangeRecord u))) ≤
        (ranges.map (rangeRecord u)).length * (maxRecordOverhead + 4) := by
      apply prepareAll_totalSize_le
      simp [rangeRecord, HeapUndo.rawdata]
    have hlen := getUsableOffsetRanges_length hranges
    have hlines := hp.lines_le
    have hmax : calculatedMaxXHeapTuplesPerPage ≤ 300 := by decide
    rw [length_map, hover] at hsize
    omega
  | index u hraw =>
    cases h
    have hmask : indexSizeMask = 8191 := rfl
    have hsize : totalSize [{ u with uurInfo := u.uurInfo ||| infoIf isSwitch urecInfoPreurp }] ≤
        1 * (maxRecordOverhead + indexSizeMask) :=
      totalSize_le (by simpa using hraw)
    omega

end Sizes

def undologDatFileMaxsize : Nat := 1024 * 1024

/-- `UNDO_LOG_MAX_SIZE` for a value of `undo_max_segno_per_log`. -/
def undoLogMaxSizeFor (undoMaxSegnoPerLog : Int) : Nat :=
  if 1 ≤ undoMaxSegnoPerLog then undoMaxSegnoPerLog.toNat * undologDatFileMaxsize else undoLogMaxSize

/-- The insert pointer of a log and the end of its data segment. -/
structure DataSpace where
  insertOffset : Nat
  tail : Nat

inductive SpaceError where
  /-- The assertion of `extend_undo_segment` that the new tail is not behind `UNDO_LOG_MAX_SIZE`. -/
  | pastMaxSize (offset : Nat)
  /-- `PANIC`: Undo space switch fail -/
  | switchFail (tail : Nat)
  /-- `ERROR`: undo space size > limit size -/
  | limitSize
  /-- `ERROR`: Too many undo logs are requested -/
  | tooManyLogs
  /-- `ERROR`: there're too many working threads -/
  | noLog
  deriving DecidableEq

/-- What the rest of the system answers to an operation. -/
structure SpaceEnv where
  /-- `undo_max_total_size` is reached. -/
  limitReached : Bool
  /-- `undo_log_used_cout` is above its threshold. -/
  tooManyLogs : Bool
  /-- The log that `allocate_undo_logno` finds. -/
  nextLog : Option DataSpace

namespace DataSpace

variable (maxSize : Nat) (u : DataSpace)

/-- `undolog_check_need_switch`, which is given the size in the 16 bits of `UndoRecordSize`. -/
def checkNeedSwitch (size : Nat) : Bool :=
  decide (maxSize < offsetPlusUsableBytes u.insertOffset (size % 2 ^ 16))

/-- `extend_undo_segment` of the data segment. -/
def extendSegment (limitReached : Bool) (offset : Nat) : Except SpaceError DataSpace :=
  if maxSize < offset then .error (.pastMaxSize offset)
  else if limitReached then .error .limitSize
  else .ok { u with tail := offset }

/-- `undolog_alloc_space` -/
def allocSpace (limitReached : Bool) (size : Nat) : Except SpaceError DataSpace :=
  let newInsert := offsetPlusUsableBytes u.insertOffset size
  if u.tail < newInsert then
    u.extendSegment maxSize limitReached
      (newInsert + undologDatFileMaxsize - newInsert % undologDatFileMaxsize)
  else .ok u

/-- `undolog_prepare_switch` -/
def prepareSwitch : Except SpaceError DataSpace :=
  if u.tail ≠ maxSize then .error (.switchFail u.tail) else .ok { u with insertOffset := maxSize }

/-- `undolog_switch` -/
def switchLog (env : SpaceEnv) : Except SpaceError DataSpace :=
  if env.tooManyLogs then .error .tooManyLogs
  else (u.prepareSwitch maxSize).bind fun _ => env.nextLog.elim (.error .noLog) .ok

/-- `check_need_switch_undolog` and `allocate_undo_space` for an operation of `size` bytes, which has
`sizeSwitched` bytes if the log is switched. -/
def prepareSpace (env : SpaceEnv) (size sizeSwitched : Nat) : Except SpaceError DataSpace :=
  if u.checkNeedSwitch maxSize size then
    (u.switchLog maxSize env).bind fun next => next.allocSpace maxSize env.limitReached sizeSwitched
  else u.allocSpace maxSize env.limitReached size

/-- The records have been written: `undolog_advance_insert_urecptr`. -/
def advance (size : Nat) : DataSpace :=
  { u with insertOffset := offsetPlusUsableBytes u.insertOffset size }

/-- The insert pointer is on a page of the segment, behind the page header, unless nothing has been
written yet. -/
structure Open : Prop where
  page : undoLogBlockHeaderSize ≤ u.insertOffset % blcksz
  tail_dvd : undologDatFileMaxsize ∣ u.tail
  tail_le : u.tail ≤ maxSize
  insert : u.insertOffset = undoLogBlockHeaderSize ∨ u.insertOffset < u.tail

/-- A log that is written to, or one that was closed for a switch and is still the current one since the
switch then failed. -/
def Ok : Prop := u.Open maxSize ∨ u.insertOffset = maxSize ∧ u.tail = maxSize

end DataSpace

theorem dvd_undoLogMaxSizeFor (n : Int) : undologDatFileMaxsize ∣ undoLogMaxSizeFor n := by
  unfold undoLogMaxSizeFor
  split_ifs
  · exact Nat.dvd_mul_left _ _
  · exact ⟨2 ^ 26, by decide⟩

theorem undoLogMaxSizeFor_pos (n : Int) : 0 < undoLogMaxSizeFor n := by
  unfold undoLogMaxSizeFor
  split_ifs with hn
  · exact Nat.mul_pos (by omega) (by decide)
  · decide

section Exact

variable {maxSize : Nat} {u : DataSpace} {size : Nat}

theorem offsetPlusUsableBytes_mod (offset n : Nat) :
    undoLogBlockHeaderSize ≤ offsetPlusUsableBytes offset n % blcksz := by
  unfold offsetPlusUsableBytes undoLogUsableBytesPerPage undoLogBlockHeaderSize blcksz
  dsimp only
  omega

theorem offsetPlusUsableBytes_le {offset : Nat} (h : undoLogBlockHeaderSize ≤ offset % blcksz)
    (hsize : size < 2 ^ 16) : offsetPlusUsableBytes offset size < offset + 2 ^ 17 := by
  unfold offsetPlusUsableBytes undoLogUsableBytesPerPage undoLogBlockHeaderSize blcksz at *
  dsimp only
  omega

theorem le_offsetPlusUsableBytes {offset : Nat} (h : undoLogBlockHeaderSize ≤ offset % blcksz) :
    offset ≤ offsetPlusUsableBytes offset size := by
  unfold offsetPlusUsableBytes undoLogUsableBytesPerPage undoLogBlockHeaderSize blcksz at *
  dsimp only
  omega

/-- A record is longer than a page header, so that it moves the pointer also from the end of a log. -/
theorem lt_offsetPlusUsableBytes {offset : Nat} (hsize : sizeOfUndoRecordHeader ≤ size) :
    offset < offsetPlusUsableBytes offset size := by
  unfold offsetPlusUsableBytes undoLogUsableBytesPerPage undoLogBlockHeaderSize blcksz sizeOfUndoRecordHeader at *
  dsimp only
  omega

/-- The end of the segment that holds a pointer is in the log if the pointer is. -/
theorem segmentEnd_le {newInsert : Nat} (hdvd : undologDatFileMaxsize ∣ maxSize)
    (hpage : undoLogBlockHeaderSize ≤ newInsert % blcksz) (hle : newInsert ≤ maxSize) :
    newInsert + undologDatFileMaxsize - newInsert % undologDatFileMaxsize ≤ maxSize := by
  obtain ⟨k, rfl⟩ := hdvd
  unfold undologDatFileMaxsize undoLogBlockHeaderSize blcksz at *
  omega

namespace DataSpace

variable (hdvd : undologDatFileMaxsize ∣ maxSize)

include hdvd

/-- Space that fits in the log is given without a panic. -/
theorem allocSpace_fits
    (hfit : offsetPlusUsableBytes u.insertOffset size ≤ maxSize) (limitReached : Bool) :
    u.allocSpace maxSize limitReached size = .error .limitSize ∨
      ∃ v, u.allocSpace maxSize limitReached size = .ok v := by
  unfold allocSpace extendSegment
  dsimp only
  have hend := segmentEnd_le hdvd (offsetPlusUsableBytes_mod u.insertOffset size) hfit
  split_ifs with htail hover hlimit
  · exact absurd hover (Nat.not_lt.mpr hend)
  · exact .inl rfl
  · exact .inr ⟨_, rfl⟩
  · exact .inr ⟨_, rfl⟩

/-- A log that is too full for a short record has been extended to its end. -/
theorem tail_of_needSwitch (hpos : 0 < maxSize)
    (hu : u.Ok maxSize) (hsize : size < 2 ^ 16)
    (hfull : maxSize < offsetPlusUsableBytes u.insertOffset size) : u.tail = maxSize := by
  rcases hu with hu | ⟨-, htail⟩
  on_goal 2 => exact htail
  have hnear := offsetPlusUsableBytes_le hu.page hsize
  obtain ⟨k, rfl⟩ := hdvd
  obtain ⟨j, hj⟩ := hu.tail_dvd
  have hle := hu.tail_le
  have hinsert := hu.insert
  unfold undologDatFileMaxsize undoLogBlockHeaderSize at *
  omega

theorem fits_fresh (hpos : 0 < maxSize) (hsize : size < 2 ^ 16) :
    offsetPlusUsableBytes undoLogBlockHeaderSize size ≤ maxSize := by
  have hnear := offsetPlusUsableBytes_le (by decide : undoLogBlockHeaderSize ≤ undoLogBlockHeaderSize % blcksz)
    hsize
  obtain ⟨k, rfl⟩ := hdvd
  unfold undologDatFileMaxsize undoLogBlockHeaderSize at *
  omega

/-- Neither the allocation nor the switch stops the server on short records. -/
theorem prepareSpace_cases {env : SpaceEnv} {sizeSwitched : Nat}
    (hpos : 0 < maxSize) (hu : u.Ok maxSize)
    (hnext : ∀ next ∈ env.nextLog, next.insertOffset = undoLogBlockHeaderSize)
    (hsize : size < 2 ^ 16) (hswitched : sizeSwitched < 2 ^ 16) :
    (∃ e ∈ [SpaceError.limitSize, .tooManyLogs, .noLog],
        u.prepareSpace maxSize env size sizeSwitched = .error e) ∨
      ∃ v, u.prepareSpace maxSize env size sizeSwitched = .ok v := by
  unfold prepareSpace
  by_cases hfull : u.checkNeedSwitch maxSize size = true
  · have htail : u.tail = maxSize := by
      apply tail_of_needSwitch hdvd hpos hu hsize
      rwa [checkNeedSwitch, Nat.mod_eq_of_lt hsize, decide_eq_true_eq] at hfull
    rw [if_pos hfull, switchLog]
    by_cases hmany : env.tooManyLogs = true
    · rw [if_pos hmany]
      exact .inl ⟨.tooManyLogs, by simp, rfl⟩
    · rw [if_neg hmany, prepareSwitch, if_neg (not_not_intro htail)]
      cases hlog : env.nextLog with
      | none => exact .inl ⟨.noLog, by simp, rfl⟩
      | some next =>
        have hfit : offsetPlusUsableBytes next.insertOffset sizeSwitched ≤ maxSize := by
          rw [hnext next hlog]
          exact fits_fresh hdvd hpos hswitched
        rcases allocSpace_fits hdvd hfit env.limitReached with herr | hok
        · exact .inl ⟨.limitSize, by simp, herr⟩
        · exact .inr hok
  · have hfit : offsetPlusUsableBytes u.insertOffset size ≤ maxSize := by
      rwa [checkNeedSwitch, Nat.mod_eq_of_lt hsize, decide_eq_true_eq, Nat.not_lt] at hfull
    rw [if_neg hfull]
    rcases allocSpace_fits hdvd hfit env.limitReached with herr | hok
    · exact .inl ⟨.limitSize, by simp, herr⟩
    · exact .inr hok

end DataSpace

/-- For every operation the test asks for a switch exactly if the log has no room for all its records,
and neither the allocation nor the switch stops the server. -/
theorem log_full_test_exact (undoMaxSegnoPerLog : Int) {u : DataSpace}
    (hu : u.Ok (undoLogMaxSizeFor undoMaxSegnoPerLog)) (env : SpaceEnv)
    (hnext : ∀ next ∈ env.nextLog, next.insertOffset = undoLogBlockHeaderSize)
    (op : UndoOperation) {txnprevurp : Nat} {us usSwitched : List RawUndoRecord}
    (hrecords : op.records txnprevurp false = .ok us)
    (hswitched : op.records txnprevurp true = .ok usSwitched) :
    (u.checkNeedSwitch (undoLogMaxSizeFor undoMaxSegnoPerLog) (totalSize us) = true ↔
      undoLogMaxSizeFor undoMaxSegnoPerLog < offsetPlusUsableBytes u.insertOffset (totalSize us)) ∧
    (∀ offset, u.prepareSpace (undoLogMaxSizeFor undoMaxSegnoPerLog) env (totalSize us)
      (totalSize usSwitched) ≠ .error (.pastMaxSize offset)) ∧
    ∀ tail, u.prepareSpace (undoLogMaxSizeFor undoMaxSegnoPerLog) env (totalSize us)
      (totalSize usSwitched) ≠ .error (.switchFail tail) := by
  have hsize := op.totalSize_lt hrecords
  have hcases := DataSpace.prepareSpace_cases (dvd_undoLogMaxSizeFor undoMaxSegnoPerLog)
    (undoLogMaxSizeFor_pos undoMaxSegnoPerLog) hu hnext hsize (op.totalSize_lt hswitched)
  refine ⟨?_, ?_, ?_⟩
  · rw [DataSpace.checkNeedSwitch, Nat.mod_eq_of_lt hsize, decide_eq_true_eq]
  · intro offset heq
    rw [heq] at hcases
    simp at hcases
  · intro tail heq
    rw [heq] at hcases
    simp at hcases

def freshSpace : DataSpace := ⟨undoLogBlockHeaderSize, 0⟩

/-- The space of a log after operations have been given space in it, which they write to or not, and have
closed it for a switch that then failed. -/
inductive LogReached (maxSize : Nat) : DataSpace → Prop
  | fresh : LogReached maxSize freshSpace
  | alloc {u v : DataSpace} {limitReached : Bool} {size : Nat} (h : LogReached maxSize u)
      (halloc : u.allocSpace maxSize limitReached size = .ok v) : LogReached maxSize v
  | write {u v : DataSpace} {limitReached : Bool} {size : Nat} (h : LogReached maxSize u)
      (halloc : u.allocSpace maxSize limitReached size = .ok v) : LogReached maxSize (v.advance size)
  | close {u v : DataSpace} (h : LogReached maxSize u) (hclose : u.prepareSwitch maxSize = .ok v) :
      LogReached maxSize v

namespace DataSpace

/-- What a successful allocation leaves: the space is there, and only the tail has moved. -/
theorem Open.allocSpace {v : DataSpace} {limitReached : Bool} (hu : u.Open maxSize)
    (h : u.allocSpace maxSize limitReached size = .ok v) :
    v.Open maxSize ∧ v.insertOffset = u.insertOffset ∧
      offsetPlusUsableBytes u.insertOffset size ≤ v.tail := by
  have hle := @le_offsetPlusUsableBytes size _ hu.page
  unfold DataSpace.allocSpace extendSegment at h
  dsimp only at h
  split_ifs at h with htail hover hlimit
  · cases h
    have hbehind : offsetPlusUsableBytes u.insertOffset size <
        offsetPlusUsableBytes u.insertOffset size + undologDatFileMaxsize -
          offsetPlusUsableBytes u.insertOffset size % undologDatFileMaxsize := by
      unfold undologDatFileMaxsize
      omega
    refine ⟨⟨hu.page, ?_, Nat.not_lt.mp hover, .inr (Nat.lt_of_le_of_lt hle hbehind)⟩, rfl,
      Nat.le_of_lt hbehind⟩
    unfold undologDatFileMaxsize
    dsimp only
    omega
  · cases h
    exact ⟨hu, rfl, Nat.not_lt.mp htail⟩

/-- A closed log is not extended. -/
theorem allocSpace_closed {v : DataSpace} {limitReached : Bool} (htail : u.tail = maxSize)
    (h : u.allocSpace maxSize limitReached size = .ok v) :
    v = u ∧ offsetPlusUsableBytes u.insertOffset size ≤ u.tail := by
  unfold DataSpace.allocSpace extendSegment at h
  dsimp only at h
  split_ifs at h with hover hmax hlimit
  · unfold undologDatFileMaxsize at hmax
    omega
  · cases h
    exact ⟨rfl, Nat.not_lt.mp hover⟩

theorem open_advance (hdvd : undologDatFileMaxsize ∣ u.tail) (hle : u.tail ≤ maxSize)
    (hfit : offsetPlusUsableBytes u.insertOffset size ≤ u.tail) : (u.advance size).Open maxSize where
  page := offsetPlusUsableBytes_mod u.insertOffset size
  tail_dvd := hdvd
  tail_le := hle
  insert := by
    -- a segment ends at the end of a page, and the pointer is behind a page header
    have hpage := offsetPlusUsableBytes_mod u.insertOffset size
    obtain ⟨k, hk⟩ := hdvd
    right
    unfold DataSpace.advance undologDatFileMaxsize undoLogBlockHeaderSize blcksz at *
    dsimp only
    omega

end DataSpace

theorem LogReached.ok (hdvd : undologDatFileMaxsize ∣ maxSize) (h : LogReached maxSize u) : u.Ok maxSize := by
  induction h with
  | fresh => exact .inl ⟨by decide, Nat.dvd_zero _, Nat.zero_le _, .inl rfl⟩
  | alloc _ halloc ih =>
    rcases ih with hopen | ⟨hinsert, htail⟩
    · exact .inl (hopen.allocSpace halloc).1
    · rw [(DataSpace.allocSpace_closed htail halloc).1]
      exact .inr ⟨hinsert, htail⟩
  | write _ halloc ih =>
    rcases ih with hopen | ⟨hinsert, htail⟩
    · obtain ⟨hv, heq, hfit⟩ := hopen.allocSpace halloc
      exact .inl (DataSpace.open_advance hv.tail_dvd hv.tail_le (heq ▸ hfit))
    · obtain ⟨rfl, hfit⟩ := DataSpace.allocSpace_closed htail halloc
      exact .inl (DataSpace.open_advance (htail ▸ hdvd) (Nat.le_of_eq htail) hfit)
  | close _ hclose ih =>
    rw [DataSpace.prepareSwitch] at hclose
    split_ifs at hclose with htail
    cases hclose
    exact .inr ⟨rfl, not_not.mp htail⟩

/-- A log of one segment with a hundred bytes left. -/
def nearEnd : DataSpace := ⟨1048476, 1048576⟩

theorem nearEnd_reached : LogReached (undoLogMaxSizeFor 1) nearEnd := by
  have halloc : freshSpace.allocSpace (undoLogMaxSizeFor 1) false 1045404 = .ok ⟨24, 1048576⟩ := by
    simp [freshSpace, DataSpace.allocSpace, DataSpace.extendSegment, offsetPlusUsableBytes, undoLogMaxSizeFor,
      undoLogUsableBytesPerPage, undoLogBlockHeaderSize, undologDatFileMaxsize, blcksz]
  have hnear : nearEnd = DataSpace.advance ⟨24, 1048576⟩ 1045404 := by
    simp [nearEnd, DataSpace.advance, offsetPlusUsableBytes, undoLogUsableBytesPerPage, undoLogBlockHeaderSize, blcksz]
  rw [hnear]
  exact .write .fresh halloc

/-- Line 2 of the page is in use, lines 1 and 3 are free. -/
def pageWithHoles : XPage where
  pdFlags := xheapHasFreeLines
  pdUpper := 8000
  pdSpecial := blcksz
  pdPruneXid := 0
  potentialFreespace := 1000
  rows := [Row.zero, ⟨⟨8152, .normal, 40⟩, ⟨5, 0, 90, 0#16, 1#16, 32, replicate 11 1⟩⟩, Row.zero]

theorem pageWithHoles_insertable : pageWithHoles.Insertable where
  lower_le := by decide
  upper_even := by decide
  bare := fun off => by
    match off with
    | 0 | 1 | 2 | 3 => decide
    | off + 4 => exact fun _ => rfl
  lines_le := by decide

/-- Four rows for the free lines and the end of the page. -/
def insertIntoHoles : UndoOperation :=
  .multiInsert ⟨7, 0, 16384, 16384, 1663, 0, 0, 0, 0, 0#16, none, .insert, 0, 0⟩ pageWithHoles 0
    (replicate 4 ⟨0, 0, 0, 0#16, 1#16, 32, [7]⟩) pageWithHoles_insertable

/-- The records of three ranges do not fit, and the log is switched. -/
theorem three_ranges_at_end_switch :
    ∃ us usSwitched, insertIntoHoles.records 0 false = .ok us ∧ insertIntoHoles.records 0 true = .ok usSwitched ∧
      us.length = 3 ∧ nearEnd.checkNeedSwitch (undoLogMaxSizeFor 1) (totalSize us) = true ∧
      ∀ tail, nearEnd.prepareSpace (undoLogMaxSizeFor 1) ⟨false, false, some freshSpace⟩ (totalSize us)
        (totalSize usSwitched) ≠ .error (.switchFail tail) := by
  obtain ⟨hexact, -, hpanic⟩ := log_full_test_exact 1 (nearEnd_reached.ok (dvd_undoLogMaxSizeFor 1))
    ⟨false, false, some freshSpace⟩ (by simp [freshSpace]) insertIntoHoles rfl rfl
  exact ⟨_, _, rfl, rfl, rfl, hexact.mpr (by decide), hpanic⟩

end Exact

end XStore
