import XStore.Heap.DeltaBytes
import XStore.Undo.Codec

/-!
# Walking a log backwards

`undo_record_get_preurp`: the previous record is found by its length, which stands in the two bytes
before the current pointer.  `get_next_undoptr` steps over every page header on its way, the
backward step over one at most.
-/
namespace XStore

def getNextUndoptr (ptr : UndoPtr) (size : Nat) : UndoPtr :=
  ⟨ptr.logno, offsetPlusUsableBytes ptr.offset size⟩

@[simp] theorem getNextUndoptr_logno (ptr : UndoPtr) (size : Nat) :
    (getNextUndoptr ptr size).logno = ptr.logno := by
  simp only [getNextUndoptr]

/-- The loop of `undo_record_get_prerecordlen`, which fills `prev_len` from its end. -/
def readPrevLen (mem : Memory) (curRecptr : Nat) :
    Nat → Nat → Nat → Nat → List UInt8 → Option (Except Panic (List UInt8))
  | 0, _, _, _, _ => none
  | fuel + 1, blk, pageOffset, byteToRead, prevLen =>
    if byteToRead = 0 then some (.ok prevLen)
    else if undoLogBlockHeaderSize ≤ pageOffset - 1 then
      readPrevLen mem curRecptr fuel blk (pageOffset - 1) (byteToRead - 1)
        (mem (blk * blcksz + (pageOffset - 1)) :: prevLen)
    else if blk = 0 then some (.error (.noPageBefore curRecptr))
    else readPrevLen mem curRecptr fuel (blk - 1) blcksz byteToRead prevLen

/-- The distance to the record before, from its length; the sum is cut to `UndoRecordSize`. -/
def distanceBack (curRecptr preReclen : Nat) : Except Panic Nat :=
  let preReclen := if curRecptr % blcksz - undoLogBlockHeaderSize < preReclen then
      (preReclen + undoLogBlockHeaderSize) % 2 ^ 16
    else preReclen
  if preReclen = 0 then .error (.prevLenIsZero curRecptr) else .ok preReclen

def undoRecordGetPrerecordlen (mem : Memory) (fuel curRecptr : Nat) : Option (Except Panic Nat) :=
  (readPrevLen mem curRecptr fuel (curRecptr / blcksz) (curRecptr % blcksz) sizeOfUndoRecordSize []).map
    fun r => r.bind fun prevLen => distanceBack curRecptr (leNat prevLen)

/-- `undo_record_get_preurp` on the memory of the log. -/
def undoRecordGetPreurp (mem : Memory) (fuel : Nat) (uurTxnprevurp cur : UndoPtr) :
    Option (Except Panic UndoPtr) :=
  if uurTxnprevurp ≠ .invalid then some (.ok uurTxnprevurp)
  else (undoRecordGetPrerecordlen mem fuel cur.offset).map fun r =>
    r.map fun prevLen => ⟨cur.logno, cur.offset - prevLen⟩

theorem offsetPlusUsableBytes_eq {offset : Nat} (h : undoLogBlockHeaderSize ≤ offset % blcksz) (n : Nat) :
    offsetPlusUsableBytes offset n = undoPaging.addr (undoPaging.index offset + n) := by
  have hindex : offset % blcksz + offset / blcksz * undoLogUsableBytesPerPage + n - undoLogBlockHeaderSize =
      offset % blcksz - undoLogBlockHeaderSize + offset / blcksz * undoLogUsableBytesPerPage + n := by omega
  rw [offsetPlusUsableBytes, hindex]
  rfl

section Loop

variable (mem : Memory) (curRecptr : Nat) {m : Nat}

/-- One byte back in the stream takes one turn of the loop, or two across a page header. -/
theorem readPrevLen_step (hm : 0 < m) (fuel byteToRead : Nat) (prevLen : List UInt8) :
    ∃ fuel' ≥ fuel, readPrevLen mem curRecptr (fuel + 2) (m / undoPaging.usable)
        (undoLogBlockHeaderSize + m % undoPaging.usable) (byteToRead + 1) prevLen =
      readPrevLen mem curRecptr fuel' ((m - 1) / undoPaging.usable)
        (undoLogBlockHeaderSize + (m - 1) % undoPaging.usable) byteToRead
        (mem (undoPaging.addr (m - 1)) :: prevLen) := by
  have haddr : undoPaging.addr (m - 1) = (m - 1) / undoPaging.usable * blcksz + undoLogBlockHeaderSize +
      (m - 1) % undoPaging.usable := rfl
  have husable : undoPaging.usable = 8168 := rfl
  rw [haddr, husable]
  rcases Nat.eq_zero_or_pos (m % 8168) with hzero | hpos
  · refine ⟨fuel, le_refl _, ?_⟩
    have hblk : m / 8168 ≠ 0 := by omega
    have hdiv : m / 8168 - 1 = (m - 1) / 8168 := by omega
    have hmod : blcksz - 1 = undoLogBlockHeaderSize + (m - 1) % 8168 := by
      unfold blcksz undoLogBlockHeaderSize
      omega
    rw [readPrevLen, if_neg (Nat.succ_ne_zero _), if_neg (by rw [hzero]; decide), if_neg hblk, readPrevLen,
      if_neg (Nat.succ_ne_zero _), if_pos (by decide), hdiv, hmod, Nat.add_sub_cancel, Nat.add_assoc]
  · refine ⟨fuel + 1, Nat.le_succ _, ?_⟩
    have hdiv : m / 8168 = (m - 1) / 8168 := by omega
    have hmod : undoLogBlockHeaderSize + m % 8168 - 1 = undoLogBlockHeaderSize + (m - 1) % 8168 := by
      omega
    rw [readPrevLen, if_neg (Nat.succ_ne_zero _), hmod, if_pos (Nat.le_add_right _ _), hdiv,
      Nat.add_sub_cancel, Nat.add_assoc]

/-- The loop reads the two bytes of the stream before the pointer. -/
theorem readPrevLen_two (hm : 2 ≤ m) {fuel : Nat} (hfuel : 5 ≤ fuel) :
    readPrevLen mem curRecptr fuel (m / undoPaging.usable)
        (undoLogBlockHeaderSize + m % undoPaging.usable) 2 [] =
      some (.ok [mem (undoPaging.addr (m - 2)), mem (undoPaging.addr (m - 1))]) := by
  obtain ⟨f₁, hf₁, h₁⟩ := readPrevLen_step mem curRecptr (by omega : 0 < m) (fuel - 2) 1 []
  obtain ⟨f₂, hf₂, h₂⟩ := readPrevLen_step mem curRecptr (by omega : 0 < m - 1) (f₁ - 2) 0
    [mem (undoPaging.addr (m - 1))]
  rw [Nat.sub_add_cancel (by omega)] at h₁ h₂
  rw [h₁, h₂, Nat.sub_sub]
  obtain ⟨f, rfl⟩ := Nat.exists_eq_add_of_le' (by omega : 1 ≤ f₂)
  rw [readPrevLen, if_pos rfl]

end Loop

section Distance

variable {i n : Nat}

theorem distanceBack_addr (hpos : 0 < n) (hn : n + undoLogBlockHeaderSize < 2 ^ 16) :
    distanceBack (undoPaging.addr (i + n)) n =
      .ok (if (i + n) % undoPaging.usable < n then n + undoLogBlockHeaderSize else n) := by
  have hmod : undoPaging.addr (i + n) % blcksz = undoLogBlockHeaderSize + (i + n) % undoPaging.usable :=
    undoPaging.addr_mod _
  unfold distanceBack
  rw [hmod]
  simp only [Nat.add_sub_cancel_left, Nat.mod_eq_of_lt hn]
  split
  · rw [if_neg (by omega)]
  · rw [if_neg (by omega)]

/-- The room on the page of an offset behind its header. -/
theorem room_index {offset : Nat} (h : undoLogBlockHeaderSize ≤ offset % blcksz) :
    undoPaging.room (undoPaging.index offset) = blcksz - offset % blcksz := by
  rw [Paging.room, undoPaging.index_mod h]
  show blcksz - undoLogBlockHeaderSize - (offset % blcksz - undoLogBlockHeaderSize) = _
  omega

/-- The distance back from the end of a record, against where the record begins. -/
theorem next_sub_distance_iff {offset : Nat} (h : undoLogBlockHeaderSize ≤ offset % blcksz) :
    offsetPlusUsableBytes offset n - (if (undoPaging.index offset + n) % undoPaging.usable < n then
        n + undoLogBlockHeaderSize else n) = offset ↔
      n < blcksz - offset % blcksz + undoLogUsableBytesPerPage := by
  have hiff := undoPaging.addr_sub_eq_iff (by decide) (undoPaging.index offset) n
  rw [undoPaging.addr_index h, room_index h, ← offsetPlusUsableBytes_eq h] at hiff
  exact hiff

end Distance

section Record

variable {u : RawUndoRecord} {mem : Memory} {i : Nat}

theorem last_bytes_eq (hmem : undoPaging.Holds mem i (u.bytes (undoRecordExpectedSize u))) :
    [mem (undoPaging.addr (i + undoRecordExpectedSize u - 2)),
      mem (undoPaging.addr (i + undoRecordExpectedSize u - 1))] =
      leBytes sizeOfUndoRecordSize (undoRecordExpectedSize u) := by
  have hlen := u.bytes_length (undoRecordExpectedSize u)
  have heq := u.bytes_eq (undoRecordExpectedSize u)
  have htwo : sizeOfUndoRecordSize = 2 := rfl
  have hfront : (undoFieldOrder.flatMap u.piece).length + 2 = undoRecordExpectedSize u := by
    rw [← hlen, heq, List.length_append, leBytes_length, htwo]
  have hbyte : ∀ j < 2, some (mem (undoPaging.addr (i + undoRecordExpectedSize u - 2 + j))) =
      (leBytes sizeOfUndoRecordSize (undoRecordExpectedSize u))[j]? := by
    intro j hj
    have hhere := hmem (undoRecordExpectedSize u - 2 + j) (by omega)
    rw [heq, List.getElem?_append_right (by omega)] at hhere
    rw [show i + undoRecordExpectedSize u - 2 + j = i + (undoRecordExpectedSize u - 2 + j) by omega, hhere]
    congr 1
    omega
  have h0 := hbyte 0 (by decide)
  have h1 := hbyte 1 (by decide)
  rw [show i + undoRecordExpectedSize u - 2 + 1 = i + undoRecordExpectedSize u - 1 by omega] at h1
  rw [Nat.add_zero] at h0
  rw [htwo] at h0 h1 ⊢
  simp only [leBytes, List.getElem?_cons_zero, List.getElem?_cons_succ, Option.some.injEq] at h0 h1 ⊢
  rw [h0, h1]

theorem size_pos (u : RawUndoRecord) : 44 ≤ undoRecordExpectedSize u := by
  unfold undoRecordExpectedSize sizeOfUndoRecordHeader sizeOfUndoRecordBlock sizeOfUndoRecordSize
  omega

theorem undoRecordGetPrerecordlen_eq (hsize : undoRecordExpectedSize u + undoLogBlockHeaderSize < 2 ^ 16)
    (hmem : undoPaging.Holds mem i (u.bytes (undoRecordExpectedSize u))) {fuel : Nat} (hfuel : 5 ≤ fuel) :
    undoRecordGetPrerecordlen mem fuel (undoPaging.addr (i + undoRecordExpectedSize u)) =
      some (.ok (if (i + undoRecordExpectedSize u) % undoPaging.usable < undoRecordExpectedSize u then
        undoRecordExpectedSize u + undoLogBlockHeaderSize else undoRecordExpectedSize u)) := by
  have hpos := size_pos u
  have hdiv : undoPaging.addr (i + undoRecordExpectedSize u) / blcksz = _ := undoPaging.addr_div _
  have hmod : undoPaging.addr (i + undoRecordExpectedSize u) % blcksz =
      undoLogBlockHeaderSize + _ := undoPaging.addr_mod _
  have hleNat : leNat (leBytes sizeOfUndoRecordSize (undoRecordExpectedSize u)) = undoRecordExpectedSize u :=
    leNat_leBytes (by unfold sizeOfUndoRecordSize; omega)
  have hloop := readPrevLen_two mem (undoPaging.addr (i + undoRecordExpectedSize u))
    (by omega : 2 ≤ i + undoRecordExpectedSize u) hfuel
  unfold undoRecordGetPrerecordlen
  rw [hdiv, hmod, sizeOfUndoRecordSize, hloop, last_bytes_eq hmem, Option.map_some, Except.bind, hleNat,
    distanceBack_addr (by omega) hsize]

end Record

/-- From the end of a record the backward step leads to its start exactly when the record does not
reach into a third page. -/
theorem undoRecordGetPreurp_eq_start_iff (u : RawUndoRecord)
    (hsize : undoRecordExpectedSize u + undoLogBlockHeaderSize < 2 ^ 16) (s : UndoPtr)
    (hs : undoLogBlockHeaderSize ≤ s.offset % blcksz) (mem : Memory) (fuel : Nat)
    (hfuel : undoRecordExpectedSize u ≤ fuel) :
    ∃ mem', writeUndoRecord u (undoRecordExpectedSize u) fuel mem (s.offset / blcksz)
        (s.offset % blcksz) 0 = some (mem', undoRecordExpectedSize u) ∧
      (undoRecordGetPreurp mem' fuel .invalid (getNextUndoptr s (undoRecordExpectedSize u)) =
          some (.ok s) ↔
        undoRecordExpectedSize u < blcksz - s.offset % blcksz + undoLogUsableBytesPerPage) := by
  have hpos := size_pos u
  obtain ⟨mem', hwrite, hholds, -⟩ := writeUndoRecord_ok u (s.offset / blcksz) hs
    (Nat.mod_lt _ (by decide)) (undoRecordExpectedSize u) mem hfuel
  refine ⟨mem', hwrite, ?_⟩
  rw [Nat.div_add_mod'] at hholds
  have hlen := undoRecordGetPrerecordlen_eq hsize hholds (by omega : 5 ≤ fuel)
  have hnext : (getNextUndoptr s (undoRecordExpectedSize u)).offset =
      undoPaging.addr (undoPaging.index s.offset + undoRecordExpectedSize u) := offsetPlusUsableBytes_eq hs _
  have hptr : ∀ x : Nat, some (Except.ok (ε := Panic) (⟨s.logno, x⟩ : UndoPtr)) = some (.ok s) ↔
      x = s.offset := by
    intro x
    rw [Option.some.injEq, Except.ok.injEq]
    exact ⟨fun h => congrArg UndoPtr.offset h, fun h => by rw [h]⟩
  rw [undoRecordGetPreurp, if_neg (by decide), hnext, hlen, ← next_sub_distance_iff hs, ← hptr,
    offsetPlusUsableBytes_eq hs]
  simp only [Option.map_some, Except.map, getNextUndoptr_logno]

def largestRow : Row :=
  ⟨⟨48, .normal, maxXHeapTupleSize⟩, ⟨5, 0, 40, 0#16, 0x0002#16, 29, List.replicate 8115 1⟩⟩

def smallTuple : XHeapDiskTuple := ⟨0, 0, 0, 0#16, 0x0002#16, 29, [1]⟩

theorem largestRow_filled : largestRow.Filled :=
  ⟨by rw [largestRow, List.length_replicate]; rfl, by decide, by decide⟩

/-- The record of its in-place update by a subtransaction. -/
def largestRecord : RawUndoRecord where
  uurXid := 7
  uurCid := 0
  uurReloid := 16384
  uurRelfilenode := 16384
  uurType := 4
  uurInfo := urecInfoPayload ||| urecInfoPrexid ||| urecInfoSubxact ||| urecInfoTablespace
  uurTpprevurp := 40
  uurBlkno := 0
  uurOffset := 1
  uurTxnprevurp := 0
  uurPrevxid := 5
  uurTablespace := 1663
  uurSubxid := 9
  uurDataheaderflag := 0
  uurPayload := undoPayload (seventh 48) largestRow smallTuple

theorem largestRecord_size : undoRecordExpectedSize largestRecord = 8188 := by
  have hnone := @shared_eq_none (seventh 48) largestRow smallTuple (by decide)
  have hlen : largestRecord.uurPayload.length = 8122 := by
    rw [largestRecord, undoPayload_length largestRow_filled, undoXorDeltaSize, hnone.1, hnone.2]
    rfl
  have hinfo : ∀ flag, largestRecord.has flag = (0x59 &&& flag != 0) := fun _ => rfl
  simp only [undoRecordExpectedSize, hlen, hinfo]
  decide

/-- Written from the last byte of a page on, the largest record ends on the second page behind it, and
the backward step stops 24 bytes behind its start. -/
theorem undoRecordGetPreurp_behind_start :
    ∃ mem', writeUndoRecord largestRecord 8188 8188 (fun _ => 0) 0 8191 0 = some (mem', 8188) ∧
      undoRecordGetPreurp mem' 8188 .invalid (getNextUndoptr ⟨1, 8191⟩ 8188) = some (.ok ⟨1, 8215⟩) := by
  have hsize := largestRecord_size
  obtain ⟨mem', hwrite, hholds, -⟩ := writeUndoRecord_ok largestRecord 0 (by decide : _ ≤ 8191) (by decide)
    (undoRecordExpectedSize largestRecord) (fun _ => 0) (Nat.le_of_eq hsize)
  have hlen := undoRecordGetPrerecordlen_eq (by rw [hsize]; decide) hholds (by decide : 5 ≤ 8188)
  rw [hsize] at hwrite hlen
  exact ⟨mem', hwrite, by rw [undoRecordGetPreurp, if_neg (by decide)]; exact congrArg _ hlen⟩

theorem undoRecordGetPreurp_eq_start_page :
    ∃ mem', writeUndoRecord largestRecord 8188 8188 (fun _ => 0) 0 24 0 = some (mem', 8188) ∧
      undoRecordGetPreurp mem' 8188 .invalid (getNextUndoptr ⟨1, 24⟩ 8188) = some (.ok ⟨1, 24⟩) := by
  have hsize := largestRecord_size
  obtain ⟨mem', hwrite, hiff⟩ := undoRecordGetPreurp_eq_start_iff largestRecord (by rw [hsize]; decide)
    ⟨1, 24⟩ (by decide) (fun _ => 0) 8188 (Nat.le_of_eq hsize)
  rw [hsize] at hwrite hiff
  exact ⟨mem', hwrite, hiff.mpr (by decide)⟩

end XStore
