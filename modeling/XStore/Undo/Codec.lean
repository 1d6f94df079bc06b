import XStore.Bytes.Paged
import XStore.Undo.UndoLog

/-!
# Undo records as bytes

`insert_undo_record` and `unpack_undo_record`.  A record is written to the pages of its log field
by field; where a page ends the call returns, and is made again for the next page with the number
of bytes done so far.  The undo log is one memory, addressed by log offsets.
-/
namespace XStore

open List

def undoPaging : Paging := ⟨blcksz, undoLogBlockHeaderSize, by decide⟩

def urecInfoPayload : UInt8 := 0x01
def urecInfoPreurp : UInt8 := 0x02
def urecInfoPrexid : UInt8 := 0x08
def urecInfoSubxact : UInt8 := 0x10
def urecInfoDataheader : UInt8 := 0x20
def urecInfoTablespace : UInt8 := 0x40

/-- The fields of `UnpackedUndoRecord` that are stored, with the widths they are stored in. -/
structure RawUndoRecord where
  uurXid : UInt64
  uurCid : UInt32
  uurReloid : UInt32
  uurRelfilenode : UInt32
  uurType : UInt8
  uurInfo : UInt8
  uurTpprevurp : UInt64
  uurBlkno : UInt32
  uurOffset : UInt16
  uurTxnprevurp : UInt64
  uurPrevxid : UInt64
  uurTablespace : UInt32
  uurSubxid : UInt64
  uurDataheaderflag : UInt16
  uurPayload : List UInt8
  deriving DecidableEq

namespace RawUndoRecord

def has (u : RawUndoRecord) (flag : UInt8) : Bool := u.uurInfo &&& flag != 0

end RawUndoRecord

def sizeOfUndoRecordHeader : Nat := 28
def sizeOfUndoRecordBlock : Nat := 14
/-- `sizeof(UndoRecordSize)` -/
def sizeOfUndoRecordSize : Nat := 2

/-- `undo_record_expected_size`, before it is cut to 16 bits. -/
def undoRecordExpectedSize (u : RawUndoRecord) : Nat :=
  sizeOfUndoRecordHeader + sizeOfUndoRecordBlock + sizeOfUndoRecordSize +
    (if u.has urecInfoPayload then sizeOfUndoRecordSize + u.uurPayload.length else 0) +
    (if u.has urecInfoPreurp then 8 else 0) + (if u.has urecInfoPrexid then 8 else 0) +
    (if u.has urecInfoDataheader then 2 else 0) + (if u.has urecInfoSubxact then 8 else 0) +
    (if u.has urecInfoTablespace then 4 else 0)

inductive UndoField where
  | hdr
  | blk
  | preurp
  | prexid
  | tablespace
  | subxid
  | dataheader
  | payloadlen
  | payload
  deriving DecidableEq

/-- The bytes of a field; `UndoRecordHeader` has padding behind `urec_info` and `urec_relfilenode`. -/
def RawUndoRecord.bytesOf (u : RawUndoRecord) : UndoField → List UInt8
  | .hdr => [u.uurType, u.uurInfo, 0, 0] ++ leBytes 4 u.uurReloid.toNat ++
      leBytes 4 u.uurRelfilenode.toNat ++ [0, 0, 0, 0] ++ leBytes 8 u.uurXid.toNat ++
      leBytes 4 u.uurCid.toNat
  | .blk => leBytes 8 u.uurTpprevurp.toNat ++ leBytes 4 u.uurBlkno.toNat ++ leBytes 2 u.uurOffset.toNat
  | .preurp => leBytes 8 u.uurTxnprevurp.toNat
  | .prexid => leBytes 8 u.uurPrevxid.toNat
  | .tablespace => leBytes 4 u.uurTablespace.toNat
  | .subxid => leBytes 8 u.uurSubxid.toNat
  | .dataheader => leBytes 2 u.uurDataheaderflag.toNat
  | .payloadlen => leBytes 2 u.uurPayload.length
  | .payload => u.uurPayload

/-- The flag that announces a field; the first two are always there. -/
def UndoField.flag? : UndoField → Option UInt8
  | .hdr => none
  | .blk => none
  | .preurp => some urecInfoPreurp
  | .prexid => some urecInfoPrexid
  | .tablespace => some urecInfoTablespace
  | .subxid => some urecInfoSubxact
  | .dataheader => some urecInfoDataheader
  | .payloadlen => some urecInfoPayload
  | .payload => some urecInfoPayload

def undoFieldOrder : List UndoField :=
  [.hdr, .blk, .preurp, .prexid, .tablespace, .subxid, .dataheader, .payloadlen, .payload]

def RawUndoRecord.present (u : RawUndoRecord) (f : UndoField) : Bool :=
  match f.flag? with
  | none => true
  | some flag => u.has flag

def RawUndoRecord.fields (u : RawUndoRecord) : List UndoField := undoFieldOrder.filter u.present

/-- The page memory with `writeptr`, `my_bytes_written` and `*already_written`. -/
structure WriteCursor where
  mem : Memory
  writeptr : Nat
  myBytesWritten : Nat
  alreadyWritten : Nat

def insertUndoBytes (source : List UInt8) (endptr : Nat) (c : WriteCursor) : Bool × WriteCursor :=
  if source.length ≤ c.myBytesWritten then
    (true, { c with myBytesWritten := c.myBytesWritten - source.length })
  else
    let remaining := source.length - c.myBytesWritten
    let canWrite := min remaining (endptr - c.writeptr)
    if canWrite = 0 then (false, c)
    else
      (decide (canWrite = remaining),
        { mem := c.mem.store c.writeptr ((source.drop c.myBytesWritten).take canWrite)
          writeptr := c.writeptr + canWrite
          myBytesWritten := 0
          alreadyWritten := c.alreadyWritten + canWrite })

/-- The calls of `insert_undo_bytes` one after the other, up to the first that returns false. -/
def insertAll (endptr : Nat) : List (List UInt8) → WriteCursor → Bool × WriteCursor
  | [], c => (true, c)
  | source :: sources, c =>
    match insertUndoBytes source endptr c with
    | (true, c) => insertAll endptr sources c
    | (false, c) => (false, c)

/-- What `insert_undo_record` writes, piece by piece; an empty payload is not written. -/
def RawUndoRecord.sources (u : RawUndoRecord) (undoLen : Nat) : List (List UInt8) :=
  (u.fields.filter fun f => f ≠ .payload ∨ u.uurPayload ≠ []).map u.bytesOf ++
    [leBytes sizeOfUndoRecordSize undoLen]

/-- `insert_undo_record` on the page of block `blk`. -/
def insertUndoRecord (u : RawUndoRecord) (undoLen : Nat) (mem : Memory)
    (blk startingByte alreadyWritten : Nat) : Bool × WriteCursor :=
  insertAll ((blk + 1) * blcksz) (u.sources undoLen)
    ⟨mem, blk * blcksz + startingByte, alreadyWritten, alreadyWritten⟩

/-- The calls for a whole record, at most `fuel` pages; the memory and the bytes written. -/
def writeUndoRecord (u : RawUndoRecord) (undoLen : Nat) :
    Nat → Memory → Nat → Nat → Nat → Option (Memory × Nat)
  | 0, _, _, _, _ => none
  | fuel + 1, mem, blk, startingByte, alreadyWritten =>
    match insertUndoRecord u undoLen mem blk startingByte alreadyWritten with
    | (true, c) => some (c.mem, c.alreadyWritten)
    | (false, c) =>
      writeUndoRecord u undoLen fuel c.mem (blk + 1) undoLogBlockHeaderSize c.alreadyWritten

/-- `readptr`, `my_bytes_decoded` and `*already_decoded`, with the memory that is read into:
`work_hdr`, `work_blk`, the fields of the record and its payload buffer, empty until allocated. -/
structure ReadCursor where
  readptr : Nat
  myBytesDecoded : Nat
  alreadyDecoded : Nat
  bufs : UndoField → List UInt8
  isCopy : Bool

/-- `memcpy(dest + at, bs)` -/
def copyInto (dest : List UInt8) (i : Nat) (bs : List UInt8) : List UInt8 :=
  dest.take i ++ bs ++ dest.drop (i + bs.length)

abbrev ReadStep := ReadCursor → Bool × ReadCursor

/-- `read_undo_bytes` into the memory of a field. -/
def readUndoBytes (mem : Memory) (endptr : Nat) (f : UndoField) (readlen : Nat) : ReadStep := fun c =>
  if readlen ≤ c.myBytesDecoded then
    (true, { c with myBytesDecoded := c.myBytesDecoded - readlen })
  else
    let remaining := readlen - c.myBytesDecoded
    let canRead := min remaining (endptr - c.readptr)
    if canRead = 0 then (false, c)
    else
      (decide (canRead = remaining),
        { c with
          readptr := c.readptr + canRead
          myBytesDecoded := 0
          alreadyDecoded := c.alreadyDecoded + canRead
          bufs := Function.update c.bufs f
            (copyInto (c.bufs f) c.myBytesDecoded (mem.load c.readptr canRead)) })

namespace ReadStep

def andThen (a b : ReadStep) : ReadStep := fun c =>
  match a c with
  | (true, c) => b c
  | (false, c) => (false, c)

/-- The step, if `uur_info` of the header that was read has the flag. -/
def whenHas (flag : UInt8) (a : ReadStep) : ReadStep := fun c =>
  if (c.bufs .hdr).getD 1 0 &&& flag != 0 then a c else (true, c)

end ReadStep

/-- The payload is taken where it lies in the page when it need not be copied and is all there. -/
def readPayload (mem : Memory) (endptr : Nat) (copyData isUndoSplited : Bool) : ReadStep := fun c =>
  let len := leNat (c.bufs .payloadlen)
  if len = 0 then (true, c)
  else if !copyData && !isUndoSplited && decide (len ≤ endptr - c.readptr) then
    (true, { c with
      bufs := Function.update c.bufs .payload (mem.load c.readptr len)
      isCopy := false })
  else
    readUndoBytes mem endptr .payload len
      { c with bufs :=
          if c.bufs .payload = [] then Function.update c.bufs .payload (List.replicate len 0)
          else c.bufs }

/-- `unpack_undo_record` on the page that ends at `endptr`. -/
def unpackUndoRecord (mem : Memory) (endptr : Nat) (copyData : Bool) : ReadStep := fun c =>
  let isUndoSplited := decide (0 < c.myBytesDecoded)
  ((readUndoBytes mem endptr .hdr sizeOfUndoRecordHeader).andThen <|
    (readUndoBytes mem endptr .blk sizeOfUndoRecordBlock).andThen <|
    (ReadStep.whenHas urecInfoPreurp (readUndoBytes mem endptr .preurp 8)).andThen <|
    (ReadStep.whenHas urecInfoPrexid (readUndoBytes mem endptr .prexid 8)).andThen <|
    (ReadStep.whenHas urecInfoTablespace (readUndoBytes mem endptr .tablespace 4)).andThen <|
    (ReadStep.whenHas urecInfoSubxact (readUndoBytes mem endptr .subxid 8)).andThen <|
    (ReadStep.whenHas urecInfoDataheader (readUndoBytes mem endptr .dataheader 2)).andThen <|
    ReadStep.whenHas urecInfoPayload
      ((readUndoBytes mem endptr .payloadlen sizeOfUndoRecordSize).andThen
        (readPayload mem endptr copyData isUndoSplited))) c

/-- The calls for a whole record, at most `fuel` pages. -/
def readUndoRecord (mem : Memory) (copyData : Bool) :
    Nat → Nat → Nat → Nat → (UndoField → List UInt8) → Bool → Option ReadCursor
  | 0, _, _, _, _, _ => none
  | fuel + 1, blk, startingByte, alreadyDecoded, bufs, isCopy =>
    match unpackUndoRecord mem ((blk + 1) * blcksz) copyData
        ⟨blk * blcksz + startingByte, alreadyDecoded, alreadyDecoded, bufs, isCopy⟩ with
    | (true, c) => some c
    | (false, c) =>
      readUndoRecord mem copyData fuel (blk + 1) undoLogBlockHeaderSize c.alreadyDecoded c.bufs c.isCopy

section Write

section Cursor

variable {source : List UInt8} {endptr : Nat} {c : WriteCursor} {s t : List UInt8}

theorem insertUndoBytes_skip (h : source.length ≤ c.myBytesWritten) :
    insertUndoBytes source endptr c =
      (true, { c with myBytesWritten := c.myBytesWritten - source.length }) := by
  simp [insertUndoBytes, h]

/-- The cursor after `n` bytes of the source, from where it was left. -/
def WriteCursor.advance (c : WriteCursor) (source : List UInt8) (n : Nat) : WriteCursor where
  mem := c.mem.store c.writeptr ((source.drop c.myBytesWritten).take n)
  writeptr := c.writeptr + n
  myBytesWritten := 0
  alreadyWritten := c.alreadyWritten + n

/-- As many bytes of the rest are written as fit. -/
theorem insertUndoBytes_eq (h : c.myBytesWritten < source.length)
    (hok : c.writeptr < endptr ∨ c.myBytesWritten = 0) : insertUndoBytes source endptr c =
      (decide (source.length - c.myBytesWritten ≤ endptr - c.writeptr),
        c.advance source (min (source.length - c.myBytesWritten) (endptr - c.writeptr))) := by
  rw [insertUndoBytes, if_neg (Nat.not_le.mpr h)]
  dsimp only
  split_ifs with hfull
  · have hmy : c.myBytesWritten = 0 := by omega
    have hlong : ¬ source.length - c.myBytesWritten ≤ endptr - c.writeptr := by omega
    rw [hfull, decide_eq_false hlong]
    simp only [WriteCursor.advance, take_zero, Memory.store_nil, Nat.add_zero]
    rw [← hmy]
  · exact Prod.ext (decide_eq_decide.mpr (by omega)) rfl

theorem insertUndoBytes_whole (h : c.myBytesWritten < source.length)
    (hend : source.length - c.myBytesWritten ≤ endptr - c.writeptr) :
    insertUndoBytes source endptr c =
      (true, c.advance source (source.length - c.myBytesWritten)) := by
  rw [insertUndoBytes_eq h (by omega), decide_eq_true hend, Nat.min_eq_left hend]

theorem insertUndoBytes_part (hlt : c.writeptr < endptr)
    (hend : endptr - c.writeptr < source.length - c.myBytesWritten) :
    insertUndoBytes source endptr c = (false, c.advance source (endptr - c.writeptr)) := by
  rw [insertUndoBytes_eq (by omega) (.inl hlt), decide_eq_false (Nat.not_le.mpr hend),
    Nat.min_eq_right (Nat.le_of_lt hend)]

theorem WriteCursor.advance_append {n : Nat} (hn : n ≤ s.length - c.myBytesWritten) :
    c.advance (s ++ t) n = c.advance s n := by
  have htake : ((s ++ t).drop c.myBytesWritten).take n = (s.drop c.myBytesWritten).take n := by
    rw [drop_append, take_append_of_le_length (by rw [length_drop]; exact hn)]
  rw [advance, htake]
  rfl

theorem WriteCursor.advance_advance (n : Nat) (h : c.myBytesWritten ≤ s.length) :
    (c.advance s (s.length - c.myBytesWritten)).advance t n =
      c.advance (s ++ t) (s.length - c.myBytesWritten + n) := by
  have hfirst : (s.drop c.myBytesWritten).length = s.length - c.myBytesWritten := length_drop
  simp only [advance, drop_zero, drop_append_of_le_length h, ← hfirst, take_length_add_append,
    take_length, Memory.store_append, Nat.add_assoc]

end Cursor

/-- Writing two pieces one after the other is writing them as one, on a page with room or behind
what was written before. -/
theorem insertUndoBytes_append (s t : List UInt8) (endptr : Nat) (c : WriteCursor)
    (hok : c.writeptr < endptr ∨ c.myBytesWritten = 0) :
    (match insertUndoBytes s endptr c with
      | (true, c) => insertUndoBytes t endptr c
      | (false, c) => (false, c)) = insertUndoBytes (s ++ t) endptr c := by
  rcases Nat.lt_or_ge c.myBytesWritten s.length with hs | hs
  · rw [insertUndoBytes_eq hs hok, insertUndoBytes_eq (by rw [length_append]; omega) hok]
    by_cases hfits : s.length - c.myBytesWritten ≤ endptr - c.writeptr
    · rw [decide_eq_true hfits, Nat.min_eq_left hfits]
      dsimp only
      rcases t with _ | ⟨b, t⟩
      · rw [append_nil, insertUndoBytes_skip (Nat.zero_le _), decide_eq_true hfits, Nat.min_eq_left hfits]
        rfl
      · -- the second piece gets the room that is left
        have hroom : endptr - (c.advance s (s.length - c.myBytesWritten)).writeptr =
            endptr - c.writeptr - (s.length - c.myBytesWritten) := Nat.sub_add_eq ..
        have hsum : (s ++ b :: t).length - c.myBytesWritten = s.length - c.myBytesWritten + (b :: t).length := by
          rw [length_append]
          omega
        rw [insertUndoBytes_eq (Nat.succ_pos _) (.inr rfl), WriteCursor.advance_advance _ (Nat.le_of_lt hs), hroom,
          hsum]
        refine Prod.ext (decide_eq_decide.mpr ?_) (congrArg (c.advance _) ?_)
        · change (b :: t).length - 0 ≤ _ ↔ _
          omega
        · change _ + min ((b :: t).length - 0) _ = _
          omega
    · have hlong : ¬ (s ++ t).length - c.myBytesWritten ≤ endptr - c.writeptr := by
        rw [length_append]
        omega
      rw [decide_eq_false hfits, decide_eq_false hlong, Nat.min_eq_right (by omega), Nat.min_eq_right (by omega),
        WriteCursor.advance_append (by omega)]
  · -- the first piece is there already
    rw [insertUndoBytes_skip hs]
    dsimp only
    rcases Nat.lt_or_ge (c.myBytesWritten - s.length) t.length with ht | ht
    · have hrem : (s ++ t).length - c.myBytesWritten = t.length - (c.myBytesWritten - s.length) := by
        rw [length_append]
        omega
      rw [insertUndoBytes_eq ht (by dsimp only; omega), insertUndoBytes_eq (by rw [length_append]; omega) hok,
        hrem]
      simp only [WriteCursor.advance, drop_append, drop_eq_nil_of_le hs, nil_append]
    · rw [insertUndoBytes_skip ht, insertUndoBytes_skip (by rw [length_append]; omega)]
      simp only [length_append, Nat.sub_sub]

theorem insertAll_eq (endptr : Nat) (sources : List (List UInt8)) (c : WriteCursor)
    (hok : c.writeptr < endptr ∨ c.myBytesWritten = 0) :
    insertAll endptr sources c = insertUndoBytes sources.flatten endptr c := by
  induction sources generalizing c with
  | nil => simp [insertAll, insertUndoBytes]
  | cons s sources ih =>
    rw [flatten_cons, ← insertUndoBytes_append _ _ _ _ hok, insertAll]
    rcases hs : insertUndoBytes s endptr c with ⟨done, c'⟩
    cases done with
    | false => rfl
    | true =>
      apply ih
      -- a piece that is written in full leaves the count at zero
      rcases Nat.lt_or_ge c.myBytesWritten s.length with hlt | hge
      · right
        unfold insertUndoBytes at hs
        rw [if_neg (by omega)] at hs
        dsimp only at hs
        split at hs
        · cases hs
        · exact (congrArg (fun r => r.2.myBytesWritten) hs).symm
      · rw [insertUndoBytes_skip hge] at hs
        cases hs
        dsimp only
        omega

variable (u : RawUndoRecord) {bs : List UInt8}

def RawUndoRecord.bytes (undoLen : Nat) : List UInt8 := (u.sources undoLen).flatten

def RawUndoRecord.piece (f : UndoField) : List UInt8 := if u.present f then u.bytesOf f else []

theorem RawUndoRecord.bytes_eq (undoLen : Nat) :
    u.bytes undoLen = (undoFieldOrder.flatMap u.piece) ++ leBytes sizeOfUndoRecordSize undoLen := by
  have hfields : ((u.fields.filter fun f => f ≠ .payload ∨ u.uurPayload ≠ []).map u.bytesOf).flatten =
      undoFieldOrder.flatMap u.piece := by
    unfold fields
    induction undoFieldOrder with
    | nil => rfl
    | cons f fs ih =>
      rw [flatMap_cons, ← ih, piece]
      by_cases hp : u.present f = true
      · by_cases hf : f ≠ .payload ∨ u.uurPayload ≠ []
        · simp [hp, hf]
        · obtain ⟨rfl, hnil⟩ : f = .payload ∧ u.uurPayload = [] := by
            simpa [not_or] using hf
          simp [hp, hnil, bytesOf]
      · simp [hp]
  rw [bytes, sources, flatten_append, hfields]
  simp

theorem RawUndoRecord.piece_length (f : UndoField) :
    (u.piece f).length = if u.present f then (u.bytesOf f).length else 0 := by
  unfold piece
  split <;> rfl

theorem RawUndoRecord.bytes_length (undoLen : Nat) :
    (u.bytes undoLen).length = undoRecordExpectedSize u := by
  rw [bytes_eq]
  simp only [undoFieldOrder, flatMap_cons, flatMap_nil, append_nil, length_append,
    leBytes_length, piece_length, present, UndoField.flag?, bytesOf, undoRecordExpectedSize,
    length_cons, length_nil, if_true, sizeOfUndoRecordHeader, sizeOfUndoRecordBlock,
    sizeOfUndoRecordSize]
  by_cases hpay : u.has urecInfoPayload = true
  · simp only [hpay, if_true]
    omega
  · simp only [hpay]
    simp only [Bool.false_eq_true, if_false]
    omega

/-- What has been written up to stream byte `i + n`, from `i + k` on, and nothing else. -/
structure WrittenFrom (bs : List UInt8) (i k n : Nat) (mem mem' : Memory) : Prop where
  here : ∀ j, k ≤ j → j < n → some (mem' (undoPaging.addr (i + j))) = bs[j]?
  elsewhere : ∀ a, (∀ j, k ≤ j → j < n → a ≠ undoPaging.addr (i + j)) → mem' a = mem a

theorem WrittenFrom.trans {i k l n : Nat} {m m' m'' : Memory} (hkl : k ≤ l)
    (hln : l ≤ n) (h : WrittenFrom bs i k l m m') (h' : WrittenFrom bs i l n m' m'') :
    WrittenFrom bs i k n m m'' := by
  refine ⟨fun j hkj hjn => ?_, fun a ha => ?_⟩
  · rcases Nat.lt_or_ge j l with hjl | hlj
    · rw [h'.elsewhere]
      · exact h.here j hkj hjl
      · intro j' hlj' _ heq
        exact Nat.ne_of_lt (undoPaging.addr_lt_of_lt (by omega : i + j < i + j')) heq
    · exact h'.here j hlj hjn
  · rw [h'.elsewhere a fun j hlj hjn => ha j (by omega) hjn]
    exact h.elsewhere a fun j hkj hjl => ha j hkj (by omega)

/-- Within one page the bytes of a stretch of the stream lie next to each other. -/
theorem writtenFrom_store {i k n : Nat} (hn : n ≤ undoPaging.room (i + k))
    (hlen : k + n ≤ bs.length) (mem : Memory) :
    WrittenFrom bs i k (k + n) mem (mem.store (undoPaging.addr (i + k)) ((bs.drop k).take n)) := by
  have hlen' : ((bs.drop k).take n).length = n := by
    rw [length_take, length_drop]
    omega
  have haddr : ∀ j, k ≤ j → j < k + n → undoPaging.addr (i + j) = undoPaging.addr (i + k) + (j - k) := by
    intro j hkj hj
    rw [← undoPaging.addr_add (by omega : j - k < undoPaging.room (i + k))]
    congr 1
    omega
  refine ⟨fun j hkj hj => ?_, fun a ha => ?_⟩
  · rw [haddr j hkj hj, Memory.store_inside _ _ _ (by omega : j - k < ((bs.drop k).take n).length)]
    rw [← getElem?_eq_getElem, getElem?_take_of_lt (by omega), getElem?_drop]
    congr 1
    omega
  · apply Memory.store_outside
    by_contra hin
    rw [hlen'] at hin
    have hj := haddr (k + (a - undoPaging.addr (i + k))) (by omega) (by omega)
    exact ha (k + (a - undoPaging.addr (i + k))) (by omega) (by omega) (by omega)

/-- The calls for the rest of a record, from byte `k` on. -/
theorem writeUndoRecord_from (undoLen i : Nat) (fuel : Nat) (mem : Memory) (blk startingByte k : Nat)
    (hk : k < (u.bytes undoLen).length) (hfuel : (u.bytes undoLen).length - k ≤ fuel)
    (hpos : blk * blcksz + startingByte = undoPaging.addr (i + k))
    (hblk : blk = (i + k) / undoPaging.usable) :
    ∃ mem', writeUndoRecord u undoLen fuel mem blk startingByte k =
        some (mem', (u.bytes undoLen).length) ∧
      WrittenFrom (u.bytes undoLen) i k (u.bytes undoLen).length mem mem' := by
  induction fuel generalizing mem blk startingByte k with
  | zero => omega
  | succ fuel ih =>
    have hroom := undoPaging.room_pos (i + k)
    have hend := undoPaging.addr_add_room_eq_end (i + k)
    rw [← hblk, ← hpos] at hend
    have hend' : blk * blcksz + startingByte + undoPaging.room (i + k) = (blk + 1) * blcksz := hend
    have hall := insertAll_eq ((blk + 1) * blcksz) (u.sources undoLen)
      ⟨mem, blk * blcksz + startingByte, k, k⟩ (.inl (by dsimp only; omega))
    have hflat : (u.sources undoLen).flatten = u.bytes undoLen := rfl
    rw [writeUndoRecord, insertUndoRecord, hall, hflat]
    rcases Nat.lt_or_ge (undoPaging.room (i + k)) ((u.bytes undoLen).length - k) with hpart | hwhole
    · rw [insertUndoBytes_part (by dsimp only; omega) (by dsimp only; omega)]
      dsimp only [WriteCursor.advance]
      have hdist : (blk + 1) * blcksz - (blk * blcksz + startingByte) = undoPaging.room (i + k) := by
        omega
      rw [hdist, hpos]
      have hhere := writtenFrom_store (Nat.le_refl (undoPaging.room (i + k)))
        (by omega : k + undoPaging.room (i + k) ≤ (u.bytes undoLen).length) mem
      have hnext := undoPaging.addr_add_room (i + k)
      rw [← hblk] at hnext
      obtain ⟨mem', hrun, hrest⟩ := ih (mem.store (undoPaging.addr (i + k))
          (((u.bytes undoLen).drop k).take (undoPaging.room (i + k)))) (blk + 1)
        undoLogBlockHeaderSize (k + undoPaging.room (i + k)) (by omega) (by omega)
        (by rw [← Nat.add_assoc, hnext]; rfl)
        (by rw [← Nat.add_assoc, undoPaging.add_room_div, hblk])
      exact ⟨mem', hrun, hhere.trans (by omega) (by omega) hrest⟩
    · rw [insertUndoBytes_whole hk (by dsimp only; omega)]
      dsimp only [WriteCursor.advance]
      have hsum : k + ((u.bytes undoLen).length - k) = (u.bytes undoLen).length := by omega
      have hhere := writtenFrom_store hwhole (Nat.le_of_eq hsum) mem
      rw [hsum] at hhere
      rw [hsum, hpos]
      exact ⟨_, rfl, hhere⟩

section Start

variable (blk : Nat) {startingByte : Nat}

variable (hlo : undoLogBlockHeaderSize ≤ startingByte)

include hlo

variable (hhi : startingByte < blcksz)

include hhi

theorem undoPaging_start :
    undoPaging.head ≤ (blk * blcksz + startingByte) % undoPaging.block := by
  show undoLogBlockHeaderSize ≤ (blk * blcksz + startingByte) % blcksz
  rw [Nat.mul_comm, Nat.mul_add_mod, Nat.mod_eq_of_lt hhi]
  exact hlo

theorem undoPaging_start_blk :
    blk = undoPaging.index (blk * blcksz + startingByte) / undoPaging.usable := by
  rw [undoPaging.index_div (undoPaging_start blk hlo hhi)]
  show blk = (blk * blcksz + startingByte) / blcksz
  rw [Nat.mul_comm, Nat.mul_add_div (by decide), Nat.div_eq_of_lt hhi, Nat.add_zero]

/-- The calls for a whole record: the stream holds its bytes from the start on, and is as it was
elsewhere. -/
theorem writeUndoRecord_ok
    (undoLen : Nat) (mem : Memory) {fuel : Nat} (hfuel : undoRecordExpectedSize u ≤ fuel) :
    ∃ mem', writeUndoRecord u undoLen fuel mem blk startingByte 0 =
        some (mem', undoRecordExpectedSize u) ∧
      undoPaging.Holds mem' (undoPaging.index (blk * blcksz + startingByte)) (u.bytes undoLen) ∧
      ∀ a, (∀ j < undoRecordExpectedSize u,
        a ≠ undoPaging.addr (undoPaging.index (blk * blcksz + startingByte) + j)) → mem' a = mem a := by
  have hbytes := u.bytes_length undoLen
  have hpos : 0 < undoRecordExpectedSize u := by
    rw [undoRecordExpectedSize, sizeOfUndoRecordHeader]
    omega
  obtain ⟨mem', hwrite, hwritten⟩ := writeUndoRecord_from u undoLen
    (undoPaging.index (blk * blcksz + startingByte)) fuel mem blk startingByte 0 (hbytes ▸ hpos)
    (by omega) (undoPaging.addr_index (undoPaging_start blk hlo hhi)).symm
    (undoPaging_start_blk blk hlo hhi)
  rw [hbytes] at hwrite hwritten
  exact ⟨mem', hwrite, fun j hj => hwritten.here j (Nat.zero_le j) (hbytes ▸ hj),
    fun a ha => hwritten.elsewhere a fun j _ hj => ha j hj⟩

end Start

end Write

end XStore
