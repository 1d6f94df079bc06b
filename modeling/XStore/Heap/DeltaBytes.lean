import XStore.Bytes.Memory
import XStore.Heap.Modify
import XStore.Heap.Visibility

/-!
# The bytes of an in-place update record

The raw data that `xheap_update` puts into the record of an in-place update, and the two functions
that rebuild the old tuple from it: `execute_undo_for_update` against the row on the page, and
`get_tuple_from_undo_record` against the next newer version.
-/
namespace XStore

open List

def offsetDataHeader : Nat := 24
def sizeOfXHeapDiskTupleTillThoff : Nat := 28
def urecXorPrefix : UInt8 := 0x01
def urecXorSuffix : UInt8 := 0x02

namespace XHeapDiskTuple

/-- The bytes from `OffsetDataHeader` on. -/
def dataBytes (t : XHeapDiskTuple) : List UInt8 :=
  leBytes 2 t.flag.toNat ++ leBytes 2 t.flag2.toNat ++ [.ofNat t.tHoff] ++ t.body

def bytes (t : XHeapDiskTuple) : List UInt8 :=
  leBytes 8 t.modifiedXid ++ leBytes 8 t.lockerXid ++ leBytes 8 t.urec ++ t.dataBytes

/-- Without the lock bits, as the code copies it into undo records. -/
def withoutLocks (t : XHeapDiskTuple) : XHeapDiskTuple :=
  { t with flag := t.flag &&& ~~~xheapLockStatusMask }

/-- The tuple with other bytes from `OffsetDataHeader` on. -/
def setDataBytes (t : XHeapDiskTuple) (bs : List UInt8) : XHeapDiskTuple :=
  { t with
    flag := BitVec.ofNat 16 (leNat (bs.take 2))
    flag2 := BitVec.ofNat 16 (leNat ((bs.drop 2).take 2))
    tHoff := (bs.getD 4 0).toNat
    body := bs.drop 5 }

end XHeapDiskTuple

def lengthBytes : Option Nat → List UInt8
  | none => []
  | some n => leBytes 2 n

def xorDeltaFlags (prefixlen suffixlen : Option Nat) : UInt8 :=
  (if prefixlen.isSome then urecXorPrefix else 0) ||| (if suffixlen.isSome then urecXorSuffix else 0)

def undoXorDeltaSize (c : OpCtx) (r : Row) (newtup : XHeapDiskTuple) : Nat :=
  (if (sharedPrefix c r newtup).isSome then 2 else 0) +
    (if (sharedSuffix c r newtup).isSome then 2 else 0) +
    (1 + r.tup.tHoff - offsetDataHeader + 1) +
    (r.rp.len - r.tup.tHoff - (sharedPrefix c r newtup).getD 0 - (sharedSuffix c r newtup).getD 0)

/-- What `xheap_update` appends to the raw data of the record, from the old row without its lock
bits. -/
def undoPayload (c : OpCtx) (r : Row) (newtup : XHeapDiskTuple) : List UInt8 :=
  let old := r.tup.withoutLocks.bytes
  let prefixlen := sharedPrefix c r newtup
  let suffixlen := sharedSuffix c r newtup
  let oldp := old.drop r.tup.tHoff
  let oldlen := r.rp.len - r.tup.tHoff
  [.ofNat r.tup.tHoff] ++ (old.drop offsetDataHeader).take (r.tup.tHoff - offsetDataHeader) ++
    [xorDeltaFlags prefixlen suffixlen] ++ lengthBytes prefixlen ++ lengthBytes suffixlen ++
    (oldp.drop (prefixlen.getD 0)).take (oldlen - prefixlen.getD 0 - suffixlen.getD 0)

/-- The old length and the old bytes from `OffsetDataHeader` on, from raw data and a tuple of
length `len` that holds the shared bytes. -/
def decodeInplaceUpdate (payload diskTuple : List UInt8) (len : Nat) : Nat × List UInt8 :=
  let tHoff := (payload.getD 0 0).toNat
  let diskHoff := (diskTuple.getD sizeOfXHeapDiskTupleTillThoff 0).toNat
  let readSize := 1 + tHoff - offsetDataHeader
  let flags := payload.getD readSize 0
  let readSize := readSize + 1
  let hasPrefix := flags &&& urecXorPrefix != 0
  let prefixlen := if hasPrefix then leNat ((payload.drop readSize).take 2) else 0
  let readSize := if hasPrefix then readSize + 2 else readSize
  let hasSuffix := flags &&& urecXorSuffix != 0
  let suffixlen := if hasSuffix then leNat ((payload.drop readSize).take 2) else 0
  let readSize := if hasSuffix then readSize + 2 else readSize
  let pre := if hasPrefix then (diskTuple.drop diskHoff).take prefixlen else []
  let newp := diskHoff + prefixlen
  let oldlen := payload.length - readSize + prefixlen + suffixlen
  let newlen := len - diskHoff
  let oldDataLen := oldlen - prefixlen - suffixlen
  let oldData := (payload.drop readSize).take oldDataLen
  let post := if hasSuffix then (diskTuple.drop (newp + newlen - prefixlen - suffixlen)).take suffixlen else []
  (oldlen + tHoff, (payload.drop 1).take (tHoff - offsetDataHeader) ++ pre ++ oldData ++ post)

/-- `execute_undo_for_update` on a record of an in-place update, past its tests. -/
def undoInplaceRow (env : RollbackEnv) (u : HeapRecord) (payload : List UInt8) (r : Row) :
    Except Panic Row := do
  let (newTupleLength, oldDisktuple) := decodeInplaceUpdate payload r.tup.bytes r.rp.len
  let rp ← r.rp.changeLen newTupleLength
  let t := r.tup.setDataBytes (oldDisktuple.take (newTupleLength - offsetDataHeader))
  return { rp := rp
           tup := undoKeepSubtxnLock env u
             { t with modifiedXid := u.uurPrevxid, urec := u.uurTpprevurp } r.tup.flag }

/-- `get_tuple_from_undo_record` on a record of an in-place update. -/
def undoInplaceTupleCopy (u : HeapRecord) (payload : List UInt8) (t : XHeapTuple) : XHeapTuple :=
  let (newTupleLength, oldDiskTuple) := decodeInplaceUpdate payload t.diskTuple.bytes t.diskTupleSize
  let zero : XHeapDiskTuple := ⟨invalidXid, 0, 0, 0#16, 0#16, 0, []⟩
  { diskTupleSize := newTupleLength
    ctid := (u.uurBlkno, u.uurOffset)
    tableOid := u.uurReloid
    xmin := 0
    xmax := 0
    diskTuple := zero.setDataBytes (oldDiskTuple.take (newTupleLength - offsetDataHeader)) }

namespace XHeapDiskTuple

variable (t : XHeapDiskTuple)

/-- The bytes from `OffsetDataHeader` to the columns. -/
def dataHead : List UInt8 :=
  leBytes 2 t.flag.toNat ++ leBytes 2 t.flag2.toNat ++ [.ofNat t.tHoff] ++ t.bits

theorem dataBytes_eq : t.dataBytes = t.dataHead ++ t.columns := by
  rw [dataBytes, dataHead, append_assoc _ t.bits, t.bits_append_columns]

theorem dataHead_length (hge : sizeOfXHeapDiskTupleData ≤ t.tHoff) (hle : t.tHoff ≤ t.size) :
    t.dataHead.length = t.tHoff - offsetDataHeader := by
  simp only [dataHead, bits, length_append, leBytes_length, length_singleton, length_take]
  simp only [sizeOfXHeapDiskTupleData, offsetDataHeader, size] at *
  omega

theorem bytes_drop_offsetDataHeader : t.bytes.drop offsetDataHeader = t.dataBytes := by
  rw [bytes, drop_left' (by simp [offsetDataHeader])]

theorem bytes_drop {i : Nat} (h : sizeOfXHeapDiskTupleData ≤ i) :
    t.bytes.drop i = t.body.drop (i - sizeOfXHeapDiskTupleData) := by
  rw [bytes, dataBytes, ← append_assoc, drop_append, drop_eq_nil_of_le, nil_append]
  · simp [sizeOfXHeapDiskTupleData]
  · simp only [length_append, leBytes_length, length_singleton]
    exact h

theorem bytes_drop_tHoff (h : sizeOfXHeapDiskTupleData ≤ t.tHoff) : t.bytes.drop t.tHoff = t.columns :=
  t.bytes_drop h

theorem bytes_tHoff (h : t.tHoff < 256) :
    (t.bytes.getD sizeOfXHeapDiskTupleTillThoff 0).toNat = t.tHoff := by
  have hbyte : t.bytes.getD sizeOfXHeapDiskTupleTillThoff 0 = .ofNat t.tHoff := by
    simp only [bytes, dataBytes, leBytes]
    rfl
  rw [hbyte, UInt8.toNat_ofNat', Nat.mod_eq_of_lt h]

theorem setDataBytes_dataBytes (s : XHeapDiskTuple) (h : s.tHoff < 256) :
    t.setDataBytes s.dataBytes =
      { t with flag := s.flag, flag2 := s.flag2, tHoff := s.tHoff, body := s.body } := by
  have hflag : ∀ f : Flag, BitVec.ofNat 16 (leNat (leBytes 2 f.toNat)) = f := by
    intro f
    rw [leNat_leBytes (by have := f.isLt; omega), BitVec.ofNat_toNat, BitVec.setWidth_eq]
  have hhoff : (UInt8.ofNat s.tHoff).toNat = s.tHoff := by
    rw [UInt8.toNat_ofNat', Nat.mod_eq_of_lt h]
  have h1 := hflag s.flag
  have h2 := hflag s.flag2
  simp only [leBytes] at h1 h2
  simp [setDataBytes, dataBytes, leBytes, h1, h2, hhoff]

end XHeapDiskTuple

section Decode

section Lengths

variable (o : Option Nat)

theorem ite_leNat_lengthBytes (h : o.getD 0 < 256 ^ 2) (rest : List UInt8) :
    (if o.isSome = true then leNat ((lengthBytes o ++ rest).take 2) else 0) = o.getD 0 := by
  cases o with
  | none => rfl
  | some n =>
    rw [Option.isSome_some, if_pos rfl, lengthBytes, take_left' (leBytes_length 2 n)]
    exact leNat_leBytes h

theorem ite_add_lengthBytes (k : Nat) :
    (if o.isSome = true then k + 2 else k) = k + (lengthBytes o).length := by
  cases o with
  | none => rfl
  | some n => simp [lengthBytes]

theorem ite_take (xs : List UInt8) :
    (if o.isSome = true then xs.take (o.getD 0) else []) = xs.take (o.getD 0) := by
  cases o <;> rfl

theorem xorDeltaFlags_prefix (p : Option Nat) :
    (xorDeltaFlags p o &&& urecXorPrefix != 0) = p.isSome := by
  cases p <;> cases o <;> simp [xorDeltaFlags, urecXorPrefix, urecXorSuffix] <;> decide

theorem xorDeltaFlags_suffix (p : Option Nat) :
    (xorDeltaFlags p o &&& urecXorSuffix != 0) = o.isSome := by
  cases p <;> cases o <;> simp [xorDeltaFlags, urecXorPrefix, urecXorSuffix] <;> decide

end Lengths

theorem decodeInplaceUpdate_eq {tHoff : Nat} {head : List UInt8} (hge : offsetDataHeader ≤ tHoff)
    (hlt : tHoff < 256) (hhead : head.length = tHoff - offsetDataHeader) {prefixlen suffixlen : Option Nat}
    (hpre : prefixlen.getD 0 < 256 ^ 2) (hsuf : suffixlen.getD 0 < 256 ^ 2)
    (oldData diskTuple : List UInt8) (len : Nat) :
    decodeInplaceUpdate ([.ofNat tHoff] ++ head ++ [xorDeltaFlags prefixlen suffixlen] ++
        lengthBytes prefixlen ++ lengthBytes suffixlen ++ oldData) diskTuple len =
      let diskHoff := (diskTuple.getD sizeOfXHeapDiskTupleTillThoff 0).toNat
      (oldData.length + prefixlen.getD 0 + suffixlen.getD 0 + tHoff,
        head ++ (diskTuple.drop diskHoff).take (prefixlen.getD 0) ++ oldData ++
          (diskTuple.drop (diskHoff + (len - diskHoff) - suffixlen.getD 0)).take (suffixlen.getD 0)) := by
  set rest := lengthBytes prefixlen ++ lengthBytes suffixlen ++ oldData with hrest
  have hpay : [UInt8.ofNat tHoff] ++ head ++ [xorDeltaFlags prefixlen suffixlen] ++
      lengthBytes prefixlen ++ lengthBytes suffixlen ++ oldData =
      (.ofNat tHoff :: head) ++ xorDeltaFlags prefixlen suffixlen :: rest := by
    simp [hrest]
  have hhoff : (UInt8.ofNat tHoff).toNat = tHoff := by
    rw [UInt8.toNat_ofNat', Nat.mod_eq_of_lt hlt]
  have hread : 1 + tHoff - offsetDataHeader = (UInt8.ofNat tHoff :: head).length := by
    rw [length_cons, hhead]
    omega
  rw [hpay]
  set payload := (UInt8.ofNat tHoff :: head) ++ xorDeltaFlags prefixlen suffixlen :: rest with hpayload
  have hflags : payload.getD (1 + tHoff - offsetDataHeader) 0 = xorDeltaFlags prefixlen suffixlen := by
    rw [hpayload, hread, getD_eq_getElem?_getD, getElem?_append_right (Nat.le_refl _), Nat.sub_self]
    rfl
  have hdrop : ∀ n, payload.drop (1 + tHoff - offsetDataHeader + 1 + n) = rest.drop n := by
    intro n
    rw [hpayload, hread, Nat.add_assoc, Nat.add_comm 1 n, drop_length_add_append]
    rfl
  have hhdr : (payload.drop 1).take (tHoff - offsetDataHeader) = head := by
    rw [← hhead]
    exact take_left
  have hlen : payload.length - (1 + tHoff - offsetDataHeader + 1) = rest.length := by
    rw [hpayload, hread, length_append, @length_cons _ (xorDeltaFlags prefixlen suffixlen)]
    omega
  have hfirst : (payload.getD 0 0).toNat = tHoff := hhoff
  have hdrop0 : payload.drop (1 + tHoff - offsetDataHeader + 1) = rest := hdrop 0
  have hdrop1 : rest.drop (lengthBytes prefixlen).length = lengthBytes suffixlen ++ oldData := by
    rw [hrest, append_assoc, drop_left]
  have hdrop2 : rest.drop ((lengthBytes prefixlen).length + (lengthBytes suffixlen).length) = oldData := by
    rw [← drop_drop, hdrop1, drop_left]
  have hrestlen : rest.length =
      (lengthBytes prefixlen).length + (lengthBytes suffixlen).length + oldData.length := by
    rw [hrest, length_append, length_append]
  unfold decodeInplaceUpdate
  simp only [hfirst, hflags, hhdr, hdrop0, hdrop, xorDeltaFlags_prefix, xorDeltaFlags_suffix,
    ite_add_lengthBytes, hdrop1]
  generalize (diskTuple.getD sizeOfXHeapDiskTupleTillThoff 0).toNat = diskHoff
  rw [Nat.add_assoc (1 + tHoff - offsetDataHeader + 1), hdrop, hdrop2, Nat.sub_add_eq, hlen, hrestlen,
    ite_leNat_lengthBytes suffixlen hsuf, hrest, append_assoc, ite_leNat_lengthBytes prefixlen hpre,
    ite_take, ite_take]
  have hdata : (lengthBytes prefixlen).length + (lengthBytes suffixlen).length + oldData.length -
      ((lengthBytes prefixlen).length + (lengthBytes suffixlen).length) = oldData.length := by omega
  have hall : oldData.length + prefixlen.getD 0 + suffixlen.getD 0 - prefixlen.getD 0 -
      suffixlen.getD 0 = oldData.length := by omega
  have hend : diskHoff + prefixlen.getD 0 + (len - diskHoff) - prefixlen.getD 0 - suffixlen.getD 0 =
      diskHoff + (len - diskHoff) - suffixlen.getD 0 := by omega
  rw [hdata, hall, hend, take_length]

end Decode

section RoundTrip

variable {c : OpCtx} {r : Row} {newtup : XHeapDiskTuple}

theorem size_eq_len (hr : r.Filled) : r.tup.size = r.rp.len := hr.len_eq.symm

theorem dataHead_withoutLocks_length (hr : r.Filled) :
    r.tup.withoutLocks.dataHead.length = r.tup.tHoff - offsetDataHeader :=
  r.tup.withoutLocks.dataHead_length hr.hoff_ge (hr.hoff_le.trans (size_eq_len hr).ge)

theorem undoPayload_eq (hr : r.Filled) :
    undoPayload c r newtup = [.ofNat r.tup.tHoff] ++ r.tup.withoutLocks.dataHead ++
      [xorDeltaFlags (sharedPrefix c r newtup) (sharedSuffix c r newtup)] ++
      lengthBytes (sharedPrefix c r newtup) ++ lengthBytes (sharedSuffix c r newtup) ++
      (inplaceDelta c r newtup).oldData := by
  have hhead := dataHead_withoutLocks_length hr
  have hcols : r.tup.withoutLocks.bytes.drop r.tup.tHoff = r.tup.columns :=
    r.tup.withoutLocks.bytes_drop_tHoff hr.hoff_ge
  have hlen : r.rp.len - r.tup.tHoff = r.tup.columns.length := by
    have := columns_length r.tup
    have := hr.len_eq
    have := hr.hoff_ge
    omega
  unfold undoPayload
  dsimp only
  rw [XHeapDiskTuple.bytes_drop_offsetDataHeader, XHeapDiskTuple.dataBytes_eq, take_left' hhead,
    hcols, hlen]
  rfl

/-- The sizes that `xheap_update` compares before it goes on are the same. -/
theorem undoPayload_length (hr : r.Filled) :
    (undoPayload c r newtup).length = undoXorDeltaSize c r newtup := by
  have hpre := sharedPrefix_le_min c r newtup
  have hsuf := sharedSuffix_le c r newtup
  have hcols := columns_length r.tup
  have hlen := hr.len_eq
  have hge := hr.hoff_ge
  have hdata : offsetDataHeader ≤ sizeOfXHeapDiskTupleData := by decide
  have hbytes : ∀ o : Option Nat, (lengthBytes o).length = if o.isSome then 2 else 0 := by
    intro o
    simpa using (ite_add_lengthBytes o 0).symm
  rw [undoPayload_eq hr, undoXorDeltaSize]
  simp only [length_append, length_singleton, dataHead_withoutLocks_length hr, hbytes,
    inplaceDelta, length_take, length_drop]
  omega

/-- The suffix is shared only between versions of one size, so that it lies within the columns. -/
theorem sharedSuffix_room (hw : newtup.WellFormed) :
    (sharedSuffix c r newtup).getD 0 = 0 ∨
      newtup.size = r.rp.len ∧ newtup.tHoff + (sharedSuffix c r newtup).getD 0 ≤ newtup.size := by
  cases hcmp : comparesBytes c r newtup with
  | false =>
    left
    rw [(shared_eq_none hcmp).2]
    rfl
  | true =>
    right
    have hsuf := sharedSuffix_le c r newtup
    have hcols := columns_length newtup
    have hsize : newtup.size = sizeOfXHeapDiskTupleData + newtup.body.length := rfl
    have hge := hw.hoff_ge
    have hle := hw.hoff_le
    exact ⟨size_eq_of_comparesBytes hcmp, by omega⟩

/-- The decoder gives back the length of the old row and its bytes without the lock bits. -/
theorem decode_undoPayload (hr : r.Filled) (hhoff : r.tup.tHoff < 256) (hmax : r.rp.len < 256 ^ 2)
    (hw : newtup.WellFormed) (hnew : newtup.tHoff < 256) {t : XHeapDiskTuple} {len : Nat}
    (hbody : t.body = newtup.body ++ r.tup.body.drop newtup.body.length)
    (hhoff' : t.tHoff = newtup.tHoff) (hlen : len = max r.rp.len newtup.size) :
    decodeInplaceUpdate (undoPayload c r newtup) t.bytes len =
      (r.rp.len, r.tup.withoutLocks.dataBytes) := by
  have hpre := sharedPrefix_le_min c r newtup
  have hsuf := sharedSuffix_le c r newtup
  have hcols := columns_length r.tup
  have hrlen := hr.len_eq
  have hge := hr.hoff_ge
  have hdata : offsetDataHeader ≤ sizeOfXHeapDiskTupleData := by decide
  have hold := inplaceDelta_oldBody (c := c) hr hw hbody hhoff' hlen
  have hold' := @inplaceDelta_oldTupleLength c r newtup hr
  have hoff : (t.bytes.getD sizeOfXHeapDiskTupleTillThoff 0).toNat = newtup.tHoff := by
    rw [t.bytes_tHoff (hhoff' ▸ hnew), hhoff']
  rw [undoPayload_eq hr, decodeInplaceUpdate_eq (by omega) hhoff (dataHead_withoutLocks_length hr)
    (by omega) (by omega)]
  dsimp only
  rw [hoff]
  have hcolumns : t.bytes.drop newtup.tHoff = t.columns := by
    rw [← hhoff']
    exact t.bytes_drop_tHoff (hhoff' ▸ hw.hoff_ge)
  have hpost : (t.bytes.drop (newtup.tHoff + (len - newtup.tHoff) - (sharedSuffix c r newtup).getD 0)).take
        ((sharedSuffix c r newtup).getD 0) =
      (t.body.drop (len - sizeOfXHeapDiskTupleData - (sharedSuffix c r newtup).getD 0)).take
        ((sharedSuffix c r newtup).getD 0) := by
    rcases sharedSuffix_room (c := c) (r := r) hw with hzero | ⟨hsize, hroom⟩
    · rw [hzero, take_zero, take_zero]
    · have hge' := hw.hoff_ge
      rw [t.bytes_drop (by omega)]
      congr 2
      omega
  rw [hcolumns, hpost]
  refine Prod.ext hold' ?_
  show r.tup.withoutLocks.dataHead ++ _ ++ _ ++ _ = _
  rw [XHeapDiskTuple.dataHead, XHeapDiskTuple.dataBytes]
  simp only [append_assoc]
  congr 3
  simp only [InplaceDelta.oldBody, inplaceDelta, append_assoc] at hold
  exact hold

section Row

variable {marked : XHeapDiskTuple} {r' : Row}

/-- The row that an in-place update of `r` to `newtup` leaves, as far as its bytes go. -/
structure Overwritten (r : Row) (newtup : XHeapDiskTuple) (r' : Row) : Prop where
  offset : r'.rp.offset = r.rp.offset
  len : r'.rp.len = max r.rp.len newtup.size
  tHoff : r'.tup.tHoff = newtup.tHoff
  body : r'.tup.body = newtup.body ++ r.tup.body.drop newtup.body.length

theorem overwritten_put (hmarked : marked.body = r.tup.body)
    (hput : putInplaceUpdateXtuple { r with tup := marked } newtup = .ok r') : Overwritten r newtup r' := by
  obtain ⟨rp, hgrown, rfl⟩ := putInplaceUpdateXtuple_ok hput
  exact ⟨hgrown.offset, hgrown.len, rfl, by rw [← hmarked]⟩

variable (hr : r.Filled)

include hr

theorem withoutLocks_dataBytes_length :
    r.tup.withoutLocks.dataBytes.length = r.rp.len - offsetDataHeader := by
  have hlen := hr.len_eq
  simp only [XHeapDiskTuple.dataBytes, length_append, leBytes_length, length_singleton,
    XHeapDiskTuple.withoutLocks, offsetDataHeader, sizeOfXHeapDiskTupleData] at hlen ⊢
  omega

theorem decode_overwritten (hhoff : r.tup.tHoff < 256)
    (hroom : r.rp.offset + r.rp.len ≤ blcksz) (hw : newtup.WellFormed) (hnew : newtup.tHoff < 256)
    (hover : Overwritten r newtup r') :
    decodeInplaceUpdate (undoPayload c r newtup) r'.tup.bytes r'.rp.len =
      (r.rp.len, r.tup.withoutLocks.dataBytes) := by
  have hmax : r.rp.len < 256 ^ 2 := by
    unfold blcksz at hroom
    omega
  exact decode_undoPayload hr hhoff hmax hw hnew hover.body hover.tHoff hover.len

theorem take_withoutLocks_dataBytes :
    r.tup.withoutLocks.dataBytes.take (r.rp.len - offsetDataHeader) = r.tup.withoutLocks.dataBytes := by
  rw [← withoutLocks_dataBytes_length hr, take_length]

theorem undoInplaceRow_overwritten (hhoff : r.tup.tHoff < 256)
    (hroom : r.rp.offset + r.rp.len ≤ blcksz) (hw : newtup.WellFormed) (hnew : newtup.tHoff < 256)
    (hover : Overwritten r newtup r') (env : RollbackEnv) (u : HeapRecord) :
    undoInplaceRow env u (undoPayload c r newtup) r' =
      .ok { rp := { r'.rp with len := r.rp.len }
            tup := undoKeepSubtxnLock env u
              { r.tup.withoutLocks with
                lockerXid := r'.tup.lockerXid, modifiedXid := u.uurPrevxid, urec := u.uurTpprevurp }
              r'.tup.flag } := by
  have hfits : ¬r'.rp.offset + r.rp.len > blcksz := by
    rw [hover.offset]
    exact Nat.not_lt.mpr hroom
  have hset := r'.tup.setDataBytes_dataBytes r.tup.withoutLocks hhoff
  simp only [undoInplaceRow, decode_overwritten hr hhoff hroom hw hnew hover,
    take_withoutLocks_dataBytes hr, hset, RowPtr.changeLen, if_neg hfits, bind, Except.bind, pure,
    Except.pure]

end Row

/-- The raw data of an in-place update record has the size that was allocated, and rollback and
version reads rebuild from it the length of the old row and its bytes without the lock bits, from
the row that `put_inplace_update_xtuple` leaves. -/
theorem inplace_update_round_trip (c : OpCtx) (r : Row) (newtup : XHeapDiskTuple) (hr : r.Filled)
    (hhoff : r.tup.tHoff < 256) (hroom : r.rp.offset + r.rp.len ≤ blcksz) (hw : newtup.WellFormed)
    (hnew : newtup.tHoff < 256) (marked : XHeapDiskTuple) (hmarked : marked.body = r.tup.body) (r' : Row)
    (hput : putInplaceUpdateXtuple { r with tup := marked } newtup = .ok r') :
    (undoPayload c r newtup).length = undoXorDeltaSize c r newtup ∧
    decodeInplaceUpdate (undoPayload c r newtup) r'.tup.bytes r'.rp.len =
      (r.rp.len, r.tup.withoutLocks.dataBytes) ∧
    (∀ env u, undoInplaceRow env u (undoPayload c r newtup) r' =
      .ok { rp := { r'.rp with len := r.rp.len }
            tup := undoKeepSubtxnLock env u
              { r.tup.withoutLocks with
                lockerXid := r'.tup.lockerXid, modifiedXid := u.uurPrevxid, urec := u.uurTpprevurp }
              r'.tup.flag }) ∧
    ∀ u pl, (undoInplaceTupleCopy u (undoPayload c r newtup) (xheapGetTuple pl r')).diskTupleSize =
        r.rp.len ∧
      (undoInplaceTupleCopy u (undoPayload c r newtup) (xheapGetTuple pl r')).diskTuple =
        { r.tup.withoutLocks with
          lockerXid := invalidXid, modifiedXid := invalidXid, urec := invalidUndoRecPtr } := by
  have hover := overwritten_put hmarked hput
  have hdecode := decode_overwritten (c := c) hr hhoff hroom hw hnew hover
  refine ⟨undoPayload_length hr, hdecode,
    undoInplaceRow_overwritten hr hhoff hroom hw hnew hover, fun u pl => ⟨?_, ?_⟩⟩
  · exact congrArg Prod.fst hdecode
  · have hread : decodeInplaceUpdate (undoPayload c r newtup) (xheapGetTuple pl r').diskTuple.bytes
        (xheapGetTuple pl r').diskTupleSize = (r.rp.len, r.tup.withoutLocks.dataBytes) := hdecode
    simp only [undoInplaceTupleCopy, hread, take_withoutLocks_dataBytes hr,
      XHeapDiskTuple.setDataBytes_dataBytes _ r.tup.withoutLocks hhoff]
    rfl

def rowWithoutNulls : Row :=
  ⟨⟨8000, .normal, 37⟩, ⟨5, 6, 40, 0x0400#16, 0x0002#16, 29, [1, 2, 3, 4, 5, 6, 7, 8]⟩⟩

/-- A tuple of the same size with one, and the first three and last three column bytes in common. -/
def tupleWithNulls : XHeapDiskTuple :=
  ⟨0, 0, 0, 0x0001#16, 0x0003#16, 30, [0xfe, 1, 2, 3, 9, 6, 7, 8]⟩

theorem inplace_update_round_trip_bitmap_grows :
    undoPayload (seventh 48) rowWithoutNulls tupleWithNulls =
        [29, 0, 0, 2, 0, 29, 3, 3, 0, 3, 0, 4, 5] ∧
      ∃ r', putInplaceUpdateXtuple rowWithoutNulls tupleWithNulls = .ok r' ∧
        decodeInplaceUpdate (undoPayload (seventh 48) rowWithoutNulls tupleWithNulls) r'.tup.bytes
          r'.rp.len = (37, [0, 0, 2, 0, 29, 1, 2, 3, 4, 5, 6, 7, 8]) := by
  refine ⟨by decide, _, rfl, ?_⟩
  exact (inplace_update_round_trip (seventh 48) rowWithoutNulls tupleWithNulls
    ⟨by decide, by decide, by decide⟩ (by decide) (by decide) ⟨by decide, by decide⟩ (by decide)
    rowWithoutNulls.tup rfl _ rfl).2.1

end RoundTrip

end XStore
