import Mathlib.Data.List.Infix
import XStore.Bytes.Bitmap
import XStore.Heap.Visibility

/-!
# The bytes of a tuple

`xtuple.c` and `xtupleslot.c`: how the columns of a row are packed behind the header of a disk tuple
and read back.  Pass-by-value columns are stored without alignment, and a null may keep the space of
its column; a second bitmap, behind the null bitmap, tells for which nulls.  A `Datum` is a word or a
pointer, and a pointer is the memory from there on.
-/
namespace XStore

/-- `attalign` -/
inductive TypAlign where
  | char
  | short
  | int
  | double
  deriving DecidableEq

def TypAlign.bytes : TypAlign → Nat
  | .char => 1
  | .short => 2
  | .int => 4
  | .double => 8

/-- `attstorage` -/
inductive TypStorage where
  | plain
  | external
  | extended
  | main
  deriving DecidableEq

def lenVarlena : Int := -1
def lenCstring : Int := -2

/-- The fields of `FormData_pg_attribute` that the format depends on.  `TypeCreate` lets no other types
in. -/
structure PgAttribute where
  attname : String
  attlen : Int
  attbyval : Bool
  attalign : TypAlign
  attstorage : TypStorage
  attisdropped : Bool
  byval_len : attbyval = true → attlen = 1 ∨ attlen = 2 ∨ attlen = 4 ∨ attlen = 8
  byref_len : attbyval = false → 0 < attlen ∨ attlen = lenVarlena ∨ attlen = lenCstring
  cstring_align : attlen = lenCstring → attalign = .char

/-- `att_is_dropped` -/
def PgAttribute.isDropped (att : PgAttribute) : Bool :=
  att.attisdropped || decide ("........pg.dropped.".toList <:+: att.attname.toList)

inductive Datum where
  | byval (word : UInt64)
  | pointer (mem : List UInt8)
  deriving DecidableEq

namespace Datum

def word : Datum → UInt64
  | byval w => w
  | pointer _ => 0

/-- `DatumGetPointer` -/
def mem : Datum → List UInt8
  | byval _ => []
  | pointer m => m

end Datum

structure TupleDesc where
  attrs : List PgAttribute
  /-- `getmissingattr`: the value that a tuple without the column has there. -/
  missing : Nat → Option Datum

section Varatt

variable (p : List UInt8)

def vaHeader : UInt8 := p.getD 0 0

def varattIs1B : Bool := vaHeader p &&& 1 == 1

/-- `VARATT_IS_EXTERNAL` -/
def varattIs1BE : Bool := vaHeader p == 1

def varattIs4BU : Bool := vaHeader p &&& 3 == 0

def varattNotPadByte : Bool := vaHeader p != 0

/-- `VARSIZE` -/
def varsize4B : Nat := leNat (p.take 4) / 4 % 2 ^ 30

/-- `VARSIZE_SHORT` -/
def varsize1B : Nat := (vaHeader p).toNat / 2

/-- `VARTAG_SIZE`: indirect, expanded and on-disk pointers. -/
def vartagSize (tag : UInt8) : Nat :=
  if tag = 1 then 8 else if tag = 2 ∨ tag = 3 then 8 else if tag = 18 then 16 else 0

def varsizeExternal : Nat := 2 + vartagSize (p.getD 1 0)

def varsizeAny : Nat :=
  if varattIs1BE p then varsizeExternal p else if varattIs1B p then varsize1B p else varsize4B p

def varattConvertedShortSize : Nat := varsize4B p - 4 + 1

def varattCanMakeShort : Bool := varattIs4BU p && decide (varattConvertedShortSize p ≤ 0x7F)

def strlen : Nat := p.findIdx (· == 0)

end Varatt

def attAlignNominal (off : Nat) (attalign : TypAlign) : Nat :=
  (off + (attalign.bytes - 1)) / attalign.bytes * attalign.bytes

def attAlignDatum (off : Nat) (att : PgAttribute) (val : Datum) : Nat :=
  if att.attlen = lenVarlena ∧ varattIs1B val.mem then off else attAlignNominal off att.attalign

def attAlignPointer (off : Nat) (att : PgAttribute) (p : List UInt8) : Nat :=
  if att.attlen = lenVarlena ∧ varattNotPadByte p then off else attAlignNominal off att.attalign

/-- What `att_addlength_pointer` adds. -/
def attLength (att : PgAttribute) (p : List UInt8) : Nat :=
  if 0 < att.attlen then att.attlen.toNat
  else if att.attlen = lenVarlena then varsizeAny p
  else strlen p + 1

def maxTupleAttributeNumber : Nat := 1664
def maxAllocSize : Nat := 0x3fffffff
def sizeOfXHeapTupleData : Nat := 32
def xheapHasVarwidth : Flag := 0x0002#16

def bitmapLen (natts : Nat) : Nat := (natts + 7) / 8

def nAttrsReserveSpace (nattrs : Nat) : Bool :=
  decide (nattrs ≤ (255 - sizeOfXHeapDiskTupleData) * 8 / 2)

section Form

variable (enableReserve : Bool)

def reservesSpace (att : PgAttribute) : Bool := enableReserve && att.attbyval && !att.isDropped

/-- One turn of `xheap_calc_tuple_data_size`.  `size` is an `int`; the alignment is computed in 64 bits and
cut off again. -/
def calcAttr (size : UInt32) (col : PgAttribute × Option Datum) : UInt32 :=
  let att := col.1
  match col.2 with
  | none => if reservesSpace enableReserve att then size + UInt32.ofNat att.attlen.toNat else size
  | some val =>
    if att.attbyval then size + UInt32.ofNat att.attlen.toNat
    else if att.attlen = lenVarlena ∧ att.attstorage ≠ .plain ∧ varattCanMakeShort val.mem then
      size + UInt32.ofNat (varattConvertedShortSize val.mem)
    else
      UInt32.ofNat (attAlignDatum size.toNat att val) + UInt32.ofNat (attLength att val.mem)

def xheapCalcTupleDataSize (cols : List (PgAttribute × Option Datum)) (hoff : Nat) : UInt32 :=
  cols.foldl (calcAttr enableReserve) (UInt32.ofNat hoff) - UInt32.ofNat hoff

def alignPad (address : Nat) (attalign : TypAlign) : List UInt8 :=
  List.replicate (attAlignNominal address attalign - address) 0

/-- The bytes that `xheap_fill_disk_tuple` leaves for a value from address `data` on. -/
def storeAtt (att : PgAttribute) (data : Nat) (value : Datum) : List UInt8 :=
  let val := value.mem
  if att.attbyval then leBytes att.attlen.toNat value.word.toNat
  else if att.attlen = lenVarlena then
    if varattIs1BE val then val.take (varsizeExternal val)
    else if varattIs1B val then val.take (varsize1B val)
    else if att.attstorage ≠ .plain ∧ varattCanMakeShort val then
      UInt8.ofNat (varattConvertedShortSize val * 2 + 1) ::
        (val.drop 4).take (varattConvertedShortSize val - 1)
    else alignPad data att.attalign ++ val.take (varsize4B val)
  else if att.attlen = lenCstring then val.take (strlen val + 1)
  else alignPad data att.attalign ++ val.take att.attlen.toNat

def storeFlag (att : PgAttribute) (value : Datum) : Flag :=
  if att.attbyval ∨ 0 < att.attlen then 0#16
  else if att.attlen = lenVarlena ∧ varattIs1BE value.mem then xheapHasVarwidth ||| xheapHasExternal
  else xheapHasVarwidth

/-- The variables of `xheap_fill_disk_tuple`.  Addresses count from the start of the disk tuple, which is
aligned in memory; `data` is what stands behind the bitmap. -/
structure FillState where
  bitP : BitCursor
  bitPReserve : BitCursor
  bitmap : List UInt8
  data : List UInt8
  flag : Flag
  deriving DecidableEq

/-- One turn of the loop; nulls come with `hasnull` only. -/
def fillAttr (hasnull : Bool) (st : FillState) (col : PgAttribute × Option Datum) : FillState :=
  let att := col.1
  match col.2 with
  | none =>
    let st := { st with bitP := st.bitP.next }
    let st := if reservesSpace enableReserve att then
        { st with
          data := st.data ++ List.replicate att.attlen.toNat 0
          bitmap := st.bitPReserve.set sizeOfXHeapDiskTupleData st.bitmap }
      else st
    { st with bitPReserve := st.bitPReserve.next }
  | some value =>
    let st := if hasnull then
        { st with
          bitP := st.bitP.next
          bitmap := st.bitP.next.set sizeOfXHeapDiskTupleData st.bitmap }
      else st
    { st with
      data := st.data ++
        storeAtt att (sizeOfXHeapDiskTupleData + st.bitmap.length + st.data.length) value
      flag := st.flag ||| storeFlag att value }

def fillStart (natts bitmapBytes : Nat) (hasnull : Bool) : FillState where
  bitP := ⟨sizeOfXHeapDiskTupleData - 1, 0x80⟩
  bitPReserve := ⟨sizeOfXHeapDiskTupleData + natts / 8, 1 <<< UInt8.ofNat (natts % 8)⟩
  bitmap := List.replicate bitmapBytes 0
  data := []
  flag := if hasnull then xheapHasNull else 0#16

def xheapFillDiskTuple (cols : List (PgAttribute × Option Datum)) (bitmapBytes : Nat)
    (hasnull : Bool) : FillState :=
  cols.foldl (fillAttr enableReserve hasnull) (fillStart cols.length bitmapBytes hasnull)

end Form

inductive FormError where
  | tooManyColumns (natts : Nat)
  /-- The error of `palloc`. -/
  | invalidAllocSize (size : Nat)
  /-- Bytes are written behind the memory of the tuple. -/
  | overrun (allocated written : Nat)
  deriving DecidableEq

def FormError.isReported : FormError → Bool
  | .overrun _ _ => false
  | _ => true

def formBitmapBytes (natts nullcount : Nat) : Nat :=
  if nullcount = 0 then 0
  else bitmapLen (if nAttrsReserveSpace natts then natts + nullcount else natts)

/-- `xheap_form_tuple`; a value is `none` where `is_nulls` is set. -/
def xheapFormTuple (enableReserveSpaceForNullAtts : Bool) (desc : TupleDesc)
    (values : List (Option Datum)) : Except FormError XHeapTuple :=
  let attrNum := desc.attrs.length
  let enableReserve := enableReserveSpaceForNullAtts && nAttrsReserveSpace attrNum
  if maxTupleAttributeNumber < attrNum then .error (.tooManyColumns attrNum)
  else
    let cols := desc.attrs.zip values
    let nullcount := values.countP Option.isNone
    let bitmapBytes := formBitmapBytes attrNum nullcount
    let headerSize := sizeOfXHeapDiskTupleData + bitmapBytes
    let diskTupleSize :=
      UInt32.ofNat headerSize + xheapCalcTupleDataSize enableReserve cols headerSize
    if maxAllocSize < diskTupleSize.toNat + sizeOfXHeapTupleData then
      .error (.invalidAllocSize (diskTupleSize.toNat + sizeOfXHeapTupleData))
    else
      let filled := xheapFillDiskTuple enableReserve cols bitmapBytes (decide (0 < nullcount))
      let written := headerSize + filled.data.length
      if diskTupleSize.toNat < written then .error (.overrun diskTupleSize.toNat written)
      else .ok
        { diskTupleSize := diskTupleSize.toNat
          ctid := (0, 0)
          tableOid := 0
          xmin := 0
          xmax := 0
          diskTuple := ⟨0, 0, 0, filled.flag, BitVec.ofNat 16 attrNum, headerSize % 256,
            filled.bitmap ++ filled.data ++ List.replicate (diskTupleSize.toNat - written) 0⟩ }

def attIsnull (att : Nat) (bits : List UInt8) : Bool :=
  (bits.getD (att / 8) 0).toNat &&& (1 <<< (att % 8)) == 0

def extendToDatum (attlen n : Nat) : UInt64 :=
  UInt64.ofNat (if n < 2 ^ (8 * attlen - 1) then n else n + (2 ^ 64 - 2 ^ (8 * attlen)))

def fetchatt (att : PgAttribute) (p : List UInt8) : Datum :=
  if att.attbyval then .byval (extendToDatum att.attlen.toNat (leNat (p.take att.attlen.toNat)))
  else .pointer p

namespace XHeapDiskTuple

variable (t : XHeapDiskTuple)

/-- `XHeapTupleHeaderGetNatts` -/
def natts : Nat := (t.flag2 &&& xheapNattsMask).toNat

def hasNulls : Bool := t.flag.has xheapHasNull

def memFrom (off : Nat) : List UInt8 := t.body.drop (off - sizeOfXHeapDiskTupleData)

end XHeapDiskTuple

/-- The variables that the loops over the columns carry on. -/
structure DeformState where
  off : Nat
  nullcount : Nat
  deriving DecidableEq

/-- One turn of the loop that `xheap_deform_tuple_guts`, `slot_deform_xtuple` and `xheap_cal_tuple_size`
share. -/
def readAttr (t : XHeapDiskTuple) (att : PgAttribute) (attnum : Nat) (st : DeformState) :
    Option Datum × DeformState :=
  if t.hasNulls && attIsnull attnum t.body then
    -- the space may be reserved
    (none,
      { off :=
          if nAttrsReserveSpace t.natts && !attIsnull (t.natts + st.nullcount) t.body then
            ((st.off : Int) + att.attlen).toNat
          else st.off
        nullcount := st.nullcount + 1 })
  else
    let off :=
      if att.attlen = lenVarlena then attAlignPointer st.off att (t.memFrom st.off)
      else if !att.attbyval then attAlignNominal st.off att.attalign
      else st.off
    (some (fetchatt att (t.memFrom off)), { st with off := off + attLength att (t.memFrom off) })

/-- The loop over some columns, the first of which has number `attnum`. -/
def readAttrs (t : XHeapDiskTuple) :
    List PgAttribute → Nat → DeformState → List (Option Datum) × DeformState
  | [], _, st => ([], st)
  | att :: atts, attnum, st =>
    let r := readAttr t att attnum st
    let rest := readAttrs t atts (attnum + 1) r.2
    (r.1 :: rest.1, rest.2)

/-- The values of the columns from `attnum` up to `natts` that the tuple does not have. -/
def missingAttrs (desc : TupleDesc) (attnum natts : Nat) : List (Option Datum) :=
  ((List.range natts).drop attnum).map desc.missing

def xheapDeformTupleGuts (t : XHeapDiskTuple) (desc : TupleDesc) (unatts : Nat) :
    List (Option Datum) :=
  let natts := min t.natts unatts
  (readAttrs t (desc.attrs.take natts) 0 ⟨t.tHoff, 0⟩).1 ++ missingAttrs desc natts unatts

def xheapDeformTuple (t : XHeapDiskTuple) (desc : TupleDesc) : List (Option Datum) :=
  xheapDeformTupleGuts t desc desc.attrs.length

/-- The part of a slot that `slot_deform_xtuple` works on: the first `tts_nvalid` values, and the offset
behind them. -/
structure XSlot where
  values : List (Option Datum)
  off : Nat
  deriving DecidableEq

def slotDeformXtuple (t : XHeapDiskTuple) (desc : TupleDesc) (slot : XSlot) (natts : Nat) : XSlot :=
  let nattsAvailable := min t.natts natts
  let attnum := slot.values.length
  let start : DeformState :=
    if attnum ≠ 0 then ⟨slot.off, slot.values.countP Option.isNone⟩ else ⟨t.tHoff, 0⟩
  let r := readAttrs t ((desc.attrs.take nattsAvailable).drop attnum) attnum start
  { values := slot.values ++ r.1 ++ missingAttrs desc (max attnum nattsAvailable) natts
    off := r.2.off }

def xheapCalTupleSize (t : XHeapDiskTuple) (desc : TupleDesc) : Nat :=
  (readAttrs t (desc.attrs.take (min t.natts desc.attrs.length)) 0 ⟨t.tHoff, 0⟩).2.off

end XStore
