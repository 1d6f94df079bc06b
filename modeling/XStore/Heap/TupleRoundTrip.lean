import Mathlib.Tactic.IntervalCases
import Mathlib.Tactic.NormNum
import XStore.Heap.TupleRead

/-!
# What is read from a tuple is what it was formed from

Forming a tuple lays out its columns behind the two bitmaps.  The size is counted in 32 bits: a row
whose size wraps around is written to memory that is too short.
-/
namespace XStore

open List

section Form

variable {enableReserve hasnull : Bool} {att : PgAttribute} {v : Datum}
  {cols : List (PgAttribute × Option Datum)} {st : FillState} {t : XHeapDiskTuple}

/-- Where a value ends that `xheap_calc_tuple_data_size` counts from `off` on. -/
def calcEnd (att : PgAttribute) (off : Nat) (v : Datum) : Nat :=
  if att.attbyval then off + att.attlen.toNat
  else if att.attlen = lenVarlena ∧ att.attstorage ≠ .plain ∧ varattCanMakeShort v.mem then
    off + varattConvertedShortSize v.mem
  else attAlignDatum off att v + attLength att v.mem

theorem storeAtt_length (h : att.Holds v) (off : Nat) :
    off + (storeAtt att off v).length = calcEnd att off v := by
  cases v with
  | byval w =>
    have hbyval : att.attbyval = true := h
    simp [storeAtt, calcEnd, hbyval]
  | pointer p =>
    obtain ⟨hbyval, hle, h4⟩ := h
    have hmin : min (attLength att p) p.length = attLength att p := min_eq_left hle
    have hpad := alignPad_length att.attalign off
    simp only [storeAtt, calcEnd, hbyval, Bool.false_eq_true, if_false, Datum.mem]
    by_cases hvar : att.attlen = lenVarlena
    · have hlen : attLength att p = varsizeAny p := by simp [attLength, hvar, lenVarlena]
      by_cases h1B : varattIs1B p = true
      · have hnot : varattCanMakeShort p = false := by
          rw [varattIs1B_iff] at h1B
          rw [varattCanMakeShort, Bool.and_eq_false_iff, ← Bool.not_eq_true, varattIs4BU_iff]
          omega
        by_cases h1BE : varattIs1BE p = true
        · have hany : varsizeAny p = varsizeExternal p := by simp [varsizeAny, h1BE]
          simp only [hvar, h1BE, if_true, hnot, Bool.false_eq_true, and_false, if_false, attAlignDatum,
            Datum.mem, h1B, and_self, length_take]
          rw [← hany, ← hlen, hmin]
        · have hany : varsizeAny p = varsize1B p := by simp [varsizeAny, h1BE, h1B]
          simp only [hvar, h1BE, h1B, if_true, hnot, Bool.false_eq_true, and_false, if_false,
            attAlignDatum, Datum.mem, and_self, length_take]
          rw [← hany, ← hlen, hmin]
      · have h1BE : varattIs1BE p = false := by
          rw [varattIs1B_iff] at h1B
          rw [← Bool.not_eq_true, varattIs1BE_iff]
          omega
        have hany : varsizeAny p = varsize4B p := by simp [varsizeAny, h1BE, h1B]
        have hfour := h4 hvar (by simpa using h1B)
        rw [hlen, hany] at hle hmin
        by_cases hshort : att.attstorage ≠ .plain ∧ varattCanMakeShort p = true
        · simp only [hvar, h1BE, h1B, hshort, Bool.false_eq_true, if_false, if_true, ne_eq,
            not_false_eq_true, and_self, length_cons, length_take, length_drop]
          unfold varattConvertedShortSize
          omega
        · simp only [hvar, h1BE, h1B, hshort, Bool.false_eq_true, if_false, if_true, attAlignDatum,
            Datum.mem, and_false, length_append, length_take]
          rw [hlen, hany, hmin]
          omega
    · simp only [hvar, false_and, if_false, attAlignDatum]
      rcases att.byref_len hbyval with hpos | hneg | hstr
      · have hne : att.attlen ≠ lenCstring := by
          simp only [lenCstring]
          omega
        have hlen : attLength att p = att.attlen.toNat := by simp [attLength, hpos]
        simp only [hne, if_false, length_append, length_take]
        rw [← hlen, hmin]
        omega
      · exact absurd hneg hvar
      · have hlen : attLength att p = strlen p + 1 := by
          simp [attLength, hstr, lenCstring, lenVarlena]
        simp only [hstr, if_true, att.cstring_align hstr, attAlignNominal_char, length_take]
        rw [← hlen, hmin]

theorem ofNat_attAlignNominal (n : Nat) (a : TypAlign) :
    UInt32.ofNat (attAlignNominal (UInt32.ofNat n).toNat a) = UInt32.ofNat (attAlignNominal n a) := by
  apply UInt32.toNat_inj.mp
  rw [UInt32.toNat_ofNat', UInt32.toNat_ofNat', UInt32.toNat_ofNat', attAlignNominal_mod]

/-- The size of the data is right up to the range of an `int`. -/
theorem calcAttr_eq {col : PgAttribute × Option Datum} (h : ∀ v, col.2 = some v → col.1.Holds v)
    (n : Nat) : calcAttr enableReserve (UInt32.ofNat n) col =
      UInt32.ofNat (n + (storeColumn enableReserve n col).length) := by
  obtain ⟨att, val⟩ := col
  cases val with
  | none =>
    cases hres : reservesSpace enableReserve att with
    | true => simp [calcAttr, storeColumn, hres, UInt32.ofNat_add]
    | false => simp [calcAttr, storeColumn, hres]
  | some v =>
    show _ = UInt32.ofNat (n + (storeAtt att n v).length)
    rw [storeAtt_length (h v rfl) n]
    simp only [calcAttr, calcEnd]
    split_ifs with hbyval hshort
    · rw [UInt32.ofNat_add]
    · rw [UInt32.ofNat_add]
    · rw [UInt32.ofNat_add]
      congr 1
      unfold attAlignDatum
      split_ifs
      · exact UInt32.ofNat_toNat
      · exact ofNat_attAlignNominal n att.attalign

theorem foldl_calcAttr (h : ColumnsHold cols) (n : Nat) :
    cols.foldl (calcAttr enableReserve) (UInt32.ofNat n) =
      UInt32.ofNat (n + (layout enableReserve n cols).length) := by
  induction cols generalizing n with
  | nil => rfl
  | cons col cols ih =>
    rw [foldl_cons, calcAttr_eq (h col mem_cons_self),
      ih fun c hc => h c (mem_cons_of_mem _ hc), layout, length_append, Nat.add_assoc]

theorem fillAttr_data (col : PgAttribute × Option Datum) :
    (fillAttr enableReserve hasnull st col).data = st.data ++
        storeColumn enableReserve (sizeOfXHeapDiskTupleData + st.bitmap.length + st.data.length) col ∧
      (fillAttr enableReserve hasnull st col).bitmap.length = st.bitmap.length := by
  obtain ⟨att, val⟩ := col
  cases val with
  | none =>
    cases h : reservesSpace enableReserve att with
    | true => simp [fillAttr, storeColumn, h]
    | false => simp [fillAttr, storeColumn, h]
  | some v => cases hasnull <;> simp [fillAttr, storeColumn]

/-- The data that is filled in is the layout of the columns. -/
theorem foldl_fillAttr_data :
    (cols.foldl (fillAttr enableReserve hasnull) st).data = st.data ++
        layout enableReserve (sizeOfXHeapDiskTupleData + st.bitmap.length + st.data.length) cols ∧
      (cols.foldl (fillAttr enableReserve hasnull) st).bitmap.length = st.bitmap.length := by
  induction cols generalizing st with
  | nil => simp [layout]
  | cons col cols ih =>
    obtain ⟨hdata, hbitmap⟩ := @fillAttr_data enableReserve hasnull st col
    obtain ⟨ihdata, ihbitmap⟩ := @ih (fillAttr enableReserve hasnull st col)
    rw [foldl_cons, ihdata, ihbitmap, hbitmap, hdata, layout, length_append,
      append_assoc, Nat.add_assoc _ st.data.length]
    exact ⟨rfl, rfl⟩

theorem fillAttr_hasNull (col : PgAttribute × Option Datum) :
    (fillAttr enableReserve hasnull st col).flag.has xheapHasNull = st.flag.has xheapHasNull := by
  obtain ⟨att, val⟩ := col
  cases val with
  | none => cases h : reservesSpace enableReserve att <;> simp [fillAttr, h]
  | some v =>
    have hstore : storeFlag att v &&& xheapHasNull = 0#16 := by
      unfold storeFlag
      split_ifs <;> decide
    have hflag : (fillAttr enableReserve hasnull st (att, some v)).flag = st.flag ||| storeFlag att v := by
      cases hasnull <;> rfl
    rw [hflag, Flag.has, Flag.has, BitVec.and_comm, BitVec.and_or_distrib_left,
      BitVec.and_comm _ (storeFlag att v), hstore, BitVec.or_zero, BitVec.and_comm]

theorem foldl_fillAttr_hasNull :
    (cols.foldl (fillAttr enableReserve hasnull) st).flag.has xheapHasNull =
      st.flag.has xheapHasNull := by
  induction cols generalizing st with
  | nil => rfl
  | cons col cols ih => rw [foldl_cons, ih, fillAttr_hasNull]

/-- The null bitmap, set for the columns that have a value. -/
def presentBits (cols : List (PgAttribute × Option Datum)) : List Bool := cols.map (·.2.isSome)

/-- The second bitmap, set for the nulls that keep their space. -/
def reserveBits (enableReserve : Bool) (cols : List (PgAttribute × Option Datum)) : List Bool :=
  (cols.filter (·.2.isNone)).map fun col => reservesSpace enableReserve col.1

/-- The loop sets the bits of both bitmaps and no others. -/
theorem foldl_fillAttr_bits {i r : Nat} (hp : st.bitP.next.At sizeOfXHeapDiskTupleData i)
    (hr : st.bitPReserve.At sizeOfXHeapDiskTupleData r)
    (hi : i + cols.length ≤ 8 * st.bitmap.length)
    (hlen : enableReserve = true → r + (reserveBits enableReserve cols).length ≤ 8 * st.bitmap.length)
    (j : Nat) :
    bitAt (cols.foldl (fillAttr enableReserve true) st).bitmap j =
      (bitAt st.bitmap j || bitsFrom (presentBits cols) i j ||
        bitsFrom (reserveBits enableReserve cols) r j) := by
  induction cols generalizing st i r with
  | nil => simp [presentBits, reserveBits]
  | cons col cols ih =>
    obtain ⟨att, val⟩ := col
    rw [length_cons] at hi
    cases val with
    | none =>
      have hbits : reserveBits enableReserve ((att, none) :: cols) =
          reservesSpace enableReserve att :: reserveBits enableReserve cols := by
        simp [reserveBits]
      have hpresent : presentBits ((att, none) :: cols) = false :: presentBits cols := rfl
      rw [hbits, length_cons] at hlen
      rw [foldl_cons, hbits, hpresent, bitsFrom_cons, bitsFrom_cons, Bool.false_and,
        Bool.false_or]
      cases hres : reservesSpace enableReserve att with
      | true =>
        have hroom := hlen (by
          simp only [reservesSpace, Bool.and_eq_true] at hres
          exact hres.1.1)
        have hstep : fillAttr enableReserve true st (att, none) =
            { st with
              bitP := st.bitP.next
              bitPReserve := st.bitPReserve.next
              bitmap := st.bitPReserve.set sizeOfXHeapDiskTupleData st.bitmap
              data := st.data ++ List.replicate att.attlen.toNat 0 } := by
          simp [fillAttr, hres]
        rw [hstep, ih hp.next hr.next (by simpa using (by omega : i + 1 + cols.length ≤ _))
          (fun _ => by simpa using (by omega : r + 1 + _ ≤ _)), hr.bitAt_set (by omega)]
        simp only [Bool.true_and]
        cases bitAt st.bitmap j <;> cases decide (j = r) <;> simp
      | false =>
        have hstep : fillAttr enableReserve true st (att, none) =
            { st with bitP := st.bitP.next, bitPReserve := st.bitPReserve.next } := by
          simp [fillAttr, hres]
        rw [hstep, ih hp.next hr.next (by simpa using (by omega : i + 1 + cols.length ≤ _))
          (fun h => by have := hlen h; simpa using (by omega : r + 1 + _ ≤ _)), Bool.false_and,
          Bool.false_or]
    | some v =>
      have hbits : reserveBits enableReserve ((att, some v) :: cols) =
          reserveBits enableReserve cols := by
        simp [reserveBits]
      have hpresent : presentBits ((att, some v) :: cols) = true :: presentBits cols := rfl
      rw [hbits] at hlen
      rw [foldl_cons, hbits, hpresent, bitsFrom_cons, Bool.true_and]
      obtain ⟨st', hst', hstep⟩ : ∃ st', st' = fillAttr enableReserve true st (att, some v) ∧
          st'.bitP = st.bitP.next ∧ st'.bitPReserve = st.bitPReserve ∧
          st'.bitmap = st.bitP.next.set sizeOfXHeapDiskTupleData st.bitmap := ⟨_, rfl, rfl, rfl, rfl⟩
      obtain ⟨hP, hR, hB⟩ := hstep
      rw [← hst', @ih st' (i + 1) r (hP ▸ hp.next) (hR ▸ hr)
        (by rw [hB]; simpa using (by omega : i + 1 + cols.length ≤ _))
        (fun h => by rw [hB]; simpa using hlen h), hB, hp.bitAt_set (by omega)]
      cases bitAt st.bitmap j <;> cases decide (j = i) <;> simp

theorem attIsnull_eq (att : Nat) (bits : List UInt8) : attIsnull att bits = !bitAt bits att := by
  unfold attIsnull bitAt
  rw [Nat.one_shiftLeft, Nat.and_two_pow]
  cases (bits.getD (att / 8) 0).toNat.testBit (att % 8) <;> simp

theorem nullBits_of_bits {attnum nullcount : Nat} (hnulls : t.hasNulls = true)
    (hnatts : attnum + cols.length = t.natts)
    (hres : nAttrsReserveSpace t.natts = false → enableReserve = false)
    (hbits : ∀ j, (attnum ≤ j ∧ j < t.natts) ∨ (nAttrsReserveSpace t.natts = true ∧
        t.natts + nullcount ≤ j ∧ j < t.natts + nullcount + (reserveBits enableReserve cols).length) →
      bitAt t.body j = (bitsFrom (presentBits cols) attnum j ||
        bitsFrom (reserveBits enableReserve cols) (t.natts + nullcount) j)) :
    NullBits enableReserve t cols attnum nullcount := by
  induction cols generalizing attnum nullcount with
  | nil => trivial
  | cons col cols ih =>
    obtain ⟨att, val⟩ := col
    rw [length_cons] at hnatts
    have hhere : bitAt t.body attnum = val.isSome := by
      have hlt : attnum < t.natts + nullcount := by omega
      rw [hbits attnum (.inl ⟨le_rfl, by omega⟩),
        @bitsFrom_of_lt (reserveBits enableReserve _) _ _ hlt, Bool.or_false]
      exact bitsFrom_cons_self _ _ _
    cases val with
    | none =>
      have hlist : reserveBits enableReserve ((att, none) :: cols) =
          reservesSpace enableReserve att :: reserveBits enableReserve cols := by
        simp [reserveBits]
      rw [hlist] at hbits
      refine ⟨by simp [hnulls, attIsnull_eq, hhere], ?_, ih (by omega) fun j hj => ?_⟩
      · cases hspace : nAttrsReserveSpace t.natts with
        | false => simp [reservesSpace, hres hspace]
        | true =>
          have hlen : attnum + (presentBits ((att, none) :: cols)).length ≤ t.natts + nullcount := by
            simp only [presentBits, length_map, length_cons]
            omega
          rw [attIsnull_eq, Bool.not_not, Bool.true_and,
            hbits _ (.inr ⟨hspace, le_rfl, by rw [length_cons]; omega⟩), bitsFrom_of_ge hlen,
            Bool.false_or, bitsFrom_cons_self]
      · have hne : j ≠ attnum ∧ j ≠ t.natts + nullcount := by omega
        rw [hbits j (hj.imp (fun h => ⟨by omega, h.2⟩) fun h =>
          ⟨h.1, by omega, by rw [length_cons]; omega⟩), bitsFrom_cons (reservesSpace _ att)]
        show (bitsFrom (false :: presentBits cols) attnum j || _) = _
        rw [bitsFrom_cons, decide_eq_false hne.1, decide_eq_false hne.2]
        simp [Nat.add_assoc]
    | some v =>
      have hlist : reserveBits enableReserve ((att, some v) :: cols) =
          reserveBits enableReserve cols := by
        simp [reserveBits]
      rw [hlist] at hbits
      refine ⟨by simp [attIsnull_eq, hhere], ih (by omega) fun j hj => ?_⟩
      have hne : j ≠ attnum := by omega
      rw [hbits j (hj.imp (fun h => ⟨by omega, h.2⟩) id)]
      show (bitsFrom (true :: presentBits cols) attnum j || _) = _
      rw [bitsFrom_cons, decide_eq_false hne]
      simp

theorem nullBits_of_no_nulls {attnum nullcount : Nat}
    (hnulls : t.hasNulls = false) (h : ∀ col ∈ cols, col.2.isNone = false) :
    NullBits enableReserve t cols attnum nullcount := by
  induction cols generalizing attnum with
  | nil => trivial
  | cons col cols ih =>
    obtain ⟨att, val⟩ := col
    cases val with
    | none => cases h _ mem_cons_self
    | some v =>
      exact ⟨by simp [hnulls], ih fun c hc => h c (mem_cons_of_mem _ hc)⟩

end Form

def TupleDesc.reserve (desc : TupleDesc) (opt : Bool) : Bool :=
  opt && nAttrsReserveSpace desc.attrs.length

structure RowValues (desc : TupleDesc) where
  vals : List (Option Datum)
  length_eq : vals.length = desc.attrs.length
  holds : ColumnsHold (desc.attrs.zip vals)

namespace RowValues

variable {desc : TupleDesc} (opt : Bool) (row : RowValues desc)

def cols : List (PgAttribute × Option Datum) := desc.attrs.zip row.vals

def nullcount : Nat := row.vals.countP Option.isNone

def bitmapBytes : Nat := formBitmapBytes desc.attrs.length row.nullcount

def headerSize : Nat := sizeOfXHeapDiskTupleData + row.bitmapBytes

def size : Nat := row.headerSize + (layout (desc.reserve opt) row.headerSize row.cols).length

/-- The size does not fit its 32-bit variable, and what is left of it can be allocated. -/
def SizeWraps : Prop :=
  desc.attrs.length ≤ maxTupleAttributeNumber ∧ 2 ^ 32 ≤ row.size opt ∧
    row.size opt % 2 ^ 32 + sizeOfXHeapTupleData ≤ maxAllocSize

@[simp] theorem cols_length : row.cols.length = desc.attrs.length := by
  rw [cols, length_zip, row.length_eq, min_self]

theorem nullcount_le : row.nullcount ≤ desc.attrs.length := by
  rw [← row.length_eq]
  exact countP_le_length

theorem headerSize_lt (h : desc.attrs.length ≤ maxTupleAttributeNumber) : row.headerSize < 256 := by
  have hle := row.nullcount_le
  unfold maxTupleAttributeNumber at h
  simp only [headerSize, bitmapBytes, formBitmapBytes, bitmapLen, sizeOfXHeapDiskTupleData]
  split_ifs with h0 hspace
  · decide
  · have hspace' : desc.attrs.length ≤ 904 := of_decide_eq_true hspace
    omega
  · omega

/-- What `xheap_fill_disk_tuple` fills in. -/
def filled : FillState :=
  xheapFillDiskTuple (desc.reserve opt) row.cols row.bitmapBytes (decide (0 < row.nullcount))

def formed : XHeapDiskTuple :=
  ⟨0, 0, 0, (row.filled opt).flag, BitVec.ofNat 16 desc.attrs.length, row.headerSize,
    (row.filled opt).bitmap ++ (row.filled opt).data⟩

theorem filled_data : (row.filled opt).data = layout (desc.reserve opt) row.headerSize row.cols ∧
    (row.filled opt).bitmap.length = row.bitmapBytes := by
  have h := @foldl_fillAttr_data (desc.reserve opt) (decide (0 < row.nullcount)) row.cols
    (fillStart row.cols.length row.bitmapBytes (decide (0 < row.nullcount)))
  have hbitmap : (fillStart row.cols.length row.bitmapBytes (decide (0 < row.nullcount))).bitmap.length =
      row.bitmapBytes := by simp [fillStart]
  rw [hbitmap] at h
  exact h

theorem xheapFormTuple_eq : xheapFormTuple opt desc row.vals =
    if maxTupleAttributeNumber < desc.attrs.length then .error (.tooManyColumns desc.attrs.length)
    else if maxAllocSize < row.size opt % 2 ^ 32 + sizeOfXHeapTupleData then
      .error (.invalidAllocSize (row.size opt % 2 ^ 32 + sizeOfXHeapTupleData))
    else if row.size opt % 2 ^ 32 < row.size opt then
      .error (.overrun (row.size opt % 2 ^ 32) (row.size opt))
    else .ok ⟨row.size opt, (0, 0), 0, 0, 0, row.formed opt⟩ := by
  have hsize : UInt32.ofNat row.headerSize +
      xheapCalcTupleDataSize (desc.reserve opt) row.cols row.headerSize = UInt32.ofNat (row.size opt) := by
    rw [xheapCalcTupleDataSize, cols, foldl_calcAttr row.holds, UInt32.add_comm, UInt32.sub_add_cancel]
    rfl
  have hwritten : row.headerSize + (row.filled opt).data.length = row.size opt := by
    rw [(row.filled_data opt).1]
    rfl
  have hform : xheapFormTuple opt desc row.vals =
      if maxTupleAttributeNumber < desc.attrs.length then .error (.tooManyColumns desc.attrs.length)
      else
        let diskTupleSize := (UInt32.ofNat row.headerSize +
          xheapCalcTupleDataSize (desc.reserve opt) row.cols row.headerSize).toNat
        let written := row.headerSize + (row.filled opt).data.length
        if maxAllocSize < diskTupleSize + sizeOfXHeapTupleData then
          .error (.invalidAllocSize (diskTupleSize + sizeOfXHeapTupleData))
        else if diskTupleSize < written then .error (.overrun diskTupleSize written)
        else .ok ⟨diskTupleSize, (0, 0), 0, 0, 0,
          ⟨0, 0, 0, (row.filled opt).flag, BitVec.ofNat 16 desc.attrs.length, row.headerSize % 256,
            (row.filled opt).bitmap ++ (row.filled opt).data ++
              List.replicate (diskTupleSize - written) 0⟩⟩ := rfl
  rw [hform, hsize, hwritten]
  simp only [UInt32.toNat_ofNat']
  split_ifs with hmany halloc hover
  · rfl
  · rfl
  · rfl
  · -- the whole size was allocated
    have heq : row.size opt % 2 ^ 32 = row.size opt := by
      have := Nat.mod_le (row.size opt) (2 ^ 32)
      omega
    rw [heq, Nat.sub_self, Nat.mod_eq_of_lt (row.headerSize_lt (by omega)), replicate_zero,
      append_nil]
    rfl

theorem reserveBits_length (enableReserve : Bool) :
    (reserveBits enableReserve row.cols).length = row.nullcount := by
  have hsnd : row.cols.map Prod.snd = row.vals := map_snd_zip row.length_eq.le
  rw [reserveBits, length_map, ← countP_eq_length_filter, nullcount, ← hsnd,
    countP_map]
  rfl

theorem formed_natts (h : desc.attrs.length ≤ maxTupleAttributeNumber) :
    (row.formed opt).natts = desc.attrs.length := by
  unfold maxTupleAttributeNumber at h
  show (BitVec.ofNat 16 desc.attrs.length &&& xheapNattsMask).toNat = _
  rw [BitVec.toNat_and, BitVec.toNat_ofNat, Nat.mod_eq_of_lt (by omega)]
  show desc.attrs.length &&& (2 ^ 11 - 1) = _
  rw [Nat.and_two_pow_sub_one_eq_mod, Nat.mod_eq_of_lt (by omega)]

theorem formed_hasNulls : (row.formed opt).hasNulls = decide (0 < row.nullcount) := by
  have h := @foldl_fillAttr_hasNull (desc.reserve opt) (decide (0 < row.nullcount)) row.cols
    (fillStart row.cols.length row.bitmapBytes (decide (0 < row.nullcount)))
  refine h.trans ?_
  cases decide (0 < row.nullcount) with
  | false => exact (by decide : Flag.has 0#16 xheapHasNull = false)
  | true => exact (by decide : Flag.has xheapHasNull xheapHasNull = true)

theorem bitmap_room (hpos : 0 < row.nullcount) : desc.attrs.length ≤ 8 * row.bitmapBytes ∧
    (nAttrsReserveSpace desc.attrs.length = true →
      desc.attrs.length + row.nullcount ≤ 8 * row.bitmapBytes) := by
  rw [bitmapBytes, formBitmapBytes, if_neg hpos.ne', bitmapLen]
  split_ifs with hspace
  · omega
  · exact ⟨by omega, fun h => absurd h hspace⟩

theorem one_shiftLeft_toNat {k : Nat} (hk : k < 8) : (1 <<< UInt8.ofNat k : UInt8).toNat = 2 ^ k := by
  interval_cases k <;> rfl

theorem filled_bits (hpos : 0 < row.nullcount) (j : Nat) :
    bitAt (row.filled opt).bitmap j = (bitsFrom (presentBits row.cols) 0 j ||
      bitsFrom (reserveBits (desc.reserve opt) row.cols) desc.attrs.length j) := by
  obtain ⟨hroom, hroom'⟩ := row.bitmap_room hpos
  have hstart : (fillStart row.cols.length row.bitmapBytes true).bitPReserve.At
      sizeOfXHeapDiskTupleData desc.attrs.length := by
    rw [fillStart, cols_length]
    exact ⟨rfl, one_shiftLeft_toNat (Nat.mod_lt _ (by decide))⟩
  have hlen : (fillStart row.cols.length row.bitmapBytes true).bitmap.length = row.bitmapBytes := by
    simp [fillStart]
  have hbits := @foldl_fillAttr_bits (desc.reserve opt) row.cols _ 0 desc.attrs.length
    (BitCursor.next_before (by decide)) hstart
    (by rw [hlen, cols_length, Nat.zero_add]; exact hroom) (fun hres => by
      rw [hlen, reserveBits_length]
      simp only [TupleDesc.reserve, Bool.and_eq_true] at hres
      exact hroom' hres.2) j
  rw [filled, xheapFillDiskTuple, decide_eq_true hpos, hbits]
  simp [fillStart, bitAt_replicate_zero]

end RowValues

/-- The tuple is one formed from the values, with anything behind its bytes; of its header, what tells the
format. -/
structure XHeapDiskTuple.Stores (t : XHeapDiskTuple) {desc : TupleDesc} (row : RowValues desc)
    (opt : Bool) : Prop where
  natts : t.natts = desc.attrs.length
  hasNulls : t.hasNulls = decide (0 < row.nullcount)
  tHoff : t.tHoff = row.headerSize
  body : ∃ spare, t.body = (row.formed opt).body ++ spare

namespace XHeapDiskTuple.Stores

variable {t : XHeapDiskTuple} {desc : TupleDesc} {row : RowValues desc} {opt : Bool}

theorem nullBits (h : t.Stores row opt) : NullBits (desc.reserve opt) t row.cols 0 0 := by
  have hnulls := row.reserveBits_length (desc.reserve opt)
  rcases Nat.eq_zero_or_pos row.nullcount with h0 | hpos
  · refine nullBits_of_no_nulls (by rw [h.hasNulls, h0]; rfl) fun col hcol => ?_
    rw [RowValues.nullcount, countP_eq_zero] at h0
    exact Bool.eq_false_iff.mpr (h0 col.2 (of_mem_zip hcol).2)
  · obtain ⟨hroom, hroom'⟩ := row.bitmap_room hpos
    refine nullBits_of_bits (by rw [h.hasNulls, decide_eq_true hpos])
      (by rw [h.natts, row.cols_length, Nat.zero_add])
      (fun hspace => by simp [TupleDesc.reserve, ← h.natts, hspace]) fun j hj => ?_
    rw [h.natts, hnulls] at hj
    have hjlt : j < 8 * row.bitmapBytes := by
      rcases hj with hj | ⟨hspace, hj⟩
      · omega
      · have := hroom' hspace
        omega
    obtain ⟨spare, hbody⟩ := h.body
    rw [hbody]
    show bitAt (_ ++ _ ++ spare) j = _
    rw [append_assoc, bitAt_append_left _ (by rw [(row.filled_data opt).2]; omega),
      row.filled_bits opt hpos, h.natts, Nat.add_zero]

theorem carries (h : t.Stores row opt) : t.Carries (desc.reserve opt) row.cols where
  natts_eq := by rw [h.natts, row.cols_length]
  hoff_ge := by
    rw [h.tHoff]
    exact Nat.le_add_right _ _
  nullBits := h.nullBits
  data := by
    obtain ⟨hdata, hbitmap⟩ := row.filled_data opt
    obtain ⟨spare, hbody⟩ := h.body
    refine ⟨spare, ?_⟩
    rw [memFrom, h.tHoff, hbody]
    show List.drop (sizeOfXHeapDiskTupleData + row.bitmapBytes - sizeOfXHeapDiskTupleData)
      (_ ++ _ ++ spare) = _
    rw [Nat.add_sub_cancel_left, append_assoc, drop_left' hbitmap, hdata]

end XHeapDiskTuple.Stores

variable {desc : TupleDesc}

theorem RowValues.formed_stores (row : RowValues desc) (opt : Bool)
    (h : desc.attrs.length ≤ maxTupleAttributeNumber) : (row.formed opt).Stores row opt :=
  ⟨row.formed_natts opt h, row.formed_hasNulls opt, rfl, [], (append_nil _).symm⟩

/-- A tuple gives values back: with the descriptor of any later time, all at once and in steps; the
columns that were added since read as their defaults. -/
structure XHeapDiskTuple.Returns (t : XHeapDiskTuple) (desc : TupleDesc) (vals : List (Option Datum)) :
    Prop where
  values : ∀ desc' : TupleDesc, desc'.Extends desc →
    columnValues desc.attrs ((xheapDeformTuple t desc').take desc.attrs.length) =
      columnValues desc.attrs vals
  missing : ∀ desc' : TupleDesc, desc'.Extends desc →
    (xheapDeformTuple t desc').drop desc.attrs.length =
      missingAttrs desc' desc.attrs.length desc'.attrs.length
  steps : ∀ desc' : TupleDesc, desc'.Extends desc → ∀ calls : List Nat, calls.Pairwise (· ≤ ·) →
    (∀ k ∈ calls, k ≤ desc'.attrs.length) → ∀ off,
    (calls.foldl (slotDeformXtuple t desc') ⟨[], off⟩).values =
      (xheapDeformTuple t desc').take (calls.getLastD 0)

/-- Forming a tuple reports an error, or makes a tuple that gives the values back. -/
def RowValues.FormsFaithfully {desc : TupleDesc} (row : RowValues desc) (opt : Bool) : Prop :=
  match xheapFormTuple opt desc row.vals with
  | .ok tup => tup.diskTuple.Returns desc row.vals
  | .error e => e.isReported = true

theorem form_faithfully_iff (row : RowValues desc) (opt : Bool) :
    row.FormsFaithfully opt ↔ ¬ row.SizeWraps opt := by
  unfold RowValues.FormsFaithfully RowValues.SizeWraps
  rw [row.xheapFormTuple_eq opt]
  split_ifs with hmany halloc hover
  · exact ⟨fun _ h => absurd h.1 (by omega), fun _ => rfl⟩
  · exact ⟨fun _ h => absurd h.2.2 (by omega), fun _ => rfl⟩
  · refine ⟨fun h => Bool.noConfusion h, fun h => absurd ⟨by omega, ?_, by omega⟩ h⟩
    by_contra hlt
    rw [Nat.mod_eq_of_lt (by omega)] at hover
    exact lt_irrefl _ hover
  · have hcarries := (row.formed_stores opt (by omega)).carries
    refine ⟨fun _ h => hover (lt_of_lt_of_le (Nat.mod_lt _ (by decide)) h.2.1), fun _ => ?_⟩
    exact ⟨fun desc' hext => (hcarries.deform row.length_eq row.holds hext).1,
      fun desc' hext => (hcarries.deform row.length_eq row.holds hext).2,
      fun desc' _ calls hsorted hcalls off => slotDeform_calls hsorted hcalls off⟩

/-- A row is formed faithfully unless its size wraps around; and when it is not too large a tuple is
formed. -/
theorem form_deform_round_trip {desc : TupleDesc} (row : RowValues desc) (opt : Bool) :
    (row.FormsFaithfully opt ↔ ¬ row.SizeWraps opt) ∧
      (desc.attrs.length ≤ maxTupleAttributeNumber →
        row.size opt + sizeOfXHeapTupleData ≤ maxAllocSize →
        ∃ tup, xheapFormTuple opt desc row.vals = .ok tup) := by
  refine ⟨form_faithfully_iff row opt, fun hnatts hsize => ?_⟩
  have hmod : row.size opt % 2 ^ 32 = row.size opt :=
    Nat.mod_eq_of_lt (by unfold maxAllocSize at hsize; omega)
  rw [row.xheapFormTuple_eq opt, if_neg (by omega), if_neg (by omega), if_neg (by omega)]
  exact ⟨_, rfl⟩

def textColumn : PgAttribute where
  attname := "a"
  attlen := -1
  attbyval := false
  attalign := .int
  attstorage := .extended
  attisdropped := false
  byval_len := by simp
  byref_len := by simp [lenVarlena]
  cstring_align := by simp [lenCstring]

def textColumns (k : Nat) : TupleDesc := ⟨List.replicate k textColumn, fun _ => none⟩

/-- A text of `n` bytes, the header included. -/
def zeroText (n : Nat) : List UInt8 := leBytes 4 (n * 4) ++ List.replicate (n - 4) 0

section LongTexts

variable {n : Nat} (hlong : 131 ≤ n) (hn : n < 2 ^ 30)
include hlong hn

theorem zeroText_spec : varattIs1B (zeroText n) = false ∧ varattCanMakeShort (zeroText n) = false ∧
    varsize4B (zeroText n) = n ∧ attLength textColumn (zeroText n) = n := by
  have hhead : (vaHeader (zeroText n)).toNat % 2 = 0 := by
    show (UInt8.ofNat (n * 4)).toNat % 2 = 0
    rw [UInt8.toNat_ofNat']
    omega
  have hsize : varsize4B (zeroText n) = n := by
    rw [varsize4B, zeroText, take_left' (leBytes_length 4 _), leNat_leBytes (by omega)]
    omega
  have h1B : varattIs1B (zeroText n) = false := by
    rw [← Bool.not_eq_true, varattIs1B_iff]
    omega
  have h1BE : varattIs1BE (zeroText n) = false := by
    rw [← Bool.not_eq_true, varattIs1BE_iff]
    omega
  refine ⟨h1B, ?_, hsize, ?_⟩
  · rw [varattCanMakeShort, varattConvertedShortSize, hsize, Bool.and_eq_false_iff]
    exact .inr (decide_eq_false (by omega))
  · show varsizeAny (zeroText n) = _
    rw [varsizeAny, h1B, h1BE, hsize]
    rfl

theorem zeroText_holds : textColumn.Holds (.pointer (zeroText n)) := by
  obtain ⟨-, -, hsize, hlen⟩ := zeroText_spec hlong hn
  refine ⟨rfl, ?_, fun _ _ => by omega⟩
  rw [hlen, zeroText, length_append, leBytes_length, length_replicate]
  omega

theorem layout_zeroText (r : Bool) (off : Nat) (cols : List (PgAttribute × Option Datum)) :
    off + (layout r off ((textColumn, some (.pointer (zeroText n))) :: cols)).length =
      attAlignNominal off .int + n + (layout r (attAlignNominal off .int + n) cols).length := by
  obtain ⟨h1B, hshort, -, hlen⟩ := zeroText_spec hlong hn
  have hend : off + (storeColumn r off (textColumn, some (.pointer (zeroText n)))).length =
      attAlignNominal off .int + n := by
    rw [storeColumn, storeAtt_length (zeroText_holds hlong hn), calcEnd, attAlignDatum]
    simp only [Datum.mem, h1B, hshort, hlen, Bool.false_eq_true, and_false, if_false]
    rfl
  rw [layout, length_append, ← Nat.add_assoc, hend]

end LongTexts

def longTexts (k n : Nat) (hlong : 131 ≤ n) (hn : n < 2 ^ 30) : RowValues (textColumns k) where
  vals := List.replicate k (some (.pointer (zeroText n)))
  length_eq := by simp [textColumns]
  holds := by
    intro col hcol v hv
    have hfst := List.eq_of_mem_replicate (List.of_mem_zip hcol).1
    have hsnd := List.eq_of_mem_replicate (List.of_mem_zip hcol).2
    rw [hsnd, Option.some.injEq] at hv
    rw [hfst, ← hv]
    exact zeroText_holds hlong hn

/-- The sizes of the columns add up when they need no padding. -/
theorem longTexts_size (k m : Nat) (hlong : 131 ≤ m * 4) (hn : m * 4 < 2 ^ 30) (opt : Bool) :
    (longTexts (k + 1) (m * 4) hlong hn).size opt = 32 + (k + 1) * (m * 4) := by
  have hheader : (longTexts (k + 1) (m * 4) hlong hn).headerSize = 29 := by
    have hnull : (longTexts (k + 1) (m * 4) hlong hn).nullcount = 0 := by
      simp [RowValues.nullcount, longTexts]
    simp [RowValues.headerSize, RowValues.bitmapBytes, formBitmapBytes, hnull,
      sizeOfXHeapDiskTupleData]
  have hcols : (longTexts (k + 1) (m * 4) hlong hn).cols =
      List.replicate (k + 1) (textColumn, some (.pointer (zeroText (m * 4)))) := by
    simp [RowValues.cols, longTexts, textColumns, zip_replicate']
  have haligned : ∀ (r : Bool) (j q : Nat), 4 * q + (layout r (4 * q)
      (List.replicate j (textColumn, some (.pointer (zeroText (m * 4)))))).length =
        4 * q + j * (m * 4) := by
    intro r j
    induction j with
    | zero => intro q; simp [layout]
    | succ j ih =>
      intro q
      have hnom : attAlignNominal (4 * q) .int + m * 4 = 4 * (q + m) := by
        simp only [attAlignNominal, TypAlign.bytes]
        omega
      rw [replicate_succ, layout_zeroText hlong hn, hnom, ih, Nat.add_one_mul j]
      omega
  have hfirst : attAlignNominal 29 .int + m * 4 = 4 * (8 + m) := by
    simp only [attAlignNominal, TypAlign.bytes]
    omega
  rw [RowValues.size, hheader, hcols, replicate_succ, layout_zeroText hlong hn, hfirst, haligned,
    Nat.add_one_mul k]
  omega

/-- Texts whose sizes together wrap around are written behind the memory of the tuple. -/
theorem longTexts_overrun {k m : Nat} {hlong : 131 ≤ m * 4} {hn : m * 4 < 2 ^ 30} (opt : Bool)
    (hk : k + 1 ≤ maxTupleAttributeNumber) (hbig : 2 ^ 32 ≤ 32 + (k + 1) * (m * 4))
    (hsmall : (32 + (k + 1) * (m * 4)) % 2 ^ 32 + sizeOfXHeapTupleData ≤ maxAllocSize) :
    ¬ (longTexts (k + 1) (m * 4) hlong hn).FormsFaithfully opt := by
  rw [(form_faithfully_iff _ opt), not_not]
  refine ⟨?_, ?_, ?_⟩
  · simpa [textColumns] using hk
  · rw [longTexts_size]
    exact hbig
  · rw [longTexts_size]
    exact hsmall

/-- Five texts of 860 million bytes: 4300000032 bytes are written to memory for 5032736. -/
theorem five_long_texts_overrun :
    ¬ ∀ (desc : TupleDesc) (row : RowValues desc) (opt : Bool), row.FormsFaithfully opt := by
  intro h
  obtain ⟨k, m, hlong, hn, hk, hbig, hsmall⟩ : ∃ k m : Nat, 131 ≤ m * 4 ∧ m * 4 < 2 ^ 30 ∧
      k + 1 ≤ maxTupleAttributeNumber ∧ 2 ^ 32 ≤ 32 + (k + 1) * (m * 4) ∧
      (32 + (k + 1) * (m * 4)) % 2 ^ 32 + sizeOfXHeapTupleData ≤ maxAllocSize :=
    ⟨4, 215000000, by norm_num, by norm_num, by decide, by norm_num,
      by norm_num [sizeOfXHeapTupleData, maxAllocSize]⟩
  exact longTexts_overrun true hk hbig hsmall (h _ (longTexts (k + 1) (m * 4) hlong hn) true)

end XStore
