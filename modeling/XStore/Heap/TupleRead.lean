import Mathlib.Data.List.Forall2
import XStore.Heap.TupleFormat

/-!
# Reading the bytes of a tuple

The bytes of the columns are laid out one after the other, each behind the padding that its address
asks for.  A column is read back from such bytes whatever follows them.
-/
namespace XStore

open List

/-- What a datum means to its type.  A plain value is the same under a short header; the words of a
pass-by-value type are compared in the bytes that the type has. -/
inductive ColumnValue where
  | word (n : Nat)
  | bytes (bs : List UInt8)
  | plain (payload : List UInt8)
  | compressed (bs : List UInt8)
  | external (bs : List UInt8)
  deriving DecidableEq

namespace PgAttribute

def value (att : PgAttribute) : Datum → ColumnValue
  | .byval w => .word (w.toNat % 2 ^ (8 * att.attlen.toNat))
  | .pointer p =>
    if att.attlen = lenVarlena then
      if varattIs1BE p then .external (p.take (varsizeExternal p))
      else if varattIs1B p then .plain ((p.take (varsize1B p)).drop 1)
      else if varattIs4BU p then .plain ((p.take (varsize4B p)).drop 4)
      else .compressed (p.take (varsize4B p))
    else .bytes (p.take (attLength att p))

/-- A datum of the type: the memory behind a pointer holds the whole value. -/
def Holds (att : PgAttribute) : Datum → Prop
  | .byval _ => att.attbyval = true
  | .pointer p => att.attbyval = false ∧ attLength att p ≤ p.length ∧
      (att.attlen = lenVarlena → varattIs1B p = false → 4 ≤ varsize4B p)

end PgAttribute

section Alignment

variable (a : TypAlign) (off : Nat)

theorem le_attAlignNominal : off ≤ attAlignNominal off a := by
  cases a <;> simp only [attAlignNominal, TypAlign.bytes] <;> omega

@[simp] theorem attAlignNominal_char : attAlignNominal off .char = off := by
  simp [attAlignNominal, TypAlign.bytes]

theorem attAlignNominal_mod :
    attAlignNominal (off % 2 ^ 32) a % 2 ^ 32 = attAlignNominal off a % 2 ^ 32 := by
  cases a <;> simp only [attAlignNominal, TypAlign.bytes] <;> omega

@[simp] theorem alignPad_length : off + (alignPad off a).length = attAlignNominal off a := by
  have := le_attAlignNominal a off
  simp only [alignPad, length_replicate]
  omega

end Alignment

section Head

variable {att : PgAttribute} {p : List UInt8} {n : Nat} (rest : List UInt8)

theorem take_append_getD {i : Nat} (hi : i < n) (hn : n ≤ p.length) :
    (p.take n ++ rest).getD i 0 = p.getD i 0 := by
  have hlen : i < (p.take n).length := by
    rw [length_take]
    omega
  rw [getD_append _ _ _ _ hlen, getD_eq_getElem?_getD, getD_eq_getElem?_getD,
    getElem?_take_of_lt hi]

theorem vaHeader_take_append (h : 0 < n) (hn : n ≤ p.length) :
    vaHeader (p.take n ++ rest) = vaHeader p := take_append_getD rest h hn

theorem varsize4B_take_append (h : 4 ≤ n) (hn : n ≤ p.length) :
    varsize4B (p.take n ++ rest) = varsize4B p := by
  have hlen : 4 ≤ (p.take n).length := by
    rw [length_take]
    omega
  unfold varsize4B
  rw [take_append_of_le_length hlen, take_take, min_eq_left h]

theorem varattIs1B_iff : varattIs1B p = true ↔ (vaHeader p).toNat % 2 = 1 := by
  unfold varattIs1B
  rw [beq_iff_eq, ← UInt8.toNat_inj, UInt8.toNat_and]
  show _ &&& 1 = 1 ↔ _
  rw [Nat.and_one_is_mod]

theorem varattIs1BE_iff : varattIs1BE p = true ↔ (vaHeader p).toNat = 1 := by
  unfold varattIs1BE
  rw [beq_iff_eq, ← UInt8.toNat_inj]
  rfl

theorem varattIs4BU_iff : varattIs4BU p = true ↔ (vaHeader p).toNat % 4 = 0 := by
  unfold varattIs4BU
  rw [beq_iff_eq, ← UInt8.toNat_inj, UInt8.toNat_and]
  show _ &&& (2 ^ 2 - 1) = 0 ↔ _
  rw [Nat.and_two_pow_sub_one_eq_mod]

theorem varsize1B_pos (hshort : varattIs1B p = true) (hext : varattIs1BE p = false) :
    0 < varsize1B p := by
  rw [varattIs1B_iff] at hshort
  rw [← Bool.not_eq_true, varattIs1BE_iff] at hext
  unfold varsize1B
  omega

theorem varsizeAny_take_append (hle : varsizeAny p ≤ p.length)
    (h4 : varattIs1B p = false → 4 ≤ varsize4B p) :
    vaHeader (p.take (varsizeAny p) ++ rest) = vaHeader p ∧
      varsizeAny (p.take (varsizeAny p) ++ rest) = varsizeAny p := by
  have hext2 : 2 ≤ varsizeExternal p := Nat.le_add_right 2 _
  have hpos : 0 < varsizeAny p := by
    unfold varsizeAny
    split_ifs with hext hshort
    · omega
    · exact varsize1B_pos hshort (by simpa using hext)
    · have := h4 (by simpa using hshort)
      omega
  have hhead := vaHeader_take_append rest hpos hle
  refine ⟨hhead, ?_⟩
  obtain ⟨q, hq⟩ : ∃ q, q = p.take (varsizeAny p) ++ rest := ⟨_, rfl⟩
  rw [← hq] at hhead ⊢
  have hext' : varattIs1BE q = varattIs1BE p := by
    unfold varattIs1BE
    rw [hhead]
  have hshort' : varattIs1B q = varattIs1B p := by
    unfold varattIs1B
    rw [hhead]
  unfold varsizeAny at hle hq ⊢
  rw [hext', hshort']
  split_ifs at hle hq ⊢ with hext hshort
  · rw [hq]
    unfold varsizeExternal at hle hext2 ⊢
    rw [take_append_getD rest (by omega) hle]
  · unfold varsize1B
    rw [hhead]
  · rw [hq]
    exact varsize4B_take_append rest (h4 (by simpa using hshort)) hle

/-- What the bytes of a variable-length value mean under their header. -/
def varlenaValue (header : UInt8) (bs : List UInt8) : ColumnValue :=
  if header == 1 then .external bs
  else if header &&& 1 == 1 then .plain (bs.drop 1)
  else if header &&& 3 == 0 then .plain (bs.drop 4)
  else .compressed bs

theorem PgAttribute.value_varlena (hvar : att.attlen = lenVarlena) (p : List UInt8) :
    att.value (.pointer p) = varlenaValue (vaHeader p) (p.take (varsizeAny p)) := by
  simp only [value, hvar, if_true, varlenaValue, varsizeAny, varattIs1BE, varattIs1B, varattIs4BU]
  by_cases hext : (vaHeader p == 1) = true
  · simp only [hext, if_true]
  · by_cases hshort : (vaHeader p &&& 1 == 1) = true
    · simp only [hext, hshort, if_true, Bool.false_eq_true, if_false]
    · simp only [hext, hshort, Bool.false_eq_true, if_false]
      rfl

theorem strlen_take_append (h : strlen p + 1 ≤ p.length) :
    strlen (p.take (strlen p + 1) ++ rest) = strlen p := by
  unfold strlen at h ⊢
  have hlt : p.findIdx (· == 0) < p.length := by omega
  rw [findIdx_append, findIdx_take]
  have hlen : (p.take (p.findIdx (· == 0) + 1)).length = p.findIdx (· == 0) + 1 := by
    rw [length_take]
    omega
  rw [hlen, min_eq_right (by omega), if_pos (by omega)]

/-- The bytes of a value, with anything behind them, are the same value. -/
theorem take_append_sameValue (h : att.Holds (.pointer p)) :
    attLength att (p.take (attLength att p) ++ rest) = attLength att p ∧
      att.value (.pointer (p.take (attLength att p) ++ rest)) = att.value (.pointer p) := by
  obtain ⟨hbyval, hle, h4⟩ := h
  have htake : (p.take (attLength att p) ++ rest).take (attLength att p) = p.take (attLength att p) := by
    rw [take_append_of_le_length (by rw [length_take]; omega), take_take, min_self]
  by_cases hvar : att.attlen = lenVarlena
  · have hlen : ∀ q, attLength att q = varsizeAny q := fun q => by
      simp [attLength, hvar, lenVarlena]
    rw [hlen] at hle htake
    obtain ⟨hhead, hsize⟩ := varsizeAny_take_append rest hle (h4 hvar)
    simp only [hlen, att.value_varlena hvar]
    rw [hsize, hhead, htake]
    exact ⟨rfl, rfl⟩
  · have hlen : attLength att (p.take (attLength att p) ++ rest) = attLength att p := by
      rcases att.byref_len hbyval with hpos | hneg | hstr
      · simp [attLength, hpos]
      · exact absurd hneg hvar
      · have hstrlen : ∀ q, attLength att q = strlen q + 1 := fun q => by
          simp [attLength, hstr, lenCstring, lenVarlena]
        rw [hstrlen] at hle
        rw [hstrlen, hstrlen, strlen_take_append rest hle]
    refine ⟨hlen, ?_⟩
    simp only [PgAttribute.value, hvar, if_false]
    rw [hlen, htake]

end Head

theorem leNat_leBytes_mod (w v : Nat) : leNat (leBytes w v) = v % 256 ^ w := by
  induction w generalizing v with
  | zero => simp [leBytes, leNat, Nat.mod_one]
  | succ w ih =>
    simp only [leBytes, leNat, ih, UInt8.toNat_ofNat']
    rw [pow_succ' 256 w]
    exact Nat.mod_mul.symm

/-- The sign extension does not change the bytes of the type. -/
theorem extendToDatum_mod {len n : Nat} (hlen : len = 1 ∨ len = 2 ∨ len = 4 ∨ len = 8)
    (hn : n < 2 ^ (8 * len)) : (extendToDatum len n).toNat % 2 ^ (8 * len) = n := by
  unfold extendToDatum
  rw [UInt64.toNat_ofNat']
  rcases hlen with rfl | rfl | rfl | rfl <;> split <;> omega

/-- The offset at which the loops over a tuple look for a value. -/
def alignedOff (att : PgAttribute) (off : Nat) (p : List UInt8) : Nat :=
  if att.attlen = lenVarlena then attAlignPointer off att p
  else if !att.attbyval then attAlignNominal off att.attalign
  else off

section Stored

variable {att : PgAttribute} {p : List UInt8} {off : Nat} (rest : List UInt8)

/-- A value that is copied to an aligned address is found there. -/
theorem alignedOff_alignPad (hbyval : att.attbyval = false) (bs : List UInt8) :
    alignedOff att off (alignPad off att.attalign ++ bs) =
      off + (alignPad off att.attalign).length := by
  rw [alignPad_length]
  unfold alignedOff attAlignPointer
  split_ifs with hvar hpad hval
  · -- a byte that is not zero is not padding
    rcases Nat.eq_zero_or_pos (attAlignNominal off att.attalign - off) with h0 | hpos
    · have := le_attAlignNominal att.attalign off
      omega
    · exfalso
      obtain ⟨k, hk⟩ := Nat.exists_eq_add_of_lt hpos
      have hzero : vaHeader (alignPad off att.attalign ++ bs) = 0 := by
        rw [alignPad, hk, vaHeader, getD_append _ _ _ _ (by simp)]
        simp [getD_eq_getElem?_getD]
      simp [varattNotPadByte, hzero] at hpad
  · rfl
  · rfl
  · exact absurd hbyval (by simpa using hval)

/-- What is stored for a value is some padding and bytes that have the same value whatever follows
them. -/
structure StoredAt (att : PgAttribute) (off : Nat) (v : Datum) (pad bs : List UInt8) : Prop where
  store_eq : storeAtt att off v = pad ++ bs
  found : ∀ rest, alignedOff att off (pad ++ bs ++ rest) = off + pad.length
  length_eq : ∀ rest, attLength att (bs ++ rest) = bs.length
  value_eq : ∀ rest, att.value (fetchatt att (bs ++ rest)) = att.value v

theorem storedAt_byval {w : UInt64} (h : att.attbyval = true) :
    StoredAt att off (.byval w) [] (leBytes att.attlen.toNat w.toNat) := by
  have hlen := att.byval_len h
  have hpos : 0 < att.attlen := by omega
  have hvar : att.attlen ≠ lenVarlena := by simp only [lenVarlena]; omega
  have hnat : att.attlen.toNat = 1 ∨ att.attlen.toNat = 2 ∨ att.attlen.toNat = 4 ∨
      att.attlen.toNat = 8 := by omega
  refine ⟨by simp [storeAtt, h, Datum.word], fun rest => by simp [alignedOff, hvar, h],
    fun rest => by simp [attLength, hpos], fun rest => ?_⟩
  have htake : (leBytes att.attlen.toNat w.toNat ++ rest).take att.attlen.toNat =
      leBytes att.attlen.toNat w.toNat := take_left' (by simp)
  have hbytes : (256 : Nat) ^ att.attlen.toNat = 2 ^ (8 * att.attlen.toNat) :=
    (pow_mul 2 8 att.attlen.toNat).symm
  simp only [fetchatt, h, if_true, PgAttribute.value, htake, leNat_leBytes_mod, hbytes]
  rw [extendToDatum_mod hnat (Nat.mod_lt _ (Nat.two_pow_pos _))]

/-- A value that is copied without a change of its header. -/
theorem storedAt_copied (h : att.Holds (.pointer p)) {pad : List UInt8}
    (hstore : storeAtt att off (.pointer p) = pad ++ p.take (attLength att p))
    (hfound : ∀ rest, alignedOff att off (pad ++ p.take (attLength att p) ++ rest) =
      off + pad.length) :
    StoredAt att off (.pointer p) pad (p.take (attLength att p)) := by
  refine ⟨hstore, hfound, fun rest => ?_, fun rest => ?_⟩
  · rw [(take_append_sameValue rest h).1, length_take, min_eq_left h.2.1]
  · rw [fetchatt, h.1]
    exact (take_append_sameValue rest h).2

theorem alignedOff_of_notPad (hvar : att.attlen = lenVarlena) (h : vaHeader p ≠ 0) :
    alignedOff att off p = off := by
  have hne : varattNotPadByte p = true := by simpa [varattNotPadByte] using h
  simp [alignedOff, attAlignPointer, hvar, hne]

theorem vaHeader_ne_zero_of_1B (h : varattIs1B p = true) : vaHeader p ≠ 0 := by
  intro h0
  rw [varattIs1B_iff, h0] at h
  cases h

theorem storedAt_short (hvar : att.attlen = lenVarlena) (hstorage : att.attstorage ≠ .plain)
    (h : att.Holds (.pointer p)) (hshort : varattCanMakeShort p = true) :
    ∃ bs, StoredAt att off (.pointer p) [] bs := by
  obtain ⟨hbyval, hle, h4⟩ := h
  simp only [varattCanMakeShort, Bool.and_eq_true, decide_eq_true_eq] at hshort
  obtain ⟨hplain, hsmall⟩ := hshort
  have hmod := varattIs4BU_iff.mp hplain
  have h1B : varattIs1B p = false := by
    rw [← Bool.not_eq_true, varattIs1B_iff]
    omega
  have h1BE : varattIs1BE p = false := by
    rw [← Bool.not_eq_true, varattIs1BE_iff]
    omega
  have hany : varsizeAny p = varsize4B p := by simp [varsizeAny, h1B, h1BE]
  have hfour := h4 hvar h1B
  have hlen : ∀ q, attLength att q = varsizeAny q := fun q => by
    simp [attLength, hvar, lenVarlena]
  rw [hlen, hany] at hle
  obtain ⟨len, hlen'⟩ : ∃ len, varattConvertedShortSize p = len + 1 := ⟨_, rfl⟩
  have hsub : varsize4B p - 4 = len := by
    unfold varattConvertedShortSize at hlen'
    omega
  rw [hlen'] at hsmall
  obtain ⟨bs, hbs⟩ : ∃ bs, bs = UInt8.ofNat ((len + 1) * 2 + 1) :: (p.drop 4).take len := ⟨_, rfl⟩
  have hbslen : bs.length = len + 1 := by
    rw [hbs]
    simp only [length_cons, length_take, length_drop]
    omega
  have hhead : ∀ rest, (vaHeader (bs ++ rest)).toNat = (len + 1) * 2 + 1 := by
    intro rest
    rw [hbs]
    show (UInt8.ofNat _).toNat = _
    rw [UInt8.toNat_ofNat', Nat.mod_eq_of_lt (by omega)]
  have hkind : ∀ rest, varattIs1B (bs ++ rest) = true ∧ varattIs1BE (bs ++ rest) = false := by
    intro rest
    rw [varattIs1B_iff, ← Bool.not_eq_true, varattIs1BE_iff, hhead]
    omega
  have hsize : ∀ rest, varsizeAny (bs ++ rest) = len + 1 := by
    intro rest
    obtain ⟨hb, hbe⟩ := hkind rest
    have : varsize1B (bs ++ rest) = len + 1 := by
      unfold varsize1B
      rw [hhead]
      omega
    simp [varsizeAny, hb, hbe, this]
  refine ⟨bs, ?_, fun rest => ?_, fun rest => ?_, fun rest => ?_⟩
  · simp [storeAtt, hbyval, hvar, h1B, h1BE, hstorage, varattCanMakeShort, hplain, hlen', hsmall, hbs,
      Datum.mem]
  · exact alignedOff_of_notPad hvar (vaHeader_ne_zero_of_1B (hkind rest).1)
  · rw [hlen, hsize, hbslen]
  · have htake : (bs ++ rest).take (len + 1) = bs := take_left' hbslen
    obtain ⟨hb, hbe⟩ := hkind rest
    rw [fetchatt, hbyval]
    simp only [Bool.false_eq_true, if_false, att.value_varlena hvar, hsize, htake, hany]
    unfold varattIs1B at hb h1B
    unfold varattIs1BE at hbe h1BE
    unfold varattIs4BU at hplain
    simp only [varlenaValue, hb, hbe, h1B, h1BE, hplain, Bool.false_eq_true, if_false, if_true]
    rw [hbs, drop_take, hsub]
    rfl

theorem exists_storedAt {v : Datum} (h : att.Holds v) (off : Nat) :
    ∃ pad bs, StoredAt att off v pad bs := by
  cases v with
  | byval w => exact ⟨_, _, storedAt_byval h⟩
  | pointer p =>
    have hbyval := h.1
    by_cases hvar : att.attlen = lenVarlena
    · have hlen : ∀ q, attLength att q = varsizeAny q := fun q => by
        simp [attLength, hvar, lenVarlena]
      have hany := hlen p
      obtain ⟨hle, h4⟩ := h.2
      rw [hany] at hle
      by_cases h1B : varattIs1B p = true
      · -- the header is short already, or that of an external value
        refine ⟨[], _, storedAt_copied h ?_ fun rest => ?_⟩
        · rw [hany]
          by_cases h1BE : varattIs1BE p = true
          · simp [storeAtt, hbyval, hvar, h1BE, varsizeAny, Datum.mem]
          · simp [storeAtt, hbyval, hvar, h1BE, h1B, varsizeAny, Datum.mem]
        · rw [hany, nil_append]
          refine alignedOff_of_notPad hvar ?_
          rw [(varsizeAny_take_append rest hle (h4 hvar)).1]
          exact vaHeader_ne_zero_of_1B h1B
      · have h1BE : varattIs1BE p = false := by
          rw [← Bool.not_eq_true]
          rw [varattIs1B_iff] at h1B
          rw [varattIs1BE_iff]
          omega
        by_cases hshort : att.attstorage ≠ .plain ∧ varattCanMakeShort p = true
        · exact ⟨[], storedAt_short hvar hshort.1 h hshort.2⟩
        · refine ⟨alignPad off att.attalign, _, storedAt_copied h ?_ fun rest => ?_⟩
          · rw [hany]
            simp [storeAtt, hbyval, hvar, h1BE, h1B, hshort, varsizeAny, Datum.mem]
          · rw [append_assoc]
            exact alignedOff_alignPad hbyval _
    · rcases att.byref_len hbyval with hpos | hneg | hstr
      · refine ⟨alignPad off att.attalign, _, storedAt_copied h ?_ fun rest => ?_⟩
        · have hne : att.attlen ≠ lenCstring := by
            simp only [lenCstring]
            omega
          simp [storeAtt, hbyval, hvar, hne, attLength, hpos, Datum.mem]
        · rw [append_assoc]
          exact alignedOff_alignPad hbyval _
      · exact absurd hneg hvar
      · refine ⟨[], _, storedAt_copied h ?_ fun rest => ?_⟩
        · simp [storeAtt, hbyval, hstr, attLength, lenCstring, lenVarlena, Datum.mem]
        · simp [alignedOff, hvar, hbyval, att.cstring_align hstr]

end Stored

section Layout

variable (enableReserve : Bool)

/-- The bytes of a column from address `data` on. -/
def storeColumn (data : Nat) (col : PgAttribute × Option Datum) : List UInt8 :=
  match col.2 with
  | none => if reservesSpace enableReserve col.1 then List.replicate col.1.attlen.toNat 0 else []
  | some v => storeAtt col.1 data v

/-- The bytes of the columns from address `data` on. -/
def layout : Nat → List (PgAttribute × Option Datum) → List UInt8
  | _, [] => []
  | data, col :: cols =>
    storeColumn enableReserve data col ++
      layout (data + (storeColumn enableReserve data col).length) cols

/-- What the bitmaps of a tuple tell about its columns from number `attnum` on, which have `nullcount`
nulls before them. -/
def NullBits (t : XHeapDiskTuple) : List (PgAttribute × Option Datum) → Nat → Nat → Prop
  | [], _, _ => True
  | (att, none) :: cols, attnum, nullcount =>
    (t.hasNulls && attIsnull attnum t.body) = true ∧
      (nAttrsReserveSpace t.natts && !attIsnull (t.natts + nullcount) t.body) =
        reservesSpace enableReserve att ∧
      NullBits t cols (attnum + 1) (nullcount + 1)
  | (_, some _) :: cols, attnum, nullcount =>
    (t.hasNulls && attIsnull attnum t.body) = false ∧ NullBits t cols (attnum + 1) nullcount

/-- The tuple has these columns, and possibly some bytes behind them. -/
structure XHeapDiskTuple.Carries (t : XHeapDiskTuple) (cols : List (PgAttribute × Option Datum)) :
    Prop where
  natts_eq : t.natts = cols.length
  hoff_ge : sizeOfXHeapDiskTupleData ≤ t.tHoff
  nullBits : NullBits enableReserve t cols 0 0
  data : ∃ spare, t.memFrom t.tHoff = layout enableReserve t.tHoff cols ++ spare

end Layout

def ColumnsHold (cols : List (PgAttribute × Option Datum)) : Prop :=
  ∀ col ∈ cols, ∀ v, col.2 = some v → col.1.Holds v

/-- The values of columns, as their types understand them. -/
def columnValues (atts : List PgAttribute) (vals : List (Option Datum)) : List (Option ColumnValue) :=
  List.zipWith (fun att v => v.map att.value) atts vals

section Reading

variable {enableReserve : Bool} {t : XHeapDiskTuple} {att : PgAttribute} {attnum : Nat}
  {st : DeformState}

theorem XHeapDiskTuple.memFrom_add {off : Nat} {bs rest : List UInt8}
    (hoff : sizeOfXHeapDiskTupleData ≤ off) (h : t.memFrom off = bs ++ rest) :
    t.memFrom (off + bs.length) = rest := by
  unfold memFrom at h ⊢
  rw [show off + bs.length - sizeOfXHeapDiskTupleData =
    off - sizeOfXHeapDiskTupleData + bs.length by omega, ← drop_drop, h, drop_left]

theorem readAttr_some {v : Datum} {rest : List UInt8} (hv : att.Holds v)
    (hoff : sizeOfXHeapDiskTupleData ≤ st.off)
    (hnull : (t.hasNulls && attIsnull attnum t.body) = false)
    (hmem : t.memFrom st.off = storeAtt att st.off v ++ rest) :
    ∃ d, readAttr t att attnum st =
        (some d, ⟨st.off + (storeAtt att st.off v).length, st.nullcount⟩) ∧
      att.value d = att.value v := by
  obtain ⟨pad, bs, hs⟩ := exists_storedAt hv st.off
  rw [hs.store_eq] at hmem ⊢
  have hmem' : t.memFrom (st.off + pad.length) = bs ++ rest :=
    XHeapDiskTuple.memFrom_add hoff (hmem.trans (append_assoc _ _ _))
  refine ⟨fetchatt att (bs ++ rest), ?_, hs.value_eq rest⟩
  have hread : readAttr t att attnum st =
      (some (fetchatt att (t.memFrom (alignedOff att st.off (t.memFrom st.off)))),
        { st with off := alignedOff att st.off (t.memFrom st.off) +
            attLength att (t.memFrom (alignedOff att st.off (t.memFrom st.off))) }) := by
    rw [readAttr, hnull]
    rfl
  rw [hread, hmem, hs.found rest, hmem', hs.length_eq rest, length_append, Nat.add_assoc]

theorem readAttr_none (hnull : (t.hasNulls && attIsnull attnum t.body) = true)
    (hres : (nAttrsReserveSpace t.natts && !attIsnull (t.natts + st.nullcount) t.body) =
      reservesSpace enableReserve att) :
    readAttr t att attnum st =
      (none, ⟨st.off + (storeColumn enableReserve st.off (att, none)).length, st.nullcount + 1⟩) := by
  rw [readAttr, hnull, hres]
  cases h : reservesSpace enableReserve att with
  | false => simp [storeColumn, h]
  | true =>
    have hbyval : att.attbyval = true := by
      simp only [reservesSpace, Bool.and_eq_true] at h
      exact h.1.2
    have hlen := att.byval_len hbyval
    have hoff : ((st.off : Int) + att.attlen).toNat = st.off + att.attlen.toNat := by omega
    simp [storeColumn, h, hoff]

/-- The columns are read back, and the offset is then behind them. -/
theorem readAttrs_layout {cols : List (PgAttribute × Option Datum)} {rest : List UInt8}
    (hhold : ColumnsHold cols) (hbits : NullBits enableReserve t cols attnum st.nullcount)
    (hoff : sizeOfXHeapDiskTupleData ≤ st.off)
    (hmem : t.memFrom st.off = layout enableReserve st.off cols ++ rest) :
    columnValues (cols.map Prod.fst) (readAttrs t (cols.map Prod.fst) attnum st).1 =
        columnValues (cols.map Prod.fst) (cols.map Prod.snd) ∧
      (readAttrs t (cols.map Prod.fst) attnum st).2.off =
        st.off + (layout enableReserve st.off cols).length := by
  induction cols generalizing attnum st with
  | nil => exact ⟨rfl, rfl⟩
  | cons col cols ih =>
    obtain ⟨att, v⟩ := col
    have hhold' : ColumnsHold cols := fun c hc => hhold c (mem_cons_of_mem _ hc)
    rw [layout, append_assoc] at hmem
    have hnext := XHeapDiskTuple.memFrom_add hoff hmem
    -- the loop goes on behind the bytes of the first column
    suffices hhead : ∃ d, readAttr t att attnum st =
          (d, ⟨st.off + (storeColumn enableReserve st.off (att, v)).length,
            st.nullcount + if v.isNone then 1 else 0⟩) ∧
        d.map att.value = v.map att.value by
      obtain ⟨d, hread, hvalue⟩ := hhead
      have hbits' : NullBits enableReserve t cols (attnum + 1)
          (st.nullcount + if v.isNone then 1 else 0) := by
        cases v with
        | none => exact hbits.2.2
        | some v => exact hbits.2
      obtain ⟨hrest, hend⟩ :=
        @ih (attnum + 1) ⟨_, _⟩ hhold' hbits' (Nat.le_add_right_of_le hoff) hnext
      simp only [map_cons, readAttrs, hread, layout, length_append]
      refine ⟨?_, by rw [hend, Nat.add_assoc]⟩
      exact congrArg₂ List.cons hvalue hrest
    cases v with
    | none => exact ⟨none, readAttr_none hbits.1 hbits.2.1, rfl⟩
    | some v =>
      obtain ⟨d, hread, hvalue⟩ :=
        readAttr_some (hhold _ mem_cons_self v rfl) hoff hbits.1 hmem
      exact ⟨some d, hread, congrArg some hvalue⟩

@[simp] theorem readAttrs_length (atts : List PgAttribute) (attnum : Nat) (st : DeformState) :
    (readAttrs t atts attnum st).1.length = atts.length := by
  induction atts generalizing attnum st with
  | nil => rfl
  | cons att atts ih => simp [readAttrs, ih]

theorem readAttrs_append (as bs : List PgAttribute) (attnum : Nat) (st : DeformState) :
    readAttrs t (as ++ bs) attnum st =
      ((readAttrs t as attnum st).1 ++
          (readAttrs t bs (attnum + as.length) (readAttrs t as attnum st).2).1,
        (readAttrs t bs (attnum + as.length) (readAttrs t as attnum st).2).2) := by
  induction as generalizing attnum st with
  | nil => rfl
  | cons att as ih =>
    simp only [cons_append, readAttrs, ih, length_cons, Nat.add_assoc, Nat.add_comm 1]

theorem readAttrs_nullcount (atts : List PgAttribute) (attnum : Nat) (st : DeformState) :
    (readAttrs t atts attnum st).2.nullcount =
      st.nullcount + (readAttrs t atts attnum st).1.countP Option.isNone := by
  induction atts generalizing attnum st with
  | nil => rfl
  | cons att atts ih =>
    simp only [readAttrs, ih, countP_cons]
    unfold readAttr
    split
    · simp only [Option.isNone_none, if_true]
      omega
    · simp

structure PgAttribute.SameFormat (a b : PgAttribute) : Prop where
  attlen : a.attlen = b.attlen
  attbyval : a.attbyval = b.attbyval
  attalign : a.attalign = b.attalign

theorem PgAttribute.SameFormat.readAttr_eq {a b : PgAttribute} (h : a.SameFormat b) :
    readAttr t a attnum st = readAttr t b attnum st := by
  simp only [readAttr, attAlignPointer, attLength, fetchatt, h.attlen, h.attbyval, h.attalign]

theorem readAttrs_congr {as bs : List PgAttribute} (h : List.Forall₂ PgAttribute.SameFormat as bs) :
    readAttrs t as attnum st = readAttrs t bs attnum st := by
  induction h generalizing attnum st with
  | nil => rfl
  | cons hab _ ih => simp only [readAttrs, hab.readAttr_eq, ih]

end Reading

/-- The descriptor of the same table at a later time: columns may have been renamed, dropped and added. -/
def TupleDesc.Extends (desc' desc : TupleDesc) : Prop :=
  List.Forall₂ PgAttribute.SameFormat (desc'.attrs.take desc.attrs.length) desc.attrs

section Deform

variable {enableReserve : Bool} {t : XHeapDiskTuple} {desc desc' : TupleDesc}
  {vals : List (Option Datum)}

theorem TupleDesc.Extends.length_le (h : desc'.Extends desc) :
    desc.attrs.length ≤ desc'.attrs.length := by
  have := h.length_eq
  rw [length_take] at this
  omega

variable (h : t.Carries enableReserve (desc.attrs.zip vals))

include h

variable (hlen : vals.length = desc.attrs.length)

include hlen

variable (hhold : ColumnsHold (desc.attrs.zip vals))

include hhold

theorem XHeapDiskTuple.Carries.read
    (hext : desc'.Extends desc) :
    t.natts = desc.attrs.length ∧
    columnValues desc.attrs (readAttrs t (desc'.attrs.take t.natts) 0 ⟨t.tHoff, 0⟩).1 =
        columnValues desc.attrs vals ∧
      (readAttrs t (desc'.attrs.take t.natts) 0 ⟨t.tHoff, 0⟩).2.off =
        t.tHoff + (layout enableReserve t.tHoff (desc.attrs.zip vals)).length := by
  have hnatts : t.natts = desc.attrs.length := by
    rw [h.natts_eq, length_zip, hlen, min_self]
  obtain ⟨spare, hdata⟩ := h.data
  have hread := @readAttrs_layout _ t 0 ⟨t.tHoff, 0⟩ _ spare hhold h.nullBits h.hoff_ge hdata
  rw [map_fst_zip hlen.ge, map_snd_zip hlen.le] at hread
  rw [hnatts, readAttrs_congr hext]
  exact ⟨rfl, hread⟩

theorem XHeapDiskTuple.Carries.deform
    (hext : desc'.Extends desc) :
    columnValues desc.attrs ((xheapDeformTuple t desc').take desc.attrs.length) =
        columnValues desc.attrs vals ∧
      (xheapDeformTuple t desc').drop desc.attrs.length =
        missingAttrs desc' desc.attrs.length desc'.attrs.length := by
  obtain ⟨hnatts, hread, -⟩ := h.read hlen hhold hext
  have hle := hext.length_le
  have hmin : min t.natts desc'.attrs.length = t.natts := by omega
  have hreadlen : (readAttrs t (desc'.attrs.take t.natts) 0 ⟨t.tHoff, 0⟩).1.length =
      desc.attrs.length := by
    rw [readAttrs_length, length_take]
    omega
  simp only [xheapDeformTuple, xheapDeformTupleGuts, hmin]
  rw [take_left' hreadlen, drop_left' hreadlen, hnatts]
  rw [hnatts] at hread
  exact ⟨hread, rfl⟩

theorem XHeapDiskTuple.Carries.calTupleSize
    (hext : desc'.Extends desc) :
    xheapCalTupleSize t desc' =
      t.tHoff + (layout enableReserve t.tHoff (desc.attrs.zip vals)).length := by
  obtain ⟨hnatts, -, hend⟩ := h.read hlen hhold hext
  have hle := hext.length_le
  have hmin : min t.natts desc'.attrs.length = t.natts := by omega
  rw [xheapCalTupleSize, hmin]
  exact hend

end Deform

section Slot

variable {t : XHeapDiskTuple} {desc : TupleDesc} {slot : XSlot} {n natts : Nat}

theorem missingAttrs_append {a b c : Nat} (hab : a ≤ b) (hbc : b ≤ c) :
    missingAttrs desc a b ++ missingAttrs desc b c = missingAttrs desc a c := by
  obtain ⟨d, rfl⟩ := Nat.exists_eq_add_of_le hbc
  have hb : a ≤ (List.range b).length := by rwa [length_range]
  unfold missingAttrs
  rw [← map_append, range_add, drop_append_of_le_length hb,
    drop_left' length_range]

/-- What a slot holds after `n` columns have been asked for. -/
structure XSlot.Holds (t : XHeapDiskTuple) (desc : TupleDesc) (n : Nat) (slot : XSlot) : Prop where
  values : slot.values = xheapDeformTupleGuts t desc n
  off : n ≠ 0 →
    slot.off = (readAttrs t (desc.attrs.take (min t.natts n)) 0 ⟨t.tHoff, 0⟩).2.off

theorem xheapDeformTupleGuts_length (hn : n ≤ desc.attrs.length) :
    (xheapDeformTupleGuts t desc n).length = n := by
  simp only [xheapDeformTupleGuts, missingAttrs, length_append, readAttrs_length,
    length_take, length_map, length_drop, length_range]
  omega

theorem XSlot.Holds.slotDeform (h : slot.Holds t desc n) (hle : n ≤ natts)
    (hnatts : natts ≤ desc.attrs.length) :
    (slotDeformXtuple t desc slot natts).Holds t desc natts := by
  have hlen : slot.values.length = n := by
    rw [h.values, xheapDeformTupleGuts_length (hle.trans hnatts)]
  rcases Nat.lt_or_ge t.natts n with hlt | hge
  · -- the columns of the tuple have all been read
    have hmin : min t.natts natts = t.natts := by omega
    have hmin' : min t.natts n = t.natts := by omega
    have hnone : (desc.attrs.take t.natts).drop n = [] := by
      rw [drop_eq_nil_iff, length_take]
      omega
    have hmax : max n t.natts = n := by omega
    have hn0 : n ≠ 0 := by omega
    have hoff := h.off hn0
    rw [hmin'] at hoff
    refine ⟨?_, fun _ => ?_⟩
    · simp only [slotDeformXtuple, hlen, hmin, hnone, readAttrs, append_nil, hmax]
      rw [h.values, xheapDeformTupleGuts, xheapDeformTupleGuts, hmin, hmin', append_assoc,
        missingAttrs_append hlt.le hle]
    · simp only [slotDeformXtuple, hlen, hmin, hnone, readAttrs, if_pos hn0]
      exact hoff
  · have hmin : min t.natts n = n := by omega
    have hmax : max n (min t.natts natts) = min t.natts natts := by omega
    have hvalues : slot.values = (readAttrs t (desc.attrs.take n) 0 ⟨t.tHoff, 0⟩).1 := by
      rw [h.values, xheapDeformTupleGuts, hmin]
      simp [missingAttrs]
    -- the state of the loop is rebuilt from the slot
    have hstart : (if n ≠ 0 then (⟨slot.off, slot.values.countP Option.isNone⟩ : DeformState)
        else ⟨t.tHoff, 0⟩) = (readAttrs t (desc.attrs.take n) 0 ⟨t.tHoff, 0⟩).2 := by
      split_ifs with hn0
      · have hcount := readAttrs_nullcount (t := t) (desc.attrs.take n) 0 ⟨t.tHoff, 0⟩
        rw [Nat.zero_add] at hcount
        have hoff := h.off hn0
        rw [hmin] at hoff
        rw [hvalues, ← hcount, hoff]
      · rw [not_not] at hn0
        rw [hn0]
        rfl
    have hsplit : desc.attrs.take (min t.natts natts) =
        desc.attrs.take n ++ (desc.attrs.take (min t.natts natts)).drop n := by
      conv_lhs => rw [← take_append_drop n (desc.attrs.take (min t.natts natts))]
      rw [take_take, min_eq_left (by omega : n ≤ min t.natts natts)]
    have hnlen : (desc.attrs.take n).length = n := by
      rw [length_take]
      omega
    have hrun := readAttrs_append (t := t) (desc.attrs.take n)
      ((desc.attrs.take (min t.natts natts)).drop n) 0 ⟨t.tHoff, 0⟩
    rw [← hsplit, hnlen, Nat.zero_add] at hrun
    refine ⟨?_, fun _ => ?_⟩
    · simp only [slotDeformXtuple, hlen, hstart, hmax]
      rw [xheapDeformTupleGuts, hrun, hvalues]
    · simp only [slotDeformXtuple, hlen, hstart]
      rw [hrun]

theorem XSlot.Holds.calls {calls : List Nat} (h : slot.Holds t desc n)
    (hsorted : (n :: calls).Pairwise (· ≤ ·)) (hcalls : ∀ k ∈ calls, k ≤ desc.attrs.length) :
    (calls.foldl (slotDeformXtuple t desc) slot).Holds t desc (calls.getLastD n) := by
  induction calls generalizing slot n with
  | nil => exact h
  | cons k calls ih =>
    rw [pairwise_cons] at hsorted
    have hk := hcalls k mem_cons_self
    rw [foldl_cons, getLastD_cons]
    exact ih (h.slotDeform (hsorted.1 k mem_cons_self) hk) hsorted.2
      fun j hj => hcalls j (mem_cons_of_mem k hj)

theorem xheapDeformTuple_take (hn : n ≤ desc.attrs.length) :
    (xheapDeformTuple t desc).take n = xheapDeformTupleGuts t desc n := by
  -- asking for all columns goes on from the first `n`
  have hall : XSlot.Holds t desc n
      ⟨xheapDeformTupleGuts t desc n,
        (readAttrs t (desc.attrs.take (min t.natts n)) 0 ⟨t.tHoff, 0⟩).2.off⟩ := ⟨rfl, fun _ => rfl⟩
  have hvalues := (hall.slotDeform hn le_rfl).values
  rw [xheapDeformTuple, ← hvalues, slotDeformXtuple, append_assoc,
    take_left' (xheapDeformTupleGuts_length hn)]

/-- Calls with any increasing numbers of columns leave the first values of the tuple in the slot. -/
theorem slotDeform_calls {calls : List Nat} (hsorted : calls.Pairwise (· ≤ ·))
    (hcalls : ∀ k ∈ calls, k ≤ desc.attrs.length) (off : Nat) :
    (calls.foldl (slotDeformXtuple t desc) ⟨[], off⟩).values =
      (xheapDeformTuple t desc).take (calls.getLastD 0) := by
  have hempty : XSlot.Holds t desc 0 ⟨[], off⟩ := by
    refine ⟨?_, fun h => absurd rfl h⟩
    simp [xheapDeformTupleGuts, readAttrs, missingAttrs]
  have hlast : calls.getLastD 0 ≤ desc.attrs.length := by
    rcases mem_cons.mp (getLastD_mem_cons (l := calls) (a := 0)) with h | h
    · rw [h]
      exact Nat.zero_le _
    · exact hcalls _ h
  rw [xheapDeformTuple_take hlast]
  exact (hempty.calls (pairwise_cons.mpr ⟨fun _ _ => Nat.zero_le _, hsorted⟩) hcalls).values

end Slot

end XStore
