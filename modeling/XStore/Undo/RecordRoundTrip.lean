import XStore.Undo.Codec

/-!
# Reading back what was written

On every page the reader walks all fields again and skips what it has.  The invariant is that the
memory it reads into agrees with the record up to the number of bytes decoded so far.
-/
namespace XStore

open Function List

/-- The size of a field that is read into a variable of its own. -/
def UndoField.size : UndoField → Nat
  | .hdr => sizeOfUndoRecordHeader
  | .blk => sizeOfUndoRecordBlock
  | .preurp => 8
  | .prexid => 8
  | .tablespace => 4
  | .subxid => 8
  | .dataheader => 2
  | .payloadlen => sizeOfUndoRecordSize
  | .payload => 0

namespace RawUndoRecord

variable (u : RawUndoRecord) {bufs : UndoField → List UInt8} {k : Nat} {f : UndoField}

/-- The bytes that a field takes in the record; none if the record does not have it. -/
def width (f : UndoField) : Nat := (u.piece f).length

theorem width_of_absent (h : u.present f = false) : u.width f = 0 := by
  simp [width, piece, h]

theorem width_eq (h : u.present f = true) (hf : f ≠ .payload) : u.width f = f.size := by
  rw [width, piece, if_pos h]
  cases f <;> first | rfl | exact absurd rfl hf

def offset (f : UndoField) : Nat := ((undoFieldOrder.takeWhile (· ≠ f)).flatMap u.piece).length

theorem undoFieldOrder_split (f : UndoField) :
    undoFieldOrder = undoFieldOrder.takeWhile (· ≠ f) ++
      f :: (undoFieldOrder.dropWhile (· ≠ f)).tail := by
  cases f <;> rfl

theorem bytes_getElem? (undoLen : Nat) (f : UndoField) {j : Nat} (hj : j < u.width f) :
    (u.bytes undoLen)[u.offset f + j]? = (u.piece f)[j]? := by
  rw [bytes_eq, undoFieldOrder_split f, flatMap_append, flatMap_cons, append_assoc,
    getElem?_append_right (by simp [offset]), append_assoc]
  simp only [offset, Nat.add_sub_cancel_left]
  exact getElem?_append_left hj

theorem offset_next {f g : UndoField} (h : (f, g) ∈ undoFieldOrder.zip undoFieldOrder.tail) :
    u.offset g = u.offset f + u.width f := by
  have hsplit : undoFieldOrder.takeWhile (· ≠ g) = undoFieldOrder.takeWhile (· ≠ f) ++ [f] := by
    revert h
    cases f <;> cases g <;> decide
  simp only [offset, width, hsplit, flatMap_append, flatMap_singleton, length_append]

def position : UndoField → Nat
  | .hdr => 0
  | .blk => 1
  | .preurp => 2
  | .prexid => 3
  | .tablespace => 4
  | .subxid => 5
  | .dataheader => 6
  | .payloadlen => 7
  | .payload => 8

theorem position_lt_payload (h : f ≠ .payload) : position f < position .payload := by
  cases f <;> first | decide | exact absurd rfl h

theorem offset_add_width_le {f g : UndoField} (h : position f < position g) :
    u.offset f + u.width f ≤ u.offset g := by
  have hpre : undoFieldOrder.takeWhile (· ≠ f) ++ [f] <+: undoFieldOrder.takeWhile (· ≠ g) := by
    revert h
    cases f <;> cases g <;> decide
  obtain ⟨rest, hrest⟩ := hpre
  simp only [offset, width]
  rw [← hrest, flatMap_append, flatMap_append, flatMap_singleton, length_append,
    length_append]
  omega

theorem two_le_offset (h : f ≠ .hdr) : 2 ≤ u.offset f := by
  have hpos : position .hdr < position f := by cases f <;> first | decide | exact absurd rfl h
  have hle := u.offset_add_width_le hpos
  have hwidth : u.width .hdr = UndoField.hdr.size := u.width_eq rfl (by decide)
  have hsize : UndoField.hdr.size = 28 := rfl
  omega

theorem offset_apart {f g : UndoField} (h : f ≠ g) :
    u.offset f + u.width f ≤ u.offset g ∨ u.offset g + u.width g ≤ u.offset f := by
  rcases Nat.lt_trichotomy (position f) (position g) with hlt | heq | hgt
  · exact .inl (u.offset_add_width_le hlt)
  · cases f <;> cases g <;> first | exact absurd rfl h | cases heq
  · exact .inr (u.offset_add_width_le hgt)

/-- The end of the fields; only the record length stands behind it. -/
def fieldsEnd : Nat := u.offset .payload + u.width .payload

theorem fieldsEnd_add (undoLen : Nat) :
    u.fieldsEnd + sizeOfUndoRecordSize = (u.bytes undoLen).length := by
  rw [bytes_eq, undoFieldOrder_split .payload]
  simp [fieldsEnd, offset, width]
  rfl

theorem offset_add_width_le_end (f : UndoField) : u.offset f + u.width f ≤ u.fieldsEnd := by
  by_cases h : f = .payload
  · rw [h, fieldsEnd]
  · exact (u.offset_add_width_le (position_lt_payload h)).trans (Nat.le_add_right _ _)

/-- The memory agrees with the record up to byte `k`, and is as large as the fields. -/
structure ReadInto (bufs : UndoField → List UInt8) (k : Nat) : Prop where
  agree : ∀ f j, j < u.width f → u.offset f + j < k → (bufs f)[j]? = (u.piece f)[j]?
  sized : ∀ f, f ≠ .payload → u.present f = true → (bufs f).length = u.width f
  payload : bufs .payload = [] ∧ k ≤ u.offset .payload ∨ (bufs .payload).length = u.width .payload

def Decoded (bufs : UndoField → List UInt8) : Prop := ∀ f, u.present f = true → bufs f = u.bytesOf f

variable {u} in
theorem piece_of_present (h : u.present f = true) : u.piece f = u.bytesOf f := by
  simp [piece, h]

variable {u} in
theorem ReadInto.buf_eq (hs : u.ReadInto bufs k)
    (hk : u.offset f + u.width f ≤ k) (hsize : (bufs f).length = u.width f) :
    bufs f = u.piece f := by
  apply ext_getElem?
  intro j
  rcases Nat.lt_or_ge j (u.width f) with hj | hj
  · exact hs.agree f j hj (by omega)
  · rw [getElem?_eq_none (by omega), getElem?_eq_none hj]

variable {u} in
theorem ReadInto.decoded (hs : u.ReadInto bufs k)
    (hk : u.fieldsEnd ≤ k) : u.Decoded bufs := by
  intro f hp
  rw [← piece_of_present hp]
  have hend := (u.offset_add_width_le_end f).trans hk
  by_cases hf : f = .payload
  · subst hf
    rcases hs.payload with ⟨hnil, hle⟩ | hlen
    · have hzero : (u.piece .payload).length = 0 := by
        unfold fieldsEnd width at hk
        omega
      rw [hnil, length_eq_zero_iff.mp hzero]
    · exact hs.buf_eq hend hlen
  · exact hs.buf_eq hend (hs.sized f hf hp)

variable {u} in
/-- The buffer of the payload is allocated before its first byte is read. -/
theorem ReadInto.allocated (hs : u.ReadInto bufs k)
    (hne : u.width .payload ≠ 0) (hnil : bufs .payload = []) :
    u.ReadInto (Function.update bufs .payload (List.replicate (u.width .payload) 0)) k := by
  have hk : k ≤ u.offset .payload := by
    rcases hs.payload with ⟨-, hk⟩ | hlen
    · exact hk
    · rw [hnil] at hlen
      exact absurd hlen.symm hne
  refine ⟨fun f j hj hjk => ?_, fun f hf hp => ?_, .inr (by simp)⟩
  · have hf : f ≠ .payload := by
      rintro rfl
      omega
    rw [update_of_ne hf]
    exact hs.agree f j hj hjk
  · rw [update_of_ne hf]
    exact hs.sized f hf hp

end RawUndoRecord

section CopyInto

variable {dest : List UInt8} {bs : List UInt8} {i : Nat} {j : Nat}

theorem copyInto_length (h : i + bs.length ≤ dest.length) : (copyInto dest i bs).length = dest.length := by
  simp only [copyInto, length_append, length_take, length_drop]
  omega

theorem copyInto_before (hi : i ≤ dest.length) (hj : j < i) :
    (copyInto dest i bs)[j]? = dest[j]? := by
  rw [copyInto, append_assoc, getElem?_append_left (by rw [length_take]; omega),
    getElem?_take_of_lt hj]

theorem copyInto_inside (hi : i ≤ dest.length) (hij : i ≤ j) (hj : j < i + bs.length) :
    (copyInto dest i bs)[j]? = bs[j - i]? := by
  have hlen : (dest.take i).length = i := by
    rw [length_take]
    omega
  rw [copyInto, append_assoc, getElem?_append_right (by omega), hlen,
    getElem?_append_left (by omega)]

end CopyInto

/-- The cursor of a page that begins with byte `k` of the record at address `start`, when it comes
to the field at offset `o`. -/
structure AtOffset (k start o : Nat) (c : ReadCursor) : Prop where
  my : c.myBytesDecoded = k - o
  total : c.alreadyDecoded = max k o
  ptr : c.readptr = start + (o - k)

/-- What the reader has done when it comes to offset `o`, or to the end of the page before it. -/
structure Reached (u : RawUndoRecord) (k start space o : Nat) (r : Bool × ReadCursor) : Prop where
  state : u.ReadInto r.2.bufs r.2.alreadyDecoded
  done : o ≤ k + space → r.1 = true ∧ AtOffset k start o r.2
  stopped : k + space < o → r.1 = false ∧ r.2.alreadyDecoded = k + space

/-- The page holds bytes `k` to `k + space` of the record at address `start`. -/
def PageHolds (bs : List UInt8) (mem : Memory) (k start space : Nat) : Prop :=
  ∀ j < space, k + j < bs.length → some (mem (start + j)) = bs[k + j]?

section Read

variable {u : RawUndoRecord} {undoLen : Nat} {mem : Memory} {k start space : Nat} {c : ReadCursor}
  {f : UndoField}

/-- Reading the next bytes of a field keeps the agreement. -/
theorem readInto_update {k' : Nat} (hs : u.ReadInto c.bufs k)
    (hsize : (c.bufs f).length = u.width f) (buf : List UInt8) (hbuf : buf.length = u.width f)
    (hlo : u.offset f ≤ k) (hhi : k' ≤ u.offset f + u.width f)
    (hagree : ∀ j < u.width f, u.offset f + j < k' → buf[j]? = (u.piece f)[j]?) :
    u.ReadInto (Function.update c.bufs f buf) k' := by
  refine ⟨?_, ?_, ?_⟩
  · intro g j hj hk
    by_cases hgf : g = f
    · subst hgf
      rw [update_self]
      exact hagree j hj hk
    · rw [update_of_ne hgf]
      apply hs.agree g j hj
      rcases u.offset_apart hgf with h | h <;> omega
  · intro g hg hp
    by_cases hgf : g = f
    · subst hgf
      rw [update_self]
      exact hbuf
    · rw [update_of_ne hgf]
      exact hs.sized g hg hp
  · by_cases hpf : UndoField.payload = f
    · subst hpf
      rw [update_self]
      exact .inr hbuf
    · rw [update_of_ne hpf]
      rcases hs.payload with ⟨hnil, hle⟩ | hlen
      · refine .inl ⟨hnil, ?_⟩
        exact hhi.trans (u.offset_add_width_le (RawUndoRecord.position_lt_payload (Ne.symm hpf)))
      · exact .inr hlen

theorem reached_readUndoBytes (hmem : PageHolds (u.bytes undoLen) mem k start space)
    (hc : AtOffset k start (u.offset f) c) (hle : u.offset f ≤ k + space)
    (hs : u.ReadInto c.bufs c.alreadyDecoded) (hsize : (c.bufs f).length = u.width f) :
    Reached u k start space (u.offset f + u.width f)
      (readUndoBytes mem (start + space) f (u.width f) c) := by
  have hend := u.offset_add_width_le_end f
  have hbytes := u.fieldsEnd_add undoLen
  obtain ⟨hmy, htotal, hptr⟩ := hc
  unfold readUndoBytes
  rcases Nat.lt_or_ge c.myBytesDecoded (u.width f) with hlt | hge
  · rw [if_neg (by omega)]
    have hspace : start + space - c.readptr = space - (u.offset f - k) := by omega
    dsimp only
    rw [hspace]
    split
    · -- the page is full before the field
      refine ⟨hs, fun h => ?_, fun _ => ⟨rfl, ?_⟩⟩ <;> dsimp only <;> omega
    · rename_i hcan
      set n := min (u.width f - c.myBytesDecoded) (space - (u.offset f - k)) with hn
      have hload : (mem.load c.readptr n).length = n := by simp
      have hlen : (copyInto (c.bufs f) c.myBytesDecoded (mem.load c.readptr n)).length = u.width f := by
        rw [copyInto_length (by rw [hload]; omega), hsize]
      have hagree : ∀ j < u.width f, u.offset f + j < c.alreadyDecoded + n →
          (copyInto (c.bufs f) c.myBytesDecoded (mem.load c.readptr n))[j]? = (u.piece f)[j]? := by
        intro j hj hk
        rcases Nat.lt_or_ge j c.myBytesDecoded with hjm | hjm
        · rw [copyInto_before (by omega) hjm]
          exact hs.agree f j hj (by omega)
        · rw [copyInto_inside (by omega) hjm (by rw [hload]; omega), Memory.load_getElem?,
            if_pos (by omega), hptr]
          have hbyte := hmem (u.offset f - k + (j - c.myBytesDecoded)) (by omega) (by omega)
          rw [← Nat.add_assoc] at hbyte
          rw [hbyte, ← u.bytes_getElem? undoLen f hj]
          congr 1
          omega
      refine ⟨?_, fun h => ?_, fun h => ?_⟩
      · exact readInto_update hs hsize _ hlen (by omega) (by dsimp only; omega) hagree
      · refine ⟨decide_eq_true (by omega), ⟨?_, ?_, ?_⟩⟩ <;> dsimp only <;> omega
      · exact ⟨decide_eq_false (by omega), by dsimp only; omega⟩
  · -- the field is there already
    rw [if_pos hge]
    refine ⟨hs, fun _ => ⟨rfl, ⟨?_, ?_, ?_⟩⟩, fun h => ?_⟩ <;> dsimp only <;> omega

/-- Once the header is read its info byte is that of the record. -/
theorem info_of_readInto (hs : u.ReadInto c.bufs k) (h : 2 ≤ k) : (c.bufs .hdr).getD 1 0 = u.uurInfo := by
  have hhdr := hs.agree .hdr 1 (by simp [RawUndoRecord.width, RawUndoRecord.piece,
    RawUndoRecord.present, UndoField.flag?, RawUndoRecord.bytesOf]) (by
    have : u.offset .hdr = 0 := rfl
    omega)
  rw [getD_eq_getElem?_getD, hhdr]
  rfl

/-- An optional field is read when the record has it, and takes no bytes otherwise. -/
theorem reached_whenHas {flag : UInt8} (hflag : f.flag? = some flag)
    (hf : f ≠ .payload) (hmem : PageHolds (u.bytes undoLen) mem k start space)
    (hc : AtOffset k start (u.offset f) c) (hle : u.offset f ≤ k + space)
    (hs : u.ReadInto c.bufs c.alreadyDecoded) :
    Reached u k start space (u.offset f + u.width f)
      (ReadStep.whenHas flag (readUndoBytes mem (start + space) f f.size) c) := by
  have hpos : f ≠ .hdr := by
    rintro rfl
    cases hflag
  have hinfo := info_of_readInto hs (by
    rw [hc.total]
    exact (u.two_le_offset hpos).trans (le_max_right _ _))
  have hpresent : u.present f = u.has flag := by simp [RawUndoRecord.present, hflag]
  simp only [ReadStep.whenHas, hinfo]
  split
  · rename_i hhas
    have hp : u.present f = true := hpresent.trans hhas
    rw [← u.width_eq hp hf]
    exact reached_readUndoBytes hmem hc hle hs (hs.sized f hf hp)
  · rename_i hhas
    have hp : u.present f = false := by
      rw [hpresent]
      simpa [RawUndoRecord.has] using hhas
    rw [u.width_of_absent hp, Nat.add_zero]
    exact ⟨hs, fun _ => ⟨rfl, hc⟩, fun h => absurd hle (Nat.not_le.mpr h)⟩

/-- What one call leaves: the record, or all that the page has of it. -/
structure Unpacked (u : RawUndoRecord) (k space : Nat) (r : Bool × ReadCursor) : Prop where
  done : u.fieldsEnd ≤ k + space → r.1 = true ∧ u.Decoded r.2.bufs
  stopped : k + space < u.fieldsEnd →
    r.1 = false ∧ r.2.alreadyDecoded = k + space ∧ u.ReadInto r.2.bufs (k + space)

theorem Reached.unpacked {r : Bool × ReadCursor} (h : Reached u k start space u.fieldsEnd r) :
    Unpacked u k space r := by
  refine ⟨fun hle => ?_, fun hlt => ?_⟩
  · obtain ⟨hdone, hat⟩ := h.done hle
    exact ⟨hdone, h.state.decoded (by rw [hat.total]; omega)⟩
  · obtain ⟨hdone, htotal⟩ := h.stopped hlt
    exact ⟨hdone, htotal, htotal ▸ h.state⟩

/-- A field, and then those behind it: they are read only when the page went that far. -/
theorem unpacked_andThen {f g : UndoField} {a b : ReadStep}
    (hnext : (f, g) ∈ undoFieldOrder.zip undoFieldOrder.tail)
    (ha : Reached u k start space (u.offset f + u.width f) (a c))
    (hb : ∀ c', u.offset g ≤ k + space → AtOffset k start (u.offset g) c' →
      u.ReadInto c'.bufs c'.alreadyDecoded → Unpacked u k space (b c')) :
    Unpacked u k space (a.andThen b c) := by
  have hend := u.offset_add_width_le_end f
  rw [← u.offset_next hnext] at ha hend
  rcases hac : a c with ⟨done, c'⟩
  rw [hac] at ha
  rcases Nat.lt_or_ge (k + space) (u.offset g) with hlt | hle
  · obtain ⟨hfalse, htotal⟩ := ha.stopped hlt
    cases hfalse
    simp only [ReadStep.andThen, hac]
    exact ⟨fun h => by omega, fun _ => ⟨rfl, htotal, htotal ▸ ha.state⟩⟩
  · obtain ⟨htrue, hat⟩ := ha.done hle
    cases htrue
    simp only [ReadStep.andThen, hac]
    exact hb c' hle hat ha.state

theorem unpacked_readPayload (hmem : PageHolds (u.bytes undoLen) mem k start space)
    (hc : AtOffset k start (u.offset .payload) c) (hle : u.offset .payload ≤ k + space)
    (hs : u.ReadInto c.bufs c.alreadyDecoded) (hp : u.present .payload = true)
    (hlen : u.uurPayload.length < 256 ^ 2) (copyData : Bool) :
    Unpacked u k space (readPayload mem (start + space) copyData (decide (0 < k)) c) := by
  have hwidth : u.width .payload = u.uurPayload.length := by
    rw [RawUndoRecord.width, RawUndoRecord.piece_of_present hp]
    rfl
  have hbuf : leNat (c.bufs .payloadlen) = u.uurPayload.length := by
    have hpl : u.present .payloadlen = true := hp
    have hbefore : u.offset .payloadlen + u.width .payloadlen ≤ c.alreadyDecoded := by
      rw [hc.total, ← u.offset_next (by decide : (UndoField.payloadlen, UndoField.payload) ∈ _)]
      omega
    rw [hs.buf_eq hbefore (hs.sized _ (by decide) hpl), RawUndoRecord.piece_of_present hpl]
    exact leNat_leBytes hlen
  have hend : u.fieldsEnd = u.offset .payload + u.uurPayload.length := by
    rw [RawUndoRecord.fieldsEnd, hwidth]
  unfold readPayload
  dsimp only
  rw [hbuf]
  split
  · -- an empty payload
    have hend' : u.fieldsEnd = u.offset .payload := by omega
    have hall : Reached u k start space u.fieldsEnd (true, c) :=
      ⟨hs, fun _ => ⟨rfl, hend' ▸ hc⟩, fun h => by omega⟩
    exact hall.unpacked
  · rename_i hne
    split
    · -- it is taken where it lies
      rename_i halias
      simp only [Bool.and_eq_true, Bool.not_eq_true', decide_eq_false_iff_not, decide_eq_true_eq] at halias
      obtain ⟨⟨-, hfirst⟩, hfits⟩ := halias
      have hptr := hc.ptr
      refine ⟨fun _ => ⟨rfl, ?_⟩, fun h => by omega⟩
      intro f hpf
      dsimp only
      by_cases hf : f = .payload
      · subst hf
        rw [update_self, ← RawUndoRecord.piece_of_present hp]
        apply ext_getElem?
        intro j
        rw [Memory.load_getElem?]
        split
        · rename_i hj
          have hbyte := hmem (u.offset .payload + j) (by omega) (by
            have := u.fieldsEnd_add undoLen
            omega)
          rw [hptr, ← u.bytes_getElem? undoLen .payload (by omega)]
          have hk : k = 0 := by omega
          subst hk
          rw [Nat.sub_zero, Nat.add_assoc, hbyte, Nat.zero_add]
        · rename_i hj
          rw [getElem?_eq_none]
          unfold RawUndoRecord.width at hwidth
          omega
      · rw [update_of_ne hf, ← RawUndoRecord.piece_of_present hpf]
        apply hs.buf_eq _ (hs.sized f hf hpf)
        have := u.offset_add_width_le (RawUndoRecord.position_lt_payload hf)
        rw [hc.total]
        omega
    · -- it is copied into a buffer of its own
      rw [← hwidth]
      by_cases hnil : c.bufs .payload = []
      · rw [if_pos hnil]
        set bufs := Function.update c.bufs .payload (List.replicate (u.width .payload) 0) with hbufs
        have hat : AtOffset k start (u.offset .payload) { c with bufs := bufs } :=
          ⟨hc.my, hc.total, hc.ptr⟩
        exact (reached_readUndoBytes hmem hat hle (hs.allocated (by rwa [hwidth]) hnil)
          (by simp [hbufs])).unpacked
      · rw [if_neg hnil]
        rcases hs.payload with ⟨habs, -⟩ | hlen
        · exact absurd habs hnil
        · exact (reached_readUndoBytes hmem hc hle hs hlen).unpacked

theorem unpacked_unpackUndoRecord (hmem : PageHolds (u.bytes undoLen) mem k start space)
    (hc : AtOffset k start 0 c) (hs : u.ReadInto c.bufs c.alreadyDecoded)
    (hlen : u.present .payload = true → u.uurPayload.length < 256 ^ 2) (copyData : Bool) :
    Unpacked u k space (unpackUndoRecord mem (start + space) copyData c) := by
  have hmy : c.myBytesDecoded = k := hc.my
  unfold unpackUndoRecord
  dsimp only
  rw [hmy]
  refine unpacked_andThen (f := .hdr) (g := .blk) (by decide)
    (reached_readUndoBytes hmem hc (Nat.zero_le _) hs (hs.sized _ (by decide) rfl)) fun c hle hc hs => ?_
  refine unpacked_andThen (f := .blk) (g := .preurp) (by decide)
    (reached_readUndoBytes hmem hc hle hs (hs.sized _ (by decide) rfl)) fun c hle hc hs => ?_
  refine unpacked_andThen (f := .preurp) (g := .prexid) (by decide)
    (reached_whenHas rfl (by decide) hmem hc hle hs) fun c hle hc hs => ?_
  refine unpacked_andThen (f := .prexid) (g := .tablespace) (by decide)
    (reached_whenHas rfl (by decide) hmem hc hle hs) fun c hle hc hs => ?_
  refine unpacked_andThen (f := .tablespace) (g := .subxid) (by decide)
    (reached_whenHas rfl (by decide) hmem hc hle hs) fun c hle hc hs => ?_
  refine unpacked_andThen (f := .subxid) (g := .dataheader) (by decide)
    (reached_whenHas rfl (by decide) hmem hc hle hs) fun c hle hc hs => ?_
  refine unpacked_andThen (f := .dataheader) (g := .payloadlen) (by decide)
    (reached_whenHas rfl (by decide) hmem hc hle hs) fun c hle hc hs => ?_
  have hinfo := info_of_readInto hs (by
    rw [hc.total]
    exact (u.two_le_offset (by decide)).trans (le_max_right _ _))
  simp only [ReadStep.whenHas, hinfo]
  split
  · rename_i hhas
    have hp : u.present .payload = true := hhas
    have hread := reached_readUndoBytes (f := .payloadlen) hmem hc hle hs (hs.sized _ (by decide) hp)
    exact unpacked_andThen (f := .payloadlen) (g := .payload) (by decide)
      (u.width_eq (f := .payloadlen) hp (by decide) ▸ hread) fun c hle hc hs =>
        unpacked_readPayload hmem hc hle hs hp (hlen hp) copyData
  · rename_i hhas
    have hp : u.has urecInfoPayload = false := by simpa [RawUndoRecord.has] using hhas
    have hend : u.fieldsEnd = u.offset .payloadlen := by
      rw [RawUndoRecord.fieldsEnd, u.offset_next (by decide : (UndoField.payloadlen, UndoField.payload) ∈ _),
        u.width_of_absent (f := .payload) hp, u.width_of_absent (f := .payloadlen) hp]
      rfl
    have hall : Reached u k start space u.fieldsEnd (true, c) :=
      ⟨hs, fun _ => ⟨rfl, hend ▸ hc⟩, fun h => by omega⟩
    exact hall.unpacked

/-- The calls for a whole record, from a page that begins with byte `k` of it. -/
theorem readUndoRecord_from {i : Nat} (hmem : undoPaging.Holds mem i (u.bytes undoLen))
    (hlen : u.present .payload = true → u.uurPayload.length < 256 ^ 2) (copyData isCopy : Bool) (fuel : Nat)
    (blk startingByte k : Nat) (bufs : UndoField → List UInt8) (hs : u.ReadInto bufs k)
    (hk : k ≤ u.fieldsEnd) (hfuel : u.fieldsEnd - k < fuel)
    (hpos : blk * blcksz + startingByte = undoPaging.addr (i + k))
    (hblk : blk = (i + k) / undoPaging.usable) :
    ∃ c, readUndoRecord mem copyData fuel blk startingByte k bufs isCopy = some c ∧
      u.Decoded c.bufs := by
  induction fuel generalizing blk startingByte k bufs isCopy with
  | zero => omega
  | succ fuel ih =>
    have hroom := undoPaging.room_pos (i + k)
    have hend : (blk + 1) * blcksz = undoPaging.addr (i + k) + undoPaging.room (i + k) := by
      rw [undoPaging.addr_add_room_eq_end, ← hblk]
      rfl
    have hpage : PageHolds (u.bytes undoLen) mem k (undoPaging.addr (i + k)) (undoPaging.room (i + k)) := by
      intro j hj hkj
      rw [← undoPaging.addr_add hj, Nat.add_assoc]
      exact hmem (k + j) hkj
    have hcall := unpacked_unpackUndoRecord (c := ⟨undoPaging.addr (i + k), k, k, bufs, isCopy⟩) hpage
      ⟨rfl, by simp, by simp⟩ hs hlen copyData
    rw [readUndoRecord, hpos, hend]
    rcases hr : unpackUndoRecord mem (undoPaging.addr (i + k) + undoPaging.room (i + k)) copyData
      ⟨undoPaging.addr (i + k), k, k, bufs, isCopy⟩ with ⟨done, c⟩
    rw [hr] at hcall
    rcases Nat.lt_or_ge (k + undoPaging.room (i + k)) u.fieldsEnd with hlt | hge
    · obtain ⟨hfalse, htotal, hs'⟩ := hcall.stopped hlt
      cases hfalse
      dsimp only at htotal hs' ⊢
      rw [htotal]
      apply ih _ _ _ _ _ hs' (Nat.le_of_lt hlt) (by omega)
      · rw [← Nat.add_assoc, undoPaging.addr_add_room, ← hblk]
        rfl
      · rw [← Nat.add_assoc, undoPaging.add_room_div, hblk]
    · obtain ⟨htrue, hdecoded⟩ := hcall.done hge
      cases htrue
      exact ⟨c, rfl, hdecoded⟩

end Read

/-- The record that `unpack_undo_record` leaves in `uur`. -/
def RawUndoRecord.ofBufs (bufs : UndoField → List UInt8) : RawUndoRecord where
  uurXid := .ofNat (leNat (((bufs .hdr).drop 16).take 8))
  uurCid := .ofNat (leNat (((bufs .hdr).drop 24).take 4))
  uurReloid := .ofNat (leNat (((bufs .hdr).drop 4).take 4))
  uurRelfilenode := .ofNat (leNat (((bufs .hdr).drop 8).take 4))
  uurType := (bufs .hdr).getD 0 0
  uurInfo := (bufs .hdr).getD 1 0
  uurTpprevurp := .ofNat (leNat ((bufs .blk).take 8))
  uurBlkno := .ofNat (leNat (((bufs .blk).drop 8).take 4))
  uurOffset := .ofNat (leNat (((bufs .blk).drop 12).take 2))
  uurTxnprevurp := .ofNat (leNat (bufs .preurp))
  uurPrevxid := .ofNat (leNat (bufs .prexid))
  uurTablespace := .ofNat (leNat (bufs .tablespace))
  uurSubxid := .ofNat (leNat (bufs .subxid))
  uurDataheaderflag := .ofNat (leNat (bufs .dataheader))
  uurPayload := bufs .payload

/-- Two records with the same values in all fields that their common info flags select. -/
structure RawUndoRecord.Same (u v : RawUndoRecord) : Prop where
  hdr : u.uurXid = v.uurXid ∧ u.uurCid = v.uurCid ∧ u.uurReloid = v.uurReloid ∧
    u.uurRelfilenode = v.uurRelfilenode ∧ u.uurType = v.uurType ∧ u.uurInfo = v.uurInfo
  blk : u.uurTpprevurp = v.uurTpprevurp ∧ u.uurBlkno = v.uurBlkno ∧ u.uurOffset = v.uurOffset
  preurp : v.has urecInfoPreurp = true → u.uurTxnprevurp = v.uurTxnprevurp
  prexid : v.has urecInfoPrexid = true → u.uurPrevxid = v.uurPrevxid
  tablespace : v.has urecInfoTablespace = true → u.uurTablespace = v.uurTablespace
  subxid : v.has urecInfoSubxact = true → u.uurSubxid = v.uurSubxid
  dataheader : v.has urecInfoDataheader = true → u.uurDataheaderflag = v.uurDataheaderflag
  payload : v.has urecInfoPayload = true → u.uurPayload = v.uurPayload

theorem leNat_leBytes_uint64 (x : UInt64) : UInt64.ofNat (leNat (leBytes 8 x.toNat)) = x := by
  rw [leNat_leBytes (by have := x.toNat_lt; omega), UInt64.ofNat_toNat]

theorem leNat_leBytes_uint32 (x : UInt32) : UInt32.ofNat (leNat (leBytes 4 x.toNat)) = x := by
  rw [leNat_leBytes (by have := x.toNat_lt; omega), UInt32.ofNat_toNat]

theorem leNat_leBytes_uint16 (x : UInt16) : UInt16.ofNat (leNat (leBytes 2 x.toNat)) = x := by
  rw [leNat_leBytes (by have := x.toNat_lt; omega), UInt16.ofNat_toNat]

variable {bufs : UndoField → List UInt8} {u : RawUndoRecord}

theorem RawUndoRecord.Decoded.same
    (h : u.Decoded bufs) : (ofBufs bufs).Same u := by
  have hhdr := h .hdr rfl
  have hblk := h .blk rfl
  refine ⟨?_, ?_, fun hp => ?_, fun hp => ?_, fun hp => ?_, fun hp => ?_, fun hp => ?_, fun hp => h .payload hp⟩
  · simp only [ofBufs, hhdr]
    refine ⟨?_, ?_, ?_, ?_, rfl, rfl⟩
    · exact leNat_leBytes_uint64 u.uurXid
    · exact leNat_leBytes_uint32 u.uurCid
    · exact leNat_leBytes_uint32 u.uurReloid
    · exact leNat_leBytes_uint32 u.uurRelfilenode
  · simp only [ofBufs, hblk]
    refine ⟨?_, ?_, ?_⟩
    · exact leNat_leBytes_uint64 u.uurTpprevurp
    · exact leNat_leBytes_uint32 u.uurBlkno
    · exact leNat_leBytes_uint16 u.uurOffset
  · rw [ofBufs, h .preurp hp]
    exact leNat_leBytes_uint64 u.uurTxnprevurp
  · rw [ofBufs, h .prexid hp]
    exact leNat_leBytes_uint64 u.uurPrevxid
  · rw [ofBufs, h .tablespace hp]
    exact leNat_leBytes_uint32 u.uurTablespace
  · rw [ofBufs, h .subxid hp]
    exact leNat_leBytes_uint64 u.uurSubxid
  · rw [ofBufs, h .dataheader hp]
    exact leNat_leBytes_uint16 u.uurDataheaderflag

theorem RawUndoRecord.payload_length_lt (hsize : undoRecordExpectedSize u < 2 ^ 16)
    (hp : u.present .payload = true) : u.uurPayload.length < 256 ^ 2 := by
  have hhas : u.has urecInfoPayload = true := hp
  simp only [undoRecordExpectedSize, hhas, if_true] at hsize
  omega

/-- The variables that a record is read into, with any content; the payload has no buffer yet. -/
structure FreshBufs (bufs : UndoField → List UInt8) : Prop where
  sized : ∀ f, f ≠ .payload → (bufs f).length = f.size
  payload : bufs .payload = []

theorem FreshBufs.readInto (h : FreshBufs bufs) (u : RawUndoRecord) :
    u.ReadInto bufs 0 :=
  ⟨fun _ _ _ hk => absurd hk (Nat.not_lt_zero _),
    fun f hf hp => (h.sized f hf).trans (u.width_eq hp hf).symm, .inl ⟨h.payload, Nat.zero_le _⟩⟩

/-- A record that is written from any byte of a page on takes its expected size, with its length in
the last two bytes, touches nothing else, and is read back from there. -/
theorem undo_record_round_trip (u : RawUndoRecord) (hsize : undoRecordExpectedSize u < 2 ^ 16)
    (mem : Memory) (blk startingByte : Nat) (hlo : undoLogBlockHeaderSize ≤ startingByte)
    (hhi : startingByte < blcksz) (bufs : UndoField → List UInt8) (hbufs : FreshBufs bufs)
    (fuel : Nat) (hfuel : undoRecordExpectedSize u ≤ fuel) :
    ∃ mem', writeUndoRecord u (undoRecordExpectedSize u) fuel mem blk startingByte 0 =
        some (mem', undoRecordExpectedSize u) ∧
      (∃ front, undoPaging.Holds mem' (undoPaging.index (blk * blcksz + startingByte))
          (front ++ leBytes sizeOfUndoRecordSize (undoRecordExpectedSize u)) ∧
        front.length + sizeOfUndoRecordSize = undoRecordExpectedSize u) ∧
      (∀ a, (∀ j < undoRecordExpectedSize u,
          a ≠ undoPaging.addr (undoPaging.index (blk * blcksz + startingByte) + j)) → mem' a = mem a) ∧
      ∀ copyData isCopy, ∃ c,
        readUndoRecord mem' copyData fuel blk startingByte 0 bufs isCopy = some c ∧
          (RawUndoRecord.ofBufs c.bufs).Same u := by
  have hbytes := u.bytes_length (undoRecordExpectedSize u)
  have hend := u.fieldsEnd_add (undoRecordExpectedSize u)
  have hwo : 0 < sizeOfUndoRecordSize := by decide
  obtain ⟨mem', hwrite, hholds, helse⟩ :=
    writeUndoRecord_ok u blk hlo hhi (undoRecordExpectedSize u) mem hfuel
  refine ⟨mem', hwrite, ⟨undoFieldOrder.flatMap u.piece, ?_, ?_⟩, helse, fun copyData isCopy => ?_⟩
  · rw [← u.bytes_eq]
    exact hholds
  · rw [← hbytes, u.bytes_eq, List.length_append, leBytes_length]
  · obtain ⟨c, hread, hdecoded⟩ := readUndoRecord_from hholds (RawUndoRecord.payload_length_lt hsize)
      copyData isCopy fuel blk startingByte 0 bufs (hbufs.readInto u) (Nat.zero_le _) (by omega)
      (undoPaging.addr_index (undoPaging_start blk hlo hhi)).symm (undoPaging_start_blk blk hlo hhi)
    exact ⟨c, hread, hdecoded.same⟩

def fullRecord : RawUndoRecord where
  uurXid := 700
  uurCid := 2
  uurReloid := 16384
  uurRelfilenode := 16390
  uurType := 3
  uurInfo := 0x7b
  uurTpprevurp := 0x2000018
  uurBlkno := 9
  uurOffset := 4
  uurTxnprevurp := 0x1000018
  uurPrevxid := 650
  uurTablespace := 1663
  uurSubxid := 701
  uurDataheaderflag := 0x1000
  uurPayload := [24, 7, 9]

theorem undo_record_round_trip_last_byte :
    ∃ mem', writeUndoRecord fullRecord 79 79 (fun _ => 0) 3 8191 0 = some (mem', 79) ∧
      ∃ c, readUndoRecord mem' false 79 3 8191 0 (fun f => List.replicate f.size 0) true = some c ∧
        (RawUndoRecord.ofBufs c.bufs).uurPayload = [24, 7, 9] := by
  have hsize : undoRecordExpectedSize fullRecord = 79 := by decide
  obtain ⟨mem', hwrite, -, -, hread⟩ := undo_record_round_trip fullRecord (by rw [hsize]; decide)
    (fun _ => 0) 3 8191 (by decide) (by decide) (fun f => List.replicate f.size 0)
    ⟨fun f _ => List.length_replicate, rfl⟩ 79 (by rw [hsize])
  obtain ⟨c, hc, hsame⟩ := hread false true
  rw [hsize] at hwrite
  exact ⟨mem', hwrite, c, hc, hsame.payload (by decide)⟩

end XStore
