import XStore.Undo.Backward
import XStore.Undo.RecordRoundTrip
import Mathlib.Data.List.Forall2

/-!
# Preparing the records of an operation

`prepare_undo`: the info flags of the records, which decide their sizes, and their places one
behind the other.  The same function runs on the primary and during replay; there the place of the
first record and the switch of the log come from the WAL record.
-/
namespace XStore

def undoLogOffsetBits : Nat := 46

/-- `MAKE_UNDO_REC_PTR` -/
def UndoPtr.pack (p : UndoPtr) : Nat := p.logno * 2 ^ undoLogOffsetBits + p.offset

/-- `UNDO_PTR_GET_LOG_NO` and `UNDO_PTR_GET_OFFSET` -/
def UndoPtr.unpack (urp : Nat) : UndoPtr :=
  ⟨urp / 2 ^ undoLogOffsetBits, urp % 2 ^ undoLogOffsetBits⟩

/-- `ItemPointerData`: the block number in two halves, high one first. -/
def itemPointerBytes (tid : Nat × Nat) : List UInt8 :=
  leBytes 2 (tid.1 / 2 ^ 16) ++ leBytes 2 (tid.1 % 2 ^ 16) ++ leBytes 2 tid.2

def InplaceDelta.bytes (d : InplaceDelta) : List UInt8 :=
  [.ofNat d.tHoff] ++ (leBytes 2 d.flag.toNat ++ leBytes 2 d.flag2.toNat ++ [.ofNat d.tHoff] ++ d.bits) ++
    [xorDeltaFlags d.prefixlen d.suffixlen] ++ lengthBytes d.prefixlen ++ lengthBytes d.suffixlen ++
    d.oldData

namespace HeapUndo

/-- `UndoRecType` -/
def uurType : HeapUndo → UInt8
  | insert => 1
  | multiInsert _ _ => 2
  | delete => 3
  | inplaceUpdate _ => 4
  | update _ => 5
  | other => 0

/-- The info flags set by the `xheap_prepare_undo_*` function of the type. -/
def uinfo : HeapUndo → UInt8
  | insert => 0
  | multiInsert _ _ => urecInfoPayload
  | delete => urecInfoDataheader
  | inplaceUpdate _ => urecInfoPayload
  | update _ => urecInfoPayload ||| urecInfoDataheader
  | other => 0

/-- `uur_payload` -/
def rawdata : HeapUndo → List UInt8
  | insert => []
  | multiInsert startOffset endOffset => leBytes 2 startOffset ++ leBytes 2 endOffset
  | delete => []
  | inplaceUpdate delta => delta.bytes
  | update ctid => itemPointerBytes ctid
  | other => []

end HeapUndo

def infoIf (p : Bool) (flag : UInt8) : UInt8 := if p then flag else 0

/-- `uur_info` when a record is stored: the flags of its type, and one for each optional field. -/
def storedInfo (uinfo : UInt8) (subxid prevxid tablespace isSwitch : Bool) : UInt8 :=
  uinfo ||| infoIf subxid urecInfoSubxact ||| infoIf prevxid urecInfoPrexid |||
    infoIf tablespace urecInfoTablespace ||| infoIf isSwitch urecInfoPreurp

/-- A record after `prepare_undo_record_info`; `isSwitch` marks the first record behind a switch of
the log. -/
def UnpackedUndoRecord.prepared (u : HeapRecord) (txnprevurp : Nat) (isSwitch : Bool) :
    RawUndoRecord where
  uurXid := .ofNat u.uurXid
  uurCid := .ofNat u.uurCid
  uurReloid := .ofNat u.uurReloid
  uurRelfilenode := .ofNat u.uurRelfilenode
  uurType := u.body.uurType
  uurInfo := storedInfo u.body.uinfo u.uurSubxid.isSome (u.uurPrevxid != invalidXid)
    (u.uurTablespace != 0) isSwitch
  uurTpprevurp := .ofNat u.uurTpprevurp
  uurBlkno := .ofNat u.uurBlkno
  uurOffset := .ofNat u.uurOffset
  uurTxnprevurp := .ofNat txnprevurp
  uurPrevxid := .ofNat u.uurPrevxid
  uurTablespace := .ofNat u.uurTablespace
  uurSubxid := .ofNat u.subxidValue
  uurDataheaderflag := .ofBitVec u.uurDataheaderflag
  uurPayload := u.body.rawdata

/-- The places of the records: each begins where `get_next_undoptr` ends the one before. -/
def placeRecords : Nat → List RawUndoRecord → List (Nat × RawUndoRecord)
  | _, [] => []
  | urp, u :: us =>
    (urp, u) ::
      placeRecords (getNextUndoptr (.unpack urp) (undoRecordExpectedSize u % 2 ^ 16)).pack us

/-- `prepare_undo` from the pointer of the first record on.  Only that record names the previous one
of the transaction where it has changed logs. -/
def prepareUndo (urp txnprevurp : Nat) (isSwitch : Bool) :
    List HeapRecord → List (Nat × RawUndoRecord)
  | [] => []
  | u :: us =>
    placeRecords urp (u.prepared txnprevurp isSwitch :: us.map fun u => u.prepared urp false)

/-- `lastRecordSize` of the undo metadata. -/
def lastRecordSize (recs : List (Nat × RawUndoRecord)) : Nat :=
  recs.getLast?.elim 0 fun r => undoRecordExpectedSize r.2 % 2 ^ 16

/-- The same record at the same place; only the command ids may differ. -/
structure SameRecord (p q : Nat × RawUndoRecord) : Prop where
  urp : p.1 = q.1
  size : undoRecordExpectedSize p.2 = undoRecordExpectedSize q.2
  stored : ({ p.2 with uurCid := q.2.uurCid } : RawUndoRecord).Same q.2

/-- Two unpacked records that agree in all that is stored but the command id. -/
def SameChange (u v : HeapRecord) : Prop :=
  ∃ cid urp idx, v = { u with uurCid := cid, uurUrp := urp, bufferIdx := idx }

section Info

theorem HeapUndo.uinfo_cases (b : HeapUndo) :
    b.uinfo = 0 ∨ b.uinfo = urecInfoPayload ∨ b.uinfo = urecInfoDataheader ∨
      b.uinfo = urecInfoPayload ||| urecInfoDataheader := by
  cases b <;> simp [HeapUndo.uinfo]

theorem storedInfo_prexid (b : HeapUndo) : ∀ subxid prevxid tablespace isSwitch : Bool,
    (storedInfo b.uinfo subxid prevxid tablespace isSwitch &&& urecInfoPrexid != 0) = prevxid := by
  rcases b.uinfo_cases with h | h | h | h <;> rw [h] <;> decide

theorem storedInfo_preurp (b : HeapUndo) : ∀ subxid prevxid tablespace isSwitch : Bool,
    (storedInfo b.uinfo subxid prevxid tablespace isSwitch &&& urecInfoPreurp != 0) = isSwitch := by
  rcases b.uinfo_cases with h | h | h | h <;> rw [h] <;> decide

variable {u v : HeapRecord} {tp tq : Nat} {sw : Bool}

theorem prepared_has_prexid :
    (u.prepared tp sw).has urecInfoPrexid = (u.uurPrevxid != invalidXid) :=
  storedInfo_prexid u.body _ _ _ _

theorem prepared_has_preurp : (u.prepared tp sw).has urecInfoPreurp = sw :=
  storedInfo_preurp u.body _ _ _ _

theorem prepared_has_dataheader (h : u.body.uinfo &&& urecInfoDataheader ≠ 0) :
    (u.prepared tp sw).has urecInfoDataheader = true := by
  have hall : ∀ subxid prevxid tablespace isSwitch : Bool,
      (storedInfo u.body.uinfo subxid prevxid tablespace isSwitch &&& urecInfoDataheader != 0) =
        true := by
    rcases u.body.uinfo_cases with h' | h' | h' | h' <;> rw [h'] at h ⊢ <;>
      first | decide | exact absurd rfl h
  exact hall _ _ _ _

end Info

section Agree

variable {u v : HeapRecord} {us vs : List HeapRecord} {tp tq urp : Nat} {sw sw' : Bool} {a b : Nat}

/-- What is stored of a record does not depend on its command id, and on the previous record of the
transaction only behind a switch of the log. -/
theorem SameChange.prepared_same (h : SameChange u v) (ht : sw = true → tp = tq) :
    ({ u.prepared tp sw with uurCid := (v.prepared tq sw).uurCid } : RawUndoRecord).Same
      (v.prepared tq sw) := by
  obtain ⟨cid, urp, idx, rfl⟩ := h
  refine ⟨⟨rfl, rfl, rfl, rfl, rfl, rfl⟩, ⟨rfl, rfl, rfl⟩, ?_, fun _ => rfl, fun _ => rfl,
    fun _ => rfl, fun _ => rfl, fun _ => rfl⟩
  intro hpre
  rw [prepared_has_preurp] at hpre
  simp only [UnpackedUndoRecord.prepared, ht hpre]

theorem SameChange.prepared_size (h : SameChange u v) :
    undoRecordExpectedSize (u.prepared tp sw) = undoRecordExpectedSize (v.prepared tq sw) := by
  obtain ⟨cid, urp, idx, rfl⟩ := h
  rfl

@[simp] theorem placeRecords_length (urp : Nat) (us : List RawUndoRecord) :
    (placeRecords urp us).length = us.length := by
  induction us generalizing urp with
  | nil => rfl
  | cons u us ih => simp [placeRecords, ih]

@[simp] theorem prepareUndo_length : (prepareUndo urp tp sw us).length = us.length := by
  cases us <;> simp [prepareUndo]

/-- Records of the same sizes from one pointer on are at the same places. -/
theorem placeRecords_same {as bs : List RawUndoRecord}
    (h : List.Forall₂ (fun a b => undoRecordExpectedSize a = undoRecordExpectedSize b ∧
      ({ a with uurCid := b.uurCid } : RawUndoRecord).Same b) as bs) (urp : Nat) :
    List.Forall₂ SameRecord (placeRecords urp as) (placeRecords urp bs) := by
  induction h generalizing urp with
  | nil => exact .nil
  | cons hab _ ih =>
    rw [placeRecords, placeRecords, hab.1]
    exact .cons ⟨rfl, hab.1, hab.2⟩ (ih _)

theorem prepareUndo_same (h : List.Forall₂ SameChange us vs) (ht : sw = true → tp = tq) :
    List.Forall₂ SameRecord (prepareUndo urp tp sw us) (prepareUndo urp tq sw vs) := by
  cases h with
  | nil => exact .nil
  | cons huv hrest =>
    apply placeRecords_same
    refine .cons ⟨huv.prepared_size, huv.prepared_same ht⟩ ?_
    rw [List.forall₂_map_left_iff, List.forall₂_map_right_iff]
    exact hrest.imp fun _ _ hab => ⟨hab.prepared_size, hab.prepared_same fun _ => rfl⟩

theorem SameRecord.lastRecordSize_eq {as bs : List (Nat × RawUndoRecord)}
    (h : List.Forall₂ SameRecord as bs) : lastRecordSize as = lastRecordSize bs := by
  induction h with
  | nil => rfl
  | cons hab hrest ih =>
    cases hrest with
    | nil => simp [lastRecordSize, hab.size]
    | cons _ _ => simpa [lastRecordSize] using ih

theorem SameRecord.prevxid_iff (h : SameRecord (a, u.prepared tp sw) (b, v.prepared tq sw')) :
    u.uurPrevxid = invalidXid ↔ v.uurPrevxid = invalidXid := by
  have hinfo := h.stored.hdr.2.2.2.2.2
  have hhas := (prepared_has_prexid : (u.prepared tp sw).has urecInfoPrexid = _)
  rw [RawUndoRecord.has, hinfo] at hhas
  have heq := hhas.symm.trans (prepared_has_prexid : (v.prepared tq sw').has urecInfoPrexid = _)
  simpa using Bool.eq_iff_iff.mp (congrArg not heq)

theorem SameRecord.dataheaderflag_eq
    (h : SameRecord (a, u.prepared tp sw) (b, v.prepared tq sw'))
    (hv : v.body.uinfo &&& urecInfoDataheader ≠ 0) : u.uurDataheaderflag = v.uurDataheaderflag :=
  congrArg UInt16.toBitVec (h.stored.dataheader (prepared_has_dataheader hv))

end Agree

end XStore
