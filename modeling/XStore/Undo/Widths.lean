import XStore.Undo.MetaFile
import XStore.Undo.SlotWrite

/-!
# Block numbers of 32 bits

An undo pointer has an offset of 46 bits, but a `BlockNumber` has 32, and so has the product of one
with `BLCKSZ`.  `get_next_slotptr` goes from slot to slot through such a product, and replay compares
one with the bounds of the data segment.
-/
namespace XStore

def undoPtrGetLogNo (urp : UInt64) : UInt64 := urp >>> 46

/-- `UNDO_PTR_GET_BLOCK_NUM`, assigned to a `BlockNumber`. -/
def undoPtrGetBlockNum (urp : UInt64) : UInt32 := (undoPtrGetOffset urp / 8192).toUInt32

theorem toNat_undoPtrGetOffset (urp : UInt64) : (undoPtrGetOffset urp).toNat = urp.toNat % 2 ^ 46 := by
  rw [undoPtrGetOffset, UInt64.toNat_and]
  exact Nat.and_two_pow_sub_one_eq_mod urp.toNat 46

theorem toNat_undoPtrGetLogNo (urp : UInt64) : (undoPtrGetLogNo urp).toNat = urp.toNat / 2 ^ 46 := by
  rw [undoPtrGetLogNo, UInt64.toNat_shiftRight, Nat.shiftRight_eq_div_pow]
  rfl

section Packed

variable {logno : Nat} {offset : UInt64}

variable (hlog : logno < undologTotalCount)

include hlog

variable (hoff : offset.toNat < 2 ^ 46)

include hoff

/-- A pointer of a valid log holds the log number and the offset side by side. -/
theorem toNat_makeUndoRecPtr :
    (makeUndoRecPtr logno offset).toNat = logno * 2 ^ 46 + offset.toNat := by
  have hlog' : logno < 2 ^ 18 := hlog
  have hsmall : (UInt64.ofNat logno).toNat = logno :=
    UInt64.toNat_ofNat_of_lt' (Nat.lt_trans hlog' (by decide))
  have hshift : (UInt64.ofNat logno <<< 46).toNat = logno <<< 46 := by
    rw [UInt64.toNat_shiftLeft, hsmall]
    apply Nat.mod_eq_of_lt
    change logno <<< 46 < 2 ^ 64
    rw [Nat.shiftLeft_eq]
    omega
  rw [makeUndoRecPtr, UInt64.toNat_or, hshift, ← Nat.shiftLeft_add_eq_or_of_lt hoff, Nat.shiftLeft_eq]

theorem undoPtrGetOffset_make :
    undoPtrGetOffset (makeUndoRecPtr logno offset) = offset := by
  apply UInt64.toNat_inj.mp
  rw [toNat_undoPtrGetOffset, toNat_makeUndoRecPtr hlog hoff]
  omega

theorem undoPtrGetLogNo_make :
    (undoPtrGetLogNo (makeUndoRecPtr logno offset)).toNat = logno := by
  rw [toNat_undoPtrGetLogNo, toNat_makeUndoRecPtr hlog hoff]
  omega

end Packed

/-- `nextSlotOffset` in the widths of the code, with the product of a block number in 32 bits. -/
def nextSlotOffset32 (slotOffset : UInt64) : UInt64 :=
  let block := (slotOffset / 8192).toUInt32
  let offset := slotOffset % 8192 + 32
  if 8192 - offset < 32 then ((block + 1) * 8192).toUInt64 + 24 else offset + (block * 8192).toUInt64

/-- `get_next_slotptr` on the offset of a slot, whose product starts again behind 4 GB. -/
def nextSlotptrOffset (slotOffset : Nat) : Nat := nextSlotOffset slotOffset % 2 ^ 32

/-- `get_next_slotptr` in the widths of the code. -/
def getNextSlotptr (slotPtr : UInt64) : UInt64 :=
  makeUndoRecPtr (undoPtrGetLogNo slotPtr).toNat (nextSlotOffset32 (undoPtrGetOffset slotPtr))

theorem toNat_nextSlotOffset32 {off : UInt64} (h : SlotAligned off.toNat) :
    (nextSlotOffset32 off).toNat = nextSlotptrOffset off.toNat := by
  obtain ⟨hlow, hhigh⟩ := h
  unfold nextSlotptrOffset nextSlotOffset undoLogBlockHeaderSize sizeOfUndoSlot blcksz at *
  have hin : (off % 8192 + 32).toNat = off.toNat % 8192 + 32 := by
    rw [UInt64.toNat_add, UInt64.toNat_mod]
    exact Nat.mod_eq_of_lt (by simp; omega)
  have hroom : (8192 - (off % 8192 + 32)).toNat = 8192 - (off.toNat % 8192 + 32) := by
    have hle : off % 8192 + 32 ≤ 8192 := by
      rw [UInt64.le_iff_toNat_le, hin]
      exact hhigh
    rw [UInt64.toNat_sub_of_le _ _ hle, hin]
    rfl
  have hblock : (off / 8192).toUInt32.toNat = off.toNat / 8192 % 2 ^ 32 := by
    rw [UInt64.toNat_toUInt32, UInt64.toNat_div]
    rfl
  unfold nextSlotOffset32
  dsimp only
  split_ifs with hfull hfull' hfull'
  · rw [UInt64.toNat_add, UInt32.toNat_toUInt64, UInt32.toNat_mul, UInt32.toNat_add, hblock]
    simp only [UInt32.reduceToNat, UInt64.reduceToNat]
    omega
  · rw [UInt64.lt_iff_toNat_lt, hroom] at hfull
    simp only [UInt64.reduceToNat] at hfull
    omega
  · rw [UInt64.lt_iff_toNat_lt, hroom] at hfull
    simp only [UInt64.reduceToNat] at hfull
    omega
  · rw [UInt64.toNat_add, UInt32.toNat_toUInt64, UInt32.toNat_mul, hin, hblock]
    simp only [UInt32.reduceToNat]
    omega

def slotsPerBlock : Nat := 255

def narrowBlocks : Nat := 2 ^ 19

/-- The offset of the `k`-th slot of a log. -/
def slotOffset (k : Nat) : Nat :=
  k / slotsPerBlock * blcksz + undoLogBlockHeaderSize + k % slotsPerBlock * sizeOfUndoSlot

theorem slotOffset_mod (k : Nat) :
    slotOffset k % blcksz = undoLogBlockHeaderSize + k % slotsPerBlock * sizeOfUndoSlot := by
  unfold slotOffset slotsPerBlock undoLogBlockHeaderSize sizeOfUndoSlot blcksz
  omega

theorem slotOffset_div (k : Nat) : slotOffset k / blcksz = k / slotsPerBlock := by
  unfold slotOffset slotsPerBlock undoLogBlockHeaderSize sizeOfUndoSlot blcksz
  omega

theorem slotAligned_slotOffset (k : Nat) : SlotAligned (slotOffset k) := by
  rw [SlotAligned, slotOffset_mod]
  unfold slotsPerBlock undoLogBlockHeaderSize sizeOfUndoSlot blcksz
  omega

theorem slotOffset_lt {j k : Nat} (h : j < k) : slotOffset j < slotOffset k := by
  unfold slotOffset slotsPerBlock undoLogBlockHeaderSize sizeOfUndoSlot blcksz
  omega

variable {k : Nat}

section

variable (h : k < narrowBlocks * slotsPerBlock)

include h

theorem slotOffset_lt_two_pow : slotOffset k < 2 ^ 32 := by
  unfold slotOffset narrowBlocks slotsPerBlock undoLogBlockHeaderSize sizeOfUndoSlot blcksz at *
  omega

theorem toNat_slotOffset :
    (UInt64.ofNat (slotOffset k)).toNat = slotOffset k :=
  UInt64.toNat_ofNat_of_lt' (Nat.lt_trans (slotOffset_lt_two_pow h) (by decide))

/-- The slot behind the last one of the narrow blocks is the first one again. -/
theorem nextSlotOffset32_slotOffset :
    nextSlotOffset32 (.ofNat (slotOffset k)) =
      .ofNat (slotOffset ((k + 1) % (narrowBlocks * slotsPerBlock))) := by
  have hnext : (k + 1) % (narrowBlocks * slotsPerBlock) < narrowBlocks * slotsPerBlock :=
    Nat.mod_lt _ (by decide)
  have haligned : SlotAligned (UInt64.ofNat (slotOffset k)).toNat := by
    rw [toNat_slotOffset h]
    exact slotAligned_slotOffset k
  apply UInt64.toNat_inj.mp
  rw [toNat_nextSlotOffset32 haligned, toNat_slotOffset h, toNat_slotOffset hnext, nextSlotptrOffset, nextSlotOffset,
    slotOffset_mod, slotOffset_div]
  unfold slotOffset narrowBlocks slotsPerBlock undoLogBlockHeaderSize sizeOfUndoSlot blcksz at *
  split_ifs <;> omega

end

/-- The slot pointer of a log after `n` calls of `get_next_slotptr`. -/
def slotptr (logno : Fin undologTotalCount) (n : Nat) : UInt64 :=
  getNextSlotptr^[n] (makeUndoRecPtr logno firstUndoOffset)

section Slotptr

variable (logno : Fin undologTotalCount)

theorem toNat_slotOffset_lt {k : Nat} (h : k < narrowBlocks * slotsPerBlock) :
    (UInt64.ofNat (slotOffset k)).toNat < 2 ^ 46 := by
  rw [toNat_slotOffset h]
  exact Nat.lt_trans (slotOffset_lt_two_pow h) (by decide)

theorem slotptr_eq (n : Nat) :
    slotptr logno n =
      makeUndoRecPtr logno (.ofNat (slotOffset (n % (narrowBlocks * slotsPerBlock)))) := by
  induction n with
  | zero => rfl
  | succ n ih =>
    have hn : n % (narrowBlocks * slotsPerBlock) < narrowBlocks * slotsPerBlock :=
      Nat.mod_lt _ (by decide)
    have hoff := toNat_slotOffset_lt hn
    have hstep : slotptr logno (n + 1) = getNextSlotptr (slotptr logno n) :=
      Function.iterate_succ_apply' ..
    rw [hstep, ih, getNextSlotptr, undoPtrGetLogNo_make logno.isLt hoff,
      undoPtrGetOffset_make logno.isLt hoff, nextSlotOffset32_slotOffset hn, Nat.mod_add_mod]

theorem undoPtrGetOffset_slotptr (n : Nat) :
    (undoPtrGetOffset (slotptr logno n)).toNat = slotOffset (n % (narrowBlocks * slotsPerBlock)) := by
  have hn : n % (narrowBlocks * slotsPerBlock) < narrowBlocks * slotsPerBlock :=
    Nat.mod_lt _ (by decide)
  rw [slotptr_eq, undoPtrGetOffset_make logno.isLt (toNat_slotOffset_lt hn), toNat_slotOffset hn]

/-- The step from the `n`-th slot pointer: the next slot is one of the same log behind all others. -/
structure AdvancesSlot (n : Nat) : Prop where
  same_log : (undoPtrGetLogNo (slotptr logno (n + 1))).toNat = logno
  forward : undoPtrGetOffset (slotptr logno n) < undoPtrGetOffset (slotptr logno (n + 1))
  inside : SlotAligned (undoPtrGetOffset (slotptr logno (n + 1))).toNat
  fresh : ∀ m ≤ n, slotptr logno m ≠ slotptr logno (n + 1)

/-- The pointers advance as long as the blocks of the slots have byte offsets of 32 bits. -/
theorem slot_pointers_advance_iff (n : Nat) :
    AdvancesSlot logno n ↔ n + 1 < narrowBlocks * slotsPerBlock := by
  constructor
  · intro h
    by_contra hge
    have hpos : 0 < narrowBlocks * slotsPerBlock := by decide
    have hle : (n + 1) % (narrowBlocks * slotsPerBlock) ≤ n := by
      have := Nat.mod_lt (n + 1) hpos
      omega
    apply h.fresh _ hle
    rw [slotptr_eq, slotptr_eq, Nat.mod_mod]
  · intro hlt
    have hoffset : ∀ m ≤ n + 1, (undoPtrGetOffset (slotptr logno m)).toNat = slotOffset m := by
      intro m hm
      rw [undoPtrGetOffset_slotptr, Nat.mod_eq_of_lt (Nat.lt_of_le_of_lt hm hlt)]
    constructor
    · rw [slotptr_eq, undoPtrGetLogNo_make logno.isLt (toNat_slotOffset_lt (Nat.mod_lt _ (by decide)))]
    · rw [UInt64.lt_iff_toNat_lt, hoffset n (Nat.le_succ n), hoffset (n + 1) (Nat.le_refl _)]
      exact slotOffset_lt (Nat.lt_succ_self n)
    · rw [hoffset (n + 1) (Nat.le_refl _)]
      exact slotAligned_slotOffset (n + 1)
    · intro m hm heq
      have hsame : slotOffset m = slotOffset (n + 1) := by
        rw [← hoffset m (Nat.le_succ_of_le hm), ← hoffset (n + 1) (Nat.le_refl _), heq]
      exact absurd hsame (Nat.ne_of_lt (slotOffset_lt (Nat.lt_succ_of_le hm)))

/-- After the last slot of block 524287 the first log hands out its first slot again. -/
theorem slot_pointers_wrap :
    slotptr ⟨0, by decide⟩ (narrowBlocks * slotsPerBlock - 1) = makeUndoRecPtr 0 4294967256 ∧
      getNextSlotptr (makeUndoRecPtr 0 4294967256) = makeUndoRecPtr 0 24 := by
  constructor
  · rw [slotptr_eq]
    rfl
  · decide

end Slotptr

def invalidBlockNumber : UInt32 := 0xFFFFFFFF

/-- `UndoBuffer`; `buf` is empty for `InvalidBuffer`. -/
structure UndoBuffer where
  buf : Option Nat
  blk : UInt32
  logno : Nat
  zero : Bool
  used : Bool

/-- The buffers of `UndoPrepareBuffers`, of which the first `currIdx` are in use. -/
structure UndoPrepareBuffers where
  ubuffers : Nat → UndoBuffer
  currIdx : Nat

namespace UndoPrepareBuffers

variable (up : UndoPrepareBuffers)

def find (blk : UInt32) : Option Nat := (List.range up.currIdx).find? fun i => (up.ubuffers i).blk == blk

def modify (i : Nat) (f : UndoBuffer → UndoBuffer) : UndoPrepareBuffers :=
  { up with ubuffers := Function.update up.ubuffers i (f (up.ubuffers i)) }

/-- Assign the fields of the next buffer and take it into use. -/
def add (f : UndoBuffer → UndoBuffer) : UndoPrepareBuffers :=
  { up.modify up.currIdx f with currIdx := up.currIdx + 1 }

end UndoPrepareBuffers

/-- What `xlog_undo_read_buffer_for_redo` answers: the WAL record has no reference to the block, the
file does not have it, or it is in a buffer. -/
inductive RedoRead where
  | noBlockRef
  | notFound
  | buffer (buf : Nat)
  deriving DecidableEq

inductive RedoLoadError where
  /-- `ERROR`: could not find block ref -/
  | noBlockRef (blk : UInt32)
  /-- `PANIC`: Space allocation tail is slower than blk -/
  | tailIsSlower (logno : Nat) (tail : UInt64) (blk : UInt32)

/-- `load_prepare_buffers_by_xlog`; `zero` stands for `RBM_ZERO_AND_LOCK`. -/
def loadPrepareBuffersByXlog (up : UndoPrepareBuffers) (logno : Nat) (ulog : UndoLogControl)
    (blk : UInt32) (read : UInt32 → RedoRead) (zero : Bool) :
    Except RedoLoadError (UndoPrepareBuffers × Nat) :=
  match up.find blk with
  | some i => .ok (up.modify i fun ub => { ub with used := true }, i)
  | none =>
    let discarded := up.add fun ub => { ub with buf := none, blk := invalidBlockNumber }
    if ulog.undoDataSeg.head ≤ (blk * 8192).toUInt64 ∧ (blk * 8192).toUInt64 < ulog.undoDataSeg.tail then
      match read blk with
      | .noBlockRef => .error (.noBlockRef blk)
      | .notFound => .ok (discarded, up.currIdx)
      | .buffer buf => .ok (up.add fun _ => ⟨some buf, blk, logno, zero, true⟩, up.currIdx)
    else if (blk * 8192).toUInt64 < ulog.undoDataSeg.head then .ok (discarded, up.currIdx)
    else .error (.tailIsSlower logno ulog.undoDataSeg.tail blk)

section Window

variable (up : UndoPrepareBuffers) (logno : Nat) (ulog : UndoLogControl) (read : UInt32 → RedoRead)
  (zero : Bool) (urp : UInt64)

/-- The byte offset of the block that holds the pointer. -/
def blockOffset : Nat := (undoPtrGetOffset urp).toNat / blcksz * blcksz

/-- The product of the code keeps the low 32 bits of the byte offset. -/
theorem toNat_blockNum_mul : (undoPtrGetBlockNum urp * 8192).toUInt64.toNat = blockOffset urp % 2 ^ 32 := by
  rw [UInt32.toNat_toUInt64, UInt32.toNat_mul, undoPtrGetBlockNum, UInt64.toNat_toUInt32, UInt64.toNat_div,
    blockOffset]
  simp only [UInt32.reduceToNat, UInt64.reduceToNat]
  unfold blcksz
  omega

/-- Replay passes over the block of the pointer only if its segment is gone, and finds it missing
only if its segment was not allocated. -/
structure KeepsLiveBlock : Prop where
  discarded : ∀ up' i,
    loadPrepareBuffersByXlog up logno ulog (undoPtrGetBlockNum urp) read zero = .ok (up', i) →
    (up'.ubuffers i).buf = none → blockOffset urp < ulog.undoDataSeg.head.toNat
  missing : ∀ logno' tail blk,
    loadPrepareBuffersByXlog up logno ulog (undoPtrGetBlockNum urp) read zero =
      .error (.tailIsSlower logno' tail blk) → ulog.undoDataSeg.tail.toNat ≤ blockOffset urp

/-- Nothing is taken for discarded: the block has a buffer already, or the low 32 bits of its offset
are not below the head of the segment and the file has it if they are below the tail. -/
def ReachesBlock : Prop :=
  match up.find (undoPtrGetBlockNum urp) with
  | some i => (up.ubuffers i).buf ≠ none
  | none => ulog.undoDataSeg.head.toNat ≤ blockOffset urp % 2 ^ 32 ∧
      (blockOffset urp % 2 ^ 32 < ulog.undoDataSeg.tail.toNat →
        read (undoPtrGetBlockNum urp) ≠ .notFound)

variable {up logno ulog read zero urp} in
theorem keepsLiveBlock_iff_of_ok {up' : UndoPrepareBuffers} {i : Nat}
    (h : loadPrepareBuffersByXlog up logno ulog (undoPtrGetBlockNum urp) read zero = .ok (up', i)) :
    KeepsLiveBlock up logno ulog read zero urp ↔
      ((up'.ubuffers i).buf = none → blockOffset urp < ulog.undoDataSeg.head.toNat) := by
  constructor
  · intro hkeeps
    exact hkeeps.discarded up' i h
  · intro hbuf
    constructor
    · intro up'' j hok
      rw [h] at hok
      cases hok
      exact hbuf
    · intro _ _ _ herr
      rw [h] at herr
      cases herr

variable {up logno ulog read zero urp} in
theorem keepsLiveBlock_of_error {e : RedoLoadError}
    (h : loadPrepareBuffersByXlog up logno ulog (undoPtrGetBlockNum urp) read zero = .error e)
    (htail : ∀ logno' tail blk, e = .tailIsSlower logno' tail blk →
      ulog.undoDataSeg.tail.toNat ≤ blockOffset urp) :
    KeepsLiveBlock up logno ulog read zero urp := by
  constructor
  · intro _ _ hok
    rw [h] at hok
    cases hok
  · intro logno' tail blk herr
    rw [h] at herr
    exact htail logno' tail blk (Except.error.inj herr)

@[simp] theorem UndoPrepareBuffers.buf_modify_used (i : Nat) :
    ((up.modify i fun ub => { ub with used := true }).ubuffers i).buf = (up.ubuffers i).buf := by
  simp [modify]

@[simp] theorem UndoPrepareBuffers.ubuffers_add (f : UndoBuffer → UndoBuffer) :
    (up.add f).ubuffers up.currIdx = f (up.ubuffers up.currIdx) := by
  simp [add, modify]

/-- A block that is live is kept exactly if the low 32 bits of its offset place it in the window too. -/
theorem keeps_live_block_iff :
    KeepsLiveBlock up logno ulog read zero urp ↔
      blockOffset urp < ulog.undoDataSeg.head.toNat ∨ ReachesBlock up ulog read urp := by
  have hlow := toNat_blockNum_mul urp
  have hmod : blockOffset urp % 2 ^ 32 ≤ blockOffset urp := Nat.mod_le _ _
  rw [ReachesBlock]
  cases hfind : up.find (undoPtrGetBlockNum urp) with
  | some i =>
    rw [keepsLiveBlock_iff_of_ok (by rw [loadPrepareBuffersByXlog, hfind]), up.buf_modify_used]
    tauto
  | none =>
    by_cases hhead : blockOffset urp % 2 ^ 32 < ulog.undoDataSeg.head.toNat
    · -- taken for discarded
      have hlt : (undoPtrGetBlockNum urp * 8192).toUInt64 < ulog.undoDataSeg.head := by
        rwa [UInt64.lt_iff_toNat_lt, hlow]
      have hnle : ¬ulog.undoDataSeg.head ≤ (undoPtrGetBlockNum urp * 8192).toUInt64 :=
        UInt64.not_le.mpr hlt
      rw [keepsLiveBlock_iff_of_ok (by
        simp only [loadPrepareBuffersByXlog, hfind, hnle, false_and, if_false, hlt, if_true]; rfl)]
      simp only [UndoPrepareBuffers.ubuffers_add, true_imp_iff, Nat.not_le.mpr hhead, false_and, or_false]
    · have hnlt : ¬(undoPtrGetBlockNum urp * 8192).toUInt64 < ulog.undoDataSeg.head := by
        rwa [UInt64.lt_iff_toNat_lt, hlow]
      have hle := UInt64.not_lt.mp hnlt
      by_cases htail : blockOffset urp % 2 ^ 32 < ulog.undoDataSeg.tail.toNat
      · have hin : (undoPtrGetBlockNum urp * 8192).toUInt64 < ulog.undoDataSeg.tail := by
          rwa [UInt64.lt_iff_toNat_lt, hlow]
        have hload : loadPrepareBuffersByXlog up logno ulog (undoPtrGetBlockNum urp) read zero =
            match read (undoPtrGetBlockNum urp) with
            | .noBlockRef => .error (.noBlockRef (undoPtrGetBlockNum urp))
            | .notFound =>
              .ok (up.add fun ub => { ub with buf := none, blk := invalidBlockNumber }, up.currIdx)
            | .buffer buf =>
              .ok (up.add fun _ => ⟨some buf, undoPtrGetBlockNum urp, logno, zero, true⟩, up.currIdx) := by
          simp only [loadPrepareBuffersByXlog, hfind, hle, hin, and_self, if_true]
        cases hread : read (undoPtrGetBlockNum urp) with
        | noBlockRef =>
          have hkeeps := keepsLiveBlock_of_error (by rw [hload, hread]) fun _ _ _ he => by cases he
          simp only [hkeeps, Nat.not_lt.mp hhead, ne_eq, reduceCtorEq, not_false_eq_true, implies_true,
            and_self, or_true]
        | notFound =>
          rw [keepsLiveBlock_iff_of_ok (by rw [hload, hread])]
          simp only [UndoPrepareBuffers.ubuffers_add, true_imp_iff, htail, ne_eq, not_true, and_false,
            or_false]
        | buffer buf =>
          rw [keepsLiveBlock_iff_of_ok (by rw [hload, hread])]
          simp only [UndoPrepareBuffers.ubuffers_add, reduceCtorEq, false_imp_iff, Nat.not_lt.mp hhead,
            ne_eq, not_false_eq_true, implies_true, and_self, or_true]
      · -- the panic: the exact offset is not below its low bits
        have hout : ¬(undoPtrGetBlockNum urp * 8192).toUInt64 < ulog.undoDataSeg.tail := by
          rwa [UInt64.lt_iff_toNat_lt, hlow]
        have hkeeps : KeepsLiveBlock up logno ulog read zero urp := by
          apply keepsLiveBlock_of_error
          · simp only [loadPrepareBuffersByXlog, hfind, hout, hnlt, and_false, if_false]
            rfl
          · intro _ _ _ _
            omega
        simp only [hkeeps, Nat.not_lt.mp hhead, htail, false_imp_iff, and_self, or_true]

end Window

/-- A log whose data segment is the one from block 524288 on. -/
def wideLog : UndoLogControl :=
  { initUndoLog with undoDataSeg := ⟨0, 4294967296, 4296015872, false⟩ }

/-- Its first block is live, and replay takes it for discarded. -/
theorem live_block_is_skipped :
    wideLog.undoDataSeg.head.toNat ≤ blockOffset (makeUndoRecPtr 0 4294967320) ∧
      (loadPrepareBuffersByXlog ⟨fun _ => ⟨none, 0, 0, false, false⟩, 0⟩ 0 wideLog
        (undoPtrGetBlockNum (makeUndoRecPtr 0 4294967320)) (fun _ => .buffer 1) false).toOption.map
          (fun r => (r.2, (r.1.ubuffers r.2).buf)) = some (0, none) := by
  decide

end XStore
