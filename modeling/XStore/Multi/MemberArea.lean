import XStore.Bytes.Memory
import Mathlib.Logic.Function.Basic

/-!
# Areas of multixact pages

The offsets area has one eight-byte entry for every multixact id. The members area has groups of four
members: a word with their status bytes, then their four transaction ids.
-/
namespace XStore

open Function

/-- The pages behind an `Xlru` control. -/
abbrev PageArea := Nat → Memory

namespace PageArea

/-- `XlruZeroPage` -/
def zeroPage (area : PageArea) (pageno : Nat) : PageArea := Function.update area pageno fun _ => 0

end PageArea

def xmultixactOffsetsPerPage : Nat := 8192 / 8

def offsetPage (multi : Nat) : Nat := multi / xmultixactOffsetsPerPage

def offsetEntry (multi : Nat) : Nat := multi % xmultixactOffsetsPerPage

namespace PageArea

variable (area : PageArea) (multi offset : Nat)

def readOffset : Nat := leNat ((area (offsetPage multi)).load (8 * offsetEntry multi) 8)

def writeOffset : PageArea :=
  Function.update area (offsetPage multi)
    ((area (offsetPage multi)).store (8 * offsetEntry multi) (leBytes 8 offset))

variable {area multi offset}

theorem readOffset_writeOffset (h : offset < 2 ^ 64) :
    (area.writeOffset multi offset).readOffset multi = offset := by
  have hself := Memory.load_store_self (area (offsetPage multi)) (8 * offsetEntry multi)
    (leBytes 8 offset)
  rw [leBytes_length] at hself
  simp only [readOffset, writeOffset, update_self, hself]
  exact leNat_leBytes (by simpa using h)

theorem readOffset_writeOffset_of_ne {multi' : Nat} (h : multi' ≠ multi) :
    (area.writeOffset multi offset).readOffset multi' = area.readOffset multi' := by
  unfold readOffset writeOffset
  by_cases hpage : offsetPage multi' = offsetPage multi
  · rw [hpage, update_self, Memory.load_store_of_disjoint]
    rw [leBytes_length]
    simp only [offsetPage, offsetEntry, xmultixactOffsetsPerPage] at hpage ⊢
    omega
  · rw [update_of_ne hpage]

theorem readOffset_zeroPage_of_ne {pageno : Nat} (h : offsetPage multi ≠ pageno) :
    (area.zeroPage pageno).readOffset multi = area.readOffset multi := by
  unfold readOffset zeroPage
  rw [update_of_ne h]

end PageArea

/-- `XMXACT_MEMBER_XACT_BITMASK` -/
def memberXactBitmask : BitVec 32 := 0xFF#32

def statusAt (w : BitVec 32) (i : Nat) : Nat := ((w >>> (8 * i)) &&& memberXactBitmask).toNat

def setStatus (w : BitVec 32) (i status : Nat) : BitVec 32 :=
  (w &&& ~~~(memberXactBitmask <<< (8 * i))) ||| (BitVec.ofNat 32 status <<< (8 * i))

theorem getLsbD_memberXactBitmask (k : Nat) : memberXactBitmask.getLsbD k = decide (k < 8) := by
  have h : memberXactBitmask = BitVec.ofNat 32 (2 ^ 8 - 1) := rfl
  rw [h, BitVec.getLsbD_ofNat, Nat.testBit_two_pow_sub_one]
  by_cases hk : k < 8
  · simp [hk, show k < 32 by omega]
  · simp [hk]

theorem getLsbD_status {status : Nat} (hs : status < 256) (k : Nat) :
    (BitVec.ofNat 32 status).getLsbD k = (decide (k < 8) && status.testBit k) := by
  rw [BitVec.getLsbD_ofNat]
  by_cases hk : k < 8
  · simp [hk, show k < 32 by omega]
  · have hpow : 256 ≤ 2 ^ k := Nat.pow_le_pow_right (i := 8) (n := 2) (by decide) (by omega)
    simp [hk, Nat.testBit_lt_two_pow (hs.trans_le hpow)]

variable {w : BitVec 32} {i status : Nat}

theorem getLsbD_setStatus (hs : status < 256) {k : Nat}
    (hk : k < 32) : (setStatus w i status).getLsbD k =
      if 8 * i ≤ k ∧ k < 8 * i + 8 then status.testBit (k - 8 * i) else w.getLsbD k := by
  simp only [setStatus, BitVec.getLsbD_or, BitVec.getLsbD_and, BitVec.getLsbD_not,
    BitVec.getLsbD_shiftLeft, getLsbD_memberXactBitmask, getLsbD_status hs, hk]
  by_cases hlt : k < 8 * i
  · simp [hlt]
  · by_cases h8 : k < 8 * i + 8
    · simp [hlt, h8, show k - 8 * i < 8 by omega, show 8 * i ≤ k by omega]
    · simp [hlt, h8, show ¬ k - 8 * i < 8 by omega]

theorem statusAt_eq {v w : BitVec 32} {i j : Nat}
    (h : ∀ k < 8, v.getLsbD (8 * i + k) = w.getLsbD (8 * j + k)) : statusAt v i = statusAt w j := by
  unfold statusAt
  congr 1
  apply BitVec.eq_of_getLsbD_eq
  intro k _
  simp only [BitVec.getLsbD_and, BitVec.getLsbD_ushiftRight, getLsbD_memberXactBitmask]
  by_cases hk : k < 8
  · rw [h k hk]
  · simp [hk]

theorem statusAt_ofNat {status : Nat} (hs : status < 256) :
    statusAt (BitVec.ofNat 32 status) 0 = status := by
  have hmask : memberXactBitmask.toNat = 2 ^ 8 - 1 := rfl
  simp only [statusAt, Nat.mul_zero, BitVec.ushiftRight_zero, BitVec.toNat_and, hmask,
    Nat.and_two_pow_sub_one_eq_mod, BitVec.toNat_ofNat]
  omega

theorem statusAt_setStatus (hi : i < 4) (hs : status < 256) :
    statusAt (setStatus w i status) i = status := by
  refine Eq.trans (statusAt_eq fun k hk => ?_) (statusAt_ofNat hs)
  rw [getLsbD_setStatus hs (by omega), if_pos (by omega), getLsbD_status hs]
  simp [hk]

theorem statusAt_setStatus_of_ne {i j status : Nat} (hj : j < 4) (hs : status < 256)
    (h : j ≠ i) : statusAt (setStatus w i status) j = statusAt w j := by
  refine statusAt_eq fun k hk => ?_
  rw [getLsbD_setStatus hs (by omega), if_neg (by omega)]

/-- `XMULTIXACT_MEMBERS_PER_MEMBERGROUP` -/
def membersPerGroup : Nat := 4

/-- `XMULTIXACT_MEMBERGROUP_SIZE` -/
def memberGroupSize : Nat := 8 * membersPerGroup + 4

/-- `XMULTIXACT_MEMBERGROUPS_PER_PAGE` -/
def groupsPerPage : Nat := 8192 / memberGroupSize

/-- `XMULTIXACT_MEMBERS_PER_PAGE` -/
def membersPerPage : Nat := groupsPerPage * membersPerGroup

def memberPage (offset : Nat) : Nat := offset / membersPerPage

def flagsOffset (offset : Nat) : Nat := offset / membersPerGroup % groupsPerPage * memberGroupSize

def memberInGroup (offset : Nat) : Nat := offset % membersPerGroup

def memberOffset (offset : Nat) : Nat := flagsOffset offset + 4 + memberInGroup offset * 8

theorem memberInGroup_lt (offset : Nat) : memberInGroup offset < 4 := Nat.mod_lt _ (by decide)

/-- Two members of one page are in different groups or at different places of one group. -/
theorem apart_of_ne {o o' : Nat} (h : o' ≠ o) (hpage : memberPage o' = memberPage o) :
    flagsOffset o' + memberGroupSize ≤ flagsOffset o ∨
      flagsOffset o + memberGroupSize ≤ flagsOffset o' ∨
      flagsOffset o' = flagsOffset o ∧ memberInGroup o' ≠ memberInGroup o := by
  simp only [memberPage, flagsOffset, memberInGroup, membersPerPage, groupsPerPage,
    memberGroupSize, membersPerGroup] at hpage ⊢
  omega

namespace PageArea

variable (area : PageArea) (offset : Nat)

def flagsWord : BitVec 32 :=
  BitVec.ofNat 32 (leNat ((area (memberPage offset)).load (flagsOffset offset) 4))

def readMember : Nat × Nat :=
  (leNat ((area (memberPage offset)).load (memberOffset offset) 8),
    statusAt (area.flagsWord offset) (memberInGroup offset))

def writeXid (xid : Nat) : PageArea :=
  Function.update area (memberPage offset)
    ((area (memberPage offset)).store (memberOffset offset) (leBytes 8 xid))

def writeFlags (w : BitVec 32) : PageArea :=
  Function.update area (memberPage offset)
    ((area (memberPage offset)).store (flagsOffset offset) (leBytes 4 w.toNat))

/-- One round of the loop of `RecordNewXMultiXact`. -/
def writeMember (xid status : Nat) : PageArea :=
  let area := area.writeXid offset xid
  area.writeFlags offset (setStatus (area.flagsWord offset) (memberInGroup offset) status)

variable {area offset} {xid status o : Nat} {w : BitVec 32}

theorem xid_writeXid (h : xid < 2 ^ 64) : ((area.writeXid offset xid).readMember offset).1 = xid := by
  have hself := Memory.load_store_self (area (memberPage offset)) (memberOffset offset)
    (leBytes 8 xid)
  rw [leBytes_length] at hself
  simp only [readMember, writeXid, update_self, hself]
  exact leNat_leBytes (by simpa using h)

theorem xid_writeXid_of_ne (h : o ≠ offset) :
    ((area.writeXid offset xid).readMember o).1 = (area.readMember o).1 := by
  unfold readMember writeXid
  by_cases hpage : memberPage o = memberPage offset
  · rw [hpage, update_self, Memory.load_store_of_disjoint]
    have hapart := apart_of_ne h hpage
    have ho := memberInGroup_lt o
    have ho' := memberInGroup_lt offset
    rw [leBytes_length]
    simp only [memberOffset, memberGroupSize, membersPerGroup] at hapart ⊢
    omega
  · rw [update_of_ne hpage]

/-- A transaction id is stored behind the flag word of its group. -/
theorem flagsWord_writeXid : (area.writeXid offset xid).flagsWord o = area.flagsWord o := by
  unfold flagsWord writeXid
  by_cases hpage : memberPage o = memberPage offset
  · rw [hpage, update_self, Memory.load_store_of_disjoint]
    have ho' := memberInGroup_lt offset
    rw [leBytes_length]
    by_cases he : o = offset
    · subst he
      simp only [memberOffset]
      omega
    · have hapart := apart_of_ne he hpage
      simp only [memberOffset, memberGroupSize, membersPerGroup] at hapart ⊢
      omega
  · rw [update_of_ne hpage]

theorem xid_writeFlags : ((area.writeFlags offset w).readMember o).1 = (area.readMember o).1 := by
  unfold readMember writeFlags
  by_cases hpage : memberPage o = memberPage offset
  · rw [hpage, update_self, Memory.load_store_of_disjoint]
    have ho := memberInGroup_lt o
    rw [leBytes_length]
    by_cases he : o = offset
    · subst he
      simp only [memberOffset]
      omega
    · have hapart := apart_of_ne he hpage
      simp only [memberOffset, memberGroupSize, membersPerGroup] at hapart ⊢
      omega
  · rw [update_of_ne hpage]

theorem flagsWord_writeFlags : (area.writeFlags offset w).flagsWord offset = w := by
  have hself := Memory.load_store_self (area (memberPage offset)) (flagsOffset offset)
    (leBytes 4 w.toNat)
  rw [leBytes_length] at hself
  simp only [flagsWord, writeFlags, update_self, hself]
  rw [leNat_leBytes w.isLt, BitVec.ofNat_toNat, BitVec.setWidth_eq]

theorem flagsWord_writeFlags_of_ne (h : memberPage o = memberPage offset →
    flagsOffset o + memberGroupSize ≤ flagsOffset offset ∨
      flagsOffset offset + memberGroupSize ≤ flagsOffset o) :
    (area.writeFlags offset w).flagsWord o = area.flagsWord o := by
  unfold flagsWord writeFlags
  by_cases hpage : memberPage o = memberPage offset
  · have hapart := h hpage
    rw [hpage, update_self, Memory.load_store_of_disjoint]
    rw [leBytes_length]
    simp only [memberGroupSize, membersPerGroup] at hapart
    omega
  · rw [update_of_ne hpage]

theorem readMember_writeMember (hx : xid < 2 ^ 64) (hs : status < 256) :
    (area.writeMember offset xid status).readMember offset = (xid, status) := by
  apply Prod.ext
  · exact xid_writeFlags.trans (xid_writeXid hx)
  · simp only [readMember, writeMember, flagsWord_writeFlags]
    exact statusAt_setStatus (memberInGroup_lt offset) hs

theorem readMember_writeMember_of_ne (hs : status < 256) (h : o ≠ offset) :
    (area.writeMember offset xid status).readMember o = area.readMember o := by
  apply Prod.ext
  · exact xid_writeFlags.trans (xid_writeXid_of_ne h)
  · simp only [readMember, writeMember]
    by_cases hsame : memberPage o = memberPage offset ∧ flagsOffset o = flagsOffset offset
    · -- the two members share their flag word
      have hin : memberInGroup o ≠ memberInGroup offset := by
        rcases apart_of_ne h hsame.1 with hap | hap | hap
        · simp only [memberGroupSize] at hap; omega
        · simp only [memberGroupSize] at hap; omega
        · exact hap.2
      have hword : ∀ a : PageArea, a.flagsWord o = a.flagsWord offset := fun a => by
        simp only [flagsWord, hsame.1, hsame.2]
      rw [hword, flagsWord_writeFlags, statusAt_setStatus_of_ne (memberInGroup_lt o) hs hin, ← hword,
        flagsWord_writeXid]
    · rw [flagsWord_writeFlags_of_ne, flagsWord_writeXid]
      intro hpage
      rcases apart_of_ne h hpage with hap | hap | hap
      · exact .inl hap
      · exact .inr hap
      · exact absurd ⟨hpage, hap.1⟩ hsame

theorem readMember_zeroPage_of_ne {pageno : Nat} (h : memberPage offset ≠ pageno) :
    (area.zeroPage pageno).readMember offset = area.readMember offset := by
  unfold readMember flagsWord zeroPage
  rw [update_of_ne h]

end PageArea

end XStore
