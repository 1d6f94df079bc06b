import XStore.Bytes.Memory
import XStore.Heap.Tuple

/-!
# The header of a disk tuple in the page

Where the fields of `XHeapDiskTupleData` stand in the bytes of a row.
-/
namespace XStore

/-- The offsets of the header fields of `XHeapDiskTupleData`. -/
def offModifiedXid : Nat := 0
def offLockerXid : Nat := 8
def offUrec : Nat := 16
def offFlag : Nat := 24
def offFlag2 : Nat := 26
def offTHoff : Nat := 28

/-- The disk tuple that the bytes at `a` are, for a row of length `n`. -/
def tupleAt (m : Memory) (a n : Nat) : XHeapDiskTuple where
  modifiedXid := leNat (m.load (a + offModifiedXid) 8)
  lockerXid := leNat (m.load (a + offLockerXid) 8)
  urec := leNat (m.load (a + offUrec) 8)
  flag := BitVec.ofNat 16 (leNat (m.load (a + offFlag) 2))
  flag2 := BitVec.ofNat 16 (leNat (m.load (a + offFlag2) 2))
  tHoff := leNat (m.load (a + offTHoff) 1)
  body := m.load (a + sizeOfXHeapDiskTupleData) (n - sizeOfXHeapDiskTupleData)

end XStore
