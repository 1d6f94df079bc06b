import Mathlib.Algebra.Order.Ring.Nat
import Mathlib.Data.List.Basic
import XStore.Heap.Tuple

/-!
# Unpacked undo records

`UnpackedUndoRecord` with the fields the rollback and visibility code reads.  The record type and
its raw payload are one value, so that a record cannot carry the payload of another type; heap
and index records share the rest.
-/
namespace XStore

structure UnpackedUndoRecord (β : Type*) where
  uurXid : Nat
  uurCid : Nat
  uurReloid : Nat
  uurRelfilenode : Nat
  uurTablespace : Nat
  uurBlkno : Nat
  uurOffset : Nat
  uurTpprevurp : Nat
  uurPrevxid : Nat
  uurDataheaderflag : Flag
  /-- `UREC_INFO_SUBXACT` with its `uur_subxid`; the field reads as zero without the flag. -/
  uurSubxid : Option Nat
  body : β
  uurUrp : Nat
  bufferIdx : Nat
  deriving DecidableEq, Inhabited

/-- `uur_subxid.value`, which stays zero in a record without `UREC_INFO_SUBXACT`. -/
def UnpackedUndoRecord.subxidValue {β : Type*} (u : UnpackedUndoRecord β) : Nat :=
  u.uurSubxid.getD 0

/-- The raw data of an in-place update record: the old `t_hoff`, the old bytes from the flag word
up to `t_hoff`, the lengths shared with the new version (present with `UREC_XOR_PREFIX` and
`UREC_XOR_SUFFIX`), and the old column bytes between them. -/
structure InplaceDelta where
  tHoff : Nat
  flag : Flag
  flag2 : Flag
  bits : List UInt8
  prefixlen : Option Nat
  suffixlen : Option Nat
  oldData : List UInt8
  deriving DecidableEq

/-- `uur_type` with the raw data of that type, for records of heap relations. -/
inductive HeapUndo where
  | insert
  | multiInsert (startOffset endOffset : Nat)
  | delete
  | update (ctid : Nat × Nat)
  | inplaceUpdate (delta : InplaceDelta)
  /-- Any other type code. -/
  | other
  deriving DecidableEq, Inhabited

abbrev HeapRecord := UnpackedUndoRecord HeapUndo

def HeapUndo.isMultiInsert : HeapUndo → Bool
  | .multiInsert _ _ => true
  | _ => false

/-- The result of applying one record: `ROLLBACK_ROK` or `ROLLBACK_RSWITCH`. -/
inductive RollbackResult where
  | rok
  | rswitch
  deriving DecidableEq

/-- The global state that rollback reads: `global_frozen_xid` and
`SubTransGetTopmostTransaction` on 32-bit transaction ids. -/
structure RollbackEnv where
  globalFrozenXid : Nat
  subTransGetTopmostTransaction : Nat → Nat

/-- `TransactionIdOlderThanAllUndo`; in recovery the horizon is `hot_standby_frozen_xid`. -/
def olderThanAllUndo (globalFrozenXid xid : Nat) : Bool :=
  decide (xid = frozenXid) || decide (xid < globalFrozenXid)

/-- `XidFromFullTransactionId` -/
def xidFromFull (x : Nat) : Nat := x % 2 ^ 32

structure XactState where
  /-- `GetTopFullTransactionId` -/
  topXid : Nat
  /-- The ids of the open subtransactions, innermost first; zero until one is assigned. -/
  nesting : List Nat
  sub_ne_top : ∀ x ∈ nesting, x ≠ topXid

namespace XactState

def isSubTransaction (xs : XactState) : Bool := !xs.nesting.isEmpty

/-- The id of the current transaction, which is put on every WAL record. -/
def currentXid (xs : XactState) : Nat := xs.nesting.headD xs.topXid

theorem currentXid_eq_topXid_iff (xs : XactState) :
    xs.currentXid = xs.topXid ↔ xs.isSubTransaction = false := by
  unfold currentXid isSubTransaction
  cases hn : xs.nesting with
  | nil => simp
  | cons x rest =>
    have hne := xs.sub_ne_top x (by simp [hn])
    simp [hne]

end XactState

/-- Transaction 7 inside a savepoint whose subtransaction has id 9. -/
def insideSavepoint : XactState := ⟨7, [9], by decide⟩

def atTopLevel : XactState := ⟨7, [], by decide⟩

end XStore
