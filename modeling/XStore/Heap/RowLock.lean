import XStore.Heap.Tuple

/-!
# The lock bits of a row

The lock state of a row is four bits of its flag word and `locker_xid`, which is a transaction, a
subtransaction, or, with `XHEAP_MULTI_LOCKERS`, a multixact.
-/
namespace XStore

def xheapXidShrLock : Flag := 0x0300#16
def xheapSingleLockMask : Flag := 0x0700#16

/-- `XHEAP_XID_IS_SHR_LOCKED` -/
def Flag.isShrLocked (f : Flag) : Bool := f &&& xheapSingleLockMask == xheapXidShrLock

/-- What the code asks about lockers on behalf of the current (sub)transaction. -/
structure LockerEnv where
  /-- The current subtransaction. -/
  subxid : Nat
  globalFrozenXid : Nat
  /-- `TransactionIdIsCurrentTransactionId` -/
  isCurrent : Nat → Bool
  /-- `XMultiXactIdIsCurrent` with the member it finds. -/
  currentMember : Nat → Option Nat

/-- `is_parent_hold_share_lock` inside a subtransaction. -/
def isParentHoldShareLock (e : LockerEnv) (flag : Flag) (locker : Nat) : Bool :=
  if flag.has xheapMultiLockers then (e.currentMember locker).isSome
  else flag.isShrLocked && e.isCurrent locker

/-- `xheap_keep_subtxn_lock`: the flag word and, where it is written, `locker_xid` of a row that a
subtransaction changes. -/
def xheapKeepSubtxnLock (e : LockerEnv) (flag : Flag) (locker : Nat) : Flag × Option Nat :=
  if flag.has xheapMultiLockers then
    match e.currentMember locker with
    | some member => ((flag &&& ~~~xheapLockStatusMask) ||| xheapXidExclLock, some member)
    | none => (flag &&& ~~~xheapLockStatusMask, some invalidXid)
  else if e.globalFrozenXid ≤ locker ∧ locker ≠ e.subxid ∧ e.isCurrent locker then
    ((flag &&& ~~~xheapLockStatusMask) ||| xheapXidExclLock, none)
  else (flag &&& ~~~xheapLockStatusMask, some invalidXid)

end XStore
