import XStore.Redo.HeapLog

/-!
# Lock bits in undo records

An undo record has no room for `locker_xid`, so its flags should come without lock bits: a rollback
at top level puts the flag word back and leaves `locker_xid` alone.
-/
namespace XStore

open List

def HeapUndo.payloadFlag : HeapUndo → Flag
  | .inplaceUpdate delta => delta.flag
  | _ => 0#16

/-- Neither the data-header flag nor the raw data have lock bits. -/
structure LockFree (u : HeapRecord) : Prop where
  dataheader : u.uurDataheaderflag &&& xheapLockStatusMask = 0#16
  payload : u.body.payloadFlag &&& xheapLockStatusMask = 0#16

/-- The tuple that the record restores in a row; undoing an insert restores none. -/
def undoneTuple (env : RollbackEnv) (u : HeapRecord) (r : Row) : Option XHeapDiskTuple :=
  match u.body with
  | .delete => some (undoDeleteTuple env u r.tup)
  | .update _ => some (undoUpdateTuple env u r.tup)
  | .inplaceUpdate delta => some (undoInplaceTuple env u delta r)
  | _ => none

/-- Rolling the record back at top level shows no lock flag. -/
def RollsBackUnlocked (u : HeapRecord) : Prop :=
  u.uurSubxid = none → ∀ env r, ∀ t ∈ undoneTuple env u r, t.flag &&& xheapLockStatusMask = 0#16

/-- The records of a change, those on the primary and those rebuilt from its WAL record. -/
def HeapWrite.allRecords (h : HeapWrite) (w : HeapWalRecord) : List HeapRecord :=
  h.records ++ xheapXlogUndo w

def StoresNoLockBits (h : HeapWrite) (w : HeapWalRecord) : Prop :=
  ∀ u ∈ h.allRecords w, LockFree u ∧ RollsBackUnlocked u

/-- The old row is deleted without lock bits, or updated in place. -/
def SingleRowOp.KeepsLocksOut : SingleRowOp → Prop
  | .insert _ _ _ => True
  | .delete _ _ r => r.tup.flag &&& xheapLockStatusMask = 0#16
  | .inplaceUpdate _ _ _ _ => True
  | .update _ _ _ _ _ _ _ _ => False

section Records

variable {u : HeapRecord} {h : HeapWrite} {w : HeapWalRecord}

/-- A record without subtransaction puts its own flag word back. -/
theorem LockFree.rollsBackUnlocked (hu : LockFree u) : RollsBackUnlocked u := by
  intro hsub env r t ht
  cases hbody : u.body with
  | delete =>
    simp only [undoneTuple, hbody, Option.mem_def, Option.some.injEq] at ht
    subst ht
    simpa [undoDeleteTuple, undoKeepSubtxnLock, hsub] using hu.dataheader
  | update ctid =>
    simp only [undoneTuple, hbody, Option.mem_def, Option.some.injEq] at ht
    subst ht
    simpa [undoUpdateTuple, undoKeepSubtxnLock, hsub] using hu.dataheader
  | inplaceUpdate delta =>
    simp only [undoneTuple, hbody, Option.mem_def, Option.some.injEq] at ht
    subst ht
    have hflag := hu.payload
    rw [hbody] at hflag
    simpa [undoInplaceTuple, undoKeepSubtxnLock, hsub, HeapUndo.payloadFlag] using hflag
  | _ => simp [undoneTuple, hbody] at ht

/-- Where the records are free of lock bits: all of them but those of a non-in-place update, and of
the delete of a row with lock bits the rebuilt one. -/
theorem lockFree_records (hw : h.wal = .ok w) (hk : h.op.KeepsLocksOut) :
    ∀ u ∈ h.allRecords w, LockFree u := by
  unfold HeapWrite.wal at hw
  cases hop : h.op with
  | insert newtup off maxOffset =>
    simp only [hop, Except.ok.injEq] at hw
    subst hw
    simp only [HeapWrite.allRecords, HeapWrite.records, hop, xheapXlogUndo, HeapWrite.walRecord,
      cons_append, nil_append, forall_mem_cons]
    exact ⟨⟨BitVec.zero_and, BitVec.zero_and⟩, ⟨BitVec.zero_and, BitVec.zero_and⟩, by simp⟩
  | delete off changingPart r =>
    simp only [hop, Except.ok.injEq] at hw
    rw [hop] at hk
    subst hw
    simp only [HeapWrite.allRecords, HeapWrite.records, hop, xheapXlogUndo, HeapWrite.walRecord,
      cons_append, nil_append, forall_mem_cons]
    exact ⟨⟨unlocked_without_locks _, BitVec.zero_and⟩, ⟨hk, BitVec.zero_and⟩, by simp⟩
  | inplaceUpdate off r newtup needsBackup =>
    simp only [hop] at hw
    obtain ⟨x, hx, rfl⟩ := map_ok hw
    obtain ⟨r', -, rfl⟩ := map_ok hx
    simp only [HeapWrite.allRecords, HeapWrite.records, hop, xheapXlogUndo, HeapWrite.walRecord,
      cons_append, nil_append, forall_mem_cons]
    exact ⟨⟨BitVec.zero_and, unlocked_without_locks _⟩,
      ⟨BitVec.zero_and, unlocked_without_locks _⟩, by simp⟩
  | update off r lockerIsUs newtup newBlkno newOff maxOffset needsBackup =>
    rw [hop] at hk
    exact hk.elim

/-- Undo records are free of lock bits, and so is what they restore, exactly for inserts, in-place
updates and deletes of rows without lock bits. -/
theorem undo_stores_no_lock_bits_iff (h : HeapWrite) (w : HeapWalRecord) (hw : h.wal = .ok w) :
    StoresNoLockBits h w ↔ h.op.KeepsLocksOut := by
  constructor
  · intro hall
    unfold HeapWrite.wal at hw
    cases hop : h.op with
    | insert newtup off maxOffset => trivial
    | inplaceUpdate off r newtup needsBackup => trivial
    | delete off changingPart r =>
      simp only [hop, Except.ok.injEq] at hw
      subst hw
      -- the rebuilt record is the one with the flag of the row
      have hrow := hall _ (List.mem_append_right _ (List.mem_singleton_self _))
      exact hrow.1.dataheader
    | update off r lockerIsUs newtup newBlkno newOff maxOffset needsBackup =>
      have hmem : { updateRecord h.toOpCtx off lockerIsUs (newBlkno, newOff) r.tup with
          uurSubxid := h.recordSubxid } ∈ h.allRecords w := by
        simp [HeapWrite.allRecords, HeapWrite.records, hop]
      exact lockForUpdate_locked h.toOpCtx lockerIsUs r.tup (hall _ hmem).1.dataheader
  · intro hk u hu
    have hfree := lockFree_records hw hk u hu
    exact ⟨hfree, hfree.rollsBackUnlocked⟩

end Records

/-- An in-place update, inside subtransaction 8, of a row that the transaction has locked. -/
def updateAfterLock : HeapWrite :=
  ⟨writeBySeventh [8] (by decide) 4,
    .inplaceUpdate 1 (frozenRow xheapXidExclLock 7) ⟨0, 0, 0, 0#16, 1#16, 32, [0, 0, 0, 43]⟩ false,
    by decide⟩

theorem inplace_update_stores_no_lock_bits :
    ∃ w, updateAfterLock.wal = .ok w ∧ StoresNoLockBits updateAfterLock w :=
  ⟨_, rfl, (undo_stores_no_lock_bits_iff updateAfterLock _ rfl).mpr trivial⟩

/-- A non-in-place update at top level of a row that nobody has locked. -/
def updateOfUnlockedRow : HeapWrite :=
  ⟨writeBySeventh [] seventh_not_nested 4,
    .update 1 (frozenRow 0#16 0) false ⟨0, 0, 0, 0#16, 1#16, 32, [0, 0, 0, 43, 44]⟩ 1 3 3 false,
    by decide⟩

/-- The record of the old row has the lock bit, on the primary and after redo, and rolling it back
leaves the row locked with an invalid `locker_xid`. -/
theorem update_rollback_shows_lock_bit :
    updateOfUnlockedRow.records.map (·.uurDataheaderflag) = [xheapXidExclLock, 0#16] ∧
    (∃ w, updateOfUnlockedRow.wal = .ok w ∧
      (xheapXlogUndo w).map (·.uurDataheaderflag) = [xheapXidExclLock, 0#16]) ∧
    ∀ env, ∀ u ∈ updateOfUnlockedRow.records.head?,
      let locked := updateOfUnlockedRow.lockOld false (frozenRow 0#16 0).tup
      let t := undoUpdateTuple env u (updateOfUnlockedRow.markOld xheapUpdated locked)
      t.flag = xheapXidExclLock ∧ t.lockerXid = invalidXid := by
  refine ⟨by decide, ⟨_, rfl, rfl⟩, ?_⟩
  intro env u hu
  obtain rfl := Option.some.inj hu
  exact ⟨rfl, rfl⟩

end XStore
