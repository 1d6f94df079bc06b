import XStore.Undo.Record

/-!
# Snapshots, transaction status and fetching undo records

What the visibility code of heap and index asks of its surroundings.  Transaction ids are the full
64-bit ones: the code truncates them, but only for ids that are not older than all undo.
-/
namespace XStore

/-- `SnapshotData` of an MVCC snapshot. -/
structure Snapshot where
  xmin : Nat
  xmax : Nat
  xip : List Nat
  subxip : List Nat
  suboverflowed : Bool
  takenDuringRecovery : Bool
  curcid : Nat
  deriving DecidableEq

/-- The session that reads, and the transaction status it finds. -/
structure ReadEnv where
  /-- `TransactionIdIsCurrentTransactionId` -/
  isCurrentTransactionId : Nat → Bool
  /-- `TransactionIdDidCommit` -/
  didCommit : Nat → Bool
  subTransGetTopmostTransaction : Nat → Nat
  currentCommandId : Nat
  currentCommandIdUsed : Bool
  globalFrozenXid : Nat

/-- `XidInMVCCSnapshot`.  The source cuts both ids to 32 bits and compares them within a window of `2 ^ 31`; here
they are whole, as they are while no running transaction is older than that. -/
def xidInMVCCSnapshot (env : ReadEnv) (xid : Nat) (s : Snapshot) : Bool :=
  if xid < s.xmin then false
  else if s.xmax ≤ xid then true
  else if !s.takenDuringRecovery then
    if !s.suboverflowed then s.subxip.contains xid || s.xip.contains xid
    else
      let top := env.subTransGetTopmostTransaction xid
      if top < s.xmin then false else s.xip.contains top
  else if s.suboverflowed then
    let top := env.subTransGetTopmostTransaction xid
    if top < s.xmin then false else s.subxip.contains top
  else s.subxip.contains xid

inductive XactStatus where
  | inProgress
  | committed
  | aborted
  deriving DecidableEq

/-- `xid_visible_in_snapshot`, with the value `*hint_status` has afterwards. -/
def xidVisibleInSnapshot (env : ReadEnv) (xid : Nat) (s : Snapshot) (hintStatus : XactStatus) :
    Bool × XactStatus :=
  if xidInMVCCSnapshot env xid s then (false, .inProgress)
  else match hintStatus with
    | .committed => (true, .committed)
    | .aborted => (false, .aborted)
    | .inProgress => if env.didCommit xid then (true, .committed) else (false, .aborted)

/-- A transaction's changes are in the snapshot, whatever the command: it is not the reader's own,
had ended when the snapshot was taken, and committed. -/
def ReadEnv.sees (env : ReadEnv) (s : Snapshot) (xid : Nat) : Bool :=
  !xidInMVCCSnapshot env xid s && env.didCommit xid

/-- A change by command `cid` of transaction `xid` is visible: of the reader's own transaction from the
next command on, of another one if the snapshot sees it. -/
def ReadEnv.visible (env : ReadEnv) (s : Snapshot) (xid cid : Nat) : Bool :=
  if env.isCurrentTransactionId xid then decide (cid < s.curcid) else env.sees s xid

/-- The visibility code wants the command id of an own change. -/
def ReadEnv.asksCid (env : ReadEnv) (s : Snapshot) : Bool :=
  env.currentCommandIdUsed || env.currentCommandId != s.curcid

/-- What holds of every change a reader meets.  A transaction older than all undo has committed
before every snapshot; the commands of the reader's own are those up to the current one, which counts
as used once it has written. -/
structure ReadEnv.Meets (env : ReadEnv) (s : Snapshot) (xid cid : Nat) : Prop where
  older_seen : olderThanAllUndo env.globalFrozenXid xid = true →
    env.isCurrentTransactionId xid = false ∧ env.sees s xid = true
  cid_le : env.isCurrentTransactionId xid = true → cid ≤ env.currentCommandId
  cid_used : env.isCurrentTransactionId xid = true → cid = env.currentCommandId →
    env.currentCommandIdUsed = true

namespace ReadEnv.Meets

variable {env : ReadEnv} {s : Snapshot} {xid cid : Nat}

theorem visible_of_older (h : env.Meets s xid cid)
    (hold : olderThanAllUndo env.globalFrozenXid xid = true) : env.visible s xid cid = true := by
  obtain ⟨hcur, hsees⟩ := h.older_seen hold
  simp [ReadEnv.visible, hcur, hsees]

/-- When no command id is wanted, every own change is visible. -/
theorem lt_of_not_asksCid (h : env.Meets s xid cid) (hcur : env.isCurrentTransactionId xid = true)
    (hask : env.asksCid s = false) : cid < s.curcid := by
  simp only [ReadEnv.asksCid, Bool.or_eq_false_iff, bne_eq_false_iff_eq] at hask
  obtain ⟨hunused, hcid⟩ := hask
  have hle := h.cid_le hcur
  have hne : cid ≠ env.currentCommandId := by
    intro heq
    rw [h.cid_used hcur heq] at hunused
    cases hunused
  omega

end ReadEnv.Meets

/-- A hint that is set says what became of the transaction. -/
def XactStatus.Tells (env : ReadEnv) (xid : Nat) : XactStatus → Prop
  | .inProgress => True
  | .committed => env.didCommit xid = true
  | .aborted => env.didCommit xid = false

theorem xidVisibleInSnapshot_fst {env : ReadEnv} {xid : Nat} {hint : XactStatus}
    (h : hint.Tells env xid) (s : Snapshot) :
    (xidVisibleInSnapshot env xid s hint).1 = env.sees s xid := by
  unfold xidVisibleInSnapshot ReadEnv.sees
  cases xidInMVCCSnapshot env xid s with
  | true => rfl
  | false =>
    cases hint with
    | inProgress => cases env.didCommit xid <;> rfl
    | committed => simpa using h.symm
    | aborted => simpa using h.symm

/-- `XVersionSelector`; the index has a copy of it under another name. -/
inductive XVersionSelector where
  | none
  | current
  | older
  | checkCid
  deriving DecidableEq

def invalidCommandId : Nat := 2 ^ 32 - 1

inductive FetchError where
  | forceDiscarded
  | snapshotTooOld
  | invalidCid
  deriving DecidableEq

section Fetch

variable {β : Type*}

/-- What `load_undo_record` finds behind an undo record pointer. -/
inductive UndoLoad (β : Type*) where
  | normal (u : UnpackedUndoRecord β)
  | discard
  | forceDiscard
  | invalid

/-- `UndoTraversalState` of a finished search, with the record it ended on. -/
inductive UndoTraversal (β : Type*) where
  | complete (u : UnpackedUndoRecord β)
  | ended
  | abort

def satisfyUndoRecord (u : UnpackedUndoRecord β) (xid : Nat) : Bool :=
  decide (xid = invalidXid) || decide (xid = u.uurXid)

/-- `fetch_undo_record` outside recovery and without `need_bypass`: go down the chain of the row to
a record of `xid`. -/
def fetchUndoRecord (load : Nat → UndoLoad β) (xid : Nat) : Nat → Nat → Option (UndoTraversal β)
  | 0, _ => none
  | fuel + 1, urp =>
    match load urp with
    | .discard => some .ended
    | .invalid => some .ended
    | .forceDiscard => some .abort
    | .normal u =>
      if satisfyUndoRecord u xid then some (.complete u)
      else fetchUndoRecord load xid fuel u.uurTpprevurp

/-- The command id `fetch_transinfo_from_undo` stores: only a search that ends on a record does. -/
def UndoTraversal.cid (old : Nat) : UndoTraversal β → Nat
  | .complete u => u.uurCid
  | _ => old

theorem fetchUndoRecord_normal {load : Nat → UndoLoad β} {urp xid : Nat}
    {u : UnpackedUndoRecord β} (h : load urp = .normal u) (hx : xid = invalidXid ∨ xid = u.uurXid)
    (fuel : Nat) : fetchUndoRecord load xid (fuel + 1) urp = some (.complete u) := by
  have hsat : satisfyUndoRecord u xid = true := by
    unfold satisfyUndoRecord
    rcases hx with rfl | rfl
    · simp
    · simp
  simp [fetchUndoRecord, h, hsat]

end Fetch

/-- Transaction 7 reads after two commands that wrote; of the others, 5 has committed. -/
def readerSeven : ReadEnv where
  isCurrentTransactionId := fun xid => xid == 7
  didCommit := fun xid => xid == 5
  subTransGetTopmostTransaction := id
  currentCommandId := 2
  currentCommandIdUsed := false
  globalFrozenXid := 3

/-- A cursor of transaction 7, opened when `curcid` was its command. -/
def cursorOfSeven (curcid : Nat) : Snapshot := ⟨6, 8, [], [], false, false, curcid⟩

end XStore
