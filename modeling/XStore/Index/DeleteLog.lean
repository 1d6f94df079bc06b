import XStore.Index.Rollback
import XStore.Index.Visibility
import XStore.Redo.HeapWal

/-!
# What an index delete writes

`_xbt_deleteonpage` first rolls back an aborted delete of the entry that is still on the page, then
writes an undo record and a WAL record and marks the entry.  Replay rebuilds the undo record from
the WAL record and marks the entry again.
-/
namespace XStore

variable {K T : Type*}

/-- What a delete asks about transactions and the undo log. -/
structure SettleEnv (K T : Type*) where
  /-- `TransactionIdIsCurrentTransactionId` -/
  isCurrentTransactionId : Nat → Bool
  /-- `xstore_transaction_id_is_in_progress` -/
  isInProgress : Nat → Bool
  /-- `xstore_transaction_id_did_commit` -/
  didCommit : Nat → Bool
  /-- The record of a transaction that `fetch_undo_record` finds from a pointer on, where the
  search is complete. -/
  fetch : Nat → Nat → Option (IndexRecord K T)

def executeUndoDeleteXbtreePage (u : IndexRecord K T) (e : IndexEntry K T) (h : LeafHeader) :
    IndexEntry K T × LeafHeader :=
  if e.modifiedXid ≠ u.uurXid then (e, h)
  else ({ e with lp := .normal, modifiedXid := u.uurPrevxid, urec := u.uurTpprevurp }, h.noteInsert)

def xbtTupleSatisfiesUpdate (env : SettleEnv K T) (e : IndexEntry K T) (h : LeafHeader) :
    IndexEntry K T × LeafHeader :=
  if e.lp ≠ .normal ∧ e.lp ≠ .deleted then (e, h)
  else if xbtreeOperFromLp e.lp = .gone then
    if env.isCurrentTransactionId e.modifiedXid then (e, h)
    else if env.isInProgress e.modifiedXid then (e, h)
    else if env.didCommit e.modifiedXid then (e, h)
    else
      match env.fetch e.modifiedXid e.urec with
      | none => (e, h)
      | some u => executeUndoDeleteXbtreePage u e h
  else (e, h)

/-- A delete with its surroundings.  Inside a subtransaction `GetCurrentFullTransactionId` has
assigned the id it is asked for. -/
structure IndexDelete where
  xact : XactState
  assigned : xact.isSubTransaction = true → xact.currentXid ≠ invalidXid
  cid : Nat
  reloid : Nat
  relfilenode : Nat
  tablespace : Nat
  blkno : Nat
  offset : Nat
  urecptr : Nat
  /-- `get_current_tansaction_undorec_ptr` -/
  txnUrp : Nat
  /-- `check_need_switch_undolog` -/
  needSwitch : Bool
  isDead : Bool

structure XlXbtreeDelete where
  xid : Nat
  oldxid : Nat
  offset : Nat
  deriving DecidableEq

/-- The WAL record of a delete: the id that every record carries, the block, and the data. -/
structure IndexDeleteWal (K T : Type*) where
  recordXid : Nat
  relfilenode : Nat
  tablespace : Nat
  blkno : Nat
  delete : XlXbtreeDelete
  undo : XlUndoHeader
  key : K
  tid : T
  deriving DecidableEq

/-- The page and the records after a delete; `settled` is the entry just before it is marked. -/
structure IndexDeleted (K T : Type*) where
  settled : IndexEntry K T
  entry : IndexEntry K T
  header : LeafHeader
  record : IndexRecord K T
  wal : IndexDeleteWal K T

namespace IndexDelete

def opCtx (d : IndexDelete) : IndexOpCtx where
  xid := d.xact.topXid
  cid := d.cid
  reloid := d.reloid
  relfilenode := d.relfilenode
  tablespace := d.tablespace
  subxid := if d.xact.isSubTransaction then some d.xact.currentXid else none
  urp := d.urecptr

/-- The WAL record; `oldXid` was read before the entry was settled. -/
def wal (d : IndexDelete) (oldXid : Nat) (settled : IndexEntry K T) : IndexDeleteWal K T where
  recordXid := d.xact.currentXid
  relfilenode := d.relfilenode
  tablespace := d.tablespace
  blkno := d.blkno
  delete := ⟨d.xact.topXid, oldXid, d.offset⟩
  undo :=
    { urecptr := d.urecptr
      relOid := d.reloid
      blkprev := if settled.urec = invalidUndoRecPtr then none else some settled.urec
      prevurp := if d.needSwitch then some d.txnUrp else none
      topXid := if d.xact.isSubTransaction then some d.xact.topXid else none }
  key := settled.key
  tid := settled.tid

end IndexDelete

def xbtDeleteonpage (env : SettleEnv K T) (d : IndexDelete) (e : IndexEntry K T) (h : LeafHeader) :
    IndexDeleted K T :=
  let oldXid := e.modifiedXid
  let settled := xbtTupleSatisfiesUpdate env e h
  let marked := settled.1.markDeleted d.xact.topXid d.urecptr
  { settled := settled.1
    entry := if d.isDead then { marked with lp := .dead } else marked
    header := settled.2.noteDelete d.xact.topXid
    record := d.opCtx.deleteRecord d.blkno settled.1
    wal := d.wal oldXid settled.1 }

def xbtRedoUndoDelete (w : IndexDeleteWal K T) : IndexRecord K T where
  uurXid := w.undo.topXid.getD w.recordXid
  uurCid := 0
  uurReloid := w.undo.relOid
  uurRelfilenode := w.relfilenode
  uurTablespace := w.tablespace
  uurBlkno := w.blkno
  uurOffset := w.delete.offset
  uurTpprevurp := w.undo.blkprev.getD invalidUndoRecPtr
  uurPrevxid := w.delete.oldxid
  uurDataheaderflag := 0#16
  uurSubxid := if w.undo.topXid.isSome then some w.recordXid else none
  body := .delete w.key w.tid
  uurUrp := w.undo.urecptr
  bufferIdx := 0

/-- `needsRedo` is `BLK_NEEDS_REDO`: the block was not restored from a full-page image, and the page on
disk is older than the record. -/
def xbtreeXlogDelete (w : IndexDeleteWal K T) (needsRedo : Bool) (e : IndexEntry K T) (h : LeafHeader) :
    IndexEntry K T × LeafHeader :=
  if needsRedo then
    ({ e with lp := .deleted, modifiedXid := w.recordXid, urec := w.undo.urecptr },
      { h with
        activeCount := h.activeCount - 1
        lastDeleteXid := if h.lastDeleteXid < w.delete.xid then w.delete.xid else h.lastDeleteXid })
  else (e, h)

section Delete

variable (env : SettleEnv K T) (d : IndexDelete) (e : IndexEntry K T) (h : LeafHeader)

/-- The entry carries the delete of a transaction that ended without committing, and `u` is the record
with which the delete is undone. -/
def SettleEnv.RollsBack (env : SettleEnv K T) (e : IndexEntry K T) (u : IndexRecord K T) : Prop :=
  e.lp = .deleted ∧ env.isCurrentTransactionId e.modifiedXid = false ∧
    env.isInProgress e.modifiedXid = false ∧ env.didCommit e.modifiedXid = false ∧
    env.fetch e.modifiedXid e.urec = some u ∧ u.uurXid = e.modifiedXid

/-- The entry before the mark: rolled back, or as it was found. -/
theorem xbtTupleSatisfiesUpdate_cases :
    (∃ u, env.RollsBack e u ∧ (xbtTupleSatisfiesUpdate env e h).1 =
        { e with lp := .normal, modifiedXid := u.uurPrevxid, urec := u.uurTpprevurp }) ∨
      (xbtTupleSatisfiesUpdate env e h).1 = e ∧ ∀ u, ¬ env.RollsBack e u := by
  by_cases hroll : ∃ u, env.RollsBack e u
  · obtain ⟨u, hu⟩ := hroll
    refine .inl ⟨u, hu, ?_⟩
    obtain ⟨hlp, hcur, hprog, hcommit, hfetch, hxid⟩ := hu
    simp [xbtTupleSatisfiesUpdate, xbtreeOperFromLp, executeUndoDeleteXbtreePage, hlp, hcur, hprog,
      hcommit, hfetch, hxid]
  · refine .inr ⟨?_, fun u hu => hroll ⟨u, hu⟩⟩
    unfold xbtTupleSatisfiesUpdate
    split_ifs with hlp hgone hcur hprog hcommit
    · rfl
    · rfl
    · rfl
    · rfl
    · cases hfetch : env.fetch e.modifiedXid e.urec with
      | none => rfl
      | some u =>
        simp only [executeUndoDeleteXbtreePage]
        split_ifs with hxid
        · rfl
        · have hdel : e.lp = .deleted := by
            rw [xbtreeOperFromLp] at hgone
            by_contra hne
            exact hlp ⟨fun hnormal => by simp [hnormal] at hgone, hne⟩
          exact absurd ⟨u, hdel, Bool.eq_false_iff.mpr hcur, Bool.eq_false_iff.mpr hprog,
            Bool.eq_false_iff.mpr hcommit, hfetch, (not_not.mp hxid).symm⟩ hroll
    · rfl

/-- The undo header says where the previous record of the entry is. -/
theorem wal_blkprev (oldXid : Nat) (settled : IndexEntry K T) :
    (d.wal oldXid settled).undo.blkprev.getD invalidUndoRecPtr = settled.urec := by
  by_cases hp : settled.urec = invalidUndoRecPtr <;> simp [IndexDelete.wal, hp]

/-- The rebuilt undo record belongs to the top transaction at any depth. -/
theorem xbtRedoUndoDelete_xid (oldXid : Nat) (settled : IndexEntry K T) :
    (xbtRedoUndoDelete (d.wal oldXid settled)).uurXid = d.xact.topXid := by
  cases hsub : d.xact.isSubTransaction with
  | true => simp [xbtRedoUndoDelete, IndexDelete.wal, hsub]
  | false => simp [xbtRedoUndoDelete, IndexDelete.wal, hsub,
      (d.xact.currentXid_eq_topXid_iff).mpr hsub]

end Delete

section Undo

theorem undoDeleteAt_ne_stop [LinearOrder T] (u : IndexRecord K T) (tid : T) (e : IndexEntry K T) :
    undoDeleteAt u tid e ≠ .stop := by
  unfold undoDeleteAt
  split_ifs <;> nofun

variable [LinearOrder K] [LinearOrder T]

/-- Undoing a delete reaches the deleted entry in every ordered chain that holds it. -/
theorem executeUndoXbtree_delete_mem {ps : List (LeafPage K T)} (hord : Ordered IndexEntry.pos ps)
    {u : IndexRecord K T} {e e' : IndexEntry K T} (hmem : e ∈ chainItems ps)
    (hbody : u.body = .delete e.key e.tid) (hput : undoAt u e = .put e') :
    e' ∈ chainItems (executeUndoXbtree ps u) := by
  have hat : undoAt u = undoDeleteAt u e.tid := by
    unfold undoAt
    rw [hbody]
  have hresult : Visit.result (undoAt u) e = e' := by
    unfold Visit.result
    rw [hput]
  have hrange : e ∈ range IndexEntry.pos u.body.pos ps := by
    apply hord.mem_range hmem
    rw [hbody]
    rfl
  rw [← hresult]
  exact visit_result_mem (fun a _ => hat ▸ undoDeleteAt_ne_stop u e.tid a) hrange

end Undo

/-- The entry that undoing the record leaves in the place of a deleted one. -/
def IndexRecord.restored (u : IndexRecord K T) (e : IndexEntry K T) : IndexEntry K T :=
  { e with lp := .normal, modifiedXid := u.uurPrevxid, urec := u.uurTpprevurp }

section Replay

theorem undoAt_deleted [LinearOrder T] {u : IndexRecord K T} {e : IndexEntry K T}
    (hbody : u.body = .delete e.key e.tid) (hlp : e.lp = .deleted)
    (hxid : e.modifiedXid = u.uurXid) : undoAt u e = .put (u.restored e) := by
  simp [undoAt, hbody, undoDeleteAt, hlp, hxid, IndexRecord.restored]

variable [LinearOrder K] [LinearOrder T]

/-- The undo of a delete passes by a dead entry, also if it is the only one of the chain. -/
theorem executeUndoXbtree_dead {u : IndexRecord K T} {e : IndexEntry K T} (h : LeafHeader)
    (hbody : u.body = .delete e.key e.tid) (hlp : e.lp = .dead) :
    executeUndoXbtree [⟨h, false, none, [e]⟩] u = [⟨h, false, none, [e]⟩] := by
  have hpass : undoAt u e = .pass := by simp [undoAt, hbody, undoDeleteAt, hlp]
  have hpage : visitPage (P := IndexPos K T) (undoAt u) (undoNote u) (lowerBound IndexEntry.pos u.body.pos [e])
      ⟨h, false, none, [e]⟩ = (⟨h, false, none, [e]⟩, false) := by
    apply visitPage_pass
    intro a ha
    obtain rfl := List.mem_singleton.mp (List.mem_of_mem_drop ha)
    exact hpass
  simp [executeUndoXbtree, visit, ChainPage.passed, hpage]

/-- For every delete at any nesting depth, the entry belongs to the transaction of its undo record
on the primary.  After replay it does, and undoing the rebuilt record brings the entry back in every
ordered chain that holds it, exactly where the delete was not made in a subtransaction if the block
is replayed, and where the entry was not marked dead if the block shows the delete already. -/
theorem index_delete_replayed_iff (env : SettleEnv K T) (d : IndexDelete) (e : IndexEntry K T)
    (h : LeafHeader) (needsRedo : Bool) :
    let r := xbtDeleteonpage env d e h
    let redone := (xbtreeXlogDelete r.wal needsRedo (if needsRedo then r.settled else r.entry) h).1
    let u := xbtRedoUndoDelete r.wal
    r.entry.modifiedXid = r.record.uurXid ∧
      ((redone.modifiedXid = u.uurXid ∧
          ∀ ps : List (LeafPage K T), Ordered IndexEntry.pos ps → redone ∈ chainItems ps →
            u.restored redone ∈ chainItems (executeUndoXbtree ps u)) ↔
        if needsRedo then d.xact.isSubTransaction = false else d.isDead = false) := by
  intro r redone u
  have hxid : u.uurXid = d.xact.topXid := xbtRedoUndoDelete_xid d _ _
  refine ⟨?_, ?_⟩
  · cases hdead : d.isDead <;> simp [r, xbtDeleteonpage, hdead] <;> rfl
  · have hback : redone.lp = .deleted → redone.modifiedXid = u.uurXid → u.body = .delete redone.key redone.tid →
        ∀ ps : List (LeafPage K T), Ordered IndexEntry.pos ps → redone ∈ chainItems ps →
          u.restored redone ∈ chainItems (executeUndoXbtree ps u) :=
      fun hlp hown hbody ps hord hmem =>
        executeUndoXbtree_delete_mem hord hmem hbody (undoAt_deleted hbody hlp hown)
    cases needsRedo with
    | true =>
      rw [if_pos rfl, ← d.xact.currentXid_eq_topXid_iff]
      constructor
      · intro hundone
        exact hundone.1.trans hxid
      · intro heq
        have hown : redone.modifiedXid = u.uurXid := heq.trans hxid.symm
        exact ⟨hown, hback rfl hown rfl⟩
    | false =>
      rw [if_neg Bool.false_ne_true]
      have hred : redone = if d.isDead then { r.settled.markDeleted d.xact.topXid d.urecptr with lp := .dead }
        else r.settled.markDeleted d.xact.topXid d.urecptr := rfl
      cases hdead : d.isDead with
      | true =>
        rw [hdead, if_pos rfl] at hred
        refine ⟨fun hundone => ?_, nofun⟩
        have hbody : u.body = .delete redone.key redone.tid := by rw [hred]; rfl
        have hlp : redone.lp = .dead := by rw [hred]
        have hmem := hundone.2 [⟨h, false, none, [redone]⟩] ⟨by simp, by simp, by simp, by simp⟩ (by simp [chainItems])
        rw [executeUndoXbtree_dead h hbody hlp] at hmem
        have heq : u.restored redone = redone := by simpa [chainItems] using hmem
        have hnormal := congrArg IndexEntry.lp heq
        rw [hlp] at hnormal
        cases hnormal
      | false =>
        rw [hdead, if_neg Bool.false_ne_true] at hred
        have hown : redone.modifiedXid = u.uurXid := by rw [hred, hxid]; rfl
        exact ⟨fun _ => rfl, fun _ => ⟨hown, hback (by rw [hred]; rfl) hown (by rw [hred]; rfl)⟩⟩

end Replay

/-- An entry of transaction 5, deleted at some depth of transaction 7. -/
def deleteOfSeven (xact : XactState) (h : xact.isSubTransaction = true → xact.currentXid ≠ invalidXid) :
    IndexDelete :=
  ⟨xact, h, 0, 16385, 16385, 1663, 1, 1, 100, 0, false, false⟩

/-- No other transaction is running or has left anything behind. -/
def allSettled : SettleEnv Nat Nat := ⟨fun _ => false, fun _ => false, fun _ => true, fun _ _ => none⟩

/-- Inside a savepoint the replayed entry belongs to subtransaction 9 and its undo record to
transaction 7, and undoing the record leaves the entry deleted. -/
theorem savepoint_delete_stays_deleted :
    let d := deleteOfSeven insideSavepoint fun _ => by decide
    let r := xbtDeleteonpage allSettled d keyTwo ⟨1, 1, 0⟩
    let redone := (xbtreeXlogDelete r.wal true r.settled ⟨1, 1, 0⟩).1
    let u := xbtRedoUndoDelete r.wal
    redone.modifiedXid = 9 ∧ u.uurXid = 7 ∧
      chainItems (executeUndoXbtree (onlyLeaf 0 7 [redone]) u) = [redone] ∧ redone.lp = .deleted := by
  decide

/-- The undo record and the WAL record name the owner and the undo pointer that the entry had when
it was marked. -/
structure IndexDeleted.RecordsOwner (r : IndexDeleted K T) : Prop where
  undoXid : r.record.uurPrevxid = r.settled.modifiedXid
  undoUrp : r.record.uurTpprevurp = r.settled.urec
  walXid : r.wal.delete.oldxid = r.settled.modifiedXid
  walUrp : r.wal.undo.blkprev.getD invalidUndoRecPtr = r.settled.urec

/-- For every state of the entry, undoing the delete on the primary restores the owner and the undo
pointer that it had; the records name them exactly where no aborted delete with another owner below
it is rolled back on the way. -/
theorem index_delete_owner_iff [LinearOrder T] (env : SettleEnv K T) (d : IndexDelete)
    (e : IndexEntry K T) (h : LeafHeader) :
    let r := xbtDeleteonpage env d e h
    (d.isDead = false → undoAt r.record r.entry = .put { r.settled with lp := .normal }) ∧
      (r.RecordsOwner ↔ ∀ u, env.RollsBack e u → u.uurPrevxid = e.modifiedXid) := by
  intro r
  refine ⟨?_, ?_⟩
  · intro hdead
    simp [r, xbtDeleteonpage, hdead, undoAt, undoDeleteAt, IndexOpCtx.deleteRecord,
      IndexOpCtx.record, IndexEntry.markDeleted, IndexDelete.opCtx]
  · have hwal : r.wal.delete.oldxid = e.modifiedXid := rfl
    have howner : r.RecordsOwner ↔ e.modifiedXid = r.settled.modifiedXid :=
      ⟨fun howner => hwal.symm.trans howner.walXid,
        fun heq => ⟨rfl, rfl, hwal.trans heq, wal_blkprev d _ _⟩⟩
    rw [howner]
    rcases xbtTupleSatisfiesUpdate_cases env e h with ⟨u, hroll, hsettled⟩ | ⟨hsettled, hnone⟩
    · have hxid : r.settled.modifiedXid = u.uurPrevxid := congrArg IndexEntry.modifiedXid hsettled
      rw [hxid]
      constructor
      · intro heq v hv
        obtain rfl : u = v := Option.some.inj (hroll.2.2.2.2.1.symm.trans hv.2.2.2.2.1)
        exact heq.symm
      · intro hall
        exact (hall u hroll).symm
    · have hxid : r.settled.modifiedXid = e.modifiedXid := congrArg IndexEntry.modifiedXid hsettled
      rw [hxid]
      exact ⟨fun _ u hu => absurd hu (hnone u), fun _ => rfl⟩

/-- Transaction 6 deleted the entry of transaction 5 and aborted; its undo record is there. -/
def sixAborted : SettleEnv Nat Nat where
  isCurrentTransactionId _ := false
  isInProgress _ := false
  didCommit xid := decide (xid ≠ 6)
  fetch _ _ := some (IndexOpCtx.deleteRecord ⟨6, 0, 16385, 16385, 1663, none, 95⟩ 1 keyTwo)

/-- The entry is rolled back to transaction 5 before transaction 7 deletes it, and the WAL record
still names transaction 6. -/
theorem wal_names_aborted_owner :
    let r := xbtDeleteonpage sixAborted (deleteOfSeven atTopLevel nofun) (keyTwo.markDeleted 6 95)
      ⟨1, 0, 6⟩
    r.settled.modifiedXid = 5 ∧ r.record.uurPrevxid = 5 ∧ r.wal.delete.oldxid = 6 ∧
      (xbtRedoUndoDelete r.wal).uurPrevxid = 6 := by
  decide

end XStore
