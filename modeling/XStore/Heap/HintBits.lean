import XStore.Heap.PruneScan
import XStore.Heap.RowHistory

/-!
# The status hints of a row

A reader that finds out what became of `modified_xid` notes it in two bits of the flag word.  Changes of
the row, locks and undo each write parts of that word; the bits must not outlive the transaction that they
are about.
-/
namespace XStore

inductive SnapshotType where
  | mvcc
  | selfTransaction
  | self
  | dirty
  | now
  | notSelf
  deriving DecidableEq

/-- The kinds that take a transaction for aborted when it has not committed, without asking whether it is
still in progress.  They serve index builds and triggers, which meet only rows of their own and of ended
transactions. -/
def SnapshotType.takesForEnded : SnapshotType → Bool
  | selfTransaction => true
  | now => true
  | notSelf => true
  | _ => false

structure Reader extends PruneEnv where
  snapshotType : SnapshotType
  snapshot : Snapshot

namespace Reader

variable (v : Reader) (flag : Flag) (op : XTupleTidOp) (xid : Nat)

/-- `transaction_id_did_commit_with_hint`, and `xheap_set_hint` with what it found -/
def didCommitWithHint : Bool × Flag :=
  let hint := xheapGetHint flag
  let committed := match hint with
    | some .committed => true
    | some .aborted => false
    | _ => v.didCommit xid
  (committed, xheapSetHint hint.isSome flag (bif committed then .committed else .aborted))

/-- The answer for another transaction that is taken to have ended. -/
def selectEnded : XVersionSelector × Flag :=
  let (committed, flag) := v.didCommitWithHint flag xid
  (if committed then op.seen else op.unseen, flag)

/-- `xheap_select_version_self_transaction`, `_now` and `_not_self` differ in the answer for the reader's own
transaction. -/
def selectVersionEnded (own : XVersionSelector) : XVersionSelector × Flag :=
  if v.isCurrentTransactionId xid then (own, flag) else v.selectEnded flag op xid

/-- `xheap_select_version_self` and `_dirty` differ in the answer for a running transaction. -/
def selectVersionRunning (running : XVersionSelector) : XVersionSelector × Flag :=
  if v.isCurrentTransactionId xid then (op.seen, flag)
  else if v.isInProgress xid then (running, flag)
  else v.selectEnded flag op xid

/-- `xheap_tuple_satisfies` with the flag word it leaves on the page -/
def tupleSatisfies : XVersionSelector × Flag :=
  if olderThanAllUndo v.globalFrozenXid xid then (op.seen, flag)
  else match v.snapshotType with
    | .mvcc => xheapTupleSatisfies v.toReadEnv flag op v.snapshot xid
    | .selfTransaction => v.selectVersionEnded flag op xid op.seen
    | .self => v.selectVersionRunning flag op xid op.unseen
    | .dirty => v.selectVersionRunning flag op xid .current
    | .now => v.selectVersionEnded flag op xid .checkCid
    | .notSelf => v.selectVersionEnded flag op xid (if op = .gone then .current else .older)

/-- What the reader finds agrees with the transactions: one that runs elsewhere is in progress and in every
snapshot. -/
structure Meets (status : Nat → XactStatus) : Prop where
  commits : ∀ x, v.didCommit x = true ↔ status x = .committed
  runs : ∀ x, status x = .inProgress → v.isCurrentTransactionId x = false →
    v.isInProgress x = true ∧ xidInMVCCSnapshot v.toReadEnv x v.snapshot = true
  /-- as the callers of these kinds see to -/
  ended : v.snapshotType.takesForEnded = true → v.isCurrentTransactionId xid = false →
    status xid ≠ .inProgress

end Reader

structure HintedRow where
  row : Row
  /-- the undo records of the changes of the row, the newest first -/
  records : List HeapRecord
  status : Nat → XactStatus

def undoRow (env : RollbackEnv) (u : HeapRecord) (r : Row) : Except Panic Row :=
  match u.body with
  | .insert => .ok (undoInsertRow r)
  | .delete => .ok { r with tup := undoDeleteTuple env u r.tup }
  | .update _ => .ok { r with tup := undoUpdateTuple env u r.tup }
  | .inplaceUpdate d =>
    (r.rp.changeLen d.oldTupleLength).map fun rp => ⟨rp, undoInplaceTuple env u d r⟩
  | _ => .error .unsupportedRollbackAction

/-- With `copies`, a reader may judge a copy of the row that it fetched before; without them it judges the row
on the page. -/
inductive HintStep (copies : Bool) : HintedRow → HintedRow → Prop
  /-- A transaction commits or aborts. -/
  | finish {s : HintedRow} (xid : Nat) (ending : XactStatus) :
      s.status xid = .inProgress → ending ≠ .inProgress →
      HintStep copies s { s with status := Function.update s.status xid ending }
  /-- `xheap_tuple_satisfies_visibility` with the transaction of its argument and the flag word of the page -/
  | read {s : HintedRow} (v : Reader) (xid : Nat) :
      (copies = false → xid = s.row.tup.modifiedXid) → v.Meets xid s.status →
      HintStep copies s { s with row := { s.row with tup := { s.row.tup with
        flag := (v.tupleSatisfies s.row.tup.flag (xheapTidOpFromInfomask s.row.tup.flag) xid).2 } } }
  /-- A change of a row that was left by a committed or by the same transaction. -/
  | change {s : HintedRow} {c : OpCtx} {o : HeapOp} {u : HeapRecord} {r' : Row} :
      s.status c.fxid = .inProgress →
      (o.addsRow = false → s.status s.row.tup.modifiedXid = .committed ∨ s.row.tup.modifiedXid = c.fxid) →
      RowChange c o s.row u r' → HintStep copies s { s with row := r', records := u :: s.records }
  /-- Locks are set and released. -/
  | lock {s : HintedRow} (bits : Flag) (lockerXid : Nat) :
      bits &&& ~~~xheapLockStatusMask = 0#16 →
      HintStep copies s { s with row := { s.row with tup := { s.row.tup with
        flag := (s.row.tup.flag &&& ~~~xheapLockStatusMask) ||| bits, lockerXid := lockerXid } } }
  /-- The newest change is rolled back, of an aborted transaction or to a savepoint. -/
  | rollback {s : HintedRow} {env : RollbackEnv} {u : HeapRecord} {rest : List HeapRecord} {r' : Row} :
      s.records = u :: rest → undoGate u s.row.tup = .apply → s.status u.uurXid ≠ .committed →
      undoRow env u s.row = .ok r' → HintStep copies s { s with row := r', records := rest }

structure HintsTold (status : Nat → XactStatus) (xid : Nat) (flag : Flag) : Prop where
  committed : flag.has xheapModifiedXidCommitted = true → status xid = .committed
  aborted : flag.has xheapModifiedXidInvalid = true → status xid = .aborted

section Told

variable {status : Nat → XactStatus} {xid : Nat} {f g : Flag}

theorem HintsTold.congr (h : HintsTold status xid g) (hfg : f &&& xheapXidStatusMask = g &&& xheapXidStatusMask) :
    HintsTold status xid f where
  committed := fun hf => h.committed ((has_congr (m := xheapModifiedXidCommitted) hfg (by decide)).symm.trans hf)
  aborted := fun hf => h.aborted ((has_congr (m := xheapModifiedXidInvalid) hfg (by decide)).symm.trans hf)

theorem HintsTold.of_none (h : xheapGetHint f = none) : HintsTold status xid f := by
  unfold xheapGetHint at h
  split_ifs at h with hc ha
  exact ⟨fun hf => absurd hf hc, fun hf => absurd hf ha⟩

variable (h : HintsTold status xid f) {m : Flag}

include h

theorem HintsTold.and (hm : m &&& xheapXidStatusMask = xheapXidStatusMask) :
    HintsTold status xid (f &&& m) := h.congr (and_and_of_subset hm)

theorem HintsTold.or (hm : m &&& xheapXidStatusMask = 0#16) :
    HintsTold status xid (f ||| m) := by
  refine h.congr ?_
  rw [BitVec.and_or_distrib_right, hm]
  simp

theorem HintsTold.finish {x : Nat} {ending : XactStatus}
    (hx : status x = .inProgress) : HintsTold (Function.update status x ending) xid f := by
  have keep {e : XactStatus} (he : status xid = e) (hne : e ≠ .inProgress) :
      Function.update status x ending xid = e := by
    rw [Function.update_of_ne, he]
    rintro rfl
    exact hne (he.symm.trans hx)
  exact ⟨fun hf => keep (h.committed hf) (by decide), fun hf => keep (h.aborted hf) (by decide)⟩

theorem HintsTold.setHint {e : XactStatus} (hint : xheapGetHint f = none)
    (he : e = .inProgress ∨ status xid = e) : HintsTold status xid (f ||| e.hintBit) := by
  unfold xheapGetHint at hint
  split_ifs at hint with hc ha
  cases e with
  | inProgress => exact h.or (by decide)
  | committed =>
    refine ⟨fun _ => he.resolve_left (by decide), fun hf => absurd hf ?_⟩
    rwa [has_congr (g := f) (k := xheapModifiedXidInvalid) ?_ (by decide)]
    rw [BitVec.and_or_distrib_right]
    simp [XactStatus.hintBit, xheapModifiedXidCommitted, xheapModifiedXidInvalid]
  | aborted =>
    refine ⟨fun hf => absurd hf ?_, fun _ => he.resolve_left (by decide)⟩
    rwa [has_congr (g := f) (k := xheapModifiedXidCommitted) ?_ (by decide)]
    rw [BitVec.and_or_distrib_right]
    simp [XactStatus.hintBit, xheapModifiedXidCommitted, xheapModifiedXidInvalid]

end Told

section Read

variable {v : Reader} {status : Nat → XactStatus} {xid : Nat} {f : Flag} {op : XTupleTidOp}

variable (h : HintsTold status xid f)

include h

theorem Reader.didCommitWithHint_told
    (hcommits : v.didCommit xid = true ↔ status xid = .committed) (hended : status xid ≠ .inProgress) :
    HintsTold status xid (v.didCommitWithHint f xid).2 := by
  unfold didCommitWithHint xheapSetHint
  cases hint : xheapGetHint f with
  | some e => simpa using h
  | none =>
    refine h.setHint hint (.inr ?_)
    dsimp only
    cases hc : v.didCommit xid with
    | true => exact hcommits.mp hc
    | false =>
      cases hs : status xid with
      | inProgress => exact absurd hs hended
      | committed =>
        rw [hcommits.mpr hs] at hc
        cases hc
      | aborted => rfl

theorem Reader.mvcc_told (hv : v.Meets xid status)
    (hold : ¬ olderThanAllUndo v.globalFrozenXid xid = true) :
    HintsTold status xid (xheapTupleSatisfies v.toReadEnv f op v.snapshot xid).2 := by
  unfold xheapTupleSatisfies
  rw [if_neg hold]
  unfold xheapSelectVersionMvcc
  by_cases hcur : v.isCurrentTransactionId xid = true
  · rw [if_pos hcur]
    split_ifs
    · exact h
    · exact h
  rw [if_neg hcur]
  dsimp only [Option.bind_some, Option.map_some, Option.getD_some]
  unfold xheapSetHint
  cases hint : xheapGetHint f with
  | some e => simpa using h
  | none =>
    refine h.setHint hint ?_
    unfold xidVisibleInSnapshot
    split_ifs with hin hc
    · exact .inl rfl
    · exact .inr ((hv.commits xid).mp hc)
    · right
      cases hs : status xid with
      | inProgress => exact absurd (hv.runs xid hs (Bool.eq_false_iff.mpr hcur)).2 hin
      | committed => exact absurd ((hv.commits xid).mpr hs) hc
      | aborted => rfl

theorem Reader.tupleSatisfies_told (hv : v.Meets xid status) :
    HintsTold status xid (v.tupleSatisfies f op xid).2 := by
  have hends (hcur : ¬ v.isCurrentTransactionId xid = true) (hend : status xid ≠ .inProgress) :
      HintsTold status xid (v.selectEnded f op xid).2 :=
    didCommitWithHint_told h (hv.commits xid) hend
  have hended (own : XVersionSelector) (ht : v.snapshotType.takesForEnded = true) :
      HintsTold status xid (v.selectVersionEnded f op xid own).2 := by
    unfold selectVersionEnded
    split_ifs with hcur
    · exact h
    · exact hends hcur (hv.ended ht (Bool.eq_false_iff.mpr hcur))
  have hrunning (running : XVersionSelector) : HintsTold status xid (v.selectVersionRunning f op xid running).2 := by
    unfold selectVersionRunning
    split_ifs with hcur hprog
    · exact h
    · exact h
    · refine hends hcur fun hrun => hprog ?_
      exact (hv.runs xid hrun (Bool.eq_false_iff.mpr hcur)).1
  unfold tupleSatisfies
  by_cases hold : olderThanAllUndo v.globalFrozenXid xid = true
  · rwa [if_pos hold]
  rw [if_neg hold]
  cases ht : v.snapshotType with
  | selfTransaction => exact hended _ (by rw [ht]; rfl)
  | now => exact hended _ (by rw [ht]; rfl)
  | notSelf => exact hended _ (by rw [ht]; rfl)
  | self => exact hrunning _
  | dirty => exact hrunning _
  | mvcc => exact mvcc_told h hv hold

end Read

/-- What undo will put back tells what became of the transaction it names. -/
def RecordTold (status : Nat → XactStatus) (u : HeapRecord) : Prop :=
  match u.body with
  | .inplaceUpdate d => HintsTold status u.uurPrevxid d.flag
  | .insert => True
  | _ => HintsTold status u.uurPrevxid u.uurDataheaderflag

structure HintedRow.Truthful (s : HintedRow) : Prop where
  row : s.row.rp.isUsed = true → HintsTold s.status s.row.tup.modifiedXid s.row.tup.flag
  records : ∀ u ∈ s.records, RecordTold s.status u
  frozen : s.status frozenXid = .committed

section Steps

variable {s s' : HintedRow} {c : OpCtx} {o : HeapOp} {u : HeapRecord} {r' : Row} {status : Nat → XactStatus}
  {r : Row}

theorem RecordTold.finish {x : Nat} {ending : XactStatus} (h : RecordTold status u)
    (hx : status x = .inProgress) : RecordTold (Function.update status x ending) u := by
  unfold RecordTold at h ⊢
  split
  · next d hd =>
    rw [hd] at h
    exact h.finish hx
  · trivial
  · next h₁ h₂ =>
    split at h
    · next d hd => exact absurd hd (h₁ d)
    · next hd => exact absurd hd h₂
    · exact h.finish hx

/-- The hints saved with a change are those for the transaction that it names as the previous one. -/
theorem RowChange.recordTold (h : RowChange c o r u r') (hfrozen : status frozenXid = .committed)
    (htold : r.rp.isUsed = true → HintsTold status r.tup.modifiedXid r.tup.flag)
    (hprev : o.addsRow = false → status r.tup.modifiedXid ≠ .aborted) : RecordTold status u := by
  -- a bit that is set says committed, which the frozen id is too
  have named {prev : Nat} {f : Flag} (hadd : o.addsRow = false) (hf : HintsTold status r.tup.modifiedXid f)
      (hp : prev = r.tup.modifiedXid ∨ prev = frozenXid) : HintsTold status prev f := by
    rcases hp with rfl | rfl
    · exact hf
    · exact ⟨fun _ => hfrozen, fun hbit => absurd (hf.aborted hbit) (hprev hadd)⟩
  cases h with
  | insert => trivial
  | updateNew => trivial
  | delete off changingPart _ hn _ =>
    have h := htold (RowPtr.isUsed_of_isNormal hn)
    exact named rfl (h.and (by decide)) ((deleteOldXid_cases _).imp_right And.right)
  | inplaceUpdate off newtup _ _ hn _ _ _ =>
    have h := htold (RowPtr.isUsed_of_isNormal hn)
    exact named rfl (h.and (by decide)) ((updateOldXid_cases _).imp_right And.right)
  | updateOld off lockerIsUs ctid _ hn _ =>
    have h := htold (RowPtr.isUsed_of_isNormal hn)
    refine named rfl (h.congr ?_) ((updateOldXid_cases _).imp_right And.right)
    exact lockForUpdate_and c r.tup lockerIsUs (by decide) (by decide)

theorem HintsTold.keepSubtxnLock (env : RollbackEnv) (infomask : Flag) {t : XHeapDiskTuple}
    (h : HintsTold status t.modifiedXid t.flag) :
    HintsTold status (undoKeepSubtxnLock env u t infomask).modifiedXid (undoKeepSubtxnLock env u t infomask).flag := by
  unfold undoKeepSubtxnLock
  split
  · exact h
  · split_ifs
    · refine h.or ?_
      rw [BitVec.and_assoc, show xheapLockStatusMask &&& xheapXidStatusMask = 0#16 by decide]
      simp
    · exact h

/-- Undo puts back the hints with the transaction they were about. -/
theorem undoRow_told {env : RollbackEnv} (h : RecordTold status u) (hrun : undoRow env u r = .ok r') :
    r'.rp.isUsed = true → HintsTold status r'.tup.modifiedXid r'.tup.flag := by
  intro hused
  unfold undoRow at hrun
  split at hrun
  · cases hrun
    cases hused
  · next hd =>
    cases hrun
    rw [RecordTold, hd] at h
    exact HintsTold.keepSubtxnLock env r.tup.flag h
  · next ctid hd =>
    cases hrun
    rw [RecordTold, hd] at h
    exact @HintsTold.keepSubtxnLock u status env r.tup.flag
      { r.tup with flag := u.uurDataheaderflag, modifiedXid := u.uurPrevxid } h
  · next d hd =>
    obtain ⟨rp, -, rfl⟩ := map_ok hrun
    rw [RecordTold, hd] at h
    exact HintsTold.keepSubtxnLock env r.tup.flag h
  · cases hrun

theorem HintedRow.Truthful.step (h : s.Truthful) (hstep : HintStep false s s') : s'.Truthful := by
  cases hstep with
  | finish xid ending hx _ =>
    refine ⟨fun hused => (h.row hused).finish hx, fun u hu => (h.records u hu).finish hx, ?_⟩
    change Function.update s.status xid ending frozenXid = _
    rw [Function.update_of_ne, h.frozen]
    rintro rfl
    cases h.frozen.symm.trans hx
  | read v xid hx hv =>
    obtain rfl := hx rfl
    exact ⟨fun hused => Reader.tupleSatisfies_told (h.row hused) hv, h.records, h.frozen⟩
  | change hrun hprev hc =>
    refine ⟨fun _ => .of_none hc.getHint, ?_, h.frozen⟩
    refine List.forall_mem_cons.mpr ⟨hc.recordTold h.frozen h.row fun hadd => ?_, h.records⟩
    rcases hprev hadd with hcommit | hown
    · rw [hcommit]
      decide
    · rw [hown, hrun]
      decide
  | lock bits lockerXid hbits =>
    refine ⟨fun hused => ((h.row hused).and (by decide)).or ?_, h.records, h.frozen⟩
    have hsub : ~~~xheapLockStatusMask &&& xheapXidStatusMask = xheapXidStatusMask := by decide
    rw [← hsub, ← BitVec.and_assoc, hbits]
    simp
  | rollback hrec _ _ hundo =>
    have hall := h.records
    rw [hrec] at hall
    obtain ⟨hu, hrest⟩ := List.forall_mem_cons.mp hall
    exact ⟨undoRow_told hu hundo, hrest, h.frozen⟩

end Steps

/-- From a place where no row has been put yet, a hint bit of the row says what became of the transaction
that modified it last, whoever has read, changed, locked and rolled it back, provided that the readers judge
the row on the page. -/
theorem hint_bits_truthful (s s' : HintedRow) (hempty : s.row.rp.isUsed = false) (hrecords : s.records = [])
    (hfrozen : s.status frozenXid = .committed) (hrun : Relation.ReflTransGen (HintStep false) s s')
    (hused : s'.row.rp.isUsed = true) :
    (s'.row.tup.flag.has xheapModifiedXidCommitted = true → s'.status s'.row.tup.modifiedXid = .committed) ∧
      (s'.row.tup.flag.has xheapModifiedXidInvalid = true → s'.status s'.row.tup.modifiedXid = .aborted) := by
  have hstart : s.Truthful := by
    refine ⟨fun h => ?_, fun u hu => ?_, hfrozen⟩
    · rw [hempty] at h
      cases h
    · rw [hrecords] at hu
      cases hu
  have hend : s'.Truthful := by
    clear hused
    induction hrun with
    | refl => exact hstart
    | tail _ hstep ih => exact ih.step hstep
  exact ⟨(hend.row hused).committed, (hend.row hused).aborted⟩

def beforeInsert : HintedRow where
  row := Row.zero
  records := []
  status := fun x => if x = 2 then .committed else if x = 7 ∨ x = 8 then .inProgress else .aborted

/-- A reader whose snapshot was taken after transaction 7 has committed and before 8 has ended. -/
def laterReader : Reader where
  isCurrentTransactionId := fun _ => false
  didCommit := fun x => x == 2 || x == 7
  subTransGetTopmostTransaction := id
  currentCommandId := 0
  currentCommandIdUsed := false
  globalFrozenXid := 3
  isInProgress := fun x => x == 8
  snapshotType := .mvcc
  snapshot := ⟨8, 9, [8], [], false, false, 0⟩

def emptyTuple : XHeapDiskTuple := ⟨0, 0, 0, 0#16, 0#16, sizeOfXHeapDiskTupleData, []⟩

def afterCommit : HintedRow where
  row := ⟨⟨8000, .normal, emptyTuple.size⟩, insertTuple (seventh 100) emptyTuple⟩
  records := [insertRecord (seventh 100) 1]
  status := Function.update beforeInsert.status 7 .committed

theorem run_afterCommit (copies : Bool) : Relation.ReflTransGen (HintStep copies) beforeInsert afterCommit := by
  have hinsert : HintStep copies beforeInsert _ := .change (c := seventh 100) (o := .insert emptyTuple) rfl
    (fun h => by cases h) (RowChange.insert emptyTuple Row.zero 1 8000 ⟨by decide, by decide⟩ rfl (by decide))
  exact (Relation.ReflTransGen.single hinsert).tail (.finish 7 .committed rfl (by decide))

theorem laterReader_meets : laterReader.Meets 7 afterCommit.status where
  commits := by
    intro x
    simp only [laterReader, afterCommit, beforeInsert, Function.update_apply]
    split_ifs <;> simp_all
  runs := by
    intro x hx _
    have h8 : x = 8 := by
      simp only [afterCommit, beforeInsert, Function.update_apply] at hx
      split_ifs at hx
      simp_all
    subst h8
    decide
  ended := fun h => by cases h

theorem hint_bit_after_commit : ∃ s', Relation.ReflTransGen (HintStep false) beforeInsert s' ∧
    s'.row.tup.flag.has xheapModifiedXidCommitted = true ∧ s'.status s'.row.tup.modifiedXid = .committed := by
  have hread : HintStep false afterCommit _ := .read laterReader 7 (fun _ => rfl) laterReader_meets
  have hrun := (run_afterCommit false).tail hread
  exact ⟨_, hrun, by decide, (hint_bits_truthful _ _ rfl rfl rfl hrun rfl).1 (by decide)⟩

/-- Transaction 8 has deleted the row. -/
def afterDelete : HintedRow :=
  { afterCommit with
    row := { afterCommit.row with tup := deleteTuple { seventh 101 with fxid := 8 } false afterCommit.row.tup }
    records := deleteRecord { seventh 101 with fxid := 8 } 1 afterCommit.row.tup :: afterCommit.records }

/-- The reader has fetched the row of transaction 7; by the time it judges the copy, transaction 8 has deleted
the row, and is given the hint bit. -/
theorem stale_copy_marks_running_transaction : ∃ s', Relation.ReflTransGen (HintStep true) beforeInsert s' ∧
    s'.row.tup.flag.has xheapModifiedXidCommitted = true ∧ s'.row.tup.modifiedXid = 8 ∧
    s'.status 8 = .inProgress := by
  have hdelete : HintStep true afterCommit afterDelete := HintStep.change (c := { seventh 101 with fxid := 8 })
    (o := .delete 1 false) rfl (fun _ => .inl rfl)
    (RowChange.delete 1 false afterCommit.row rfl ⟨⟨by decide, by decide, by decide⟩, by decide⟩)
  have hread : HintStep true afterDelete _ := .read laterReader 7 nofun laterReader_meets
  exact ⟨_, ((run_afterCommit true).tail hdelete).tail hread, by decide, by decide, by decide⟩

end XStore
