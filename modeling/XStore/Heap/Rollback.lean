import XStore.Heap.Operations

/-!
# Rolling a transaction back on a page

A run of a transaction on a page is a list of its operations with pruning in between.  Rolling it
back applies the records newest first.  What a row has become afterwards is compared with the row
as it was just before the transaction first touched it.
-/
namespace XStore

/-- Apply one undo record with the function for its kind. -/
def undoRecord (env : RollbackEnv) (u : HeapRecord) (p : XPage) :
    Except Panic (RollbackResult × XPage) :=
  match u.body with
  | .insert => .ok (executeUndoInsert p u.uurOffset u)
  | .delete => .ok (executeUndoForDelete env p u)
  | _ => executeUndoForUpdate env p u

/-- Apply a list of records, newest first, up to one that has to wait. -/
def rollback (env : RollbackEnv) : List HeapRecord → XPage → Except Panic (RollbackResult × XPage)
  | [], p => .ok (.rok, p)
  | u :: us, p =>
    match undoRecord env u p with
    | .error e => .error e
    | .ok (.rswitch, p') => .ok (.rswitch, p')
    | .ok (.rok, p') => rollback env us p'

theorem rollback_append {env : RollbackEnv} {us vs : List HeapRecord} {p p' : XPage}
    (h : rollback env us p = .ok (.rok, p')) :
    rollback env (us ++ vs) p = rollback env vs p' := by
  induction us generalizing p with
  | nil =>
    cases h
    rfl
  | cons u us ih =>
    simp only [rollback, List.cons_append] at h ⊢
    cases hu : undoRecord env u p with
    | error e => simp [hu] at h
    | ok res =>
      obtain ⟨result, q⟩ := res
      cases result with
      | rswitch => simp [hu] at h
      | rok =>
        simp only [hu] at h ⊢
        exact ih h

theorem rollback_singleton {env : RollbackEnv} {u : HeapRecord} {p p' : XPage}
    (h : undoRecord env u p = .ok (.rok, p')) : rollback env [u] p = .ok (.rok, p') := by
  simp [rollback, h]

/-- Two rows that differ at most in place on the page, locker and flag word. -/
structure SameVersion (r q : Row) : Prop where
  flags : q.rp.flags = r.rp.flags
  len : q.rp.len = r.rp.len
  modifiedXid : q.tup.modifiedXid = r.tup.modifiedXid
  urec : q.tup.urec = r.tup.urec
  flag2 : q.tup.flag2 = r.tup.flag2
  tHoff : q.tup.tHoff = r.tup.tHoff
  body : q.tup.body = r.tup.body
  room : q.rp.offset + q.rp.len ≤ blcksz

theorem SameVersion.refl {r : Row} (h : r.rp.offset + r.rp.len ≤ blcksz) : SameVersion r r :=
  ⟨rfl, rfl, rfl, rfl, rfl, rfl, rfl, h⟩

theorem SameVersion.trans {r s q : Row} (h : SameVersion r s) (h' : SameVersion s q) :
    SameVersion r q :=
  ⟨h'.flags.trans h.flags, h'.len.trans h.len, h'.modifiedXid.trans h.modifiedXid,
    h'.urec.trans h.urec, h'.flag2.trans h.flag2, h'.tHoff.trans h.tHoff, h'.body.trans h.body,
    h'.room⟩

def HeapOp.savedFlag (c : OpCtx) (t : XHeapDiskTuple) : HeapOp → Flag
  | .updateOld _ lockerIsUs _ => (lockForUpdate c lockerIsUs t).flag
  | _ => t.flag &&& ~~~xheapLockStatusMask

/-- A row put back: as it was before, except for its locker, with the given flag word, and with an
owner behind a horizon replaced by `Frozen`. -/
structure RestoredAs (c : OpCtx) (flag : Flag) (b q : Row) : Prop where
  flags : q.rp.flags = b.rp.flags
  len : q.rp.len = b.rp.len
  room : q.rp.offset + q.rp.len ≤ blcksz
  body : q.tup.body = b.tup.body
  tHoff : q.tup.tHoff = b.tup.tHoff
  flag2 : q.tup.flag2 = b.tup.flag2
  urec : q.tup.urec = b.tup.urec
  flag_eq : q.tup.flag = flag
  modifiedXid : q.tup.modifiedXid = b.tup.modifiedXid ∨
    (b.tup.modifiedXid < c.globalFrozenXid ∨ b.tup.modifiedXid < c.globalRecycleXid) ∧
      q.tup.modifiedXid = frozenXid

def Undone (c : OpCtx) (o : HeapOp) (b q : Row) : Prop :=
  if o.addsRow then q.rp = RowPtr.unused else RestoredAs c (o.savedFlag c b.tup) b q

section UndoStep

variable {env : RollbackEnv} {c : OpCtx} {o : HeapOp} {u : HeapRecord} {r r' q : Row} {Q : XPage}

/-- Rows of one version pass the test of every undo function alike. -/
theorem gate_of_owned (ho : OwnedBy c u r') (hq : SameVersion r' q) : undoGate u q.tup = .apply :=
  undoGate_eq_apply.mpr ⟨hq.modifiedXid.trans (ho.modifiedXid.trans ho.uurXid.symm),
    hq.urec.trans ho.urec⟩

theorem normal_of_owned (ho : OwnedBy c u r') (hq : SameVersion r' q) : q.rp.isNormal = true := by
  have hn := ho.isNormal
  simp only [RowPtr.isNormal] at hn ⊢
  rw [hq.flags, hn]

theorem hasStorage_of_owned (ho : OwnedBy c u r') (hq : SameVersion r' q) :
    q.rp.hasStorage = true := by
  have hlen := ho.sound.len_eq
  have hql := hq.len
  simp only [RowPtr.hasStorage, decide_eq_true_eq, sizeOfXHeapDiskTupleData] at hlen ⊢
  omega

/-- Without a subtransaction there is no lock of an ancestor to keep. -/
theorem undoKeepSubtxnLock_none (h : u.uurSubxid = none) (t : XHeapDiskTuple) (infomask : Flag) :
    undoKeepSubtxnLock env u t infomask = t := by
  simp [undoKeepSubtxnLock, h]

theorem undo_insert (hb : u.body = .insert) (ho : OwnedBy c u r') (h1 : 1 ≤ u.uurOffset)
    (h2 : u.uurOffset ≤ Q.rows.length) (hq : SameVersion r' (Q.row u.uurOffset)) :
    ∃ Q', undoRecord env u Q = .ok (.rok, Q') ∧
      Q.ChangedAt Q' u.uurOffset (undoInsertRow (Q.row u.uurOffset)) := by
  have hu : undoRecord env u Q = .ok (.rok,
      (((Q.recordPotentialFreeSpace (shortAlign (Q.row u.uurOffset).rp.len)).setRow u.uurOffset
        (undoInsertRow (Q.row u.uurOffset))).setHasFreeLinePointers).setPrunable u.uurXid) := by
    simp [undoRecord, hb, executeUndoInsert, hasStorage_of_owned ho hq, gate_of_owned ho hq]
  exact ⟨_, hu, (XPage.ChangedAt.setRow h1 h2 _).congr_rows rfl (by simp [XPage.setRow])⟩

theorem undo_delete (hb : u.body = .delete) (ho : OwnedBy c u r') (h1 : 1 ≤ u.uurOffset)
    (h2 : u.uurOffset ≤ Q.rows.length) (hq : SameVersion r' (Q.row u.uurOffset)) :
    ∃ Q', undoRecord env u Q = .ok (.rok, Q') ∧
      Q.ChangedAt Q' u.uurOffset { Q.row u.uurOffset with
        tup := { (Q.row u.uurOffset).tup with
          modifiedXid := u.uurPrevxid, urec := u.uurTpprevurp, flag := u.uurDataheaderflag } } := by
  refine ⟨_, ?_, XPage.ChangedAt.setRow h1 h2 _⟩
  simp [undoRecord, hb, executeUndoForDelete, normal_of_owned ho hq, gate_of_owned ho hq,
    undoDeleteTuple, undoKeepSubtxnLock_none ho.uurSubxid]

theorem undo_update {ctid : Nat × Nat} (hb : u.body = .update ctid) (ho : OwnedBy c u r')
    (h1 : 1 ≤ u.uurOffset) (h2 : u.uurOffset ≤ Q.rows.length)
    (hq : SameVersion r' (Q.row u.uurOffset)) :
    ∃ Q', undoRecord env u Q = .ok (.rok, Q') ∧
      Q.ChangedAt Q' u.uurOffset { Q.row u.uurOffset with
        tup := { (Q.row u.uurOffset).tup with
          modifiedXid := u.uurPrevxid, urec := u.uurTpprevurp, flag := u.uurDataheaderflag } } := by
  have hu : undoRecord env u Q = .ok (.rok,
      (Q.setRow u.uurOffset { Q.row u.uurOffset with
        tup := undoUpdateTuple env u (Q.row u.uurOffset).tup }).recordPotentialFreeSpace
          (-((Q.row u.uurOffset).rp.len : Int))) := by
    simp [undoRecord, hb, executeUndoForUpdate, normal_of_owned ho hq, gate_of_owned ho hq]
  refine ⟨_, hu, (XPage.ChangedAt.setRow h1 h2 _).congr_rows rfl ?_⟩
  simp [XPage.setRow, undoUpdateTuple, undoKeepSubtxnLock_none ho.uurSubxid]

theorem undo_inplace {d : InplaceDelta} (hb : u.body = .inplaceUpdate d) (ho : OwnedBy c u r')
    (h1 : 1 ≤ u.uurOffset) (h2 : u.uurOffset ≤ Q.rows.length)
    (hq : SameVersion r' (Q.row u.uurOffset))
    (hlen : (Q.row u.uurOffset).rp.offset + d.oldTupleLength ≤ blcksz) :
    ∃ Q', undoRecord env u Q = .ok (.rok, Q') ∧
      Q.ChangedAt Q' u.uurOffset
        { rp := { (Q.row u.uurOffset).rp with len := d.oldTupleLength }
          tup := { (Q.row u.uurOffset).tup with
            flag := d.flag, flag2 := d.flag2, tHoff := d.tHoff,
            body := d.oldBody (Q.row u.uurOffset).tup (Q.row u.uurOffset).rp.len,
            modifiedXid := u.uurPrevxid, urec := u.uurTpprevurp } } := by
  have hroom : ¬ blcksz < (Q.row u.uurOffset).rp.offset + d.oldTupleLength := by omega
  refine ⟨_, ?_, XPage.ChangedAt.setRow h1 h2 _⟩
  simp [undoRecord, hb, executeUndoForUpdate, normal_of_owned ho hq, gate_of_owned ho hq,
    undoInplaceTuple, undoKeepSubtxnLock_none ho.uurSubxid, RowPtr.changeLen, hroom, bind,
    Except.bind, pure, Except.pure]

theorem deleteTuple_kept (c : OpCtx) (changingPart : Bool) (t : XHeapDiskTuple) :
    (deleteTuple c changingPart t).body = t.body ∧ (deleteTuple c changingPart t).tHoff = t.tHoff ∧
      (deleteTuple c changingPart t).flag2 = t.flag2 := by
  cases changingPart <;> exact ⟨rfl, rfl, rfl⟩

theorem updateTuple_kept (c : OpCtx) (lockerIsUs : Bool) (t : XHeapDiskTuple) :
    (updateTuple c lockerIsUs t).body = t.body ∧ (updateTuple c lockerIsUs t).tHoff = t.tHoff ∧
      (updateTuple c lockerIsUs t).flag2 = t.flag2 := by
  unfold updateTuple lockForUpdate
  split <;> exact ⟨rfl, rfl, rfl⟩

/-- Undoing an operation on a row of the version it left puts back the row it found. -/
theorem undo_rowChange (env : RollbackEnv) (h : RowChange c o r u r') (h1 : 1 ≤ u.uurOffset)
    (h2 : u.uurOffset ≤ Q.rows.length) (hq : SameVersion r' (Q.row u.uurOffset)) :
    ∃ Q' q', undoRecord env u Q = .ok (.rok, Q') ∧ Q.ChangedAt Q' u.uurOffset q' ∧
      Undone c o r q' := by
  have ho := h.owned
  cases h with
  | insert newtup _ off offset hw _ hroom =>
    obtain ⟨Q', hu, hch⟩ := @undo_insert env _ _ _ _ rfl ho h1 h2 hq
    exact ⟨Q', _, hu, hch, rfl⟩
  | delete off changingPart _ hn hs =>
    obtain ⟨Q', hu, hch⟩ := @undo_delete env _ _ _ _ rfl ho h1 h2 hq
    obtain ⟨hbody, hhoff, hflag2⟩ := deleteTuple_kept c changingPart r.tup
    refine ⟨Q', _, hu, hch, ?_⟩
    refine ⟨hq.flags, hq.len, hq.room, hq.body.trans hbody, hq.tHoff.trans hhoff,
      hq.flag2.trans hflag2, rfl, rfl, ?_⟩
    exact (deleteOldXid_cases r.tup.modifiedXid).imp id (fun h => ⟨.inl h.1, h.2⟩)
  | inplaceUpdate off newtup _ _ hn hs hw hrow =>
    obtain ⟨rp, hrp, rfl⟩ := inplaceRow_ok hrow
    have hold := @inplaceDelta_oldTupleLength c r newtup hs.toFilled
    have hlen : (Q.row off).rp.len = max r.rp.len newtup.size := hq.len.trans hrp.len
    -- the row never shrank, so its old length fits where it now lies
    have hfit : (Q.row off).rp.offset + (inplaceDelta c r newtup).oldTupleLength ≤ blcksz := by
      have hroom : (Q.row off).rp.offset + (Q.row off).rp.len ≤ blcksz := hq.room
      omega
    obtain ⟨Q', hu, hch⟩ := @undo_inplace env _ _ _ _ _ rfl ho h1 h2 hq hfit
    refine ⟨Q', _, hu, hch, ?_⟩
    exact ⟨hq.flags.trans hrp.flags, hold, hfit,
      inplaceDelta_oldBody hs.toFilled hw hq.body hq.tHoff hlen, rfl, rfl, rfl, rfl,
      updateOldXid_cases r.tup.modifiedXid⟩
  | updateOld off lockerIsUs ctid _ hn hs =>
    obtain ⟨Q', hu, hch⟩ := @undo_update env _ _ _ _ ctid rfl ho h1 h2 hq
    obtain ⟨hbody, hhoff, hflag2⟩ := updateTuple_kept c lockerIsUs r.tup
    refine ⟨Q', _, hu, hch, ?_⟩
    exact ⟨hq.flags, hq.len, hq.room, hq.body.trans hbody, hq.tHoff.trans hhoff,
      hq.flag2.trans hflag2, rfl, rfl, updateOldXid_cases r.tup.modifiedXid⟩
  | updateNew newtup _ off offset hw _ hroom =>
    obtain ⟨Q', hu, hch⟩ := @undo_insert env _ _ _ _ rfl ho h1 h2 hq
    exact ⟨Q', _, hu, hch, rfl⟩

end UndoStep

/-- What pruning makes of one row while transaction `T` runs.  It may move any row; a dead row
that `T` does not own goes away, and one that was updated in place gives up its spare bytes. -/
inductive RowPruned (T : Nat) : Row → Row → Prop
  | keep (r : Row) : RowPruned T r r
  | move (r : Row) (offset : Nat) :
      r.rp.isNormal = true → offset + r.rp.len ≤ blcksz →
      RowPruned T r { r with rp := { r.rp with offset := offset } }
  | shrink (r : Row) (offset len : Nat) :
      r.rp.isNormal = true → r.tup.modifiedXid ≠ T → r.tup.isInPlaceUpdated = true →
      r.tup.tHoff ≤ len → len ≤ r.rp.len → offset + len ≤ blcksz →
      RowPruned T r { rp := { r.rp with offset := offset, len := len }
                      tup := { r.tup with
                        body := r.tup.body.take (len - sizeOfXHeapDiskTupleData) } }
  | free (r : Row) (t : XHeapDiskTuple) :
      r.tup.modifiedXid ≠ T → r.tup.isDeleted = true → RowPruned T r ⟨RowPtr.unused, t⟩

/-- `xheap_page_prune` with the repair of fragmentation. -/
structure PagePruned (T : Nat) (p p' : XPage) : Prop where
  upper_le : p'.pdUpper ≤ blcksz
  length_eq : p'.rows.length = p.rows.length
  row : ∀ off, 1 ≤ off → RowPruned T (p.row off) (p'.row off)

inductive HeapStep where
  | op (c : OpCtx) (o : HeapOp)
  | prune (p' : XPage)

/-- A run of transaction `T` on a page, with its undo records, newest first. -/
inductive Run (T : Nat) : XPage → List HeapStep → List HeapRecord → XPage → Prop
  | done (p : XPage) : Run T p [] [] p
  | op {p p₁ p' : XPage} {c : OpCtx} {o : HeapOp} {u : HeapRecord} {steps : List HeapStep}
      {log : List HeapRecord} :
      c.fxid = T → c.Running → o.Allowed p → performOp c o p = .ok (u, p₁) →
      Run T p₁ steps log p' → Run T p (.op c o :: steps) (log ++ [u]) p'
  | prune {p p₁ p' : XPage} {steps : List HeapStep} {log : List HeapRecord} :
      PagePruned T p p₁ → Run T p₁ steps log p' → Run T p (.prune p₁ :: steps) log p'

/-- The row at `off` as it was just before the first operation on it, with that operation; the row
at the end of the run if there was none. -/
def beforeFirst : XPage → List HeapStep → Nat → Row × Option (OpCtx × HeapOp)
  | p, [], off => (p.row off, none)
  | _, .prune p' :: steps, off => beforeFirst p' steps off
  | p, .op c o :: steps, off =>
    if o.site p = off then (p.row off, some (c, o))
    else match performOp c o p with
      | .ok (_, p') => beforeFirst p' steps off
      | .error _ => (p.row off, none)

/-- What became of a row, given how it was before the transaction touched it. -/
def Unwound : Row × Option (OpCtx × HeapOp) → Row → Prop
  | (b, none), q => q = b
  | (b, some (c, o)), q => Undone c o b q

section Runs

variable {T : Nat} {p p' : XPage} {steps : List HeapStep} {log : List HeapRecord} {off : Nat}
  {r r' : Row}

theorem RowPruned.sound (h : RowPruned T r r')
    (hs : r.rp.isNormal = true → r.Sound) (hn : r'.rp.isNormal = true) : r'.Sound := by
  cases h with
  | keep => exact hs hn
  | move offset hn' hroom =>
    have hr := hs hn'
    exact ⟨⟨hr.len_eq, hr.hoff_ge, hr.hoff_le⟩, hroom⟩
  | shrink offset len hn' _ _ hhoff hle hroom =>
    have hr := hs hn'
    have hlen := hr.len_eq
    have hge := hr.hoff_ge
    refine ⟨⟨?_, hr.hoff_ge, hhoff⟩, hroom⟩
    simp only [List.length_take]
    omega
  | free => cases hn

theorem PagePruned.sound (h : PagePruned T p p') (hp : p.Sound) : p'.Sound where
  upper_le := h.upper_le
  row := fun off hoff hn => (h.row off hoff).sound (hp.row off hoff) hn

/-- Pruning only moves a row that the running transaction owns. -/
theorem RowPruned.sameVersion (h : RowPruned T r r') (hT : r.tup.modifiedXid = T)
    (hs : r.Sound) : SameVersion r r' := by
  cases h with
  | keep => exact .refl hs.room
  | move offset _ hroom => exact ⟨rfl, rfl, rfl, rfl, rfl, rfl, rfl, hroom⟩
  | shrink offset len _ hne => exact absurd hT hne
  | free t hne => exact absurd hT hne

theorem Run.length_le (h : Run T p steps log p') (hp : p.Sound) :
    p.rows.length ≤ p'.rows.length := by
  induction h with
  | done => exact Nat.le_refl _
  | op _ _ ha hop _ ih =>
    obtain ⟨-, -, r', hch, -⟩ := performOp_spec hp ha hop
    exact Nat.le_trans hch.length_le (ih (performOp_sound hp ha hop))
  | prune hpr _ ih => exact Nat.le_trans (Nat.le_of_eq hpr.length_eq.symm) (ih (hpr.sound hp))

/-- A row the transaction owns keeps its version until the transaction touches it again, which no
insert does. -/
theorem beforeFirst_owned (h : Run T p steps log p') (hp : p.Sound) (hoff : 1 ≤ off)
    (hn : (p.row off).rp.isNormal = true) (hT : (p.row off).tup.modifiedXid = T) :
    SameVersion (p.row off) (beforeFirst p steps off).1 ∧
      ∀ c o, (beforeFirst p steps off).2 = some (c, o) →
        c.fxid = T ∧ c.Running ∧ o.addsRow = false := by
  induction h with
  | done p => exact ⟨.refl (hp.row off hoff hn).room, by simp [beforeFirst]⟩
  | @op p p₁ p' c o u steps log hc hrun ha hop _ ih =>
    obtain ⟨-, -, r', hch, hrow⟩ := performOp_spec hp ha hop
    by_cases hs : o.site p = off
    · simp only [beforeFirst, if_pos hs]
      refine ⟨.refl (hp.row off hoff hn).room, ?_⟩
      intro c' o' heq
      cases heq
      refine ⟨hc, hrun, Bool.eq_false_iff.mpr fun hadd => ?_⟩
      have hunused := hrow.unused_of_addsRow hadd
      rw [hs, RowPtr.isUsed_of_isNormal hn] at hunused
      cases hunused
    · have hsame := hch.elsewhere off hoff (Ne.symm hs)
      simp only [beforeFirst, if_neg hs, hop]
      rw [← hsame]
      exact ih (performOp_sound hp ha hop) (hsame ▸ hn) (hsame ▸ hT)
  | @prune p p₁ p' steps log hpr _ ih =>
    have hv := (hpr.row off hoff).sameVersion hT (hp.row off hoff hn)
    have hn₁ : (p₁.row off).rp.isNormal = true := by
      simpa [RowPtr.isNormal, hv.flags] using hn
    obtain ⟨hv', hops⟩ := ih (hpr.sound hp) hn₁ (hv.modifiedXid.trans hT)
    exact ⟨hv.trans hv', hops⟩

/-- Undoing what a transaction later did to a row it owned leaves the version it had. -/
theorem Unwound.sameVersion {r q : Row} {before : Row × Option (OpCtx × HeapOp)}
    (h : Unwound before q) (hv : SameVersion r before.1) (hT : r.tup.modifiedXid = T)
    (hops : ∀ c o, before.2 = some (c, o) → c.fxid = T ∧ c.Running ∧ o.addsRow = false) :
    SameVersion r q := by
  obtain ⟨b, touch⟩ := before
  cases touch with
  | none =>
    cases h
    exact hv
  | some co =>
    obtain ⟨c, o⟩ := co
    obtain ⟨hc, hrun, hadd⟩ := hops c o rfl
    have hr : RestoredAs c (o.savedFlag c b.tup) b q := by
      simpa [Unwound, Undone, hadd] using h
    have hxid : q.tup.modifiedXid = b.tup.modifiedXid := by
      have hb : b.tup.modifiedXid = c.fxid := (hv.modifiedXid.trans hT).trans hc.symm
      have hfrozen := hrun.frozen_le
      have hrecycle := hrun.recycle_le
      rcases hr.modifiedXid with heq | ⟨hlt, -⟩
      · exact heq
      · omega
    exact hv.trans ⟨hr.flags, hr.len, hxid, hr.urec, hr.flag2, hr.tHoff, hr.body, hr.room⟩

/-- Undoing the later steps brings the site of a step back to the version that the step left. -/
theorem Run.sameVersion_at_site {p₁ Q : XPage} {c : OpCtx} {u : HeapRecord} {r' : Row} {site : Nat}
    (hrest : Run T p₁ steps log p') (hp₁ : p₁.Sound) (hown : OwnedBy c u r') (hc : c.fxid = T)
    (hch : p.ChangedAt p₁ site r')
    (hunw : ∀ off, 1 ≤ off → Unwound (beforeFirst p₁ steps off) (Q.row off)) :
    SameVersion r' (Q.row site) := by
  have hn : (p₁.row site).rp.isNormal = true := hch.here ▸ hown.isNormal
  have hT : (p₁.row site).tup.modifiedXid = T := hch.here ▸ hown.modifiedXid.trans hc
  obtain ⟨hv, hops⟩ := beforeFirst_owned hrest hp₁ hch.off_pos hn hT
  exact hch.here ▸ (hunw _ hch.off_pos).sameVersion hv hT hops

theorem rollback_run (env : RollbackEnv) (h : Run T p steps log p') (hp : p.Sound) :
    ∃ Q, rollback env log p' = .ok (.rok, Q) ∧ p'.rows.length ≤ Q.rows.length ∧
      ∀ off, 1 ≤ off → Unwound (beforeFirst p steps off) (Q.row off) := by
  -- by induction from the front: the records of the later steps are undone first
  induction h with
  | done p => exact ⟨p, rfl, Nat.le_refl _, fun off _ => rfl⟩
  | @op p p₁ p' c o u steps log hc hrun ha hop hrest ih =>
    have hp₁ := performOp_sound hp ha hop
    obtain ⟨hoff, -, r', hch, hrow⟩ := performOp_spec hp ha hop
    obtain ⟨Q₁, hQ₁, hlen, hunw⟩ := ih hp₁
    have hversion := hrest.sameVersion_at_site hp₁ hrow.owned hc hch hunw
    have hle : o.site p ≤ Q₁.rows.length :=
      Nat.le_trans hch.off_le (Nat.le_trans (hrest.length_le hp₁) hlen)
    rw [← hoff] at hversion hle
    obtain ⟨Q, q, hu, hchQ, hundone⟩ :=
      undo_rowChange env hrow (hoff ▸ hch.off_pos) hle hversion
    rw [hoff] at hchQ
    refine ⟨Q, ?_, Nat.le_trans hlen hchQ.length_le, fun off hpos => ?_⟩
    · rw [rollback_append hQ₁]
      exact rollback_singleton hu
    · by_cases hs : o.site p = off
      · subst hs
        simp only [beforeFirst, if_true, hchQ.here]
        exact hundone
      · simp only [beforeFirst, if_neg hs, hop]
        rw [hchQ.elsewhere off hpos (Ne.symm hs)]
        exact hunw off hpos
  | prune hpr _ ih => exact ih (hpr.sound hp)

end Runs

/-- The row `q` holds what the row `b` held before the transaction changed it, without lock bits;
an owner behind a horizon may have become `Frozen`. -/
structure Restored (c : OpCtx) (b q : Row) : Prop where
  flags : q.rp.flags = b.rp.flags
  len : q.rp.len = b.rp.len
  body : q.tup.body = b.tup.body
  tHoff : q.tup.tHoff = b.tup.tHoff
  flag2 : q.tup.flag2 = b.tup.flag2
  urec : q.tup.urec = b.tup.urec
  no_lock : q.tup.flag &&& xheapLockStatusMask = 0#16
  modifiedXid : q.tup.modifiedXid = b.tup.modifiedXid ∨
    (b.tup.modifiedXid < c.globalFrozenXid ∨ b.tup.modifiedXid < c.globalRecycleXid) ∧
      q.tup.modifiedXid = frozenXid

/-- A row the transaction added has an unused row pointer, one it changed is restored, and one it
did not touch is unchanged. -/
def RolledBack : Row × Option (OpCtx × HeapOp) → Row → Prop
  | (b, none), q => q = b
  | (b, some (c, o)), q => if o.addsRow then q.rp = RowPtr.unused else Restored c b q

section LockBits

/-- Only the old row of a non-in-place update is saved with lock bits. -/
theorem savedFlag_lock_iff (c : OpCtx) (t : XHeapDiskTuple) (o : HeapOp) :
    o.savedFlag c t &&& xheapLockStatusMask = 0#16 ↔ o.isUpdateOld = false := by
  have hclear := unlocked_without_locks t.flag
  cases o with
  | updateOld off lockerIsUs ctid =>
    simp [HeapOp.savedFlag, HeapOp.isUpdateOld, lockForUpdate_locked]
  | _ => simpa [HeapOp.savedFlag, HeapOp.isUpdateOld] using hclear

theorem isUpdateOld_of_addsRow {o : HeapOp} (h : o.addsRow = true) : o.isUpdateOld = false := by
  cases o with
  | insert | updateNew => rfl
  | _ => cases h

theorem Undone.rolledBack_iff {c : OpCtx} {o : HeapOp} {b q : Row} (h : Undone c o b q) :
    RolledBack (b, some (c, o)) q ↔ o.isUpdateOld = false := by
  cases hadd : o.addsRow with
  | true =>
    have hq : q.rp = RowPtr.unused := by simpa [Undone, hadd] using h
    simp [RolledBack, hadd, hq, isUpdateOld_of_addsRow hadd]
  | false =>
    have hr : RestoredAs c (o.savedFlag c b.tup) b q := by simpa [Undone, hadd] using h
    rw [← savedFlag_lock_iff c b.tup o, ← hr.flag_eq]
    simp only [RolledBack, hadd, Bool.false_eq_true, if_false]
    exact ⟨Restored.no_lock, fun hl =>
      ⟨hr.flags, hr.len, hr.body, hr.tHoff, hr.flag2, hr.urec, hl, hr.modifiedXid⟩⟩

theorem Unwound.rolledBack_iff {before : Row × Option (OpCtx × HeapOp)} {q : Row}
    (h : Unwound before q) :
    RolledBack before q ↔ ∀ c o, before.2 = some (c, o) → o.isUpdateOld = false := by
  obtain ⟨b, touch⟩ := before
  cases touch with
  | none => exact ⟨fun _ c o heq => (nomatch heq), fun _ => h⟩
  | some co =>
    refine (Undone.rolledBack_iff h).trans ⟨fun hold c o heq => ?_, fun hall => hall _ _ rfl⟩
    cases heq
    exact hold

end LockBits

/-- Rolling back a run restores every row exactly when no row was touched first by a non-in-place
update that left it behind: such a row comes back with an exclusive lock bit. -/
theorem rollback_restores_rows_iff (env : RollbackEnv) {T : Nat} {p p' : XPage}
    {steps : List HeapStep} {log : List HeapRecord} (hp : p.Sound) (h : Run T p steps log p') :
    (∃ Q, rollback env log p' = .ok (.rok, Q) ∧
        ∀ off, 1 ≤ off → RolledBack (beforeFirst p steps off) (Q.row off)) ↔
      ∀ off, 1 ≤ off → ∀ c o, (beforeFirst p steps off).2 = some (c, o) →
        o.isUpdateOld = false := by
  obtain ⟨Q, hQ, -, hunw⟩ := rollback_run env h hp
  have hrow := fun off hoff => (hunw off hoff).rolledBack_iff
  constructor
  · rintro ⟨Q', hQ', hall⟩ off hoff
    have heq : Q' = Q := by
      rw [hQ] at hQ'
      cases hQ'
      rfl
    exact (hrow off hoff).mp (heq ▸ hall off hoff)
  · intro hall
    exact ⟨Q, hQ, fun off hoff => (hrow off hoff).mpr (hall off hoff)⟩

/-- A page with one frozen row of three column bytes and no lock. -/
def oneRowPage : XPage where
  pdFlags := 0#16
  pdUpper := 8000
  pdSpecial := blcksz
  pdPruneXid := invalidXid
  potentialFreespace := 7900
  rows := [⟨⟨8000, .normal, 32⟩, ⟨5, 0, 90, 0#16, 3#16, 29, [1, 2, 3]⟩⟩]

theorem oneRowPage_sound : oneRowPage.Sound where
  upper_le := by decide
  row := by
    intro off hoff hn
    match off, hoff with
    | 1, _ => exact ⟨⟨rfl, by decide, by decide⟩, by decide⟩
    | off + 2, _ =>
      rw [oneRowPage.row_of_length_lt (off + 2) (by simp [oneRowPage])] at hn
      cases hn

/-- The row is updated to an external value, which is never done in place. -/
def moveToToast : List HeapStep :=
  [.op (seventh 100) (.updateOld 1 false (0, 2)),
   .op (seventh 100) (.updateNew ⟨0, 0, 0, xheapHasExternal, 3#16, 29, List.replicate 18 9⟩)]

/-- After the rollback of a non-in-place update its old row is locked by nobody. -/
theorem rollback_leaves_lock_bit :
    oneRowPage.Sound ∧ (oneRowPage.row 1).tup.flag &&& xheapLockStatusMask = 0#16 ∧
      ∃ log p', Run 7 oneRowPage moveToToast log p' ∧ ∀ env, ∃ Q,
        rollback env log p' = .ok (.rok, Q) ∧ (Q.row 1).tup.flag = xheapXidExclLock ∧
          (Q.row 1).tup.lockerXid = invalidXid := by
  refine ⟨oneRowPage_sound, rfl, _, _,
    .op rfl (seventh_running 100) ⟨by decide, by decide, rfl, rfl⟩ rfl
      (.op rfl (seventh_running 100) ⟨by decide, by decide⟩ rfl (.done _)), ?_⟩
  exact fun env => ⟨_, rfl, rfl, rfl⟩

def updateThenDelete : List HeapStep :=
  [.op (seventh 100) (.inplaceUpdate 1 ⟨0, 0, 0, 0#16, 3#16, 29, [1, 7, 7, 7, 3]⟩),
   .op (seventh 102) (.delete 1 false)]

theorem rollback_restores_update_then_delete :
    ∃ log p', Run 7 oneRowPage updateThenDelete log p' ∧ ∀ env, ∃ Q,
      rollback env log p' = .ok (.rok, Q) ∧
        ∀ off, 1 ≤ off → RolledBack (beforeFirst oneRowPage updateThenDelete off) (Q.row off) := by
  have hrun : ∃ log p', Run 7 oneRowPage updateThenDelete log p' := by
    exact ⟨_, _, .op rfl (seventh_running 100)
      ⟨⟨by decide, by decide, rfl, rfl⟩, by decide, by decide⟩ rfl
      (.op rfl (seventh_running 102) ⟨by decide, by decide, rfl, rfl⟩ rfl (.done _))⟩
  obtain ⟨log, p', hrun⟩ := hrun
  refine ⟨log, p', hrun, fun env => ?_⟩
  refine (rollback_restores_rows_iff env oneRowPage_sound hrun).mpr fun off hoff c o h => ?_
  match off, hoff with
  | 1, _ =>
    cases h
    rfl
  | off + 2, _ =>
    have hnone : (beforeFirst oneRowPage updateThenDelete (off + 2)).2 = none := rfl
    rw [hnone] at h
    cases h

end XStore
