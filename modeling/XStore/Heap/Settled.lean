import XStore.Heap.UndoActions

/-!
# What a completed rollback leaves behind

An undo record fires on a row that is still owned by its transaction and whose newest record it
is.  Once a list of records has been applied newest first, none of them fires on the page again.
-/
namespace XStore

open List

namespace HeapUndo

def isInsert : HeapUndo → Bool
  | insert => true
  | multiInsert _ _ => true
  | _ => false

def isModify : HeapUndo → Bool
  | delete => true
  | update _ => true
  | inplaceUpdate _ => true
  | _ => false

end HeapUndo

def UnpackedUndoRecord.sites (u : HeapRecord) : List Nat :=
  match u.body with
  | .multiInsert s e => List.range' s (e + 1 - s)
  | .other => []
  | _ => [u.uurOffset]

/-- The tests of the undo functions let the record through on this row. -/
structure Fires (u : HeapRecord) (r : Row) : Prop where
  reachable : (if u.body.isInsert then r.rp.hasStorage else r.rp.isNormal) = true
  modifiedXid : r.tup.modifiedXid = u.uurXid
  urec : r.tup.urec = u.uurUrp

variable {u : HeapRecord} {r : Row} {st : ActionState}

theorem Fires.gate (h : Fires u r) : undoGate u r.tup = .apply :=
  undoGate_eq_apply.mpr ⟨h.modifiedXid, h.urec⟩

theorem not_fires_of_unused (h : r.rp = RowPtr.unused) :
    ¬ Fires u r := by
  intro hf
  have hr := hf.reachable
  rw [h] at hr
  split at hr <;> cases hr

/-- What the undo of a record makes of a row it lets through. -/
inductive RowUndone (u : HeapRecord) (r r' : Row) : Prop
  | freed : r'.rp = RowPtr.unused → RowUndone u r r'
  | rewound : r.rp.isNormal = true → r'.rp.flags = r.rp.flags → r'.rp.offset = r.rp.offset →
      (r.rp.offset + r.rp.len ≤ blcksz → r'.rp.offset + r'.rp.len ≤ blcksz) →
      r'.tup.modifiedXid = u.uurPrevxid → r'.tup.urec = u.uurTpprevurp → RowUndone u r r'

section OneRecord

variable {env : RollbackEnv} {u : HeapRecord} {p p' : XPage} {off : Nat} {res : RollbackResult}

@[simp] theorem undoKeepSubtxnLock_modifiedXid (t : XHeapDiskTuple) (m : Flag) :
    (undoKeepSubtxnLock env u t m).modifiedXid = t.modifiedXid := by
  unfold undoKeepSubtxnLock
  split
  · rfl
  · split <;> rfl

@[simp] theorem undoKeepSubtxnLock_urec (t : XHeapDiskTuple) (m : Flag) :
    (undoKeepSubtxnLock env u t m).urec = t.urec := by
  unfold undoKeepSubtxnLock
  split
  · rfl
  · split <;> rfl

theorem fires_le_length (h : Fires u (p.row off)) : off ≤ p.rows.length := by
  by_contra hlt
  rw [p.row_of_length_lt off (by omega)] at h
  exact not_fires_of_unused rfl h

theorem executeUndoInsert_inert (hb : u.body.isInsert = true) (h : ¬ Fires u (p.row off)) :
    (executeUndoInsert p off u).2 = p := by
  cases hs : (p.row off).rp.hasStorage with
  | false => simp [executeUndoInsert, hs]
  | true =>
    cases hg : undoGate u (p.row off).tup with
    | apply =>
      obtain ⟨hx, hu⟩ := undoGate_eq_apply.mp hg
      exact absurd ⟨by rw [hb]; exact hs, hx, hu⟩ h
    | alreadyDone => simp [executeUndoInsert, hs, hg]
    | waitSwitch => simp [executeUndoInsert, hs, hg]

theorem executeUndoInsert_fires (hb : u.body.isInsert = true) (hoff : 1 ≤ off)
    (h : Fires u (p.row off)) :
    p.ChangedAt (executeUndoInsert p off u).2 off (undoInsertRow (p.row off)) := by
  have hs : (p.row off).rp.hasStorage = true := by simpa [hb] using h.reachable
  refine (XPage.ChangedAt.setRow hoff (fires_le_length h) _).congr_rows rfl ?_
  simp [executeUndoInsert, hs, h.gate, XPage.setRow]

def executeUndoModify (env : RollbackEnv) (p : XPage) (u : HeapRecord) :
    Except Panic (RollbackResult × XPage) :=
  match u.body with
  | .delete => .ok (executeUndoForDelete env p u)
  | _ => executeUndoForUpdate env p u

theorem executeUndoModify_inert (env : RollbackEnv) (hb : u.body.isModify = true)
    (h : ¬ Fires u (p.row u.uurOffset)) :
    ∃ res, executeUndoModify env p u = .ok (res, p) ∧
      (res = .rswitch → (p.row u.uurOffset).rp.isNormal = true) := by
  have hins : u.body.isInsert = false := by
    cases hbody : u.body <;> simp_all [HeapUndo.isModify, HeapUndo.isInsert]
  cases hn : (p.row u.uurOffset).rp.isNormal with
  | false =>
    refine ⟨.rok, ?_, nofun⟩
    cases hbody : u.body <;>
      simp_all [executeUndoModify, executeUndoForDelete, executeUndoForUpdate]
  | true =>
    cases hg : undoGate u (p.row u.uurOffset).tup with
    | apply =>
      obtain ⟨hx, hu⟩ := undoGate_eq_apply.mp hg
      exact absurd ⟨by rw [hins]; exact hn, hx, hu⟩ h
    | alreadyDone =>
      refine ⟨.rok, ?_, nofun⟩
      cases hbody : u.body <;>
        simp_all [executeUndoModify, executeUndoForDelete, executeUndoForUpdate, Gate.result]
    | waitSwitch =>
      refine ⟨.rswitch, ?_, fun _ => rfl⟩
      cases hbody : u.body <;>
        simp_all [executeUndoModify, executeUndoForDelete, executeUndoForUpdate, Gate.result]

theorem executeUndoModify_fires (hb : u.body.isModify = true) (hoff : 1 ≤ u.uurOffset)
    (h : Fires u (p.row u.uurOffset)) (hok : executeUndoModify env p u = .ok (res, p')) :
    ∃ r', p.ChangedAt p' u.uurOffset r' ∧ RowUndone u (p.row u.uurOffset) r' ∧
      r'.rp.isUsed = (p.row u.uurOffset).rp.isUsed := by
  have hins : u.body.isInsert = false := by
    cases hbody : u.body <;> simp_all [HeapUndo.isModify, HeapUndo.isInsert]
  have hn : (p.row u.uurOffset).rp.isNormal = true := by simpa [hins] using h.reachable
  have hset := fun r => XPage.ChangedAt.setRow hoff (fires_le_length h) r
  cases hbody : u.body with
  | delete =>
    simp only [executeUndoModify, hbody, executeUndoForDelete, hn, h.gate, Bool.not_true,
      Bool.false_eq_true, if_false, Except.ok.injEq, Prod.mk.injEq] at hok
    obtain ⟨-, rfl⟩ := hok
    refine ⟨_, hset _, .rewound hn rfl rfl id ?_ ?_, rfl⟩ <;> simp [undoDeleteTuple]
  | update ctid =>
    simp only [executeUndoModify, hbody, executeUndoForUpdate, hn, h.gate, Bool.not_true,
      Bool.false_eq_true, if_false, Except.ok.injEq, Prod.mk.injEq] at hok
    obtain ⟨-, rfl⟩ := hok
    refine ⟨_, (hset _).congr_rows rfl rfl, .rewound hn rfl rfl id ?_ ?_, rfl⟩ <;>
      simp [undoUpdateTuple]
  | inplaceUpdate d =>
    cases hrp : (p.row u.uurOffset).rp.changeLen d.oldTupleLength with
    | error e =>
      simp [executeUndoModify, hbody, executeUndoForUpdate, hn, h.gate, hrp, bind,
        Except.bind] at hok
    | ok rp =>
      simp only [executeUndoModify, hbody, executeUndoForUpdate, hn, h.gate, hrp, bind, Except.bind,
        pure, Except.pure, Bool.not_true, Bool.false_eq_true, if_false, Except.ok.injEq,
        Prod.mk.injEq] at hok
      obtain ⟨-, rfl⟩ := hok
      obtain ⟨hroom, rfl⟩ := RowPtr.changeLen_ok hrp
      refine ⟨_, hset _, .rewound hn rfl rfl (fun _ => hroom) ?_ ?_, rfl⟩ <;> simp [undoInplaceTuple]
  | insert => simp [hbody, HeapUndo.isModify] at hb
  | multiInsert s e => simp [hbody, HeapUndo.isModify] at hb
  | other => simp [hbody, HeapUndo.isModify] at hb

/-- The rows after a record has been applied: each one unchanged or undone, and none left on which
the record would fire again. -/
structure Processed (u : HeapRecord) (p p' : XPage) : Prop where
  row : ∀ o, 1 ≤ o → p'.row o = p.row o ∨ RowUndone u (p.row o) (p'.row o)
  quiet : ∀ o ∈ u.sites, ¬ Fires u (p'.row o)

theorem executeUndoInsert_rows (hb : u.body.isInsert = true) (hoff : 1 ≤ off) :
    (∀ o, 1 ≤ o → (executeUndoInsert p off u).2.row o = p.row o ∨
        ((executeUndoInsert p off u).2.row o).rp = RowPtr.unused) ∧
      ¬ Fires u ((executeUndoInsert p off u).2.row off) := by
  by_cases h : Fires u (p.row off)
  · have hch := executeUndoInsert_fires hb hoff h
    refine ⟨fun o ho => ?_, ?_⟩
    · by_cases heq : o = off
      · right
        rw [heq, hch.here]
        rfl
      · exact .inl (hch.elsewhere o ho heq)
    · rw [hch.here]
      exact not_fires_of_unused rfl
  · rw [executeUndoInsert_inert hb h]
    exact ⟨fun o _ => .inl rfl, h⟩

theorem undoInsertLine_rows (hb : u.body.isInsert = true) (offs : List Nat)
    (hoffs : ∀ o ∈ offs, 1 ≤ o) (acc : RollbackResult × XPage) :
    (∀ o, 1 ≤ o → (offs.foldl (undoInsertLine u) acc).2.row o = acc.2.row o ∨
        ((offs.foldl (undoInsertLine u) acc).2.row o).rp = RowPtr.unused) ∧
      ∀ o ∈ offs, ¬ Fires u ((offs.foldl (undoInsertLine u) acc).2.row o) := by
  induction offs generalizing acc with
  | nil => exact ⟨fun o _ => .inl rfl, nofun⟩
  | cons off offs ih =>
    have hoff := hoffs off (by simp)
    obtain ⟨hrow, hquiet⟩ := @executeUndoInsert_rows u acc.2 off hb hoff
    obtain ⟨hrows, hquiets⟩ := ih (fun o ho => hoffs o (by simp [ho])) (undoInsertLine u acc off)
    rw [foldl_cons]
    refine ⟨fun o ho => ?_, fun o ho => ?_⟩
    · rcases hrows o ho with heq | hun
      · rw [heq]
        exact hrow o ho
      · exact .inr hun
    · rcases mem_cons.mp ho with rfl | hin
      · rcases hrows o hoff with heq | hun
        · rw [heq]
          exact hquiet
        · exact not_fires_of_unused hun
      · exact hquiets o hin

theorem undoInsertLine_inert (hb : u.body.isInsert = true) (offs : List Nat)
    (acc : RollbackResult × XPage) (h : ∀ o ∈ offs, ¬ Fires u (acc.2.row o)) :
    (offs.foldl (undoInsertLine u) acc).2 = acc.2 := by
  induction offs generalizing acc with
  | nil => rfl
  | cons off offs ih =>
    have hpage : (undoInsertLine u acc off).2 = acc.2 :=
      executeUndoInsert_inert hb (h off (by simp))
    rw [foldl_cons, ih _ (fun o ho => by rw [hpage]; exact h o (by simp [ho])), hpage]

theorem executeUndoMultiInsert_processed {s e : Nat} (hb : u.body = .multiInsert s e)
    (hs : ∀ o ∈ u.sites, 1 ≤ o) : Processed u p (executeUndoMultiInsert p u s e).2 := by
  have hins : u.body.isInsert = true := by rw [hb]; rfl
  have hsites : u.sites = List.range' s (e + 1 - s) := by
    simp [UnpackedUndoRecord.sites, hb]
  rw [hsites] at hs
  obtain ⟨hrows, hquiet⟩ := undoInsertLine_rows hins _ hs (.rok, p)
  refine ⟨fun o ho => (hrows o ho).imp id .freed, ?_⟩
  rw [hsites]
  exact hquiet

end OneRecord

/-- Every row pointer is unused or designates bytes behind the page header. -/
def RowPlaced (r : Row) : Prop :=
  r.rp = RowPtr.unused ∨ r.rp.isNormal = true ∧ sizeOfXHeapPageHeaderData < r.rp.offset ∧
    r.rp.offset + r.rp.len ≤ blcksz

instance (r : Row) : Decidable (RowPlaced r) :=
  inferInstanceAs (Decidable (r.rp = RowPtr.unused ∨ r.rp.isNormal = true ∧
    sizeOfXHeapPageHeaderData < r.rp.offset ∧ r.rp.offset + r.rp.len ≤ blcksz))

/-- The offsets of a record as they are written: real line numbers. -/
structure RecordPlaced (u : HeapRecord) : Prop where
  offset_lt : u.uurOffset < maxOffsetNumber
  offset_pos : u.body.isMultiInsert = false → 1 ≤ u.uurOffset
  range : ∀ s e, u.body = .multiInsert s e → 1 ≤ s ∧ e < maxOffsetNumber

theorem RecordPlaced.site_pos (h : RecordPlaced u) : ∀ o ∈ u.sites, 1 ≤ o := by
  intro o ho
  unfold UnpackedUndoRecord.sites at ho
  split at ho
  · rename_i s e hb
    have hs := (h.range s e hb).1
    simp only [mem_range'_1] at ho
    omega
  · cases ho
  · rename_i hm _
    rw [mem_singleton.mp ho]
    apply h.offset_pos
    cases hb : u.body <;> simp_all [HeapUndo.isMultiInsert]

section Pass

variable {env : RollbackEnv} {u : HeapRecord} {st st' : ActionState}

theorem processRecord_modify (hb : u.body.isModify = true) :
    processRecord env u st = (executeUndoModify env st.page u).map
      ((st.noteOffset u.uurOffset).afterModify u.uurOffset) := by
  cases hbody : u.body <;> simp_all [processRecord, executeUndoModify, HeapUndo.isModify,
    ActionState.noteOffset, Except.map]

theorem processRecord_processed (hu : RecordPlaced u)
    (hself : u.uurPrevxid = u.uurXid → u.uurTpprevurp ≠ u.uurUrp)
    (h : processRecord env u st = .ok st') : Processed u st.page st'.page := by
  have hpos := hu.site_pos
  cases hm : u.body.isModify with
  | true =>
    have hsites : u.sites = [u.uurOffset] := by
      cases hbody : u.body <;> simp_all [UnpackedUndoRecord.sites, HeapUndo.isModify]
    have hoff : 1 ≤ u.uurOffset := hpos _ (by simp [hsites])
    rw [processRecord_modify hm] at h
    cases hres : executeUndoModify env st.page u with
    | error e => simp [hres, Except.map] at h
    | ok r =>
      obtain ⟨res, p'⟩ := r
      have hpage : st'.page = p' := by
        simp only [hres, Except.map, Except.ok.injEq] at h
        cases res <;> (rw [← h]; rfl)
      rw [hpage]
      by_cases hf : Fires u (st.page.row u.uurOffset)
      · obtain ⟨r', hch, hund, -⟩ := executeUndoModify_fires hm hoff hf hres
        refine ⟨fun o ho => ?_, ?_⟩
        · by_cases heq : o = u.uurOffset
          · right
            rw [heq, hch.here]
            exact hund
          · exact .inl (hch.elsewhere o ho heq)
        · simp only [hsites, mem_singleton, forall_eq, hch.here]
          cases hund with
          | freed hun => exact not_fires_of_unused hun
          | rewound _ _ _ _ hx hp =>
            intro hf'
            exact hself (hx.symm.trans hf'.modifiedXid) (hp.symm.trans hf'.urec)
      · obtain ⟨res', hres', -⟩ := executeUndoModify_inert env hm hf
        rw [hres] at hres'
        cases hres'
        refine ⟨fun o _ => .inl rfl, ?_⟩
        simpa [hsites] using hf
  | false =>
    cases hbody : u.body with
    | insert =>
      have hins : u.body.isInsert = true := by rw [hbody]; rfl
      have hsites : u.sites = [u.uurOffset] := by simp [UnpackedUndoRecord.sites, hbody]
      have hoff : 1 ≤ u.uurOffset := hpos _ (by simp [hsites])
      simp only [processRecord, hbody, Except.ok.injEq] at h
      subst h
      obtain ⟨hrow, hquiet⟩ := @executeUndoInsert_rows u st.page u.uurOffset hins hoff
      refine ⟨fun o ho => (hrow o ho).imp id .freed, fun o ho => ?_⟩
      rw [hsites] at ho
      rw [mem_singleton.mp ho]
      exact hquiet
    | multiInsert s e =>
      simp only [processRecord, hbody, Except.ok.injEq] at h
      subst h
      exact executeUndoMultiInsert_processed hbody hpos
    | other => simp [processRecord, hbody] at h
    | delete => simp [hbody, HeapUndo.isModify] at hm
    | update ctid => simp [hbody, HeapUndo.isModify] at hm
    | inplaceUpdate d => simp [hbody, HeapUndo.isModify] at hm

/-- A pass over an insert record asks anew whether the page is empty; the other passes keep both
the answer and what it is about. -/
theorem processRecord_needPageInit (hu : RecordPlaced u) (h : processRecord env u st = .ok st') :
    if u.body.isInsert then st'.needPageInit = st'.page.allUnused
    else st'.needPageInit = st.needPageInit ∧ st'.page.allUnused = st.page.allUnused := by
  cases hm : u.body.isModify with
  | true =>
    have hins : u.body.isInsert = false := by
      cases hbody : u.body <;> simp_all [HeapUndo.isModify, HeapUndo.isInsert]
    have hoff : 1 ≤ u.uurOffset := by
      apply hu.offset_pos
      cases hbody : u.body <;> simp_all [HeapUndo.isModify, HeapUndo.isMultiInsert]
    rw [processRecord_modify hm] at h
    cases hres : executeUndoModify env st.page u with
    | error e => simp [hres, Except.map] at h
    | ok r =>
      obtain ⟨res, p'⟩ := r
      simp only [hres, Except.map, Except.ok.injEq] at h
      have hst : st'.needPageInit = st.needPageInit ∧ st'.page = p' := by
        cases res <;> (rw [← h]; exact ⟨rfl, rfl⟩)
      simp only [hins, Bool.false_eq_true, if_false]
      refine ⟨hst.1, ?_⟩
      rw [hst.2]
      by_cases hf : Fires u (st.page.row u.uurOffset)
      · obtain ⟨r', hch, -, hused⟩ := executeUndoModify_fires hm hoff hf hres
        have hrow : ∀ o, 1 ≤ o → (p'.row o).rp.isUsed = (st.page.row o).rp.isUsed := by
          intro o ho
          by_cases heq : o = u.uurOffset
          · rw [heq, hch.here, hused]
          · rw [hch.elsewhere o ho heq]
        rw [Bool.eq_iff_iff, XPage.allUnused_iff_row, XPage.allUnused_iff_row]
        exact ⟨fun hall o ho => (hrow o ho) ▸ hall o ho, fun hall o ho => (hrow o ho).trans (hall o ho)⟩
      · obtain ⟨res', hres', -⟩ := executeUndoModify_inert env hm hf
        rw [hres] at hres'
        cases hres'
        rfl
  | false =>
    cases hbody : u.body with
    | insert =>
      simp only [processRecord, hbody, Except.ok.injEq] at h
      subst h
      rfl
    | multiInsert s e =>
      simp only [processRecord, hbody, Except.ok.injEq] at h
      subst h
      rfl
    | other => simp [processRecord, hbody] at h
    | delete => simp [hbody, HeapUndo.isModify] at hm
    | update ctid => simp [hbody, HeapUndo.isModify] at hm
    | inplaceUpdate d => simp [hbody, HeapUndo.isModify] at hm

end Pass

def applyAll (env : RollbackEnv) : List HeapRecord → ActionState → Except Panic ActionState
  | [], st => .ok st
  | u :: us, st => (processRecord env u st).bind (applyAll env us)

theorem applyBatch_eq_applyAll {env : RollbackEnv} (pre us post : List HeapRecord)
    (st : ActionState) :
    (applyBatch env (pre ++ (us ++ post)) (List.range' pre.length us.length) st).2 =
      applyAll env us st := by
  induction us generalizing pre st with
  | nil => rfl
  | cons u us ih =>
    have hlt : pre.length < (pre ++ (u :: us ++ post)).length := by simp
    rw [length_cons, List.range'_succ, applyBatch_step _ st hlt, applyAll]
    simp only [getElem_append_right (Nat.le_refl _), Nat.sub_self, cons_append,
      getElem_cons_zero]
    cases processRecord env u st with
    | error e => rfl
    | ok st' =>
      have hrest := ih (pre ++ [u]) st'
      simpa [Except.bind] using hrest

/-- The undo records of transaction `X`, newest first: a record names as the previous version of
its row neither itself nor a newer record of the list. -/
structure OldestLast (X : Nat) (us : List HeapRecord) : Prop where
  xid : ∀ u ∈ us, u.uurXid = X
  self : ∀ u ∈ us, u.uurPrevxid = X → u.uurTpprevurp ≠ u.uurUrp
  newer : us.Pairwise fun a b => b.uurPrevxid = X → b.uurTpprevurp ≠ a.uurUrp

structure Settled (applied : List HeapRecord) (st : ActionState) : Prop where
  quiet : ∀ u ∈ applied, ∀ o ∈ u.sites, ¬ Fires u (st.page.row o)
  placed : ∀ o, 1 ≤ o → RowPlaced (st.page.row o)
  known : ∀ u ∈ applied, u.body ≠ .other
  needPageInit : (∃ u ∈ applied, u.body.isInsert = true) →
    st.needPageInit = st.page.allUnused

/-- The checks before the WAL record, for a page that is not initialised again. -/
structure RangesValid (st : ActionState) : Prop where
  min_pos : invalidOffsetNumber < st.xlogMinLpOffset
  max_lt : st.xlogMaxLpOffset < maxOffsetNumber
  start_gt : sizeOfXHeapPageHeaderData < st.xlogCopyStartOffset
  start_le : st.xlogCopyStartOffset ≤ blcksz
  end_le : st.xlogCopyEndOffset ≤ blcksz

theorem logXheapUndoActions_ok_iff :
    logXheapUndoActions st = .ok () ↔
      st.page.potentialFreespace ≤ blcksz ∧ (st.needPageInit = true ∨ RangesValid st) := by
  unfold logXheapUndoActions
  split_ifs with h1 h2 h3 h4
  · simp [Nat.not_le.mpr h1]
  · simp [Nat.not_lt.mp h1, h2]
  · simp only [h2, false_iff, Bool.false_eq_true, false_or, not_and]
    intro _ hr
    have := hr.min_pos
    have := hr.max_lt
    omega
  · simp only [h2, false_iff, Bool.false_eq_true, false_or, not_and]
    intro _ hr
    have := hr.start_gt
    have := hr.start_le
    have := hr.end_le
    omega
  · simp only [true_iff]
    exact ⟨by omega, .inr ⟨by omega, by omega, by omega, by omega, by omega⟩⟩

theorem finishActions_ok_iff {needsWal : Bool} {res : RollbackResult}
    {p : XPage} :
    finishActions needsWal st = .ok (res, p) ↔
      (needsWal = true → logXheapUndoActions st = .ok ()) ∧
        res = (if st.waitSwitchZone then .rswitch else .rok) ∧
        p = if st.needPageInit then XPage.init else st.page := by
  cases needsWal with
  | false =>
    constructor
    · intro h
      cases h
      exact ⟨nofun, rfl, rfl⟩
    · rintro ⟨-, rfl, rfl⟩
      rfl
  | true =>
    cases hl : logXheapUndoActions st with
    | error e => simp [finishActions, hl, bind, Except.bind]
    | ok v =>
      simp only [finishActions, if_true, hl, bind, Except.bind, pure, Except.pure, Except.ok.injEq,
        Prod.mk.injEq, true_implies, true_and]
      exact ⟨fun h => ⟨h.1.symm, h.2.symm⟩, fun h => ⟨h.1.symm, h.2.symm⟩⟩

section FirstRun

variable {env : RollbackEnv} {X : Nat} {u : HeapRecord} {applied us : List HeapRecord}
  {st st' : ActionState} {r r' : Row}

theorem RowUndone.placed (h : RowUndone u r r') (hr : RowPlaced r) : RowPlaced r' := by
  cases h with
  | freed hun => exact .inl hun
  | rewound hn hflags hoffset hroom _ _ =>
    rcases hr with hun | ⟨-, hlow, hhigh⟩
    · rw [hun] at hn
      cases hn
    · refine .inr ⟨?_, hoffset ▸ hlow, hroom hhigh⟩
      simpa [RowPtr.isNormal, hflags] using hn

/-- A row that one record has undone does not fire a newer one. -/
theorem RowUndone.not_fires {v : HeapRecord} (h : RowUndone u r r')
    (hv : v.uurXid = X) (hnewer : u.uurPrevxid = X → u.uurTpprevurp ≠ v.uurUrp) :
    ¬ Fires v r' := by
  cases h with
  | freed hun => exact not_fires_of_unused hun
  | rewound _ _ _ _ hx hp =>
    intro hf
    exact hnewer (hx.symm.trans (hf.modifiedXid.trans hv)) (hp.symm.trans hf.urec)

theorem settled_step (hs : Settled applied st) (hu : RecordPlaced u) (hX : u.uurXid = X)
    (happlied : ∀ v ∈ applied, v.uurXid = X)
    (hself : u.uurPrevxid = X → u.uurTpprevurp ≠ u.uurUrp)
    (hnewer : ∀ v ∈ applied, u.uurPrevxid = X → u.uurTpprevurp ≠ v.uurUrp)
    (hplaced : ∀ v ∈ applied, RecordPlaced v)
    (h : processRecord env u st = .ok st') : Settled (u :: applied) st' := by
  have hp := processRecord_processed hu (fun hx => hself (hx.trans hX)) h
  have hinit := processRecord_needPageInit hu h
  refine ⟨fun v hv o ho => ?_, fun o ho => ?_, fun v hv => ?_, fun hex => ?_⟩
  · rcases mem_cons.mp hv with rfl | hin
    · exact hp.quiet o ho
    · rcases hp.row o ((hplaced v hin).site_pos o ho) with heq | hund
      · rw [heq]
        exact hs.quiet v hin o ho
      · exact hund.not_fires (happlied v hin) (hnewer v hin)
  · rcases hp.row o ho with heq | hund
    · rw [heq]
      exact hs.placed o ho
    · exact hund.placed (hs.placed o ho)
  · rcases mem_cons.mp hv with rfl | hin
    · intro hother
      simp [processRecord, hother] at h
    · exact hs.known v hin
  · cases hins : u.body.isInsert with
    | true => simpa [hins] using hinit
    | false =>
      simp only [hins, Bool.false_eq_true, if_false] at hinit
      obtain ⟨v, hv, hvins⟩ := hex
      rcases mem_cons.mp hv with rfl | hin
      · rw [hins] at hvins
        cases hvins
      · rw [hinit.1, hinit.2]
        exact hs.needPageInit ⟨v, hin, hvins⟩

/-- Applying the records one after another settles all of them. -/
theorem settled_run (hs : Settled applied st) (hplaced : ∀ u ∈ applied ++ us, RecordPlaced u)
    (horder : OldestLast X (applied.reverse ++ us)) (h : applyAll env us st = .ok st') :
    Settled (us.reverse ++ applied) st' := by
  induction us generalizing applied st with
  | nil =>
    cases h
    exact hs
  | cons u us ih =>
    rw [applyAll] at h
    cases hstep : processRecord env u st with
    | error e => simp [hstep, Except.bind] at h
    | ok st₁ =>
      rw [hstep] at h
      have hpair := pairwise_append.mp horder.newer
      have hs₁ : Settled (u :: applied) st₁ := by
        refine settled_step hs (hplaced u (by simp)) (horder.xid u (by simp))
          (fun v hv => horder.xid v (by simp [hv])) (horder.self u (by simp)) ?_
          (fun v hv => hplaced v (by simp [hv])) hstep
        exact fun v hv => hpair.2.2 v (by simpa using hv) u (by simp)
      have hrest := ih hs₁ (fun v hv => hplaced v (by simp at hv ⊢; tauto)) (by simpa using horder) h
      simpa using hrest

theorem settled_start {p : XPage} (hp : ∀ o, 1 ≤ o → RowPlaced (p.row o)) :
    Settled [] (.start p) :=
  ⟨nofun, hp, nofun, fun ⟨_, hu, _⟩ => nomatch hu⟩

structure RolledBackOnce (relationNeedsWal : Bool) (us : List HeapRecord) (p : XPage) : Prop where
  quiet : ∀ u ∈ us, ∀ o ∈ u.sites, ¬ Fires u (p.row o)
  placed : ∀ o, 1 ≤ o → RowPlaced (p.row o)
  known : ∀ u ∈ us, u.body ≠ .other
  emptied : (∃ u ∈ us, u.body.isInsert = true) → p.allUnused = true → p = XPage.init
  potential : relationNeedsWal = true → p.potentialFreespace ≤ blcksz

theorem rolledBackOnce_of_batch {needsWal : Bool} {p p' : XPage} {res : RollbackResult}
    (hne : us ≠ []) (hp : ∀ o, 1 ≤ o → RowPlaced (p.row o)) (hplaced : ∀ u ∈ us, RecordPlaced u)
    (horder : OldestLast X us)
    (h : rollbackBatch env needsWal us 0 (us.length - 1) p = .ok (res, p')) :
    RolledBackOnce needsWal us p' := by
  have hlen : 0 < us.length := length_pos_of_ne_nil hne
  have hpos : batchPositions 0 (us.length - 1) = List.range' 0 us.length := by
    unfold batchPositions
    congr 1
    omega
  have hall : (applyBatch env us (batchPositions 0 (us.length - 1)) (.start p)).2 =
      applyAll env us (.start p) := by
    rw [hpos]
    simpa using applyBatch_eq_applyAll [] us [] (.start p)
  rw [rollbackBatch, hall] at h
  cases hst : applyAll env us (.start p) with
  | error e => simp [hst, Except.bind] at h
  | ok st =>
    have hs := settled_run (settled_start hp) (by simpa using hplaced) (by simpa using horder) hst
    rw [hst, Except.bind, finishActions_ok_iff] at h
    obtain ⟨hlog, -, rfl⟩ := h
    cases hinit : st.needPageInit with
    | true =>
      simp only [if_true]
      refine ⟨fun u _ o _ => ?_, fun o _ => .inl ?_, ?_, fun _ _ => rfl, fun _ => by decide⟩
      · exact not_fires_of_unused (by rw [XPage.init_row]; rfl)
      · rw [XPage.init_row]
        rfl
      · exact fun u hu => hs.known u (by simpa using hu)
    | false =>
      simp only [Bool.false_eq_true, if_false]
      refine ⟨fun u hu => hs.quiet u (by simpa using hu), hs.placed,
        fun u hu => hs.known u (by simpa using hu), fun hex hun => ?_, fun hw => ?_⟩
      · obtain ⟨u, hu, hins⟩ := hex
        have hpage := hs.needPageInit ⟨u, by simpa using hu, hins⟩
        rw [hinit, hun] at hpage
        cases hpage
      · exact (logXheapUndoActions_ok_iff.mp (hlog hw)).1

end FirstRun

end XStore
