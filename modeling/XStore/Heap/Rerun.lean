import XStore.Heap.Settled

/-!
# Running a rollback a second time

Records that have been applied to a page no longer fire on it.  A second run therefore changes no
row, and what remains of it is the cursor of the main loop and the ranges handed to
`log_xheap_undo_actions`.
-/
namespace XStore

open List

/-- The ranges without the check that a second run may fail. -/
structure RangesBounded (st : ActionState) : Prop where
  min_pos : invalidOffsetNumber < st.xlogMinLpOffset
  max_lt : st.xlogMaxLpOffset < maxOffsetNumber
  start_le : st.xlogCopyStartOffset ≤ blcksz
  end_le : st.xlogCopyEndOffset ≤ blcksz

/-- A record that modifies a row whose line pointer is by now unused. -/
def Orphaned (p : XPage) (u : HeapRecord) : Prop :=
  u.body.isModify = true ∧ (p.row u.uurOffset).rp.isUsed = false

structure PassedAgain (p : XPage) (u : HeapRecord) (st st' : ActionState) : Prop where
  page : st'.page = p
  needPageInit : st'.needPageInit = if u.body.isInsert then p.allUnused else st.needPageInit
  bounded : RangesBounded st → RangesBounded st'
  start_gt : sizeOfXHeapPageHeaderData < st'.xlogCopyStartOffset ↔
    sizeOfXHeapPageHeaderData < st.xlogCopyStartOffset ∧ ¬ Orphaned p u

section SecondRun

variable {env : RollbackEnv} {needsWal : Bool} {us : List HeapRecord} {u : HeapRecord} {p : XPage}
  {st : ActionState} {r : Row}

theorem RangesBounded.noteOffset (h : RangesBounded st) {off : Nat} (hoff : off < maxOffsetNumber) :
    RangesBounded (st.noteOffset off) := by
  have hmin := h.min_pos
  have hmax := h.max_lt
  refine ⟨?_, ?_, h.start_le, h.end_le⟩
  · simp only [ActionState.noteOffset]
    split <;> omega
  · simp only [ActionState.noteOffset]
    split <;> omega

theorem RangesBounded.noteRange (h : RangesBounded st) {s e : Nat} (hs : 1 ≤ s)
    (he : e < maxOffsetNumber) : RangesBounded (st.noteRange s e) := by
  have hmin := h.min_pos
  have hmax := h.max_lt
  refine ⟨?_, ?_, h.start_le, h.end_le⟩
  · simp only [ActionState.noteRange, invalidOffsetNumber] at hmin ⊢
    split <;> omega
  · simp only [ActionState.noteRange]
    split <;> omega

theorem RangesBounded.noteCopy (h : RangesBounded st) (hr : RowPlaced r) :
    RangesBounded (st.noteCopy r.rp) := by
  have hstart := h.start_le
  have hend := h.end_le
  have hroom : r.rp.offset + r.rp.len ≤ blcksz := by
    rcases hr with hun | ⟨-, -, hroom⟩
    · rw [hun]
      decide
    · exact hroom
  refine ⟨h.min_pos, h.max_lt, ?_, ?_⟩
  · simp only [ActionState.noteCopy]
    split <;> omega
  · simp only [ActionState.noteCopy]
    split <;> omega

/-- A placed row pointer lies behind the page header exactly when it is in use. -/
theorem RowPlaced.offset_gt_iff (hr : RowPlaced r) :
    sizeOfXHeapPageHeaderData < r.rp.offset ↔ r.rp.isUsed = true := by
  rcases hr with hun | ⟨hn, hlow, -⟩
  · rw [hun]
    decide
  · exact ⟨fun _ => RowPtr.isUsed_of_isNormal hn, fun _ => hlow⟩

theorem noteCopy_start_gt (st : ActionState) (rp : RowPtr) :
    sizeOfXHeapPageHeaderData < (st.noteCopy rp).xlogCopyStartOffset ↔
      sizeOfXHeapPageHeaderData < st.xlogCopyStartOffset ∧
        sizeOfXHeapPageHeaderData < rp.offset := by
  simp only [ActionState.noteCopy]
  split <;> omega

theorem processRecord_modify_again (env : RollbackEnv) (hm : u.body.isModify = true)
    (hquiet : ¬ Fires u (p.row u.uurOffset)) (hplaced : RecordPlaced u)
    (hrow : RowPlaced (p.row u.uurOffset)) (hst : st.page = p) :
    ∃ st', processRecord env u st = .ok st' ∧ PassedAgain p u st st' := by
  have hins : u.body.isInsert = false := by
    cases hbody : u.body <;> simp_all [HeapUndo.isModify, HeapUndo.isInsert]
  have hnote : RangesBounded st → RangesBounded (st.noteOffset u.uurOffset) :=
    fun h => h.noteOffset hplaced.offset_lt
  obtain ⟨res, hres, hsw⟩ := executeUndoModify_inert env hm hquiet
  rw [processRecord_modify hm, hst, hres]
  refine ⟨_, rfl, ?_⟩
  cases res with
  | rok =>
    refine ⟨rfl, by simp [hins]; rfl, fun h => ?_, ?_⟩
    · have hb : RangesBounded { st.noteOffset u.uurOffset with page := p } :=
        ⟨(hnote h).min_pos, (hnote h).max_lt, (hnote h).start_le, (hnote h).end_le⟩
      exact hb.noteCopy hrow
    · rw [ActionState.afterModify, noteCopy_start_gt, hrow.offset_gt_iff]
      simp [Orphaned, hm, ActionState.noteOffset]
  | rswitch =>
    -- a record that waits has found a normal row pointer
    have hused := RowPtr.isUsed_of_isNormal (hsw rfl)
    refine ⟨rfl, by simp [hins]; rfl, fun h => ?_, ?_⟩
    · exact ⟨(hnote h).min_pos, (hnote h).max_lt, (hnote h).start_le, (hnote h).end_le⟩
    · simp [ActionState.afterModify, ActionState.noteOffset, Orphaned, hused]

theorem processRecord_again (env : RollbackEnv) (hp : RolledBackOnce needsWal us p) (hu : u ∈ us)
    (hplaced : RecordPlaced u) (hst : st.page = p) :
    ∃ st', processRecord env u st = .ok st' ∧ PassedAgain p u st st' := by
  have hquiet := hp.quiet u hu
  have hnote : RangesBounded st → RangesBounded (st.noteOffset u.uurOffset) :=
    fun h => h.noteOffset hplaced.offset_lt
  cases hbody : u.body with
  | insert =>
    have hins : u.body.isInsert = true := by rw [hbody]; rfl
    have hpage : (executeUndoInsert st.page u.uurOffset u).2 = p := by
      rw [hst]
      exact executeUndoInsert_inert hins (hquiet _ (by simp [UnpackedUndoRecord.sites, hbody]))
    refine ⟨(st.noteOffset u.uurOffset).afterInsert (executeUndoInsert st.page u.uurOffset u),
      by simp only [processRecord, hbody]; rfl, hpage, ?_, ?_, ?_⟩
    · simp only [ActionState.afterInsert, hpage, hins, if_true]
    · exact fun h => ⟨(hnote h).min_pos, (hnote h).max_lt, (hnote h).start_le, (hnote h).end_le⟩
    · simp [ActionState.afterInsert, ActionState.noteOffset, Orphaned, hbody, HeapUndo.isModify]
  | multiInsert s e =>
    have hins : u.body.isInsert = true := by rw [hbody]; rfl
    obtain ⟨hs, he⟩ := hplaced.range s e hbody
    have hpage : (executeUndoMultiInsert st.page u s e).2 = p := by
      rw [hst]
      exact undoInsertLine_inert hins _ (.rok, p)
        (fun o ho => hquiet o (by simpa [UnpackedUndoRecord.sites, hbody] using ho))
    refine ⟨((st.noteOffset u.uurOffset).noteRange s e).afterInsert
      (executeUndoMultiInsert st.page u s e),
      by simp only [processRecord, hbody]; rfl, hpage, ?_, ?_, ?_⟩
    · simp only [ActionState.afterInsert, hpage, hins, if_true]
    · intro h
      have hr := (hnote h).noteRange hs he
      exact ⟨hr.min_pos, hr.max_lt, hr.start_le, hr.end_le⟩
    · simp [ActionState.afterInsert, ActionState.noteRange, ActionState.noteOffset, Orphaned, hbody,
        HeapUndo.isModify]
  | other => exact absurd hbody (hp.known u hu)
  | delete | update ctid | inplaceUpdate d =>
    have hm : u.body.isModify = true := by rw [hbody]; rfl
    have hoff : 1 ≤ u.uurOffset := hplaced.offset_pos (by rw [hbody]; rfl)
    exact processRecord_modify_again env hm
      (hquiet _ (by simp [UnpackedUndoRecord.sites, hbody])) hplaced (hp.placed _ hoff) hst

def insertsAt (us : List HeapRecord) (i : Nat) : Bool := us[i]?.any fun u => u.body.isInsert

structure RanAgain (p : XPage) (us : List HeapRecord) (V : List Nat) (st st' : ActionState) :
    Prop where
  page : st'.page = p
  needPageInit : st'.needPageInit = if V.any (insertsAt us) then p.allUnused else st.needPageInit
  bounded : RangesBounded st → RangesBounded st'
  start_gt : sizeOfXHeapPageHeaderData < st'.xlogCopyStartOffset ↔
    sizeOfXHeapPageHeaderData < st.xlogCopyStartOffset ∧
      ∀ i ∈ V, ∀ u, us[i]? = some u → ¬ Orphaned p u

theorem applyBatch_again (env : RollbackEnv) (hp : RolledBackOnce needsWal us p)
    (hplaced : ∀ u ∈ us, RecordPlaced u) (V : List Nat) (hV : ∀ i ∈ V, i < us.length)
    (hst : st.page = p) :
    ∃ st', applyBatch env us V st = (V, .ok st') ∧ RanAgain p us V st st' := by
  induction V generalizing st with
  | nil => exact ⟨st, rfl, hst, by simp, id, by simp⟩
  | cons i V ih =>
    have hi := hV i (by simp)
    obtain ⟨st₁, hst₁, hpass⟩ := processRecord_again env hp (getElem_mem hi)
      (hplaced _ (getElem_mem hi)) hst
    obtain ⟨st', hst', hran⟩ := ih (fun j hj => hV j (by simp [hj])) hpass.page
    refine ⟨st', ?_, hran.page, ?_, fun h => hran.bounded (hpass.bounded h), ?_⟩
    · rw [applyBatch_step V st hi, hst₁]
      simp only [hst']
    · have hat : insertsAt us i = us[i].body.isInsert := by
        simp [insertsAt, getElem?_eq_getElem hi]
      rw [hran.needPageInit, hpass.needPageInit, any_cons, hat]
      cases us[i].body.isInsert <;> cases V.any (insertsAt us) <;> rfl
    · rw [hran.start_gt, hpass.start_gt, and_assoc]
      simp [getElem?_eq_getElem hi]

end SecondRun

/-- Where the main loop goes from position `i` when `c` is the first used line of the page. -/
def nextPosition (us : List HeapRecord) (c i : Nat) : Nat :=
  if us[i]?.any (fun u => u.body.isMultiInsert) then c + 1 else i + 1

/-- The positions the main loop passes from `i` on, up to leaving the list. -/
def IsPath (us : List HeapRecord) (c : Nat) : Nat → List Nat → Prop
  | i, [] => us.length ≤ i
  | i, j :: V => j = i ∧ i < us.length ∧ IsPath us c (nextPosition us c i) V

/-- The positions of a run that changes no row: up to the first multi-insert, then from behind the
first used line. -/
def visitedAgain (us : List HeapRecord) (c : Nat) : List Nat :=
  match us.findIdx? (fun u => u.body.isMultiInsert) with
  | none => List.range' 0 us.length
  | some m => List.range' 0 (m + 1) ++ List.range' (c + 1) (us.length - (c + 1))

section Path

variable {us : List HeapRecord} {c i : Nat}

theorem IsPath.lt_length {V : List Nat} (h : IsPath us c i V) : ∀ j ∈ V, j < us.length := by
  induction V generalizing i with
  | nil => nofun
  | cons j V ih =>
    obtain ⟨rfl, hlt, hrest⟩ := h
    intro k hk
    rcases mem_cons.mp hk with rfl | hin
    · exact hlt
    · exact ih hrest k hin

theorem nextPosition_plain (h : us[i]?.any (fun u => u.body.isMultiInsert) = false) :
    nextPosition us c i = i + 1 := by
  simp [nextPosition, h]

/-- Without a multi-insert ahead the loop passes every position that is left. -/
theorem isPath_rest (k : Nat) (hk : k = us.length - i)
    (h : ∀ j, i ≤ j → us[j]?.any (fun u => u.body.isMultiInsert) = false) :
    IsPath us c i (List.range' i k) := by
  induction k generalizing i with
  | zero =>
    change us.length ≤ i
    omega
  | succ k ih =>
    rw [List.range'_succ]
    refine ⟨rfl, by omega, ?_⟩
    rw [nextPosition_plain (h i (Nat.le_refl i))]
    exact ih (by omega) (fun j hj => h j (by omega))

/-- Up to the first multi-insert the loop passes every position, then it jumps. -/
theorem isPath_jump {m : Nat} {W : List Nat} (k : Nat) (hk : i + k = m) (hm : m < us.length)
    (hmulti : us[m]?.any (fun u => u.body.isMultiInsert) = true)
    (h : ∀ j, i ≤ j → j < m → us[j]?.any (fun u => u.body.isMultiInsert) = false)
    (hW : IsPath us c (c + 1) W) : IsPath us c i (List.range' i (k + 1) ++ W) := by
  induction k generalizing i with
  | zero =>
    have him : i = m := by omega
    subst him
    refine ⟨rfl, hm, ?_⟩
    rw [nextPosition, if_pos hmulti]
    exact hW
  | succ k ih =>
    rw [List.range'_succ]
    refine ⟨rfl, by omega, ?_⟩
    rw [nextPosition_plain (h i (Nat.le_refl i) (by omega))]
    exact ih (by omega) (fun j hj hjm => h j (by omega) hjm)

theorem isPath_visitedAgain
    (h : ∀ i u, us[i]? = some u → u.body.isMultiInsert = true → i ≤ c) :
    IsPath us c 0 (visitedAgain us c) := by
  have hplain : ∀ j, c + 1 ≤ j → us[j]?.any (fun u => u.body.isMultiInsert) = false := by
    intro j hj
    cases hget : us[j]? with
    | none => rfl
    | some u =>
      cases hmi : u.body.isMultiInsert with
      | false => simp [hmi]
      | true =>
        have := h j u hget hmi
        omega
  unfold visitedAgain
  cases hidx : us.findIdx? (fun u => u.body.isMultiInsert) with
  | none =>
    apply isPath_rest us.length (by omega)
    intro j _
    rw [findIdx?_eq_none_iff] at hidx
    cases hget : us[j]? with
    | none => rfl
    | some u => simpa using hidx u (mem_of_getElem? hget)
  | some m =>
    obtain ⟨hm, hmulti, hbefore⟩ := findIdx?_eq_some_iff_getElem.mp hidx
    refine isPath_jump m (by omega) hm (by simpa [getElem?_eq_getElem hm] using hmulti)
      (fun j _ hj => ?_) (isPath_rest _ rfl hplain)
    have hjlt : j < us.length := by omega
    simpa [getElem?_eq_getElem hjlt] using hbefore j hj

end Path

theorem undoActionsLoop_mono {env : RollbackEnv} {us : List HeapRecord} {endIdx fuel i : Nat}
    {st : ActionState} {r : List Nat × Except Panic ActionState}
    (h : undoActionsLoop env us endIdx fuel i st = some r) (k : Nat) :
    undoActionsLoop env us endIdx (fuel + k) i st = some r := by
  induction fuel generalizing i st r with
  | zero => simp [undoActionsLoop] at h
  | succ fuel ih =>
    rw [Nat.add_right_comm]
    simp only [undoActionsLoop] at h ⊢
    split at h
    · rename_i hpast
      rw [if_pos hpast]
      exact h
    · rename_i hin
      rw [if_neg hin]
      split at h
      · cases h
      · split at h
        · exact h
        · obtain ⟨r', hr', rfl⟩ := Option.map_eq_some_iff.mp h
          rw [ih hr']
          rfl

section Loop

variable {env : RollbackEnv} {needsWal : Bool} {us : List HeapRecord} {p : XPage}
  {st : ActionState} {i : Nat}

/-- One pass of a second run: no row changes, and the cursor moves as `nextPosition` says. -/
theorem undoActionsLoop_again_step (env : RollbackEnv) (hp : RolledBackOnce needsWal us p)
    (hplaced : ∀ u ∈ us, RecordPlaced u) (hi : i < us.length) (hst : st.page = p) (fuel : Nat) :
    ∃ st', processRecord env us[i] st = .ok st' ∧ st'.page = p ∧
      undoActionsLoop env us (us.length - 1) (fuel + 1) i st =
        (undoActionsLoop env us (us.length - 1) fuel (nextPosition us p.firstUsed i) st').map
          fun r => (i :: r.1, r.2) := by
  have hmem := getElem_mem hi
  obtain ⟨st', hst', hpass⟩ := processRecord_again env hp hmem (hplaced _ hmem) hst
  refine ⟨st', hst', hpass.page, ?_⟩
  have hnext : cursorAfter us[i] st' i + 1 = nextPosition us p.firstUsed i := by
    simp only [cursorAfter, nextPosition, getElem?_eq_getElem hi, hpass.page, Option.any_some]
    split <;> rfl
  rw [undoActionsLoop_step fuel st (by omega) hi, hst', ← hnext]

theorem undoActionsLoop_path (env : RollbackEnv) (hp : RolledBackOnce needsWal us p)
    (hplaced : ∀ u ∈ us, RecordPlaced u) {V : List Nat} (hV : IsPath us p.firstUsed i V)
    (hne : us ≠ []) (hst : st.page = p) :
    undoActionsLoop env us (us.length - 1) (V.length + 1) i st = some (applyBatch env us V st) := by
  induction V generalizing i st with
  | nil =>
    have hpos := length_pos_of_ne_nil hne
    have hpast : us.length ≤ i := hV
    exact undoActionsLoop_past _ st (by omega)
  | cons j V ih =>
    obtain ⟨rfl, hi, hrest⟩ := hV
    obtain ⟨st', hst', hpage, hloop⟩ :=
      undoActionsLoop_again_step env hp hplaced hi hst (V.length + 1)
    rw [length_cons, hloop, ih hrest hpage, applyBatch_step V st hi, hst']
    rfl

/-- A multi-insert behind the first used line sends the loop back to before itself, for ever. -/
theorem undoActionsLoop_diverges (env : RollbackEnv) (hp : RolledBackOnce needsWal us p)
    (hplaced : ∀ u ∈ us, RecordPlaced u) {m : Nat} (hm : m < us.length)
    (hmulti : us[m].body.isMultiInsert = true) (hc : p.firstUsed < m) (fuel : Nat)
    (hi : i ≤ m) (hst : st.page = p) :
    undoActionsLoop env us (us.length - 1) fuel i st = none := by
  induction fuel generalizing i st with
  | zero => rfl
  | succ fuel ih =>
    have hlt : i < us.length := by omega
    obtain ⟨st', -, hpage, hloop⟩ := undoActionsLoop_again_step env hp hplaced hlt hst fuel
    rw [hloop, ih ?_ hpage]
    · rfl
    · simp only [nextPosition, getElem?_eq_getElem hlt, Option.any_some]
      split
      · omega
      · rename_i hplain
        have hne : i ≠ m := by
          rintro rfl
          exact hplain hmulti
        omega

end Loop

section Finish

variable {env : RollbackEnv} {needsWal : Bool} {us : List HeapRecord} {p : XPage} {V : List Nat}
  {st' : ActionState}

theorem rangesBounded_start (p : XPage) : RangesBounded (.start p) := by
  constructor <;> simp [ActionState.start, invalidOffsetNumber, maxOffsetNumber, blcksz]

theorem RangesBounded.valid_iff {st : ActionState} (h : RangesBounded st) :
    RangesValid st ↔ sizeOfXHeapPageHeaderData < st.xlogCopyStartOffset :=
  ⟨RangesValid.start_gt, fun hs => ⟨h.min_pos, h.max_lt, hs, h.start_le, h.end_le⟩⟩

/-- The end of a second run, by the positions it has passed. -/
theorem finishActions_again_iff (hp : RolledBackOnce needsWal us p)
    (hran : RanAgain p us V (.start p) st') :
    (∃ res, finishActions needsWal st' = .ok (res, p)) ↔
      (needsWal = true → V.any (insertsAt us) = true ∧ p.allUnused = true ∨
        ∀ i ∈ V, ∀ u, us[i]? = some u → ¬ Orphaned p u) := by
  have hinit : st'.needPageInit = true ↔ V.any (insertsAt us) = true ∧ p.allUnused = true := by
    rw [hran.needPageInit]
    cases V.any (insertsAt us) <;> simp [ActionState.start]
  have hpage : p = if st'.needPageInit then XPage.init else st'.page := by
    split
    · rename_i hn
      obtain ⟨hany, hun⟩ := hinit.mp hn
      obtain ⟨i, -, hi⟩ := any_eq_true.mp hany
      cases hu : us[i]? with
      | none => simp [insertsAt, hu] at hi
      | some u =>
        have hins : u.body.isInsert = true := by simpa [insertsAt, hu] using hi
        exact hp.emptied ⟨u, mem_of_getElem? hu, hins⟩ hun
    · exact hran.page.symm
  have hranges : RangesValid st' ↔ ∀ i ∈ V, ∀ u, us[i]? = some u → ¬ Orphaned p u := by
    rw [(hran.bounded (rangesBounded_start p)).valid_iff, hran.start_gt]
    exact and_iff_right (by simp [ActionState.start, sizeOfXHeapPageHeaderData, blcksz])
  simp only [finishActions_ok_iff, logXheapUndoActions_ok_iff, hinit, hranges, hran.page]
  constructor
  · rintro ⟨res, hlog, -⟩ hw
    exact (hlog hw).2
  · intro h
    refine ⟨_, fun hw => ⟨hp.potential hw, h hw⟩, rfl, ?_⟩
    rw [hran.page] at hpage
    simpa only [hinit] using hpage

end Finish

/-- Running a completed rollback again changes nothing and does not panic exactly when the loop
cannot be thrown back by a multi-insert and, if the relation is logged, either the page is
initialised again or no record that is passed modifies a row whose line is unused by now. -/
theorem rerun_harmless_iff (env : RollbackEnv) (needsWal : Bool) (X : Nat) (us : List HeapRecord)
    (p p' : XPage) (res : RollbackResult) (hne : us ≠ [])
    (hp : ∀ o, 1 ≤ o → RowPlaced (p.row o)) (hplaced : ∀ u ∈ us, RecordPlaced u)
    (horder : OldestLast X us)
    (hfirst : rollbackBatch env needsWal us 0 (us.length - 1) p = .ok (res, p')) :
    (∃ fuel res', executeXheapUndoactions env needsWal us 0 (us.length - 1) p' fuel =
        some (.ok (res', p'))) ↔
      (∀ i u, us[i]? = some u → u.body.isMultiInsert = true → i ≤ p'.firstUsed) ∧
        (needsWal = true →
          (visitedAgain us p'.firstUsed).any (insertsAt us) = true ∧ p'.allUnused = true ∨
          ∀ i ∈ visitedAgain us p'.firstUsed, ∀ u, us[i]? = some u → ¬ Orphaned p' u) := by
  have honce := rolledBackOnce_of_batch hne hp hplaced horder hfirst
  by_cases hjump : ∀ i u, us[i]? = some u → u.body.isMultiInsert = true → i ≤ p'.firstUsed
  · have hpath := isPath_visitedAgain hjump
    have hst : (ActionState.start p').page = p' := rfl
    obtain ⟨st', hbatch, hran⟩ := applyBatch_again env honce hplaced _ hpath.lt_length hst
    have hloop := undoActionsLoop_path env honce hplaced hpath hne hst
    rw [hbatch] at hloop
    rw [and_iff_right hjump, ← finishActions_again_iff honce hran]
    constructor
    · rintro ⟨fuel, res', hexec⟩
      -- more fuel gives the same result, so the two runs agree
      obtain ⟨r, hr, hres⟩ := Option.map_eq_some_iff.mp hexec
      have hmore := undoActionsLoop_mono hr ((visitedAgain us p'.firstUsed).length + 1)
      rw [Nat.add_comm, undoActionsLoop_mono hloop fuel, Option.some.injEq] at hmore
      rw [← hmore] at hres
      exact ⟨res', hres⟩
    · rintro ⟨res', hfin⟩
      refine ⟨(visitedAgain us p'.firstUsed).length + 1, res', ?_⟩
      rw [executeXheapUndoactions, hloop]
      exact congrArg some hfin
  · simp only [hjump, false_and, iff_false, not_exists]
    intro fuel res' hexec
    obtain ⟨m, u, hget, hmulti, hlt⟩ : ∃ i u, us[i]? = some u ∧ u.body.isMultiInsert = true ∧
        p'.firstUsed < i := by
      by_contra hno
      exact hjump fun i u hget hmulti => by
        by_contra hgt
        exact hno ⟨i, u, hget, hmulti, by omega⟩
    obtain ⟨hm, rfl⟩ := List.getElem?_eq_some_iff.mp hget
    rw [executeXheapUndoactions, undoActionsLoop_diverges env honce hplaced hm hmulti hlt fuel
      (Nat.zero_le m) rfl] at hexec
    cases hexec

section InsertedAndDeleted

/-- Row 1 belongs to an older transaction; transaction 7 has inserted row 2 (undo record 100) and
deleted it again (undo record 101). -/
def insertedAndDeletedPage : XPage where
  pdFlags := 0#16
  pdUpper := 8112
  pdSpecial := blcksz
  pdPruneXid := 7
  potentialFreespace := 8000
  rows := [⟨⟨8152, .normal, 40⟩, ⟨5, 0, 90, 0#16, 1#16, 32, List.replicate 11 1⟩⟩,
    ⟨⟨8112, .normal, 40⟩, ⟨7, 0, 101, xheapDeleted, 1#16, 32, List.replicate 11 2⟩⟩]

def insertedAndDeletedList : List HeapRecord :=
  [⟨7, 1, 16384, 16384, 1663, 0, 2, 100, 7, 0#16, none, .delete, 101, 0⟩,
   ⟨7, 0, 16384, 16384, 1663, 0, 2, 0, 0, 0#16, none, .insert, 100, 1⟩]

/-- The second run logs a copy range that starts at offset 0 and panics. -/
theorem rerun_panics_on_freed_row :
    ∃ p', rollbackBatch quietEnv true insertedAndDeletedList 0 1 insertedAndDeletedPage =
        .ok (.rok, p') ∧ (p'.row 2).rp = RowPtr.unused ∧
      ∀ fuel, executeXheapUndoactions quietEnv true insertedAndDeletedList 0 1 p' (fuel + 3) =
        some (.error (.invalidCopyRange 0 0)) :=
  ⟨_, rfl, rfl, fun _ => rfl⟩

theorem rowPlaced_of_rows {p : XPage} (h : ∀ r ∈ p.rows, RowPlaced r) :
    ∀ o, 1 ≤ o → RowPlaced (p.row o) := fun _ ho => XPage.forall_row h (.inl rfl) ho

/-- With the delete alone the second run passes the checks. -/
theorem rerun_harmless_after_delete :
    ∃ p', rollbackBatch quietEnv true (insertedAndDeletedList.take 1) 0 0 insertedAndDeletedPage =
        .ok (.rok, p') ∧
      ∃ fuel res', executeXheapUndoactions quietEnv true (insertedAndDeletedList.take 1) 0 0 p'
        fuel = some (.ok (res', p')) := by
  refine ⟨_, rfl, ?_⟩
  refine (rerun_harmless_iff quietEnv true 7 (insertedAndDeletedList.take 1) insertedAndDeletedPage
    _ .rok (by decide) (rowPlaced_of_rows ?_) ?_ ?_ rfl).mpr ⟨?_, fun _ => .inr ?_⟩
  · decide
  · intro u hu
    cases List.mem_singleton.mp hu
    exact ⟨by decide, fun _ => by decide, nofun⟩
  · exact ⟨by decide, by decide, by decide⟩
  · intro i u hget hm
    match i with
    | 0 =>
      cases hget
      cases hm
    | i + 1 => cases hget
  · intro i hi u hget ho
    cases List.mem_singleton.mp hi
    cases hget
    exact absurd ho.2 (by decide)

end InsertedAndDeleted

end XStore
