import XStore.Heap.UndoApply

/-!
# Rolling back a batch of undo records on one page

`execute_xheap_undoactions`: the main loop over positions `start_idx .. end_idx` of the sorted
undo list, the logged ranges it collects, the checks of `log_xheap_undo_actions`, and the
re-initialisation of an emptied page.  The scan that follows a multi-insert record runs on the
loop's own counter, so the model of the loop passes the counter on explicitly.
-/
namespace XStore

/-- The local variables of the main loop other than its counter. -/
structure ActionState where
  page : XPage
  waitSwitchZone : Bool
  needPageInit : Bool
  xlogMinLpOffset : Nat
  xlogMaxLpOffset : Nat
  xlogCopyStartOffset : Nat
  xlogCopyEndOffset : Nat
  deriving DecidableEq

namespace ActionState

def start (p : XPage) : ActionState := ⟨p, false, false, maxOffsetNumber, invalidOffsetNumber, blcksz, 0⟩

/-- "Store the minimum and maximum LP offsets of all undorecords" -/
def noteOffset (st : ActionState) (off : Nat) : ActionState :=
  { st with
    xlogMinLpOffset :=
      if invalidOffsetNumber < off ∧ off < st.xlogMinLpOffset then off else st.xlogMinLpOffset
    xlogMaxLpOffset :=
      if off ≤ maxOffsetNumber ∧ st.xlogMaxLpOffset < off then off else st.xlogMaxLpOffset }

/-- The offset range of a multi-insert record, taken without the guards of `noteOffset`. -/
def noteRange (st : ActionState) (startOffset endOffset : Nat) : ActionState :=
  { st with
    xlogMinLpOffset := if startOffset < st.xlogMinLpOffset then startOffset else st.xlogMinLpOffset
    xlogMaxLpOffset := if st.xlogMaxLpOffset < endOffset then endOffset else st.xlogMaxLpOffset }

/-- "Store the page offsets where we start and end updating tuples" -/
def noteCopy (st : ActionState) (rp : RowPtr) : ActionState :=
  { st with
    xlogCopyStartOffset :=
      if rp.offset < st.xlogCopyStartOffset then rp.offset else st.xlogCopyStartOffset
    xlogCopyEndOffset :=
      if st.xlogCopyEndOffset < rp.offset + rp.len then rp.offset + rp.len
      else st.xlogCopyEndOffset }

/-- After an insert or multi-insert record: remember a switch wait, and look for used lines. -/
def afterInsert (st : ActionState) (res : RollbackResult × XPage) : ActionState :=
  { st with page := res.2, needPageInit := res.2.allUnused,
            waitSwitchZone := st.waitSwitchZone || res.1 == .rswitch }

/-- After a delete or update record; a record that has to wait leaves the copy range alone. -/
def afterModify (st : ActionState) (off : Nat) : RollbackResult × XPage → ActionState
  | (.rswitch, p) => { st with page := p, waitSwitchZone := true }
  | (.rok, p) => { st with page := p }.noteCopy (p.row off).rp

end ActionState

/-- One line of a multi-insert record; a line that has to wait makes the whole record wait. -/
def undoInsertLine (u : HeapRecord) (acc : RollbackResult × XPage) (off : Nat) :
    RollbackResult × XPage :=
  let res := executeUndoInsert acc.2 off u
  (if res.1 = .rswitch then .rswitch else acc.1, res.2)

/-- The inner loop of `UNDO_MULTI_INSERT` over its offset range. -/
def executeUndoMultiInsert (p : XPage) (u : HeapRecord) (startOffset endOffset : Nat) :
    RollbackResult × XPage :=
  (List.range' startOffset (endOffset + 1 - startOffset)).foldl (undoInsertLine u) (.rok, p)

/-- One pass through the loop body, without what it does to the loop counter. -/
def processRecord (env : RollbackEnv) (u : HeapRecord) (st : ActionState) :
    Except Panic ActionState :=
  let st := st.noteOffset u.uurOffset
  match u.body with
  | .insert => .ok (st.afterInsert (executeUndoInsert st.page u.uurOffset u))
  | .multiInsert s e =>
    .ok ((st.noteRange s e).afterInsert (executeUndoMultiInsert st.page u s e))
  | .delete => .ok (st.afterModify u.uurOffset (executeUndoForDelete env st.page u))
  | .update _ | .inplaceUpdate _ =>
    (executeUndoForUpdate env st.page u).map (st.afterModify u.uurOffset)
  | .other => .error .unsupportedRollbackAction

/-- The loop counter at the end of a pass.  The scan for a used row pointer that closes the
multi-insert case is written with the counter `i` itself. -/
def cursorAfter (u : HeapRecord) (st : ActionState) (i : Nat) : Nat :=
  if u.body.isMultiInsert then st.page.firstUsed else i

/-- The main loop, with the positions it applies and the state it ends in; `none` when the fuel
runs out. -/
def undoActionsLoop (env : RollbackEnv) (ulist : List HeapRecord) (endIdx : Nat) :
    Nat → Nat → ActionState → Option (List Nat × Except Panic ActionState)
  | 0, _, _ => none
  | fuel + 1, i, st =>
    if endIdx < i then some ([], .ok st)
    else match ulist[i]? with
      | none => none
      | some u => match processRecord env u st with
        | .error e => some ([i], .error e)
        | .ok st' => (undoActionsLoop env ulist endIdx fuel (cursorAfter u st' i + 1) st').map
            fun r => (i :: r.1, r.2)

/-- What the loop is for: apply the records at the given positions once each, in this order,
until one of them panics. -/
def applyBatch (env : RollbackEnv) (ulist : List HeapRecord) :
    List Nat → ActionState → List Nat × Except Panic ActionState
  | [], st => ([], .ok st)
  | i :: is, st => match ulist[i]? with
    | none => ([], .ok st)
    | some u => match processRecord env u st with
      | .error e => ([i], .error e)
      | .ok st' => (i :: (applyBatch env ulist is st').1, (applyBatch env ulist is st').2)

def batchPositions (startIdx endIdx : Nat) : List Nat :=
  List.range' startIdx (endIdx + 1 - startIdx)

/-- `log_xheap_undo_actions`: the checks made before the WAL record is written. -/
def logXheapUndoActions (st : ActionState) : Except Panic Unit :=
  if blcksz < st.page.potentialFreespace then
    .error (.invalidPotentialFreespace st.page.potentialFreespace)
  else if st.needPageInit then .ok ()
  else if st.xlogMinLpOffset ≤ invalidOffsetNumber ∨ maxOffsetNumber ≤ st.xlogMaxLpOffset then
    .error (.invalidLpOffset st.xlogMinLpOffset st.xlogMaxLpOffset)
  else if st.xlogCopyStartOffset ≤ sizeOfXHeapPageHeaderData ∨ blcksz < st.xlogCopyStartOffset ∨
      blcksz < st.xlogCopyEndOffset then
    .error (.invalidCopyRange st.xlogCopyStartOffset st.xlogCopyEndOffset)
  else .ok ()

def finishActions (relationNeedsWal : Bool) (st : ActionState) :
    Except Panic (RollbackResult × XPage) := do
  if relationNeedsWal then logXheapUndoActions st
  return (if st.waitSwitchZone then .rswitch else .rok,
    if st.needPageInit then XPage.init else st.page)

def executeXheapUndoactions (env : RollbackEnv) (relationNeedsWal : Bool)
    (ulist : List HeapRecord) (startIdx endIdx : Nat) (p : XPage) (fuel : Nat) :
    Option (Except Panic (RollbackResult × XPage)) :=
  (undoActionsLoop env ulist endIdx fuel startIdx (.start p)).map
    fun r => r.2.bind (finishActions relationNeedsWal)

/-- The batch as the function is meant to process it: every record once, then the common end. -/
def rollbackBatch (env : RollbackEnv) (relationNeedsWal : Bool)
    (ulist : List HeapRecord) (startIdx endIdx : Nat) (p : XPage) :
    Except Panic (RollbackResult × XPage) :=
  (applyBatch env ulist (batchPositions startIdx endIdx) (.start p)).2.bind
    (finishActions relationNeedsWal)

variable {env : RollbackEnv} {ulist : List HeapRecord} {endIdx : Nat} {i : Nat}

theorem undoActionsLoop_past (fuel : Nat) (st : ActionState) (h : endIdx < i) :
    undoActionsLoop env ulist endIdx (fuel + 1) i st = some ([], .ok st) := by
  simp [undoActionsLoop, h]

theorem undoActionsLoop_step (fuel : Nat) (st : ActionState) (hi : i ≤ endIdx)
    (hu : i < ulist.length) :
    undoActionsLoop env ulist endIdx (fuel + 1) i st =
      match processRecord env ulist[i] st with
      | .error e => some ([i], .error e)
      | .ok st' => (undoActionsLoop env ulist endIdx fuel (cursorAfter ulist[i] st' i + 1) st').map
          fun r => (i :: r.1, r.2) := by
  rw [undoActionsLoop, if_neg (by omega : ¬ endIdx < i), List.getElem?_eq_getElem hu]

theorem applyBatch_step (is : List Nat) (st : ActionState) (hu : i < ulist.length) :
    applyBatch env ulist (i :: is) st =
      match processRecord env ulist[i] st with
      | .error e => ([i], .error e)
      | .ok st' => (i :: (applyBatch env ulist is st').1, (applyBatch env ulist is st').2) := by
  rw [applyBatch, List.getElem?_eq_getElem hu]

theorem batchPositions_nil (h : endIdx < i) : batchPositions i endIdx = [] := by
  simp [batchPositions]; omega

theorem batchPositions_cons (h : i ≤ endIdx) :
    batchPositions i endIdx = i :: batchPositions (i + 1) endIdx := by
  unfold batchPositions
  have hlen : endIdx + 1 - i = (endIdx + 1 - (i + 1)) + 1 := by omega
  rw [hlen, List.range'_succ]

/-- Every run of the loop that starts inside the range first applies the record it starts at. -/
theorem undoActionsLoop_head {fuel i : Nat} {st : ActionState}
    {r : List Nat × Except Panic ActionState} (hi : i ≤ endIdx)
    (h : undoActionsLoop env ulist endIdx fuel i st = some r) : r.1.head? = some i := by
  cases fuel with
  | zero => simp [undoActionsLoop] at h
  | succ fuel =>
    simp only [undoActionsLoop, if_neg (by omega : ¬ endIdx < i)] at h
    split at h
    · cases h
    · split at h
      · cases h; rfl
      · obtain ⟨r', -, rfl⟩ := Option.map_eq_some_iff.mp h
        rfl

/-- The reference run applies the first record of its positions first. -/
theorem applyBatch_head {i : Nat} (is : List Nat) (st : ActionState) (h : i < ulist.length) :
    (applyBatch env ulist (i :: is) st).1.head? = some i := by
  rw [applyBatch_step is st h]
  split <;> rfl

/-- After every multi-insert record of the batch, the first used row pointer of the page as the
records up to it have left it is the record's own position; after the last record of the batch it
need only not be smaller. -/
def CursorKept (env : RollbackEnv) (ulist : List HeapRecord) : List Nat → ActionState → Prop
  | [], _ => True
  | i :: is, st => match ulist[i]? with
    | none => True
    | some u => match processRecord env u st with
      | .error _ => True
      | .ok st' =>
        (u.body.isMultiInsert = true →
          if is = [] then i ≤ st'.page.firstUsed else st'.page.firstUsed = i) ∧
        CursorKept env ulist is st'

section

variable (hend : endIdx < ulist.length)

include hend

/-- The counter is where the next pass of the reference run needs it. -/
theorem cursor_step {fuel i : Nat} {u : HeapRecord} {st' : ActionState}
    (hi : i ≤ endIdx)
    (h : undoActionsLoop env ulist endIdx fuel (cursorAfter u st' i + 1) st' =
      some (applyBatch env ulist (batchPositions (i + 1) endIdx) st')) :
    u.body.isMultiInsert = true →
      if batchPositions (i + 1) endIdx = [] then i ≤ st'.page.firstUsed
      else st'.page.firstUsed = i := by
  intro hm
  have hc : cursorAfter u st' i = st'.page.firstUsed := by simp [cursorAfter, hm]
  rw [hc] at h
  rcases Nat.lt_or_ge endIdx (i + 1) with hlast | hmore
  · rw [if_pos (batchPositions_nil hlast)]
    by_contra hlt
    -- the counter fell back into the range, so the loop applies at least one more record
    have hhead := undoActionsLoop_head (by omega) h
    rw [batchPositions_nil hlast] at hhead
    simp [applyBatch] at hhead
  · rw [batchPositions_cons hmore] at h ⊢
    rw [if_neg (by simp)]
    have href := @applyBatch_head env ulist (i + 1) (batchPositions (i + 1 + 1) endIdx) st'
      (by omega)
    rcases Nat.lt_or_ge endIdx (st'.page.firstUsed + 1) with hout | hin
    · cases fuel with
      | zero => simp [undoActionsLoop] at h
      | succ fuel =>
        rw [undoActionsLoop_past fuel st' hout, Option.some.injEq] at h
        rw [← h] at href
        simp at href
    · have hhead := undoActionsLoop_head hin h
      rw [hhead] at href
      simpa using href

theorem cursorKept_of_loop (n : Nat) :
    ∀ (i fuel : Nat) (st : ActionState), endIdx + 1 - i = n →
      undoActionsLoop env ulist endIdx fuel i st =
        some (applyBatch env ulist (batchPositions i endIdx) st) →
      CursorKept env ulist (batchPositions i endIdx) st := by
  induction n with
  | zero =>
    intro i fuel st hn _
    rw [batchPositions_nil (by omega)]
    trivial
  | succ n ih =>
    intro i fuel st hn h
    have hi : i ≤ endIdx := by omega
    have hu : i < ulist.length := by omega
    rw [batchPositions_cons hi] at h ⊢
    cases fuel with
    | zero => simp [undoActionsLoop] at h
    | succ fuel =>
      rw [undoActionsLoop_step fuel st hi hu, applyBatch_step _ st hu] at h
      rw [CursorKept, List.getElem?_eq_getElem hu]
      simp only
      split
      · trivial
      · rename_i st' hst
        rw [hst] at h
        obtain ⟨r, hr, hcons⟩ := Option.map_eq_some_iff.mp h
        have hrest : r = applyBatch env ulist (batchPositions (i + 1) endIdx) st' :=
          Prod.ext (by simpa using congrArg Prod.fst hcons) (by simpa using congrArg Prod.snd hcons)
        rw [hrest] at hr
        have hstep := cursor_step hend hi hr
        refine ⟨hstep, ?_⟩
        rcases Nat.lt_or_ge endIdx (i + 1) with hlast | hmore
        · rw [batchPositions_nil hlast]
          trivial
        · have hcur : cursorAfter ulist[i] st' i = i := by
            unfold cursorAfter
            split
            · rename_i hm
              have := hstep hm
              rwa [batchPositions_cons hmore, if_neg (by simp)] at this
            · rfl
          rw [hcur] at hr
          exact ih (i + 1) fuel st' (by omega) hr

theorem loop_of_cursorKept (n : Nat) :
    ∀ (i : Nat) (st : ActionState), endIdx + 1 - i = n →
      CursorKept env ulist (batchPositions i endIdx) st →
      undoActionsLoop env ulist endIdx (n + 1) i st =
        some (applyBatch env ulist (batchPositions i endIdx) st) := by
  induction n with
  | zero =>
    intro i st hn _
    rw [batchPositions_nil (by omega), undoActionsLoop_past 0 st (by omega)]
    rfl
  | succ n ih =>
    intro i st hn hk
    have hi : i ≤ endIdx := by omega
    have hu : i < ulist.length := by omega
    rw [batchPositions_cons hi] at hk ⊢
    rw [CursorKept, List.getElem?_eq_getElem hu] at hk
    rw [undoActionsLoop_step (n + 1) st hi hu, applyBatch_step _ st hu]
    simp only at hk
    split at hk
    · rfl
    · rename_i st' hst
      obtain ⟨hcur, hrest⟩ := hk
      rcases Nat.lt_or_ge endIdx (i + 1) with hlast | hmore
      · have hout : endIdx < cursorAfter ulist[i] st' i + 1 := by
          unfold cursorAfter
          split
          · rename_i hm
            have := hcur hm
            rw [if_pos (batchPositions_nil hlast)] at this
            omega
          · omega
        rw [batchPositions_nil hlast, undoActionsLoop_past n st' hout]
        rfl
      · have hstay : cursorAfter ulist[i] st' i = i := by
          unfold cursorAfter
          split
          · rename_i hm
            have := hcur hm
            rwa [batchPositions_cons hmore, if_neg (by simp)] at this
          · rfl
        rw [hstay, ih (i + 1) st' (by omega) hrest]
        rfl

end

/-- The main loop of `execute_xheap_undoactions` terminates having applied each record of
`start_idx .. end_idx` exactly once, in increasing order, exactly when no multi-insert record of
the batch moves the loop counter. -/
theorem undoActionsLoop_applies_batch_iff (env : RollbackEnv) (ulist : List HeapRecord)
    (startIdx endIdx : Nat) (p : XPage) (hend : endIdx < ulist.length) :
    (∃ fuel, undoActionsLoop env ulist endIdx fuel startIdx (.start p) =
        some (applyBatch env ulist (batchPositions startIdx endIdx) (.start p))) ↔
      CursorKept env ulist (batchPositions startIdx endIdx) (.start p) := by
  constructor
  · rintro ⟨fuel, h⟩
    exact cursorKept_of_loop hend (endIdx + 1 - startIdx) startIdx fuel _ rfl h
  · intro hk
    exact ⟨_, loop_of_cursorKept hend (endIdx + 1 - startIdx) startIdx _ rfl hk⟩

section Skipped

/-- Two rows of forty bytes: transaction 7 has deleted row 2 (undo record 100) and then inserted
row 1 with a multi-insert (undo record 101). -/
def skippedDeletePage : XPage where
  pdFlags := 0#16
  pdUpper := 8112
  pdSpecial := blcksz
  pdPruneXid := 7
  potentialFreespace := 40
  rows := [⟨⟨8112, .normal, 40⟩, ⟨7, 0, 101, 0#16, 1#16, 32, List.replicate 11 1⟩⟩,
    ⟨⟨8152, .normal, 40⟩, ⟨7, 0, 100, xheapDeleted, 1#16, 32, List.replicate 11 2⟩⟩]

def skippedDeleteList : List HeapRecord :=
  [⟨7, 1, 16384, 16384, 1663, 0, 0, 0, 0, 0#16, none, .multiInsert 1 1, 101, 0⟩,
   ⟨7, 0, 16384, 16384, 1663, 0, 2, 90, 5, 0#16, none, .delete, 100, 1⟩]

def quietEnv : RollbackEnv := ⟨0, id⟩

/-- After the multi-insert at position 0 the scan stops at row 2, the loop ends, and the delete at
position 1 is never undone. -/
theorem undoActionsLoop_skips_delete :
    ¬ ∃ fuel, undoActionsLoop quietEnv skippedDeleteList 1 fuel 0 (.start skippedDeletePage) =
      some (applyBatch quietEnv skippedDeleteList (batchPositions 0 1)
        (.start skippedDeletePage)) := by
  rintro ⟨fuel, h⟩
  have htrace := congrArg (Option.map Prod.fst) h
  match fuel with
  | 0 => exact absurd htrace (by decide)
  | 1 => exact absurd htrace (by decide)
  | n + 2 =>
    have hone : (undoActionsLoop quietEnv skippedDeleteList 1 (n + 2) 0
        (.start skippedDeletePage)).map Prod.fst = some [0] := rfl
    rw [hone] at htrace
    exact absurd htrace (by decide)

/-- With the multi-insert last in the batch both records are applied. -/
theorem undoActionsLoop_applies_reversed :
    1 < skippedDeleteList.reverse.length ∧
      ∃ fuel, undoActionsLoop quietEnv skippedDeleteList.reverse 1 fuel 0
        (.start skippedDeletePage) =
        some (applyBatch quietEnv skippedDeleteList.reverse (batchPositions 0 1)
          (.start skippedDeletePage)) :=
  ⟨by decide, (undoActionsLoop_applies_batch_iff quietEnv skippedDeleteList.reverse 0 1
    skippedDeletePage (by decide)).mpr ⟨nofun, fun _ => by decide, trivial⟩⟩

end Skipped

end XStore
