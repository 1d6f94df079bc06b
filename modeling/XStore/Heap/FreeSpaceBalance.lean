import XStore.Heap.Rollback
import XStore.Heap.Settled

/-!
# The balance of the potential free space

`potential_freespace` estimates what pruning could make room for.  Every operation, its undo and its replay
adjust it in places of their own.  A rollback that leaves no row initialises the page again, after it has
written its WAL record.
-/
namespace XStore

def HeapOp.spaceDelta (p : XPage) : HeapOp → Int
  | insert newtup => -shortAlign newtup.size
  | delete off _ => shortAlign (p.row off).rp.len
  | inplaceUpdate _ _ => 0
  | updateOld off _ _ => shortAlign (p.row off).rp.len
  | updateNew newtup => -shortAlign newtup.size

def undoSpaceDelta (u : HeapRecord) (p : XPage) : Int :=
  match u.body with
  | .insert => shortAlign (p.row u.uurOffset).rp.len
  | .update _ => -(p.row u.uurOffset).rp.len
  | _ => 0

namespace XPage

variable {p q : XPage} {d : Int}

structure Takes (p : XPage) (d : Int) : Prop where
  nonneg : 0 ≤ (p.potentialFreespace : Int) + d
  le : (p.potentialFreespace : Int) + d ≤ (p.pdSpecial - sizeOfXHeapPageHeaderData : Nat)

theorem recordPotentialFreeSpace_of_takes (h : p.Takes d) :
    ((p.recordPotentialFreeSpace d).potentialFreespace : Int) = p.potentialFreespace + d := by
  have h0 := h.nonneg
  have h1 := h.le
  simp only [recordPotentialFreeSpace]
  split_ifs <;> omega

structure Capped (p : XPage) : Prop where
  freespace : p.potentialFreespace ≤ blcksz
  special : p.pdSpecial ≤ blcksz

theorem recordPotentialFreeSpace_le (p : XPage) (d : Int) :
    (p.recordPotentialFreeSpace d).potentialFreespace ≤ p.pdSpecial := by
  simp only [recordPotentialFreeSpace]
  split_ifs <;> omega

theorem recordPotentialFreeSpace_congr (hf : q.potentialFreespace = p.potentialFreespace)
    (hs : q.pdSpecial = p.pdSpecial) : (q.recordPotentialFreeSpace d).potentialFreespace =
      (p.recordPotentialFreeSpace d).potentialFreespace := by
  simp only [recordPotentialFreeSpace, hf, hs]

theorem setPrunable_space (xid : Nat) : (p.setPrunable xid).potentialFreespace = p.potentialFreespace ∧
    (p.setPrunable xid).pdSpecial = p.pdSpecial := by
  unfold setPrunable
  split_ifs <;> exact ⟨rfl, rfl⟩

/-- The counter is adjusted once, or not at all where there is nothing to add. -/
structure Adjusted (p q : XPage) (d : Int) : Prop where
  special : q.pdSpecial = p.pdSpecial
  freespace : q.potentialFreespace = (p.recordPotentialFreeSpace d).potentialFreespace ∨
    q.potentialFreespace = p.potentialFreespace ∧ d = 0

theorem Adjusted.of_same {r : XPage} (hf : r.potentialFreespace = p.potentialFreespace)
    (hs : r.pdSpecial = p.pdSpecial) (h : Adjusted r q d) : Adjusted p q d where
  special := h.special.trans hs
  freespace := h.freespace.imp (fun h => h.trans (recordPotentialFreeSpace_congr hf hs))
    fun h => ⟨h.1.trans hf, h.2⟩

theorem Adjusted.capped (h : Adjusted p q d) (hp : p.Capped) : q.Capped := by
  refine ⟨?_, h.special ▸ hp.special⟩
  rcases h.freespace with hq | ⟨hq, -⟩
  · rw [hq]
    exact Nat.le_trans (p.recordPotentialFreeSpace_le d) hp.special
  · rw [hq]
    exact hp.freespace

theorem Adjusted.eq (h : Adjusted p q d) (hd : p.Takes d) :
    (q.potentialFreespace : Int) = p.potentialFreespace + d := by
  rcases h.freespace with hq | ⟨hq, rfl⟩
  · rw [hq, recordPotentialFreeSpace_of_takes hd]
  · rw [hq, Int.add_zero]

end XPage

section Adjust

variable {p p' Q Q' : XPage} {c : OpCtx} {o : HeapOp} {u : HeapRecord} {env : RollbackEnv} {r r' : Row}

theorem putNewRow_space {t : XHeapDiskTuple} {off : Nat} (h : putNewRow p t = .ok (off, p')) :
    p.Adjusted p' (-shortAlign t.size) := by
  obtain ⟨⟨off', q⟩, hq, hp'⟩ := bind_ok h
  cases hp'
  have hslot : p.findNextFreeSlot.2.potentialFreespace = p.potentialFreespace ∧
      p.findNextFreeSlot.2.pdSpecial = p.pdSpecial := by
    unfold XPage.findNextFreeSlot
    dsimp only
    split_ifs <;> exact ⟨rfl, rfl⟩
  have hput : q.potentialFreespace = p.potentialFreespace ∧ q.pdSpecial = p.pdSpecial := by
    unfold relationPutXtuple at hq
    split_ifs at hq
    split at hq
    · cases hq
    · next q' hq' =>
      cases hq
      unfold calculateLowerUpperPointers at hq'
      dsimp only at hq'
      split_ifs at hq'
      · cases hq'
        exact hslot
      · cases hq'
        exact hslot
  exact .of_same hput.1 hput.2 ⟨rfl, .inl rfl⟩

theorem performOp_space (h : performOp c o p = .ok (u, p')) : p.Adjusted p' (o.spaceDelta p) := by
  have hp := XPage.setPrunable_space (p := p) c.fxid
  cases o with
  | insert newtup =>
    obtain ⟨⟨off, p₁⟩, hput, hret⟩ := bind_ok h
    cases hret
    have hspace := putNewRow_space hput
    rwa [insertTuple_size] at hspace
  | updateNew newtup =>
    obtain ⟨⟨off, p₁⟩, hput, hret⟩ := bind_ok h
    cases hret
    have hspace := putNewRow_space hput
    rwa [newTuple_size] at hspace
  | delete off changingPart =>
    cases h
    exact .of_same (r := p.setPrunable c.fxid) hp.1 hp.2 ⟨rfl, .inl rfl⟩
  | updateOld off lockerIsUs ctid =>
    cases h
    exact .of_same (r := p.setPrunable c.fxid) hp.1 hp.2 ⟨rfl, .inl rfl⟩
  | inplaceUpdate off newtup =>
    obtain ⟨r', -, hret⟩ := bind_ok h
    cases hret
    refine ⟨?_, .inr ⟨?_, rfl⟩⟩
    all_goals split_ifs
    · exact hp.2
    · rfl
    · exact hp.1
    · rfl

theorem undoRecord_space (hown : OwnedBy c u r') (hv : SameVersion r' (Q.row u.uurOffset))
    (h : undoRecord env u Q = .ok (.rok, Q')) : Q.Adjusted Q' (undoSpaceDelta u Q) := by
  have hgate := gate_of_owned hown hv
  have hnormal := normal_of_owned hown hv
  have hstorage := hasStorage_of_owned hown hv
  unfold undoRecord at h
  unfold undoSpaceDelta
  cases hb : u.body with
  | insert =>
    simp only [hb, executeUndoInsert, hstorage, hgate, Bool.not_true, Bool.false_eq_true, if_false] at h
    cases h
    have hp := XPage.setPrunable_space (p := ((Q.recordPotentialFreeSpace
      (shortAlign (Q.row u.uurOffset).rp.len)).setRow u.uurOffset
        (undoInsertRow (Q.row u.uurOffset))).setHasFreeLinePointers) u.uurXid
    exact ⟨hp.2, .inl hp.1⟩
  | delete =>
    simp only [hb, executeUndoForDelete, hnormal, hgate, Bool.not_true, Bool.false_eq_true, if_false] at h
    cases h
    exact ⟨rfl, .inr ⟨rfl, rfl⟩⟩
  | update ctid =>
    simp only [hb, executeUndoForUpdate, hnormal, hgate, Bool.not_true, Bool.false_eq_true, if_false] at h
    cases h
    exact ⟨rfl, .inl rfl⟩
  | inplaceUpdate delta =>
    simp only [hb, executeUndoForUpdate, hnormal, hgate, Bool.not_true, Bool.false_eq_true, if_false] at h
    obtain ⟨rp, -, hret⟩ := bind_ok h
    cases hret
    exact ⟨rfl, .inr ⟨rfl, rfl⟩⟩
  | multiInsert _ _ =>
    simp [hb, executeUndoForUpdate, hnormal, hgate] at h
  | other =>
    simp [hb, executeUndoForUpdate, hnormal, hgate] at h

def HeapOp.drift (p : XPage) : HeapOp → Int
  | delete off _ => shortAlign (p.row off).rp.len
  | updateOld off _ _ => shortAlign (p.row off).rp.len - (p.row off).rp.len
  | _ => 0

theorem HeapOp.drift_nonneg (o : HeapOp) (p : XPage) : 0 ≤ o.drift p := by
  have hle (n : Nat) : n ≤ shortAlign n := le_shortAlign n
  cases o with
  | updateOld off lockerIsUs ctid =>
    have := hle (p.row off).rp.len
    simp only [drift]
    omega
  | delete off changingPart =>
    simp only [drift]
    omega
  | _ => exact Int.le_refl 0

theorem RowChange.drift (h : RowChange c o (p.row (o.site p)) u r') (hv : SameVersion r' (Q.row u.uurOffset)) :
    o.spaceDelta p + undoSpaceDelta u Q = o.drift p := by
  have hlen := hv.len
  unfold undoSpaceDelta
  rw [hlen]
  generalize hr : p.row (o.site p) = r at h
  cases h with
  | insert newtup => exact Int.add_left_neg _
  | updateNew newtup => exact Int.add_left_neg _
  | inplaceUpdate off newtup => rfl
  | delete off changingPart => exact Int.add_zero _
  | updateOld off lockerIsUs ctid =>
    have hrow : p.row off = r := hr
    subst hrow
    rfl

end Adjust

/-- A run of transaction `T` in which no adjustment is clamped. -/
inductive CountedRun (T : Nat) : XPage → List (OpCtx × HeapOp) → List HeapRecord → XPage → Prop
  | done (p : XPage) : CountedRun T p [] [] p
  | op {p p₁ p' : XPage} {c : OpCtx} {o : HeapOp} {u : HeapRecord} {ops : List (OpCtx × HeapOp)}
      {log : List HeapRecord} :
      c.fxid = T → c.Running → o.Allowed p → performOp c o p = .ok (u, p₁) → p.Takes (o.spaceDelta p) →
      CountedRun T p₁ ops log p' → CountedRun T p ((c, o) :: ops) (log ++ [u]) p'

def RollbackTakes (env : RollbackEnv) : List HeapRecord → XPage → Prop
  | [], _ => True
  | u :: us, p => p.Takes (undoSpaceDelta u p) ∧ match undoRecord env u p with
    | .ok (.rok, p') => RollbackTakes env us p'
    | _ => True

def drift : XPage → List (OpCtx × HeapOp) → Int
  | _, [] => 0
  | p, (c, o) :: ops => o.drift p + match performOp c o p with
    | .ok (_, p₁) => drift p₁ ops
    | .error _ => 0

/-- The header fields that `xheap_undo_xlog_page_restore` takes from the record of the rollback. -/
def undoXlogPageRestore (primary standby : XPage) : XPage :=
  { standby with
    pdFlags := primary.pdFlags
    pdPruneXid := primary.pdPruneXid
    potentialFreespace := primary.potentialFreespace % 2 ^ 16 }

/-- `xheap_undo_xlog_page`.  A full-page image has the page as it was when the record was written. -/
def undoXlogPage (fullPageImage : Bool) (st : ActionState) (standby : XPage) : XPage :=
  if fullPageImage then st.page
  else if st.needPageInit then XPage.init
  else if st.xlogMinLpOffset ≤ st.xlogMaxLpOffset then undoXlogPageRestore st.page standby
  else standby

section Balance

variable {T : Nat} {p p' Q : XPage} {ops : List (OpCtx × HeapOp)} {log us vs : List HeapRecord} {env : RollbackEnv}
  {o : HeapOp} {u : HeapRecord}

theorem CountedRun.run (h : CountedRun T p ops log p') :
    Run T p (ops.map fun co => .op co.1 co.2) log p' := by
  induction h with
  | done p => exact .done p
  | op hc hrun ha hop _ _ ih => exact .op hc hrun ha hop ih

theorem RollbackTakes.append (h : RollbackTakes env (us ++ vs) p) (hr : rollback env us p = .ok (.rok, Q)) :
    RollbackTakes env us p ∧ RollbackTakes env vs Q := by
  induction us generalizing p with
  | nil =>
    cases hr
    exact ⟨trivial, h⟩
  | cons u us ih =>
    rw [rollback] at hr
    cases hu : undoRecord env u p with
    | error e => simp [hu] at hr
    | ok res =>
      obtain ⟨result, q⟩ := res
      cases result with
      | rswitch => simp [hu] at hr
      | rok =>
        rw [hu] at hr
        simp only [List.cons_append, RollbackTakes, hu] at h ⊢
        obtain ⟨hus, hvs⟩ := ih h.2 hr
        exact ⟨⟨h.1, hus⟩, hvs⟩

theorem undoRecord_of_rollback {u : HeapRecord} (h : rollback env [u] p = .ok (.rok, Q)) :
    undoRecord env u p = .ok (.rok, Q) := by
  rw [rollback] at h
  cases hu : undoRecord env u p with
  | error e => simp [hu] at h
  | ok res =>
    obtain ⟨result, q⟩ := res
    cases result with
    | rswitch => simp [hu] at h
    | rok =>
      rw [hu] at h
      cases h
      rfl

theorem drift_cons {c : OpCtx} {u : HeapRecord} {p₁ : XPage} (h : performOp c o p = .ok (u, p₁)) :
    drift p ((c, o) :: ops) = o.drift p + drift p₁ ops := by
  simp only [drift, h]

/-- The counter after the rollback is off by what is left over of each operation. -/
theorem CountedRun.rollback_space (env : RollbackEnv) (h : CountedRun T p ops log p') (hp : p.Sound)
    (hcap : p.Capped) (hr : rollback env log p' = .ok (.rok, Q)) :
    Q.Capped ∧ (RollbackTakes env log p' →
      (Q.potentialFreespace : Int) = p.potentialFreespace + drift p ops ∧
        (ops ≠ [] → Q.potentialFreespace ≤ blcksz - sizeOfXHeapPageHeaderData)) := by
  induction h generalizing Q with
  | done p =>
    cases hr
    exact ⟨hcap, fun _ => ⟨(Int.add_zero _).symm, fun hne => absurd rfl hne⟩⟩
  | @op p p₁ p' c o u ops log hc hrun ha hop htakes hrest ih =>
    have hp₁ := performOp_sound hp ha hop
    have hspace := performOp_space hop
    obtain ⟨hoff, -, r', hch, hrow⟩ := performOp_spec hp ha hop
    obtain ⟨Q₁, hQ₁, -, hunw⟩ := rollback_run env hrest.run hp₁
    have hversion := hrest.run.sameVersion_at_site hp₁ hrow.owned hc hch hunw
    rw [← hoff] at hversion
    obtain ⟨hcap₁, hsum⟩ := ih hp₁ (hspace.capped hcap) hQ₁
    rw [rollback_append hQ₁] at hr
    have hu := undoRecord_of_rollback hr
    have hundo := undoRecord_space hrow.owned hversion hu
    refine ⟨hundo.capped hcap₁, fun ht => ?_⟩
    obtain ⟨hlog, hlast⟩ := ht.append hQ₁
    have hsum := (hsum hlog).1
    have hop₁ := hspace.eq htakes
    have hQ := hundo.eq hlast.1
    have hle := hlast.1.le
    have hspecial := hcap₁.special
    have hdrift := hrow.drift hversion
    rw [drift_cons hop]
    exact ⟨by omega, fun _ => by omega⟩

/-- No row is deleted, and the rows that updates leave have an even length. -/
def HeapOp.Balanced (p : XPage) : HeapOp → Prop
  | delete _ _ => False
  | updateOld off _ _ => (p.row off).rp.len % 2 = 0
  | _ => True

def Balanced : XPage → List (OpCtx × HeapOp) → Prop
  | _, [] => True
  | p, (c, o) :: ops => o.Balanced p ∧ match performOp c o p with
    | .ok (_, p₁) => Balanced p₁ ops
    | .error _ => True

theorem HeapOp.drift_eq_zero_iff (hp : p.Sound) (ha : o.Allowed p) :
    o.drift p = 0 ↔ o.Balanced p := by
  cases o with
  | delete off changingPart =>
    have hpos := (hp.row off ha.off_pos ha.isNormal).hoff_le
    have hge := (hp.row off ha.off_pos ha.isNormal).hoff_ge
    have hlen := le_shortAlign (p.row off).rp.len
    have : 0 < sizeOfXHeapDiskTupleData := by decide
    simp only [drift, Balanced, iff_false]
    omega
  | updateOld off lockerIsUs ctid =>
    simp only [drift, Balanced, shortAlign]
    omega
  | _ => simp [drift, Balanced]

theorem drift_nonneg (p : XPage) (ops : List (OpCtx × HeapOp)) : 0 ≤ drift p ops := by
  induction ops generalizing p with
  | nil => exact Int.le_refl 0
  | cons co ops ih =>
    obtain ⟨c, o⟩ := co
    have := o.drift_nonneg p
    rw [drift]
    split
    · next p₁ _ =>
      have := ih p₁
      omega
    · omega

theorem CountedRun.drift_eq_zero_iff (h : CountedRun T p ops log p') (hp : p.Sound) :
    drift p ops = 0 ↔ Balanced p ops := by
  induction h with
  | done => simp [drift, Balanced]
  | @op p p₁ p' c o u ops log _ _ ha hop _ _ ih =>
    have hnow := o.drift_nonneg p
    have hlater := drift_nonneg p₁ ops
    have ih := ih (performOp_sound hp ha hop)
    rw [Balanced, ← HeapOp.drift_eq_zero_iff hp ha, drift_cons hop]
    simp only [hop, ← ih]
    omega

theorem executeUndoInsert_capped (hp : p.Capped) (off : Nat) : (executeUndoInsert p off u).2.Capped := by
  unfold executeUndoInsert
  dsimp only
  split_ifs
  · exact hp
  · split
    · have hset := XPage.setPrunable_space (p := ((p.recordPotentialFreeSpace
        (shortAlign (p.row off).rp.len)).setRow off (undoInsertRow (p.row off))).setHasFreeLinePointers) u.uurXid
      exact XPage.Adjusted.capped (p := p) (d := shortAlign (p.row off).rp.len) ⟨hset.2, .inl hset.1⟩ hp
    · exact hp

theorem undoInsertLine_capped (offs : List Nat) (acc : RollbackResult × XPage) (hp : acc.2.Capped) :
    (offs.foldl (undoInsertLine u) acc).2.Capped := by
  induction offs generalizing acc with
  | nil => exact hp
  | cons off offs ih => exact ih _ (executeUndoInsert_capped hp off)

theorem executeUndoModify_capped {res : RollbackResult × XPage} (hp : p.Capped)
    (h : executeUndoModify env p u = .ok res) : res.2.Capped := by
  unfold executeUndoModify executeUndoForDelete executeUndoForUpdate at h
  dsimp only at h
  split at h
  · cases h
    split_ifs
    · exact hp
    · split
      · exact ⟨hp.freespace, hp.special⟩
      · exact hp
  · split_ifs at h
    · cases h
      exact hp
    · split at h
      · split at h
        · cases h
          exact XPage.Adjusted.capped (p := p) (d := -(p.row u.uurOffset).rp.len) ⟨rfl, .inl rfl⟩ hp
        · obtain ⟨rp, -, hret⟩ := bind_ok h
          cases hret
          exact ⟨hp.freespace, hp.special⟩
        · cases h
      · cases h
        exact hp

/-- No pass of the loop takes the counter beyond the page. -/
theorem processRecord_capped {st st' : ActionState} (hp : st.page.Capped)
    (h : processRecord env u st = .ok st') : st'.page.Capped := by
  cases hm : u.body.isModify with
  | true =>
    rw [processRecord_modify hm] at h
    cases hres : executeUndoModify env st.page u with
    | error e => simp [hres, Except.map] at h
    | ok res =>
      have hcap := executeUndoModify_capped hp hres
      obtain ⟨result, q⟩ := res
      rw [hres] at h
      cases h
      cases result <;> exact hcap
  | false =>
    cases hb : u.body with
    | insert =>
      simp only [processRecord, hb] at h
      cases h
      exact executeUndoInsert_capped hp _
    | multiInsert s e =>
      simp only [processRecord, hb] at h
      cases h
      exact undoInsertLine_capped _ (.rok, st.page) hp
    | other => simp [processRecord, hb] at h
    | _ => simp [hb, HeapUndo.isModify] at hm

theorem applyAll_capped {st st' : ActionState} (hp : st.page.Capped) (h : applyAll env us st = .ok st') :
    st'.page.Capped := by
  induction us generalizing st with
  | nil =>
    cases h
    exact hp
  | cons u us ih =>
    rw [applyAll] at h
    cases hu : processRecord env u st with
    | error e => simp [hu, Except.bind] at h
    | ok st₁ =>
      rw [hu] at h
      exact ih (processRecord_capped hp hu) h

theorem CountedRun.capped (h : CountedRun T p ops log p') (hp : p.Capped) : p'.Capped := by
  induction h with
  | done => exact hp
  | op _ _ _ hop _ _ ih => exact ih ((performOp_space hop).capped hp)

theorem applyAll_append (st : ActionState) :
    applyAll env (us ++ vs) st = (applyAll env us st).bind (applyAll env vs) := by
  induction us generalizing st with
  | nil => rfl
  | cons u us ih =>
    rw [List.cons_append, applyAll, applyAll]
    cases processRecord env u st with
    | error e => rfl
    | ok st' => exact ih st'

theorem noteOffset_le (st : ActionState) {off : Nat} (h1 : 1 ≤ off) (h2 : off ≤ maxOffsetNumber) :
    (st.noteOffset off).xlogMinLpOffset ≤ (st.noteOffset off).xlogMaxLpOffset := by
  unfold ActionState.noteOffset invalidOffsetNumber
  dsimp only
  split_ifs <;> omega

/-- The records that operations leave are those of `rollback`. -/
def UnpackedUndoRecord.Single (u : HeapRecord) : Prop := u.body = .insert ∨ u.body.isModify = true

theorem RowChange.single {c : OpCtx} {r r' : Row} (h : RowChange c o r u r') : u.Single := by
  cases h with
  | insert | updateNew => exact .inl rfl
  | _ => exact .inr rfl

/-- A pass of the loop does what `rollback` does with the record, and notes it for the WAL. -/
theorem processRecord_of_undoRecord {st : ActionState} (hu : u.Single)
    (h : undoRecord env u st.page = .ok (.rok, Q)) :
    ∃ st', processRecord env u st = .ok st' ∧ st'.page = Q ∧ st'.waitSwitchZone = st.waitSwitchZone ∧
      st'.needPageInit = (if u.body.isInsert then Q.allUnused else st.needPageInit) ∧
      st'.xlogMinLpOffset = (st.noteOffset u.uurOffset).xlogMinLpOffset ∧
      st'.xlogMaxLpOffset = (st.noteOffset u.uurOffset).xlogMaxLpOffset := by
  rcases hu with hb | hm
  · have hres : executeUndoInsert st.page u.uurOffset u = (.rok, Q) := by
      simpa [undoRecord, hb] using h
    refine ⟨_, by rw [processRecord, hb], ?_⟩
    simp [ActionState.afterInsert, hb, HeapUndo.isInsert, ActionState.noteOffset, hres]
  · have hres : executeUndoModify env st.page u = .ok (.rok, Q) := by
      rw [← h, undoRecord, executeUndoModify]
      cases hb : u.body <;> simp_all [HeapUndo.isModify]
    have hins : u.body.isInsert = false := by
      cases hb : u.body <;> simp_all [HeapUndo.isModify, HeapUndo.isInsert]
    refine ⟨_, by rw [processRecord_modify hm, hres, Except.map], ?_⟩
    simp [ActionState.afterModify, ActionState.noteCopy, ActionState.noteOffset, hins]

/-- The rollback gives every line back in the state of use it was in. -/
theorem CountedRun.used {off : Nat} {q : Row} (h : CountedRun T p ops log p') (hp : p.Sound) (hoff : 1 ≤ off)
    (hq : Unwound (beforeFirst p (ops.map fun co => .op co.1 co.2) off) q) :
    q.rp.isUsed = (p.row off).rp.isUsed := by
  induction h with
  | done p => rw [show q = p.row off from hq]
  | @op p p₁ p' c o u ops log _ _ ha hop _ _ ih =>
    obtain ⟨-, -, r', hch, hrow⟩ := performOp_spec hp ha hop
    rw [List.map_cons, beforeFirst] at hq
    split_ifs at hq with hs
    · subst hs
      cases hadd : o.addsRow with
      | true =>
        have hfree : q.rp = RowPtr.unused := by simpa [Unwound, Undone, hadd] using hq
        rw [hfree, hrow.unused_of_addsRow hadd]
        rfl
      | false =>
        have hres : RestoredAs c (o.savedFlag c (p.row (o.site p)).tup) (p.row (o.site p)) q := by
          simpa [Unwound, Undone, hadd] using hq
        rw [RowPtr.isUsed, RowPtr.isUsed, hres.flags]
    · simp only [hop] at hq
      rw [ih (performOp_sound hp ha hop) hq, hch.elsewhere off hoff (Ne.symm hs)]

theorem CountedRun.allUnused (env : RollbackEnv) (h : CountedRun T p ops log p') (hp : p.Sound)
    (hr : rollback env log p' = .ok (.rok, Q)) : Q.allUnused = p.allUnused := by
  obtain ⟨Q', hQ', -, hunw⟩ := rollback_run env h.run hp
  rw [hr] at hQ'
  cases hQ'
  rw [Bool.eq_iff_iff, XPage.allUnused_iff_row, XPage.allUnused_iff_row]
  constructor
  · intro hq off hoff
    rw [← h.used hp hoff (hunw off hoff)]
    exact hq off hoff
  · intro hq off hoff
    rw [h.used hp hoff (hunw off hoff)]
    exact hq off hoff

theorem allUnused_of_modifies {c : OpCtx} {r' : Row} (h : RowChange c o (p.row (o.site p)) u r')
    (hoff : 1 ≤ o.site p) (hm : u.body.isInsert = false) : p.allUnused = false := by
  have hused : (p.row (o.site p)).rp.isUsed = true := by
    generalize p.row (o.site p) = r at h
    cases h with
    | insert | updateNew => cases hm
    | delete _ _ _ hn | inplaceUpdate _ _ _ _ hn | updateOld _ _ _ _ hn => exact RowPtr.isUsed_of_isNormal hn
  rw [Bool.eq_false_iff, Ne, XPage.allUnused_iff_row]
  intro hall
  rw [hall _ hoff] at hused
  cases hused

/-- The loop follows `rollback`, and ends with the page to be initialised exactly if it had no row before the
transaction. -/
theorem CountedRun.applyAll (env : RollbackEnv) (h : CountedRun T p ops log p') (hp : p.Sound)
    (hlines : p'.rows.length ≤ maxOffsetNumber) (hr : rollback env log p' = .ok (.rok, Q)) :
    ∃ st, applyAll env log (.start p') = .ok st ∧ st.page = Q ∧ st.waitSwitchZone = false ∧
      st.needPageInit = (!ops.isEmpty && p.allUnused) ∧
      (ops ≠ [] → st.xlogMinLpOffset ≤ st.xlogMaxLpOffset) := by
  have hwhole := h
  induction h generalizing Q with
  | done p =>
    cases hr
    exact ⟨_, rfl, rfl, rfl, rfl, fun hne => absurd rfl hne⟩
  | @op p p₁ p' c o u ops log hc hrun ha hop htakes hrest ih =>
    have hp₁ := performOp_sound hp ha hop
    obtain ⟨hoff, -, r', hch, hrow⟩ := performOp_spec hp ha hop
    obtain ⟨Q₁, hQ₁, -⟩ := rollback_run env hrest.run hp₁
    obtain ⟨st₁, hst₁, hpage, hwait, hinit, -⟩ := ih hp₁ hlines hQ₁ hrest
    have hu : undoRecord env u st₁.page = .ok (.rok, Q) := by
      rw [hpage]
      apply undoRecord_of_rollback
      rw [← rollback_append hQ₁]
      exact hr
    obtain ⟨st, hst, hQ, hwait', hinit', hmin, hmax⟩ := processRecord_of_undoRecord hrow.single hu
    have hsite : o.site p ≤ maxOffsetNumber :=
      Nat.le_trans hch.off_le (Nat.le_trans (hrest.run.length_le hp₁) hlines)
    refine ⟨st, ?_, hQ, hwait'.trans hwait, ?_, fun _ => ?_⟩
    · rw [applyAll_append, hst₁, Except.bind, XStore.applyAll, hst]
      rfl
    · rw [hinit', List.isEmpty_cons, Bool.not_false, Bool.true_and]
      cases hins : u.body.isInsert with
      | true => exact hwhole.allUnused env hp hr
      | false =>
        -- the row was there before, and is still
        have hbefore := allUnused_of_modifies hrow hch.off_pos hins
        have hafter : p₁.allUnused = false := by
          rw [Bool.eq_false_iff, Ne, XPage.allUnused_iff_row]
          intro hall
          have hfree := hall _ hch.off_pos
          rw [hch.here, RowPtr.isUsed_of_isNormal hrow.owned.isNormal] at hfree
          cases hfree
        rw [if_neg Bool.false_ne_true, hinit, hafter, hbefore, Bool.and_false]
    · rw [hmin, hmax]
      exact noteOffset_le st₁ (hoff ▸ hch.off_pos) (hoff ▸ hsite)

theorem CountedRun.single (h : CountedRun T p ops log p') (hp : p.Sound) : ∀ u ∈ log, u.Single := by
  induction h with
  | done => exact nofun
  | op _ _ ha hop _ _ ih =>
    obtain ⟨-, -, r', -, hrow⟩ := performOp_spec hp ha hop
    intro v hv
    rcases List.mem_append.mp hv with hv | hv
    · exact ih (performOp_sound hp ha hop) v hv
    · obtain rfl := List.mem_singleton.mp hv
      exact hrow.single

/-- Without multi-insert records the counter of the loop goes up by one. -/
theorem undoActionsLoop_single {fuel i : Nat} {st : ActionState} {res : List Nat × Except Panic ActionState}
    (hsingle : ∀ u ∈ us, u.Single) (h : undoActionsLoop env us (us.length - 1) fuel i st = some res)
    (hne : us ≠ []) : res.2 = applyAll env (us.drop i) st := by
  induction fuel generalizing i st res with
  | zero => cases h
  | succ fuel ih =>
    rw [undoActionsLoop] at h
    have hpos := List.length_pos_of_ne_nil hne
    split_ifs at h with hi
    · cases h
      rw [List.drop_eq_nil_of_le (by omega)]
      rfl
    · have hlt : i < us.length := by omega
      rw [List.getElem?_eq_getElem hlt] at h
      rw [List.drop_eq_getElem_cons hlt, applyAll]
      have hcur (st' : ActionState) : cursorAfter us[i] st' i = i := by
        unfold cursorAfter
        rcases hsingle _ (List.getElem_mem hlt) with hb | hm
        · rw [hb]
          rfl
        · cases hb : us[i].body <;> simp_all [HeapUndo.isModify, HeapUndo.isMultiInsert]
      cases hu : processRecord env us[i] st with
      | error e =>
        simp only [hu] at h
        cases h
        rfl
      | ok st' =>
        simp only [hu, hcur] at h
        obtain ⟨res', hres', rfl⟩ := Option.map_eq_some_iff.mp h
        have hrest := ih hres'
        exact hrest

end Balance

/-- The counter is back where it was, has never been above a page, and is the same on the standby after it has
replayed the record of the rollback. -/
structure SpaceKept (env : RollbackEnv) (T : Nat) (fullPageImage : Bool) (p p' Q standby : XPage)
    (ops : List (OpCtx × HeapOp)) (log : List HeapRecord) : Prop where
  restored : Q.potentialFreespace = p.potentialFreespace
  ops_le : ∀ ops₁ log₁ p₁, ops₁ <+: ops → CountedRun T p ops₁ log₁ p₁ → p₁.potentialFreespace ≤ blcksz
  undo_le : ∀ us st, us <+: log → applyAll env us (.start p') = .ok st → st.page.potentialFreespace ≤ blcksz
  end_le : Q.potentialFreespace ≤ blcksz
  replayed : ∀ st, applyAll env log (.start p') = .ok st →
    (undoXlogPage fullPageImage st standby).potentialFreespace = Q.potentialFreespace

/-- After a rollback in which nothing was clamped: a page that had no row is initialised again, so its counter
must have been that of an empty page.  On the other pages no row may have been deleted, and the rows left by
updates must have an even length. -/
theorem potential_freespace_balanced_iff (env : RollbackEnv) (relationNeedsWal fullPageImage : Bool) (T fuel : Nat)
    (p p' Q standby : XPage) (ops : List (OpCtx × HeapOp)) (log : List HeapRecord) (hp : p.Sound)
    (hcap : p.Capped) (hrun : CountedRun T p ops log p') (hlines : p'.rows.length ≤ maxOffsetNumber)
    (htakes : RollbackTakes env log p')
    (hr : executeXheapUndoactions env relationNeedsWal log 0 (log.length - 1) p' fuel = some (.ok (.rok, Q))) :
    SpaceKept env T fullPageImage p p' Q standby ops log ↔
      if p.allUnused then p.potentialFreespace = blcksz - sizeOfXHeapPageHeaderData else Balanced p ops := by
  obtain ⟨Q', hQ', -⟩ := rollback_run env hrun.run hp
  obtain ⟨hcapQ, hsum⟩ := hrun.rollback_space env hp hcap hQ'
  obtain ⟨hsum, hempty⟩ := hsum htakes
  obtain ⟨st, hst, rfl, hwait, hinit, hoffs⟩ := hrun.applyAll env hp hlines hQ'
  obtain ⟨res, hloop, hres⟩ := Option.map_eq_some_iff.mp hr
  have hops : ops ≠ [] := by
    rintro rfl
    cases hrun
    cases fuel <;> cases hloop
  have hlog : log ≠ [] := by
    cases hrun with
    | done => exact absurd rfl hops
    | op => simp
  rw [undoActionsLoop_single (hrun.single hp) hloop hlog, List.drop_zero, hst, Except.bind,
    finishActions_ok_iff] at hres
  obtain ⟨-, -, rfl⟩ := hres
  have hinit : st.needPageInit = p.allUnused := by
    rw [hinit]
    simp [hops]
  have hops_le : ∀ ops₁ log₁ p₁, ops₁ <+: ops → CountedRun T p ops₁ log₁ p₁ → p₁.potentialFreespace ≤ blcksz :=
    fun _ _ _ _ h => (h.capped hcap).freespace
  have hundo_le : ∀ us st, us <+: log → applyAll env us (.start p') = .ok st →
      st.page.potentialFreespace ≤ blcksz := fun _ _ _ h => (applyAll_capped (hrun.capped hcap) h).freespace
  have hdrift := drift_nonneg p ops
  rw [hinit]
  cases hall : p.allUnused with
  | true =>
    simp only [if_true]
    constructor
    · intro h
      exact h.restored.symm
    · intro heq
      refine ⟨heq.symm, hops_le, hundo_le, by decide, fun st' hst' => ?_⟩
      rw [hst] at hst'
      cases hst'
      rw [undoXlogPage, hinit, hall]
      cases fullPageImage with
      | true =>
        -- the image has the page before it was initialised, with the counter clamped nowhere
        have := hempty hops
        change st.page.potentialFreespace = blcksz - sizeOfXHeapPageHeaderData
        omega
      | false => rfl
  | false =>
    simp only [Bool.false_eq_true, if_false]
    rw [← hrun.drift_eq_zero_iff hp]
    constructor
    · intro h
      have := h.restored
      omega
    · intro h0
      refine ⟨by omega, hops_le, hundo_le, hcapQ.freespace, fun st' hst' => ?_⟩
      rw [hst] at hst'
      cases hst'
      rw [undoXlogPage, hinit, hall, if_neg Bool.false_ne_true, if_pos (hoffs hops)]
      cases fullPageImage with
      | true => rfl
      | false => exact Nat.mod_eq_of_lt (Nat.lt_of_le_of_lt hcapQ.freespace (by decide))

theorem oneRowPage_capped : oneRowPage.Capped := ⟨by decide, by decide⟩

/-- A row is inserted, the first one is updated to a place of its own, and the inserted one in place. -/
def insertAndUpdate : List (OpCtx × HeapOp) :=
  [(seventh 100, .insert ⟨0, 0, 0, 0#16, 3#16, 29, [4, 5, 6]⟩), (seventh 101, .updateOld 1 false (0, 3)),
    (seventh 101, .updateNew ⟨0, 0, 0, 0#16, 3#16, 29, [1, 2, 3, 4, 5]⟩),
    (seventh 102, .inplaceUpdate 2 ⟨0, 0, 0, 0#16, 3#16, 29, [4, 7, 6]⟩)]

theorem run_insertAndUpdate : ∃ log p', CountedRun 7 oneRowPage insertAndUpdate log p' ∧
    p'.rows.length ≤ maxOffsetNumber ∧ RollbackTakes ⟨0, id⟩ log p' ∧
    ∃ Q, executeXheapUndoactions ⟨0, id⟩ true log 0 (log.length - 1) p' 5 = some (.ok (.rok, Q)) :=
  ⟨_, _, .op rfl (seventh_running 100) ⟨by decide, by decide⟩ rfl ⟨by decide, by decide⟩
    (.op rfl (seventh_running 101) ⟨by decide, by decide, rfl, rfl⟩ rfl ⟨by decide, by decide⟩
      (.op rfl (seventh_running 101) ⟨by decide, by decide⟩ rfl ⟨by decide, by decide⟩
        (.op rfl (seventh_running 102) ⟨⟨by decide, by decide, rfl, rfl⟩, by decide, by decide⟩ rfl
          ⟨by decide, by decide⟩ (.done _)))),
    by decide,
    ⟨⟨by decide, by decide⟩, ⟨by decide, by decide⟩, ⟨by decide, by decide⟩, ⟨by decide, by decide⟩, trivial⟩,
    _, rfl⟩

/-- The transaction neither deletes a row nor leaves one of odd length. -/
theorem balanced_insert_and_update : ∃ log p' Q, CountedRun 7 oneRowPage insertAndUpdate log p' ∧
    executeXheapUndoactions ⟨0, id⟩ true log 0 (log.length - 1) p' 5 = some (.ok (.rok, Q)) ∧
      SpaceKept ⟨0, id⟩ 7 false oneRowPage p' Q oneRowPage insertAndUpdate log := by
  obtain ⟨log, p', hrun, hlines, htakes, Q, hQ⟩ := run_insertAndUpdate
  refine ⟨log, p', Q, hrun, hQ, ?_⟩
  exact (potential_freespace_balanced_iff ⟨0, id⟩ true false 7 5 oneRowPage p' Q oneRowPage insertAndUpdate log
    oneRowPage_sound oneRowPage_capped hrun hlines htakes hQ).mpr ⟨trivial, rfl, trivial, trivial, trivial⟩

/-- A page that a drifted counter shows as not quite empty. -/
def emptyPage : XPage := { XPage.init with potentialFreespace := 8112 }

/-- A delete that is rolled back leaves the counter too high.  So does an insert into an empty page, if the
counter was too low before. -/
theorem delete_rolled_back_drifts : (∃ log p' Q,
    CountedRun 7 oneRowPage [(seventh 100, .delete 1 false)] log p' ∧ RollbackTakes ⟨0, id⟩ log p' ∧
      executeXheapUndoactions ⟨0, id⟩ true log 0 0 p' 2 = some (.ok (.rok, Q)) ∧
      Q.potentialFreespace = oneRowPage.potentialFreespace + 32) ∧
    ∃ log p' Q, CountedRun 7 emptyPage [(seventh 100, .insert ⟨0, 0, 0, 0#16, 3#16, 29, [4, 5, 6]⟩)] log p' ∧
      RollbackTakes ⟨0, id⟩ log p' ∧ executeXheapUndoactions ⟨0, id⟩ true log 0 0 p' 2 = some (.ok (.rok, Q)) ∧
      Q.potentialFreespace = emptyPage.potentialFreespace + 40 :=
  ⟨⟨_, _, _, .op rfl (seventh_running 100) ⟨by decide, by decide, rfl, rfl⟩ rfl ⟨by decide, by decide⟩ (.done _),
      ⟨⟨by decide, by decide⟩, trivial⟩, rfl, rfl⟩,
    _, _, _, .op rfl (seventh_running 100) ⟨by decide, by decide⟩ rfl ⟨by decide, by decide⟩ (.done _),
      ⟨⟨by decide, by decide⟩, trivial⟩, rfl, rfl⟩

end XStore
