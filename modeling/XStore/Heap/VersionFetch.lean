import XStore.Heap.RowHistory

/-!
# A fetch returns the version its snapshot sees

The reference is a choice among the changes of the row: the newest one that is visible, those of
transactions the snapshot does not see being skipped.  The walk through the undo log is followed
change by change.
-/
namespace XStore

open Option List

namespace Change

variable (env : ReadEnv) (s : Snapshot) (e : Change)

def visible : Bool := env.visible s e.ctx.fxid e.ctx.cid

/-- The change of an aborted transaction or of one that was running for the snapshot. -/
def skipped : Bool := !env.isCurrentTransactionId e.ctx.fxid && !env.sees s e.ctx.fxid

/-- The version a change leaves; a delete and a non-in-place update leave none. -/
def version? : Option Row := if e.op.removesRow then none else some e.row

end Change

/-- The newest change that is visible while all earlier ones are visible or skipped. -/
def chosen (env : ReadEnv) (s : Snapshot) : List Change → Option Change
  | [] => none
  | e :: es =>
    if e.visible env s && es.all (fun d => d.visible env s || d.skipped env s) then some e
    else chosen env s es

/-- The newest change of the longest visible beginning of a history. -/
def lastOfVisiblePrefix (env : ReadEnv) (s : Snapshot) : List Change → Option Change
  | [] => none
  | e :: es =>
    if e.visible env s && es.all (Change.visible env s) then some e
    else lastOfVisiblePrefix env s es

/-- What a reader may count on.  The undo of a transaction that is not older than all undo is kept;
the horizons only advance, and nothing behind `global_recycle_xid` still has undo. -/
structure Readable (env : ReadEnv) (s : Snapshot) (load : Nat → UndoLoad HeapUndo)
    (h : List Change) : Prop where
  kept : ∀ e ∈ h, olderThanAllUndo env.globalFrozenXid e.ctx.fxid = false →
    load e.record.uurUrp = .normal e.record
  meets : ∀ e ∈ h, env.Meets s e.ctx.fxid e.ctx.cid
  frozen_le : ∀ e ∈ h, e.ctx.globalFrozenXid ≤ env.globalFrozenXid
  recycle_le : ∀ e ∈ h, e.ctx.globalRecycleXid ≤ env.globalFrozenXid
  cid_valid : ∀ e ∈ h, e.ctx.cid < invalidCommandId

theorem Readable.tail {env : ReadEnv} {s : Snapshot} {load : Nat → UndoLoad HeapUndo} {e : Change}
    {es : List Change} (h : Readable env s load (e :: es)) : Readable env s load es where
  kept := fun d hd => h.kept d (mem_cons_of_mem _ hd)
  meets := fun d hd => h.meets d (mem_cons_of_mem _ hd)
  frozen_le := fun d hd => h.frozen_le d (mem_cons_of_mem _ hd)
  recycle_le := fun d hd => h.recycle_le d (mem_cons_of_mem _ hd)
  cid_valid := fun d hd => h.cid_valid d (mem_cons_of_mem _ hd)

section Selectors

variable {env : ReadEnv} {s : Snapshot} {load : Nat → UndoLoad HeapUndo} {e : Change}
  {es : List Change}

def finalSelector (env : ReadEnv) (s : Snapshot) (e : Change) : XVersionSelector :=
  if e.visible env s then e.op.tidOp.seen else e.op.tidOp.unseen

theorem xheapCheckCid_eq (op : XTupleTidOp) (cid visibilityCid : Nat) :
    xheapCheckCid op cid visibilityCid = if cid < visibilityCid then op.seen else op.unseen := by
  by_cases h : cid < visibilityCid
  · cases op <;> simp [xheapCheckCid, h, Nat.not_le.mpr h, XTupleTidOp.seen]
  · cases op <;> simp [xheapCheckCid, h, Nat.not_lt.mp h, XTupleTidOp.unseen]

theorem finalSelector_own (h : env.isCurrentTransactionId e.ctx.fxid = true) :
    xheapCheckCid e.op.tidOp e.ctx.cid s.curcid = finalSelector env s e := by
  simp [finalSelector, Change.visible, ReadEnv.visible, h, xheapCheckCid_eq]

/-- Without a look at the command id, the first selector is final. -/
theorem selectVersionMvcc_cases (hr : Readable env s load (e :: es)) {tuple : Option Flag}
    (hint : ∀ st, tuple.bind xheapGetHint = some st → st.Tells env e.ctx.fxid) :
    (xheapSelectVersionMvcc env tuple e.op.tidOp e.ctx.fxid s).1 = .checkCid ∧
        env.isCurrentTransactionId e.ctx.fxid = true ∨
      (xheapSelectVersionMvcc env tuple e.op.tidOp e.ctx.fxid s).1 = finalSelector env s e := by
  unfold xheapSelectVersionMvcc
  cases hcur : env.isCurrentTransactionId e.ctx.fxid with
  | true =>
    cases hask : env.asksCid s with
    | true =>
      left
      simp
    | false =>
      right
      have hlt := (hr.meets e (by simp)).lt_of_not_asksCid hcur hask
      simp [finalSelector, Change.visible, ReadEnv.visible, hcur, hlt]
  | false =>
    right
    have htells : ((tuple.bind xheapGetHint).getD .inProgress).Tells env e.ctx.fxid := by
      cases hb : tuple.bind xheapGetHint with
      | none => trivial
      | some st => exact hint st hb
    have hvis := xidVisibleInSnapshot_fst htells s
    simp [finalSelector, Change.visible, ReadEnv.visible, hcur, hvis]

/-- An older version gets its final answer from `selectPrior`. -/
theorem selectPrior_eq (hh : RowHistory env (e :: es)) (hr : Readable env s load (e :: es))
    (hold : olderThanAllUndo env.globalFrozenXid e.ctx.fxid = false) (fuel : Nat) :
    selectPrior env s load (fuel + 1) e.op.tidOp e.record.uurUrp e.ctx.fxid =
      some (finalSelector env s e) := by
  unfold selectPrior
  rcases @selectVersionMvcc_cases _ _ _ _ _ hr none (by simp) with ⟨hask, hcur⟩ | hfin
  · have hload := hr.kept e (by simp) hold
    have hfetch : fetchUndoRecord load e.ctx.fxid (fuel + 1) e.record.uurUrp =
        some (.complete e.record) := fetchUndoRecord_normal hload (.inr hh.owned.uurXid.symm) fuel
    simp [hask, hfetch, UndoTraversal.cid, hh.uurCid, finalSelector_own hcur]
  · rw [hfin]
    cases hsel : finalSelector env s e with
    | checkCid =>
      unfold finalSelector at hsel
      cases hop : e.op.tidOp <;> simp [hop, XTupleTidOp.seen, XTupleTidOp.unseen] at hsel <;>
        split at hsel <;> cases hsel
    | _ => rfl

end Selectors

/-- A tuple in memory is the version that stands in a row: the same size, number of columns and
header length, null bitmap and column bytes. -/
structure IsVersion (t : XHeapTuple) (r : Row) : Prop where
  size : t.diskTupleSize = r.rp.len
  flag2 : t.diskTuple.flag2 = r.tup.flag2
  tHoff : t.diskTuple.tHoff = r.tup.tHoff
  bits : t.diskTuple.bits = r.tup.bits
  columns : t.diskTuple.columns = r.tup.columns

/-- The walk through the undo log has come to the version of `r`. -/
structure UndoWalk.At (w : UndoWalk) (r : Row) : Prop where
  size : w.tuple.diskTupleSize = r.rp.len
  body : w.tuple.diskTuple.body = r.tup.body
  tHoff : w.tuple.diskTuple.tHoff = r.tup.tHoff
  hdr_flag2 : w.hdr.flag2 = r.tup.flag2
  hdr_tHoff : w.hdr.tHoff = r.tup.tHoff

section Walk

variable {env : ReadEnv} {s : Snapshot} {load : Nat → UndoLoad HeapUndo} {e d : Change}
  {es ds : List Change} {w : UndoWalk} {q r r' : Row} {c : OpCtx} {o : HeapOp} {u : HeapRecord}

theorem UndoWalk.At.isVersion (h : w.At r) (xmin : Nat) : IsVersion (w.result xmin) r where
  size := h.size
  flag2 := h.hdr_flag2
  tHoff := h.hdr_tHoff
  bits := by
    simp only [UndoWalk.result, XHeapDiskTuple.bits, XHeapDiskTuple.setHeader, h.body, h.hdr_tHoff]
  columns := by
    simp only [UndoWalk.result, XHeapDiskTuple.columns, XHeapDiskTuple.setHeader, h.body,
      h.hdr_tHoff]

theorem UndoWalk.At.of_same (h : w.At q) (hs : SameVersion r q) : w.At r :=
  ⟨h.size.trans hs.len, h.body.trans hs.body, h.tHoff.trans hs.tHoff, h.hdr_flag2.trans hs.flag2,
    h.hdr_tHoff.trans hs.tHoff⟩

/-- The owner a record names is the one before, or `Frozen` for one behind a horizon. -/
theorem RowChange.uurPrevxid (h : RowChange c o q u r') (ho : o.addsRow = false) :
    u.uurPrevxid = q.tup.modifiedXid ∨
      (q.tup.modifiedXid < c.globalFrozenXid ∨ q.tup.modifiedXid < c.globalRecycleXid) ∧
        u.uurPrevxid = frozenXid := by
  cases h with
  | delete =>
    rcases deleteOldXid_cases q.tup.modifiedXid with h | ⟨hlt, h⟩
    · exact .inl h
    · exact .inr ⟨.inl hlt, h⟩
  | inplaceUpdate => exact updateOldXid_cases _
  | updateOld => exact updateOldXid_cases _
  | insert => cases ho
  | updateNew => cases ho

theorem RowChange.uurTpprevurp (h : RowChange c o q u r') (ho : o.addsRow = false) :
    u.uurTpprevurp = q.tup.urec := by
  cases h with
  | insert => cases ho
  | updateNew => cases ho
  | _ => rfl

/-- One record takes the walk from the row a change left to the row it found. -/
theorem RowChange.goBack (h : RowChange c o q u r') (ho : o.addsRow = false) (hw : w.At r') :
    (w.goBack u).At q ∧
      xheapTidOpFromInfomask (w.goBack u).hdr.flag = xheapTidOpFromInfomask q.tup.flag := by
  have hflag := savedFlag_tidOp c q.tup o
  cases h with
  | insert => cases ho
  | updateNew => cases ho
  | delete off changingPart =>
    obtain ⟨hbody, hhoff, hflag2⟩ := deleteTuple_kept c changingPart q.tup
    refine ⟨⟨hw.size, hw.body.trans hbody, hw.tHoff.trans hhoff, hw.hdr_flag2.trans hflag2,
      hw.hdr_tHoff.trans hhoff⟩, hflag⟩
  | updateOld off lockerIsUs ctid =>
    obtain ⟨hbody, hhoff, hflag2⟩ := updateTuple_kept c lockerIsUs q.tup
    refine ⟨⟨hw.size, hw.body.trans hbody, hw.tHoff.trans hhoff, hw.hdr_flag2.trans hflag2,
      hw.hdr_tHoff.trans hhoff⟩, hflag⟩
  | inplaceUpdate off newtup _ _ _ hs hnew hrow =>
    obtain ⟨rp, hrp, rfl⟩ := inplaceRow_ok hrow
    have hlen := @inplaceDelta_oldTupleLength c q newtup hs.toFilled
    have hold := @inplaceDelta_oldBody c q newtup hs.toFilled hnew w.tuple.diskTuple
      w.tuple.diskTupleSize hw.body hw.tHoff (hw.size.trans hrp.len)
    exact ⟨⟨hlen, hold, rfl, rfl, rfl⟩, hflag⟩

/-- An owner that is not older than all undo is named as it is. -/
theorem uurPrevxid_cases (hh : RowHistory env (e :: d :: ds))
    (hr : Readable env s load (e :: d :: ds)) :
    olderThanAllUndo env.globalFrozenXid e.record.uurPrevxid =
        olderThanAllUndo env.globalFrozenXid d.ctx.fxid ∧
      (olderThanAllUndo env.globalFrozenXid d.ctx.fxid = false →
        e.record.uurPrevxid = d.ctx.fxid) := by
  cases hh with
  | @next c o q r' u _ _ htail _ hq _ _ ho hc =>
    have hmod : q.tup.modifiedXid = d.ctx.fxid := hq.same.modifiedXid.trans htail.owned.modifiedXid
    have hfro := hr.frozen_le _ mem_cons_self
    have hrec := hr.recycle_le _ mem_cons_self
    dsimp only at hfro hrec ⊢
    rcases hc.uurPrevxid ho with h | ⟨hlt, h⟩
    · rw [h, hmod]
      exact ⟨rfl, fun _ => rfl⟩
    · have hold : olderThanAllUndo env.globalFrozenXid d.ctx.fxid = true := by
        rw [hmod] at hlt
        simp only [olderThanAllUndo, Bool.or_eq_true, decide_eq_true_eq]
        omega
      rw [h, hold]
      exact ⟨by simp [olderThanAllUndo], fun hf => by cases hf⟩

/-- The tuple found is the version of the given change, or there is neither. -/
def FoundVersion (t : Option XHeapTuple) : Option Change → Prop
  | none => t = none
  | some f => ∃ t', t = some t' ∧ IsVersion t' f.row

theorem finalSelector_visible (h : e.visible env s = true) :
    finalSelector env s e = e.op.tidOp.seen := by
  simp [finalSelector, h]

theorem finalSelector_hidden (h : e.visible env s = false) :
    finalSelector env s e = e.op.tidOp.unseen := by
  simp [finalSelector, h]

theorem HeapOp.seen_of_not_removesRow (h : o.removesRow = false) : o.tidOp.seen = .current := by
  cases o <;> first | rfl | cases h

theorem HeapOp.unseen_of_not_addsRow (h : o.addsRow = false) : o.tidOp.unseen = .older := by
  cases o <;> first | rfl | cases h

theorem HeapOp.unseen_of_addsRow (h : o.addsRow = true) : o.tidOp.unseen = .none := by
  cases o <;> first | rfl | cases h

/-- What a transaction older than all undo did is visible. -/
theorem visible_of_older (hr : Readable env s load (e :: es))
    (hold : olderThanAllUndo env.globalFrozenXid e.ctx.fxid = true) : e.visible env s = true :=
  (hr.meets e (by simp)).visible_of_older hold

/-- Where the walk goes on when the version it has come to is not visible. -/
def UndoWalk.below (w : UndoWalk) (d : Change) : UndoWalk :=
  { w with urecAdd := d.record.uurUrp, prevUndoXid := d.ctx.fxid
           saveXmax := xidFromFull d.ctx.fxid }

/-- One turn of the loop: from a change `e` that is not visible to the one before it. -/
theorem getTupleFromUndo_step (hh : RowHistory env (e :: d :: ds))
    (hr : Readable env s load (e :: d :: ds))
    (hkept : olderThanAllUndo env.globalFrozenXid e.ctx.fxid = false) (hat : w.At e.row)
    (hurec : w.urecAdd = e.record.uurUrp)
    (hprev : w.prevUndoXid = invalidXid ∨ w.prevUndoXid = e.ctx.fxid) (n : Nat) :
    (w.goBack e.record).At d.row ∧ ∃ xmin, getTupleFromUndo env s load (n + 1) w =
      if d.visible env s then
        some (.ok (some ((w.goBack e.record).result xmin), (w.goBack e.record).ctid))
      else if d.op.addsRow then some (.ok (none, (w.goBack e.record).ctid))
      else getTupleFromUndo env s load n ((w.goBack e.record).below d) := by
  have hload := hr.kept e (by simp) hkept
  have hfetch : fetchUndoRecord load w.prevUndoXid (n + 1) w.urecAdd = some (.complete e.record) := by
    rw [hurec]
    rw [← hh.owned.uurXid] at hprev
    exact fetchUndoRecord_normal hload hprev n
  obtain ⟨hsame, hprevxid⟩ := uurPrevxid_cases hh hr
  have hlive := hh.not_removesRow
  have htail := hh.tail
  have hback : (w.goBack e.record).At d.row ∧
      xheapTidOpFromInfomask (w.goBack e.record).hdr.flag = d.op.tidOp ∧
      e.record.uurTpprevurp = d.record.uurUrp := by
    cases hh with
    | next _ _ hq _ _ ho hc =>
      obtain ⟨hw, hop⟩ := hc.goBack ho hat
      exact ⟨hw.of_same hq.same, hop.trans (hq.tidOp.trans htail.tidOp),
        (hc.uurTpprevurp ho).trans (hq.same.urec.trans htail.owned.urec)⟩
  obtain ⟨hw, hop, htp⟩ := hback
  refine ⟨hw, ?_⟩
  simp only [getTupleFromUndo, hfetch, bind_some, hsame]
  cases hold : olderThanAllUndo env.globalFrozenXid d.ctx.fxid with
  | true =>
    exact ⟨frozenXid, by simp [visible_of_older hr.tail hold]⟩
  | false =>
    refine ⟨xidFromFull d.ctx.fxid, ?_⟩
    have hsel := selectPrior_eq htail hr.tail hold n
    simp only [hprevxid hold, hop, htp, hsel, bind_some, Bool.false_eq_true, if_false]
    cases hvis : d.visible env s with
    | true => simp [finalSelector_visible hvis, HeapOp.seen_of_not_removesRow hlive]
    | false =>
      cases hadd : d.op.addsRow with
      | true => simp [finalSelector_hidden hvis, HeapOp.unseen_of_addsRow hadd]
      | false => simp [finalSelector_hidden hvis, HeapOp.unseen_of_not_addsRow hadd, UndoWalk.below]

/-- From a change that is not visible, the walk ends on the newest visible one below it. -/
theorem getTupleFromUndo_finds (hh : RowHistory env (e :: d :: ds))
    (hr : Readable env s load (e :: d :: ds))
    (hkept : olderThanAllUndo env.globalFrozenXid e.ctx.fxid = false) (hat : w.At e.row)
    (hurec : w.urecAdd = e.record.uurUrp)
    (hprev : w.prevUndoXid = invalidXid ∨ w.prevUndoXid = e.ctx.fxid) {fuel : Nat}
    (hfuel : (d :: ds).length ≤ fuel) :
    ∃ t ctid, getTupleFromUndo env s load fuel w = some (.ok (t, ctid)) ∧
      FoundVersion t ((d :: ds).find? (Change.visible env s)) := by
  -- the induction is on the changes still below; each turn of the loop uses up one of them
  induction ds generalizing e d w fuel with
  | nil =>
    obtain ⟨n, rfl⟩ : ∃ n, fuel = n + 1 := ⟨fuel - 1, by simp at hfuel; omega⟩
    obtain ⟨hw, xmin, hstep⟩ := getTupleFromUndo_step hh hr hkept hat hurec hprev n
    have hadd : d.op.addsRow = true := hh.tail.addsRow_iff.mpr rfl
    cases hvis : d.visible env s with
    | true =>
      simp only [hvis, if_true] at hstep
      exact ⟨_, _, hstep, by simpa [hvis, FoundVersion] using hw.isVersion xmin⟩
    | false =>
      simp only [hvis, hadd, if_true, Bool.false_eq_true, if_false] at hstep
      exact ⟨_, _, hstep, by simp [hvis, FoundVersion]⟩
  | cons d' ds ih =>
    obtain ⟨n, rfl⟩ : ∃ n, fuel = n + 1 := ⟨fuel - 1, by simp at hfuel; omega⟩
    obtain ⟨hw, xmin, hstep⟩ := getTupleFromUndo_step hh hr hkept hat hurec hprev n
    have hadd : d.op.addsRow = false := by
      have hne := hh.tail.addsRow_iff
      simpa using hne
    cases hvis : d.visible env s with
    | true =>
      simp only [hvis, if_true] at hstep
      exact ⟨_, _, hstep, by simpa [hvis, FoundVersion] using hw.isVersion xmin⟩
    | false =>
      have hold : olderThanAllUndo env.globalFrozenXid d.ctx.fxid = false := by
        by_contra hne
        rw [visible_of_older hr.tail (by simpa using hne)] at hvis
        cases hvis
      have hbelow : ((w.goBack e.record).below d).At d.row :=
        ⟨hw.size, hw.body, hw.tHoff, hw.hdr_flag2, hw.hdr_tHoff⟩
      obtain ⟨t, ctid, hrest, hfound⟩ := @ih d d' _ hh.tail hr.tail hold hbelow rfl (.inr rfl) n
        (by simp at hfuel ⊢; omega)
      refine ⟨t, ctid, ?_, ?_⟩
      · simp only [hvis, hadd, Bool.false_eq_true, if_false] at hstep
        rw [hstep, hrest]
      · simpa [hvis] using hfound

end Walk

/-- What a fetch hands back: a version, or that there is none to see. -/
def Returns (res : FetchResult) : Option Row → Prop
  | none => res.visible = false ∧ res.tuple = none
  | some r => res.visible = true ∧ ∃ t, res.tuple = some t ∧ IsVersion t r

/-- The page after a fetch: the hint bits of the row may have been set. -/
def hintedPage (env : ReadEnv) (s : Snapshot) (off : Nat) (p : XPage) : XPage :=
  p.setRow off { p.row off with tup := { (p.row off).tup with
    flag := (xheapTupleSatisfies env (p.row off).tup.flag
      (xheapTidOpFromInfomask (p.row off).tup.flag) s (p.row off).tup.modifiedXid).2 } }

section Fetch

variable {env : ReadEnv} {s : Snapshot} {load : Nat → UndoLoad HeapUndo} {e : Change}
  {es : List Change} {p : XPage} {pl : FetchPlace} {q : Row} {t : Option XHeapTuple}
  {cur : XHeapDiskTuple} {fuel : Nat} {d : Decision} {h : List Change}

theorem finalSelector_ne_checkCid : finalSelector env s e ≠ .checkCid := by
  unfold finalSelector
  cases e.op.tidOp <;> split <;> simp [XTupleTidOp.seen, XTupleTidOp.unseen]

/-- On the page, too, the selector is final once the command id has been asked for. -/
theorem decision_eq (hh : RowHistory env (e :: es)) (hr : Readable env s load (e :: es))
    (hq : Standing env e q) (n : Nat) :
    ∃ d, checkCidAgainstSnapshot s load (n + 1) pl e.op.tidOp q.tup
        (xheapTupleSatisfies env q.tup.flag e.op.tidOp s e.ctx.fxid).1 = some (.ok d) ∧
      d.selector = finalSelector env s e := by
  unfold xheapTupleSatisfies checkCidAgainstSnapshot
  cases hold : olderThanAllUndo env.globalFrozenXid e.ctx.fxid with
  | true =>
    have hseen := finalSelector_visible (visible_of_older hr hold)
    have hne : e.op.tidOp.seen ≠ .checkCid := hseen ▸ finalSelector_ne_checkCid
    simp only [if_true, if_neg hne]
    exact ⟨_, rfl, hseen.symm⟩
  | false =>
    simp only [Bool.false_eq_true, if_false]
    rcases @selectVersionMvcc_cases _ _ _ _ _ hr (some q.tup.flag) (by simpa using hq.hint) with
      ⟨hask, hcur⟩ | hfin
    · have hurec : q.tup.urec = e.record.uurUrp := hq.same.urec.trans hh.owned.urec
      have hfetch : fetchUndoRecord load invalidXid (n + 1) q.tup.urec =
          some (.complete e.record) :=
        fetchUndoRecord_normal (hurec ▸ hr.kept e (by simp) hold) (.inl rfl) n
      have hvalid : e.ctx.cid ≠ invalidCommandId := Nat.ne_of_lt (hr.cid_valid e (by simp))
      simp only [hask, if_true, hfetch, map_some, UndoTraversal.cid, hh.uurCid,
        if_neg hvalid]
      exact ⟨_, rfl, finalSelector_own hcur⟩
    · rw [hfin, if_neg finalSelector_ne_checkCid]
      exact ⟨_, rfl, rfl⟩

theorem finishFetch_hidden
    (h : d.selector = .none) :
    finishFetch load fuel pl false cur d t p = some (.ok ⟨false, none, d.newCtid, d.xinfo, p⟩) := by
  simp [finishFetch, h]

theorem finishFetch_found
    (h : d.selector ≠ .none) :
    finishFetch load fuel pl false cur d t p =
      some (.ok ⟨t.isSome, t, d.newCtid, d.xinfo, p⟩) := by
  simp [finishFetch, h]

theorem isVersion_of_standing (hq : Standing env e q) : IsVersion (xheapGetTuple pl q) e.row where
  size := hq.same.len
  flag2 := hq.same.flag2
  tHoff := hq.same.tHoff
  bits := by simp [xheapGetTuple, XHeapDiskTuple.bits, hq.same.body, hq.same.tHoff]
  columns := by simp [xheapGetTuple, XHeapDiskTuple.columns, hq.same.body, hq.same.tHoff]

section

variable (hh : RowHistory env (e :: es))

include hh

/-- `xheap_tuple_fetch` returns the version of the newest visible change. -/
theorem xheapTupleFetch_newest (hr : Readable env s load (e :: es))
    (hq : Standing env e (p.row pl.offnum)) (hfuel : (e :: es).length ≤ fuel) :
    ∃ res, xheapTupleFetch env s load fuel pl false p = some (.ok res) ∧
      res.page = hintedPage env s pl.offnum p ∧
      Returns res (((e :: es).find? (Change.visible env s)).bind Change.version?) := by
  obtain ⟨n, rfl⟩ : ∃ n, fuel = n + 1 := ⟨fuel - 1, by simp at hfuel; omega⟩
  have hn : (p.row pl.offnum).rp.isNormal = true := normal_of_owned hh.owned hq.same
  have hop : xheapTidOpFromInfomask (p.row pl.offnum).tup.flag = e.op.tidOp :=
    hq.tidOp.trans hh.tidOp
  have hmod : (p.row pl.offnum).tup.modifiedXid = e.ctx.fxid :=
    hq.same.modifiedXid.trans hh.owned.modifiedXid
  obtain ⟨d, hd, hsel⟩ := @decision_eq _ _ _ _ _ pl _ hh hr hq n
  have hstart : (⟨(p.row pl.offnum).tup.urec, invalidXid, (p.row pl.offnum).tup.header,
      xheapGetTuple pl (p.row pl.offnum), (xheapGetTuple pl (p.row pl.offnum)).xmin, pl.ctid⟩ :
      UndoWalk).At e.row :=
    ⟨hq.same.len, hq.same.body, hq.same.tHoff, hq.same.flag2, hq.same.tHoff⟩
  simp only [xheapTupleFetch, hn, Bool.not_true, Bool.false_eq_true, if_false, hop, hmod, hd,
    bind_some, hintedPage, and_false, or_false]
  cases hvis : e.visible env s with
  | true =>
    rw [finalSelector_visible hvis] at hsel
    cases hrem : e.op.removesRow with
    | true =>
      have hgone : d.selector = .none := by
        rw [hsel, HeapOp.tidOp_eq_gone.mpr hrem]
        rfl
      rw [if_neg (by simp [hgone]), finishFetch_hidden hgone]
      exact ⟨_, rfl, rfl, by simp [hvis, Change.version?, hrem, Returns]⟩
    | false =>
      have hcur : d.selector = .current := hsel.trans (HeapOp.seen_of_not_removesRow hrem)
      rw [if_neg (by simp [hcur]), finishFetch_found (by simp [hcur])]
      refine ⟨_, rfl, rfl, ?_⟩
      simp only [find?_cons, hvis, bind_some, Change.version?, hrem]
      exact ⟨rfl, _, rfl, isVersion_of_standing hq⟩
  | false =>
    rw [finalSelector_hidden hvis] at hsel
    cases es with
    | nil =>
      have hnone : d.selector = .none :=
        hsel.trans (HeapOp.unseen_of_addsRow (hh.addsRow_iff.mpr rfl))
      rw [if_neg (by simp [hnone]), finishFetch_hidden hnone]
      exact ⟨_, rfl, rfl, by simp [hvis, Returns]⟩
    | cons f fs =>
      have hadd : e.op.addsRow = false := by simpa using hh.addsRow_iff
      have holder : d.selector = .older := hsel.trans (HeapOp.unseen_of_not_addsRow hadd)
      have hold : olderThanAllUndo env.globalFrozenXid e.ctx.fxid = false := by
        by_contra hne
        rw [visible_of_older hr (by simpa using hne)] at hvis
        cases hvis
      have hbelow : (f :: fs).length ≤ n + 1 := by
        simp only [length_cons] at hfuel ⊢
        omega
      obtain ⟨t, ctid, hwalk, hfound⟩ := getTupleFromUndo_finds hh hr hold hstart
        (hq.same.urec.trans hh.owned.urec) (.inl rfl) hbelow
      rw [if_pos holder, hwalk]
      simp only [bind_some]
      rw [finishFetch_found (by simp [holder])]
      refine ⟨_, rfl, rfl, ?_⟩
      rw [find?_cons, hvis]
      cases hfind : (f :: fs).find? (Change.visible env s) with
      | none =>
        rw [hfind] at hfound
        have hnone : t = none := hfound
        subst hnone
        exact ⟨rfl, rfl⟩
      | some g =>
        rw [hfind] at hfound
        obtain ⟨t', rfl, hversion⟩ := hfound
        have hlive : g.op.removesRow = false :=
          hh.below_not_removesRow (mem_of_find?_eq_some hfind)
        simp only [bind_some, Change.version?, hlive]
        exact ⟨rfl, _, rfl, hversion.size, hversion.flag2, hversion.tHoff, hversion.bits,
          hversion.columns⟩

/-- Under the conflict rules, a visible change has only visible and skipped ones below it. -/
theorem all_below_visible (hvis : e.visible env s = true) :
    es.all (fun d => d.visible env s || d.skipped env s) = true := by
  rw [List.all_eq_true]
  intro d hd
  cases hcur : env.isCurrentTransactionId d.ctx.fxid with
  | true =>
    obtain ⟨hfx, hlt⟩ := hh.own_above hd hcur
    have hecid : e.ctx.cid < s.curcid := by
      simpa [Change.visible, ReadEnv.visible, hfx, hcur] using hvis
    have hdcid : d.ctx.cid < s.curcid := by omega
    simp [Change.visible, ReadEnv.visible, hcur, hdcid]
  | false =>
    cases hsees : env.sees s d.ctx.fxid with
    | true => simp [Change.visible, ReadEnv.visible, hcur, hsees]
    | false => simp [Change.skipped, hcur, hsees]

theorem chosen_eq_find :
    chosen env s (e :: es) = (e :: es).find? (Change.visible env s) := by
  induction es generalizing e with
  | nil => cases hvis : e.visible env s <;> simp [chosen, hvis]
  | cons d ds ih =>
    rw [chosen, find?_cons]
    cases hvis : e.visible env s with
    | true => simp [all_below_visible hh hvis]
    | false => simp [ih hh.tail]

end

theorem chosen_mem (hc : chosen env s h = some e) : e ∈ h := by
  induction h with
  | nil => cases hc
  | cons d ds ih =>
    rw [chosen] at hc
    split at hc
    · cases hc
      exact mem_cons_self
    · exact mem_cons_of_mem _ (ih hc)

/-- Where the snapshot sees everything below a change it sees, nothing is skipped. -/
theorem chosen_eq_lastOfVisiblePrefix
    (hclosed : h.Pairwise fun a b => a.visible env s = true → b.visible env s = true) :
    chosen env s h = lastOfVisiblePrefix env s h := by
  induction h with
  | nil => rfl
  | cons d ds ih =>
    obtain ⟨hd, hds⟩ := pairwise_cons.mp hclosed
    rw [chosen, lastOfVisiblePrefix, ih hds]
    cases hvis : d.visible env s with
    | false => rfl
    | true =>
      have hall : ds.all (Change.visible env s) = true :=
        all_eq_true.mpr fun b hb => hd b hb hvis
      have hall' : ds.all (fun b => b.visible env s || b.skipped env s) = true :=
        all_eq_true.mpr fun b hb => by simp [hd b hb hvis]
      rw [hall, hall']

/-- Every fetch ends, and it returns the version of the newest change that is visible while all
earlier ones are visible or skipped, or no tuple if there is no such change or it removed the row.
A change that wrote a tuple left that tuple's bytes.  Where the snapshot sees everything below what
it sees, the change is the last of the visible prefix. -/
theorem fetch_returns_chosen_version (hh : RowHistory env (e :: es))
    (hr : Readable env s load (e :: es)) (hq : Standing env e (p.row pl.offnum)) {fuel : Nat}
    (hfuel : (e :: es).length ≤ fuel) :
    ∃ res, xheapTupleFetch env s load fuel pl false p = some (.ok res) ∧
      Returns res ((chosen env s (e :: es)).bind Change.version?) ∧
      (∀ f newtup, chosen env s (e :: es) = some f → f.op.newtup? = some newtup →
        newtup.body <+: f.row.tup.body ∧ f.row.tup.tHoff = newtup.tHoff) ∧
      ((e :: es).Pairwise (fun a b => a.visible env s = true → b.visible env s = true) →
        Returns res ((lastOfVisiblePrefix env s (e :: es)).bind Change.version?)) := by
  obtain ⟨res, hfetch, -, hres⟩ := xheapTupleFetch_newest hh hr hq hfuel
  rw [← chosen_eq_find hh] at hres
  refine ⟨res, hfetch, hres, ?_, ?_⟩
  · intro f newtup hf hn
    exact hh.written (chosen_mem hf) hn
  · intro hclosed
    rw [← chosen_eq_lastOfVisiblePrefix hclosed]
    exact hres

end Fetch

/-- A row inserted by transaction 5, then updated in place and deleted by two commands of
transaction 7. -/
def insertedBy5 : Change :=
  let c : OpCtx := { seventh 90 with fxid := 5 }
  let t : XHeapDiskTuple := ⟨0, 0, 0, 0#16, 3#16, 29, [1, 2, 3]⟩
  ⟨c, .insert t, insertRecord c 1, ⟨⟨8000, .normal, 32⟩, insertTuple c t⟩⟩

def updatedBy7 : Change :=
  let t : XHeapDiskTuple := ⟨0, 0, 0, 0#16, 3#16, 29, [9, 8, 7]⟩
  ⟨seventh 100, .inplaceUpdate 1 t, inplaceRecord (seventh 100) 1 insertedBy5.row t,
    ⟨⟨8000, .normal, 32⟩, ⟨7, 0, 100, xheapInplaceUpdated, 3#16, 29, [9, 8, 7]⟩⟩⟩

def deletedBy7 : Change :=
  let c : OpCtx := { seventh 102 with cid := 1 }
  ⟨c, .delete 1 false, deleteRecord c 1 updatedBy7.row.tup,
    { updatedBy7.row with tup := deleteTuple c false updatedBy7.row.tup }⟩

def loadFrom (h : List Change) (urp : Nat) : UndoLoad HeapUndo :=
  match h.find? (fun e => e.record.uurUrp == urp) with
  | some e => .normal e.record
  | none => .invalid

theorem deletedBy7_history : RowHistory readerSeven [deletedBy7, updatedBy7, insertedBy5] := by
  have h1 : RowHistory readerSeven [insertedBy5] :=
    .start ⟨by decide, by decide, by decide⟩ rfl
      (.insert _ Row.zero 1 8000 ⟨by decide, by decide⟩ rfl (by decide))
  have h2 : RowHistory readerSeven [updatedBy7, insertedBy5] :=
    .next h1 (.inr ⟨rfl, rfl⟩) h1.standing rfl (seventh_running 100) rfl
      (.inplaceUpdate 1 _ _ _ rfl h1.owned.sound ⟨by decide, by decide⟩ rfl)
  exact .next h2 (.inl ⟨rfl, by decide⟩) h2.standing rfl ⟨by decide, by decide, by decide⟩ rfl
    (.delete 1 false _ rfl h2.owned.sound)

/-- A cursor opened between the two commands gets the version between them. -/
theorem fetch_through_older_cursor :
    ∃ res, xheapTupleFetch readerSeven (cursorOfSeven 1)
        (loadFrom [deletedBy7, updatedBy7, insertedBy5]) 3 ⟨16384, 0, 1⟩ false
        { oneRowPage with rows := [deletedBy7.row] } = some (.ok res) ∧
      res.visible = true ∧ ∃ t, res.tuple = some t ∧ t.diskTuple.columns = [9, 8, 7] := by
  have hr : Readable readerSeven (cursorOfSeven 1) (loadFrom [deletedBy7, updatedBy7, insertedBy5])
      [deletedBy7, updatedBy7, insertedBy5] := by
    constructor
    all_goals
      intro e he
      simp only [List.mem_cons, List.not_mem_nil, or_false] at he
      rcases he with rfl | rfl | rfl
    all_goals first | decide | (intro _; rfl) | exact ⟨by decide, by decide, by decide⟩
  obtain ⟨res, hfetch, hret, -, -⟩ := @fetch_returns_chosen_version readerSeven (cursorOfSeven 1)
    (loadFrom [deletedBy7, updatedBy7, insertedBy5]) deletedBy7 [updatedBy7, insertedBy5]
    { oneRowPage with rows := [deletedBy7.row] } ⟨16384, 0, 1⟩ deletedBy7_history hr
    deletedBy7_history.standing 3 (by decide)
  obtain ⟨hvis, t, ht, hversion⟩ := hret
  exact ⟨res, hfetch, hvis, t, ht, hversion.columns⟩

end XStore
