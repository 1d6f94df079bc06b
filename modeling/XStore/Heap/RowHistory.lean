import XStore.Heap.Rollback
import XStore.Heap.Visibility

/-!
# The history of a row

A row is inserted, updated in place any number of times, and at last deleted or left behind by a
non-in-place update.  Between two changes it may move on its page, be locked, and have hint bits
set by those who read it.
-/
namespace XStore

section Flags

theorem and_or_and_of_disjoint {f a m k : Flag} (h : a &&& k = 0#16) :
    ((f &&& a) ||| m) &&& k = m &&& k := by
  rw [BitVec.and_or_distrib_right, BitVec.and_assoc, h]
  simp

theorem and_and_of_subset {f a k : Flag} (h : a &&& k = k) : (f &&& a) &&& k = f &&& k := by
  rw [BitVec.and_assoc, h]

def xheapOpMask : Flag := xheapDeleted ||| xheapInplaceUpdated ||| xheapUpdated

theorem has_congr {f g k m : Flag} (h : f &&& k = g &&& k) (hm : k &&& m = m) :
    f.has m = g.has m := by
  have hf : f &&& m = (f &&& k) &&& m := (and_and_of_subset hm).symm
  have hg : g &&& m = (g &&& k) &&& m := (and_and_of_subset hm).symm
  simp only [Flag.has]
  rw [hf, hg, h]

theorem tidOp_congr {f g : Flag} (h : f &&& xheapOpMask = g &&& xheapOpMask) :
    xheapTidOpFromInfomask f = xheapTidOpFromInfomask g := by
  unfold xheapTidOpFromInfomask
  rw [has_congr h (by decide), has_congr h (by decide)]

theorem getHint_congr {f g : Flag} (h : f &&& xheapXidStatusMask = g &&& xheapXidStatusMask) :
    xheapGetHint f = xheapGetHint g := by
  unfold xheapGetHint
  rw [has_congr h (by decide), has_congr h (by decide)]

variable (c : OpCtx) (t newtup : XHeapDiskTuple) {k : Flag}

theorem newTuple_tidOp (urp : Nat) :
    xheapTidOpFromInfomask (newTuple c urp newtup).flag = .new := by
  have h : (newTuple c urp newtup).flag &&& xheapOpMask = 0#16 &&& xheapOpMask := by
    have h0 := @and_or_and_of_disjoint newtup.flag (~~~xheapVisStatusMask) 0#16 xheapOpMask
      (by decide)
    simpa [newTuple] using h0
  rw [tidOp_congr h]
  decide

theorem markTuple_and {mark k : Flag} (h : ~~~xheapVisStatusUnlockMask &&& k = 0#16) :
    (markTuple c mark t).flag &&& k = mark &&& k := by
  simp only [markTuple, XHeapDiskTuple.clearAllLocker]
  exact and_or_and_of_disjoint h

theorem deleteTuple_tidOp (changingPart : Bool) :
    xheapTidOpFromInfomask (deleteTuple c changingPart t).flag = .gone := by
  have h := @markTuple_and c t xheapDeleted xheapOpMask (by decide)
  cases changingPart with
  | false =>
    rw [show (deleteTuple c false t).flag = (markTuple c xheapDeleted t).flag from rfl,
      tidOp_congr h]
    decide
  | true =>
    have h' : ((markTuple c xheapDeleted t).flag ||| xheapMoved) &&& xheapOpMask =
        xheapMoved &&& xheapOpMask := by
      rw [BitVec.and_or_distrib_right, h]
      decide
    rw [show (deleteTuple c true t).flag = (markTuple c xheapDeleted t).flag ||| xheapMoved from rfl,
      tidOp_congr h']
    decide

theorem updateTuple_tidOp (lockerIsUs : Bool) :
    xheapTidOpFromInfomask (updateTuple c lockerIsUs t).flag = .gone := by
  rw [updateTuple, tidOp_congr (markTuple_and c _ (by decide))]
  decide

/-- The flag word of a row updated in place, seen through a mask of status bits. -/
theorem inplaceFlag_and (h : ~~~xheapVisStatusUnlockMask &&& k = 0#16)
    (hk : xheapVisStatusMask &&& k = k) :
    (((markTuple c xheapInplaceUpdated t).flag &&& xheapVisStatusMask) |||
      (newtup.flag &&& ~~~xheapVisStatusMask)) &&& k = xheapInplaceUpdated &&& k := by
  have hlow : ~~~xheapVisStatusMask &&& k = 0#16 := by
    rw [← hk, ← BitVec.and_assoc, show ~~~xheapVisStatusMask &&& xheapVisStatusMask = 0#16 by decide]
    simp
  rw [BitVec.or_comm, and_or_and_of_disjoint hlow, and_and_of_subset hk, markTuple_and c t h]

theorem lockForUpdate_and (lockerIsUs : Bool) (hk : ~~~xheapLockStatusMask &&& k = k)
    (hx : xheapXidExclLock &&& k = 0#16) :
    (lockForUpdate c lockerIsUs t).flag &&& k = t.flag &&& k := by
  unfold lockForUpdate
  split
  · rfl
  · simp only [executeLockTuple]
    rw [BitVec.and_or_distrib_right, and_and_of_subset hk, hx]
    simp

theorem savedFlag_tidOp (o : HeapOp) :
    xheapTidOpFromInfomask (o.savedFlag c t) = xheapTidOpFromInfomask t.flag := by
  cases o with
  | updateOld off lockerIsUs ctid =>
    exact tidOp_congr (lockForUpdate_and c t lockerIsUs (by decide) (by decide))
  | _ => exact tidOp_congr (and_and_of_subset (by decide))

end Flags

namespace HeapOp

def removesRow : HeapOp → Bool
  | delete _ _ => true
  | updateOld _ _ _ => true
  | _ => false

def tidOp : HeapOp → XTupleTidOp
  | insert _ => .new
  | updateNew _ => .new
  | inplaceUpdate _ _ => .modified
  | delete _ _ => .gone
  | updateOld _ _ _ => .gone

def newtup? : HeapOp → Option XHeapDiskTuple
  | insert newtup => some newtup
  | updateNew newtup => some newtup
  | inplaceUpdate _ newtup => some newtup
  | _ => none

theorem tidOp_eq_gone {o : HeapOp} : o.tidOp = .gone ↔ o.removesRow = true := by
  cases o <;> simp [tidOp, removesRow]

end HeapOp

section RowChange

variable {c : OpCtx} {o : HeapOp} {r r' : Row} {u : HeapRecord}

variable (h : RowChange c o r u r')

include h

theorem RowChange.tidOp :
    xheapTidOpFromInfomask r'.tup.flag = o.tidOp := by
  cases h with
  | insert newtup => exact newTuple_tidOp c _ _
  | delete off changingPart => exact deleteTuple_tidOp c _ changingPart
  | inplaceUpdate off newtup _ _ _ _ _ hrow =>
    obtain ⟨rp, -, rfl⟩ := inplaceRow_ok hrow
    have hop := inplaceFlag_and c r.tup newtup (k := xheapOpMask) (by decide) (by decide)
    exact (tidOp_congr hop).trans (by decide : _ = XTupleTidOp.modified)
  | updateOld off lockerIsUs ctid => exact updateTuple_tidOp c _ lockerIsUs
  | updateNew newtup => exact newTuple_tidOp c _ _

theorem RowChange.uurCid : u.uurCid = c.cid := by
  cases h <;> rfl

/-- A change takes the hints for the transaction before it out of the flag word. -/
theorem RowChange.getHint : xheapGetHint r'.tup.flag = none := by
  have key : r'.tup.flag &&& xheapXidStatusMask = 0#16 &&& xheapXidStatusMask := by
    cases h with
    | insert newtup =>
      have h0 := @and_or_and_of_disjoint newtup.flag (~~~xheapVisStatusMask) 0#16
        xheapXidStatusMask (by decide)
      simpa [insertTuple, newTuple] using h0
    | delete off changingPart =>
      have hm := @markTuple_and c r.tup xheapDeleted xheapXidStatusMask (by decide)
      cases changingPart with
      | false => exact hm.trans (by decide)
      | true =>
        simp only [deleteTuple, if_true, BitVec.and_or_distrib_right, hm]
        decide
    | inplaceUpdate off newtup _ _ _ _ _ hrow =>
      obtain ⟨rp, -, rfl⟩ := inplaceRow_ok hrow
      exact (inplaceFlag_and c r.tup newtup (by decide) (by decide)).trans (by decide)
    | updateOld off lockerIsUs ctid => exact (markTuple_and c _ (by decide)).trans (by decide)
    | updateNew newtup =>
      have h0 := @and_or_and_of_disjoint newtup.flag (~~~xheapVisStatusMask) 0#16
        xheapXidStatusMask (by decide)
      simpa [newTuple] using h0
  rw [getHint_congr key]
  decide

/-- The row holds the bytes of the tuple it was given; a row that keeps its length has spare bytes
behind them. -/
theorem RowChange.written {newtup : XHeapDiskTuple}
    (hn : o.newtup? = some newtup) :
    newtup.body <+: r'.tup.body ∧ r'.tup.tHoff = newtup.tHoff := by
  cases h with
  | insert => cases hn; exact ⟨List.prefix_rfl, rfl⟩
  | delete => cases hn
  | inplaceUpdate off _ _ _ _ _ _ hrow =>
    cases hn
    obtain ⟨rp, -, rfl⟩ := inplaceRow_ok hrow
    exact ⟨List.prefix_append _ _, rfl⟩
  | updateOld => cases hn
  | updateNew => cases hn; exact ⟨List.prefix_rfl, rfl⟩

end RowChange

/-- One change of a row: who made it, what it was, its undo record and the row it left. -/
structure Change where
  ctx : OpCtx
  op : HeapOp
  record : HeapRecord
  row : Row

/-- The row as it stands some time after a change and before the next. -/
structure Standing (env : ReadEnv) (e : Change) (q : Row) : Prop where
  same : SameVersion e.row q
  tidOp : xheapTidOpFromInfomask q.tup.flag = xheapTidOpFromInfomask e.row.tup.flag
  hint : ∀ status, xheapGetHint q.tup.flag = some status → status.Tells env e.ctx.fxid

/-- The write-write conflict rules of `xheap_tuple_satisfies_update`: a transaction changes what it
changed itself by an earlier command, or what a transaction that has committed left. -/
def MayOverwrite (env : ReadEnv) (c : OpCtx) (d : Change) : Prop :=
  c.fxid = d.ctx.fxid ∧ d.ctx.cid < c.cid ∨
    env.isCurrentTransactionId d.ctx.fxid = false ∧ env.didCommit d.ctx.fxid = true

inductive RowHistory (env : ReadEnv) : List Change → Prop
  | start {c : OpCtx} {o : HeapOp} {r r' : Row} {u : HeapRecord} :
      c.Running → o.addsRow = true → RowChange c o r u r' → RowHistory env [⟨c, o, u, r'⟩]
  | next {c : OpCtx} {o : HeapOp} {q r' : Row} {u : HeapRecord} {d : Change} {ds : List Change} :
      RowHistory env (d :: ds) → MayOverwrite env c d → Standing env d q →
      q.tup.isDeleted = false → c.Running → o.addsRow = false → RowChange c o q u r' →
      RowHistory env (⟨c, o, u, r'⟩ :: d :: ds)

namespace RowHistory

variable {env : ReadEnv} {e d : Change} {es ds : List Change}

section

variable (h : RowHistory env (e :: es))

include h

theorem owned : OwnedBy e.ctx e.record e.row := by
  cases h with
  | start _ _ hc => exact hc.owned
  | next _ _ _ _ _ _ hc => exact hc.owned

theorem tidOp :
    xheapTidOpFromInfomask e.row.tup.flag = e.op.tidOp := by
  cases h with
  | start _ _ hc => exact hc.tidOp
  | next _ _ _ _ _ _ hc => exact hc.tidOp

theorem uurCid : e.record.uurCid = e.ctx.cid := by
  cases h with
  | start _ _ hc => exact hc.uurCid
  | next _ _ _ _ _ _ hc => exact hc.uurCid

/-- A row fresh from a change stands as the change left it. -/
theorem standing : Standing env e e.row where
  same := .refl h.owned.sound.room
  tidOp := rfl
  hint := by
    intro status hs
    cases h with
    | start _ _ hc => cases hc.getHint.symm.trans hs
    | next _ _ _ _ _ _ hc => cases hc.getHint.symm.trans hs

end

theorem tail (h : RowHistory env (e :: d :: ds)) : RowHistory env (d :: ds) := by
  cases h with
  | next htail => exact htail

theorem addsRow_iff (h : RowHistory env (e :: es)) : e.op.addsRow = true ↔ es = [] := by
  cases h with
  | start _ ha => simp [ha]
  | next _ _ _ _ _ ha => simp [ha]

theorem not_removesRow (h : RowHistory env (e :: d :: ds)) : d.op.removesRow = false := by
  cases h with
  | next htail _ hq hdel =>
    have hgone : xheapTidOpFromInfomask d.row.tup.flag ≠ .gone := by
      intro hg
      have hop := hq.tidOp.trans hg
      simp only [XHeapDiskTuple.isDeleted, BitVec.or_comm xheapDeleted] at hdel
      simp only [xheapTidOpFromInfomask, hdel] at hop
      split at hop <;> cases hop
    rw [htail.tidOp, Ne, HeapOp.tidOp_eq_gone] at hgone
    simpa using hgone

variable (h : RowHistory env (e :: es))

include h

theorem below_not_removesRow (hd : d ∈ es) :
    d.op.removesRow = false := by
  induction es generalizing e with
  | nil => cases hd
  | cons f fs ih =>
    rcases List.mem_cons.mp hd with rfl | hmem
    · exact h.not_removesRow
    · exact ih h.tail hmem

/-- Above a change of a running transaction stand only its own later commands. -/
theorem own_above (hd : d ∈ es)
    (hcur : env.isCurrentTransactionId d.ctx.fxid = true) :
    e.ctx.fxid = d.ctx.fxid ∧ d.ctx.cid < e.ctx.cid := by
  induction es generalizing e with
  | nil => cases hd
  | cons f fs ih =>
    have hover : MayOverwrite env e.ctx f := by
      cases h with
      | next _ hm => exact hm
    rcases List.mem_cons.mp hd with rfl | hmem
    · rcases hover with hown | ⟨hfalse, -⟩
      · exact hown
      · rw [hcur] at hfalse
        cases hfalse
    · obtain ⟨hfx, hlt⟩ := ih h.tail hmem
      rcases hover with ⟨hex, hlt'⟩ | ⟨hfalse, -⟩
      · exact ⟨hex.trans hfx, by omega⟩
      · rw [hfx, hcur] at hfalse
        cases hfalse

theorem written (hd : d ∈ e :: es) {newtup : XHeapDiskTuple}
    (hn : d.op.newtup? = some newtup) :
    newtup.body <+: d.row.tup.body ∧ d.row.tup.tHoff = newtup.tHoff := by
  induction es generalizing e with
  | nil =>
    cases List.mem_singleton.mp hd
    cases h with
    | start _ _ hc => exact hc.written hn
  | cons f fs ih =>
    rcases List.mem_cons.mp hd with rfl | hmem
    · cases h with
      | next _ _ _ _ _ _ hc => exact hc.written hn
    · exact ih h.tail hmem

end RowHistory

end XStore
