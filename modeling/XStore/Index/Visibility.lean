import XStore.Index.Leaf
import XStore.Undo.Snapshot

/-!
# Visibility of index entries

`_xbt_tuple_satisfies` for MVCC snapshots.  An entry tells only the last operation on it; the insert
of a deleted entry is looked up in the undo log.
-/
namespace XStore

variable {K T : Type*}

inductive XBTreeTupleOper where
  | new
  | gone
  deriving DecidableEq

namespace XBTreeTupleOper

def seen : XBTreeTupleOper → XVersionSelector
  | new => .current
  | gone => .none

/-- The answer for an operation that the snapshot does not see. -/
def unseen : XBTreeTupleOper → XVersionSelector
  | new => .none
  | gone => .older

end XBTreeTupleOper

def xbtreeOperFromLp (lp : IndexLp) : XBTreeTupleOper := if lp = .normal then .new else .gone

def xbtreeSelectVersionMvcc (env : ReadEnv) (op : XBTreeTupleOper) (xid : Nat) (s : Snapshot) :
    XVersionSelector :=
  if env.isCurrentTransactionId xid then if env.asksCid s then .checkCid else op.seen
  else if (xidVisibleInSnapshot env xid s .inProgress).1 then op.seen
  else op.unseen

def xbtreeTupleVersionSelect (env : ReadEnv) (op : XBTreeTupleOper) (s : Snapshot)
    (modifiedXid : Nat) : XVersionSelector :=
  if olderThanAllUndo env.globalFrozenXid modifiedXid then op.seen
  else xbtreeSelectVersionMvcc env op modifiedXid s

def xbtreeCheckCid (op : XBTreeTupleOper) (tupleCid visibilityCid : Nat) : XVersionSelector :=
  match op with
  | .gone => if visibilityCid ≤ tupleCid then .older else .none
  | .new => if visibilityCid ≤ tupleCid then .none else .current

/-- The selector for the insert below a delete, its command id looked up where needed. -/
def selectInserted (env : ReadEnv) (s : Snapshot) (load : Nat → UndoLoad (IndexUndo K T))
    (fuel curcid urec xid : Nat) : Option XVersionSelector :=
  match xbtreeSelectVersionMvcc env .new xid s with
  | .checkCid => (fetchUndoRecord load xid fuel urec).map
      fun found : UndoTraversal (IndexUndo K T) =>
        xbtreeCheckCid .new (found.cid invalidCommandId) curcid
  | selector => some selector

/-- `xbtree_get_tuple_from_undo`: is the version before the record visible?  Below a delete there is
always an insert.  The outer `none` is a run out of fuel. -/
def xbtreeGetTupleFromUndo (env : ReadEnv) (s : Snapshot) (load : Nat → UndoLoad (IndexUndo K T))
    (curcid : Nat) : Nat → Nat → Nat → Option (Except FetchError Bool)
  | 0, _, _ => none
  | fuel + 1, urec, prevUndoXid =>
    (fetchUndoRecord load prevUndoXid (fuel + 1) urec).bind fun
      | .abort => some (.error .snapshotTooOld)
      | .ended => some (.error .snapshotTooOld)
      | .complete u =>
        if olderThanAllUndo env.globalFrozenXid u.uurPrevxid then some (.ok true)
        else
          (selectInserted env s load (fuel + 1) curcid u.uurTpprevurp u.uurPrevxid).bind fun
            | .current => some (.ok true)
            | .none => some (.ok false)
            | _ => xbtreeGetTupleFromUndo env s load curcid fuel u.uurTpprevurp u.uurPrevxid

/-- The selector for an entry and the value of the variable `cid`, which is not initialised: `cid₀`
is what it holds before. -/
def selectEntry (env : ReadEnv) (s : Snapshot) (load : Nat → UndoLoad (IndexUndo K T))
    (fuel cid₀ : Nat) (e : IndexEntry K T) : Option (XVersionSelector × Nat) :=
  match xbtreeTupleVersionSelect env (xbtreeOperFromLp e.lp) s e.modifiedXid with
  | .checkCid => (fetchUndoRecord load invalidXid fuel e.urec).map
      fun found : UndoTraversal (IndexUndo K T) =>
        (xbtreeCheckCid (xbtreeOperFromLp e.lp) (found.cid cid₀) s.curcid, found.cid cid₀)
  | selector => some (selector, cid₀)

/-- `_xbt_tuple_satisfies`; the undo log is searched with `cid` as the command of the snapshot. -/
def xbtTupleSatisfies (env : ReadEnv) (s : Snapshot) (load : Nat → UndoLoad (IndexUndo K T))
    (fuel cid₀ : Nat) (e : IndexEntry K T) : Option (Except FetchError Bool) :=
  if e.lp ≠ .normal ∧ e.lp ≠ .deleted then some (.ok false)
  else
    (selectEntry env s load fuel cid₀ e).bind fun
      | (.older, cid) => xbtreeGetTupleFromUndo env s load cid fuel e.urec invalidXid
      | (.current, _) => some (.ok true)
      | _ => some (.ok false)

structure EntryHistory (K T : Type*) where
  key : K
  tid : T
  ins : IndexOpCtx
  insBlkno : Nat
  del : Option IndexOpCtx
  delBlkno : Nat
  deriving DecidableEq

namespace EntryHistory

variable (h : EntryHistory K T)

def inserted : IndexEntry K T := IndexEntry.new h.ins.xid h.key h.tid h.ins.urp

def entry : IndexEntry K T :=
  match h.del with
  | none => h.inserted
  | some d => h.inserted.markDeleted d.xid d.urp

def visible (env : ReadEnv) (s : Snapshot) : Bool :=
  env.visible s h.ins.xid h.ins.cid &&
    match h.del with
    | none => true
    | some d => !env.visible s d.xid d.cid

end EntryHistory

/-- What a reader of an index entry may count on: the undo of transactions that are not older than
all undo is kept. -/
structure EntryReadable (env : ReadEnv) (s : Snapshot) (load : Nat → UndoLoad (IndexUndo K T))
    (h : EntryHistory K T) : Prop where
  ins_meets : env.Meets s h.ins.xid h.ins.cid
  ins_kept : olderThanAllUndo env.globalFrozenXid h.ins.xid = false →
    load h.ins.urp = .normal (h.ins.insertRecord h.insBlkno h.key h.tid)
  del_meets : ∀ d, h.del = some d → env.Meets s d.xid d.cid
  del_kept : ∀ d, h.del = some d → olderThanAllUndo env.globalFrozenXid d.xid = false →
    load d.urp = .normal (d.deleteRecord h.delBlkno h.inserted)

/-- The wrong command id decides.  For a delete that is not visible, the command of the insert is
compared with that of the delete instead of the snapshot's; where the delete is of another
transaction (which no running transaction's entry meets with), with whatever `cid` held. -/
def WrongCid (env : ReadEnv) (s : Snapshot) (cid₀ : Nat) (ins d : IndexOpCtx) : Prop :=
  env.isCurrentTransactionId ins.xid = true ∧
    (env.isCurrentTransactionId d.xid = true ∧ s.curcid ≤ ins.cid ∧ ins.cid < d.cid ∨
      env.isCurrentTransactionId d.xid = false ∧ env.sees s d.xid = false ∧
        env.asksCid s = true ∧ ¬(ins.cid < cid₀ ↔ ins.cid < s.curcid))

section Selectors

variable {env : ReadEnv} {s : Snapshot} {load : Nat → UndoLoad (IndexUndo K T)}

theorem xbtreeCheckCid_eq (op : XBTreeTupleOper) (cid visibilityCid : Nat) :
    xbtreeCheckCid op cid visibilityCid = if cid < visibilityCid then op.seen else op.unseen := by
  by_cases h : cid < visibilityCid
  · cases op <;> simp [xbtreeCheckCid, h, Nat.not_le.mpr h, XBTreeTupleOper.seen]
  · cases op <;> simp [xbtreeCheckCid, h, Nat.not_lt.mp h, XBTreeTupleOper.unseen]

theorem xbtreeSelectVersionMvcc_other {xid : Nat} (op : XBTreeTupleOper)
    (h : env.isCurrentTransactionId xid = false) :
    xbtreeSelectVersionMvcc env op xid s = if env.sees s xid then op.seen else op.unseen := by
  have hsees := @xidVisibleInSnapshot_fst env xid .inProgress trivial s
  simp [xbtreeSelectVersionMvcc, h, hsees]

/-- The selector for the last operation on an entry is right, and `cid` is its command whenever that
decided against it. -/
theorem selectEntry_spec {e : IndexEntry K T} {c : IndexOpCtx} {u : IndexRecord K T}
    (hm : env.Meets s c.xid c.cid) (hx : e.modifiedXid = c.xid) (hcid : u.uurCid = c.cid)
    (hkept : olderThanAllUndo env.globalFrozenXid c.xid = false → load e.urec = .normal u)
    (cid₀ n : Nat) :
    ∃ cid, selectEntry env s load (n + 1) cid₀ e =
        some (if env.visible s c.xid c.cid then (xbtreeOperFromLp e.lp).seen
          else (xbtreeOperFromLp e.lp).unseen, cid) ∧
      (env.visible s c.xid c.cid = false →
        cid = if env.isCurrentTransactionId c.xid then c.cid else cid₀) := by
  unfold selectEntry xbtreeTupleVersionSelect
  rw [hx]
  cases hold : olderThanAllUndo env.globalFrozenXid c.xid with
  | true =>
    have hvis := hm.visible_of_older hold
    refine ⟨cid₀, ?_, fun h => by rw [hvis] at h; cases h⟩
    cases xbtreeOperFromLp e.lp <;> simp [hvis, XBTreeTupleOper.seen]
  | false =>
    simp only [Bool.false_eq_true, if_false]
    cases hcur : env.isCurrentTransactionId c.xid with
    | true =>
      cases hask : env.asksCid s with
      | true =>
        have hfetch : fetchUndoRecord load invalidXid (n + 1) e.urec = some (.complete u) :=
          fetchUndoRecord_normal (hkept hold) (.inl rfl) n
        refine ⟨c.cid, ?_, fun _ => rfl⟩
        simp [xbtreeSelectVersionMvcc, hcur, hask, hfetch, UndoTraversal.cid, hcid,
          xbtreeCheckCid_eq, ReadEnv.visible]
      | false =>
        have hlt := hm.lt_of_not_asksCid hcur hask
        have hvis : env.visible s c.xid c.cid = true := by simp [ReadEnv.visible, hcur, hlt]
        refine ⟨cid₀, ?_, fun h => by rw [hvis] at h; cases h⟩
        cases xbtreeOperFromLp e.lp <;>
          simp [xbtreeSelectVersionMvcc, hcur, hask, hvis, XBTreeTupleOper.seen]
    | false =>
      refine ⟨cid₀, ?_, fun _ => rfl⟩
      rw [xbtreeSelectVersionMvcc_other _ hcur]
      simp only [ReadEnv.visible, hcur, Bool.false_eq_true, if_false]
      cases env.sees s c.xid <;> cases xbtreeOperFromLp e.lp <;> rfl

/-- What the search in the undo log takes for the visibility of an insert, given the command it
takes for the snapshot's. -/
def seenFromUndo (env : ReadEnv) (s : Snapshot) (curcid xid cid : Nat) : Bool :=
  if env.isCurrentTransactionId xid then !env.asksCid s || decide (cid < curcid)
  else env.sees s xid

theorem selectInserted_eq {xid cid urec : Nat} {u : IndexRecord K T} (hload : load urec = .normal u)
    (hxid : u.uurXid = xid) (hcid : u.uurCid = cid) (curcid n : Nat) :
    selectInserted env s load (n + 1) curcid urec xid =
      some (if seenFromUndo env s curcid xid cid then .current else .none) := by
  unfold selectInserted seenFromUndo
  cases hcur : env.isCurrentTransactionId xid with
  | true =>
    cases hask : env.asksCid s with
    | true =>
      have hfetch : fetchUndoRecord load xid (n + 1) urec = some (.complete u) :=
        fetchUndoRecord_normal hload (.inr hxid.symm) n
      simp [xbtreeSelectVersionMvcc, hcur, hask, hfetch, UndoTraversal.cid, hcid,
        xbtreeCheckCid_eq, XBTreeTupleOper.seen, XBTreeTupleOper.unseen]
    | false => simp [xbtreeSelectVersionMvcc, hcur, hask, XBTreeTupleOper.seen]
  | false =>
    rw [xbtreeSelectVersionMvcc_other _ hcur]
    cases env.sees s xid <;> rfl

end Selectors

section Entry

variable {env : ReadEnv} {s : Snapshot} {load : Nat → UndoLoad (IndexUndo K T)}
  {h : EntryHistory K T} {d : IndexOpCtx}

/-- The answer for the insert below a delete that is not visible. -/
theorem xbtreeGetTupleFromUndo_eq (hr : EntryReadable env s load h) (hd : h.del = some d)
    (hkept : olderThanAllUndo env.globalFrozenXid d.xid = false) (curcid n : Nat) :
    xbtreeGetTupleFromUndo env s load curcid (n + 1) d.urp invalidXid =
      some (.ok (olderThanAllUndo env.globalFrozenXid h.ins.xid ||
        seenFromUndo env s curcid h.ins.xid h.ins.cid)) := by
  have hfetch : fetchUndoRecord load invalidXid (n + 1) d.urp =
      some (.complete (d.deleteRecord h.delBlkno h.inserted)) :=
    fetchUndoRecord_normal (hr.del_kept d hd hkept) (.inl rfl) n
  have hprev : (d.deleteRecord h.delBlkno h.inserted).uurPrevxid = h.ins.xid := rfl
  have htp : (d.deleteRecord h.delBlkno h.inserted).uurTpprevurp = h.ins.urp := rfl
  simp only [xbtreeGetTupleFromUndo, hfetch, Option.bind_some, hprev, htp]
  cases hold : olderThanAllUndo env.globalFrozenXid h.ins.xid with
  | true => simp
  | false =>
    have hsel : selectInserted env s load (n + 1) curcid h.ins.urp h.ins.xid =
        some (if seenFromUndo env s curcid h.ins.xid h.ins.cid then .current else .none) :=
      selectInserted_eq (hr.ins_kept hold) rfl rfl curcid n
    rw [hsel]
    cases seenFromUndo env s curcid h.ins.xid h.ins.cid <;> rfl

section

variable (hm : env.Meets s h.ins.xid h.ins.cid)

include hm

theorem seenFromUndo_curcid :
    (olderThanAllUndo env.globalFrozenXid h.ins.xid ||
      seenFromUndo env s s.curcid h.ins.xid h.ins.cid) = env.visible s h.ins.xid h.ins.cid := by
  cases hold : olderThanAllUndo env.globalFrozenXid h.ins.xid with
  | true => simp [hm.visible_of_older hold]
  | false =>
    unfold seenFromUndo ReadEnv.visible
    cases hcur : env.isCurrentTransactionId h.ins.xid with
    | true =>
      cases hask : env.asksCid s with
      | true => simp
      | false => simp [hm.lt_of_not_asksCid hcur hask]
    | false => simp

/-- The command taken for the snapshot's matters only for an own insert whose command is asked for. -/
theorem seenFromUndo_eq_iff (curcid : Nat) :
    (olderThanAllUndo env.globalFrozenXid h.ins.xid ||
        seenFromUndo env s curcid h.ins.xid h.ins.cid) = env.visible s h.ins.xid h.ins.cid ↔
      (env.isCurrentTransactionId h.ins.xid = true → env.asksCid s = true →
        (h.ins.cid < curcid ↔ h.ins.cid < s.curcid)) := by
  rw [← seenFromUndo_curcid hm]
  unfold seenFromUndo
  cases hcur : env.isCurrentTransactionId h.ins.xid with
  | false => simp
  | true =>
    have hold : olderThanAllUndo env.globalFrozenXid h.ins.xid = false := by
      by_contra hne
      have hfalse := (hm.older_seen (by simpa using hne)).1
      rw [hcur] at hfalse
      cases hfalse
    cases hask : env.asksCid s with
    | true => simp [hold]
    | false => simp

theorem asksCid_of_le
    (hcur : env.isCurrentTransactionId h.ins.xid = true) (hle : s.curcid ≤ h.ins.cid) :
    env.asksCid s = true := by
  by_contra hask
  have hlt := hm.lt_of_not_asksCid hcur (by simpa using hask)
  omega

end

/-- A visible delete does not let the command ids be mixed up. -/
theorem not_wrongCid_of_visible (hvis : env.visible s d.xid d.cid = true) (ins : IndexOpCtx)
    (cid₀ : Nat) : ¬WrongCid env s cid₀ ins d := by
  rintro ⟨-, ⟨hcur, hle, hlt⟩ | ⟨hcur, hsees, -⟩⟩
  · simp only [ReadEnv.visible, hcur, if_true, decide_eq_true_eq] at hvis
    omega
  · simp [ReadEnv.visible, hcur, hsees] at hvis

/-- The command that is taken for the snapshot's does no harm exactly when it is not the wrong one. -/
theorem cidsAgree_iff_not_wrongCid (hm : env.Meets s h.ins.xid h.ins.cid)
    (hvis : env.visible s d.xid d.cid = false) (cid₀ : Nat) :
    (env.isCurrentTransactionId h.ins.xid = true → env.asksCid s = true →
        (h.ins.cid < (if env.isCurrentTransactionId d.xid then d.cid else cid₀) ↔
          h.ins.cid < s.curcid)) ↔ ¬WrongCid env s cid₀ h.ins d := by
  unfold WrongCid
  cases hcur : env.isCurrentTransactionId d.xid with
  | true =>
    have hlate : s.curcid ≤ d.cid := by simpa [ReadEnv.visible, hcur] using hvis
    constructor
    · rintro hagree ⟨hown, ⟨-, hle, hlt⟩ | ⟨hfalse, -⟩⟩
      · have hiff := hagree hown (asksCid_of_le hm hown hle)
        simp only [if_true] at hiff
        omega
      · cases hfalse
    · intro hright hown _
      simp only [if_true]
      constructor
      · intro hlt
        by_contra hge
        exact hright ⟨hown, .inl ⟨rfl, by omega, hlt⟩⟩
      · intro hlt
        omega
  | false =>
    have hsees : env.sees s d.xid = false := by simpa [ReadEnv.visible, hcur] using hvis
    simp only [Bool.false_eq_true, if_false, false_and, false_or, hsees, true_and, not_and,
      not_not]

/-- An index entry's visibility follows the snapshot exactly unless the wrong command id decides. -/
theorem xbtTupleSatisfies_follows_snapshot_iff (hr : EntryReadable env s load h) (cid₀ : Nat)
    {fuel : Nat} (hfuel : 1 ≤ fuel) :
    xbtTupleSatisfies env s load fuel cid₀ h.entry = some (.ok (h.visible env s)) ↔
      ∀ d, h.del = some d → ¬WrongCid env s cid₀ h.ins d := by
  obtain ⟨n, rfl⟩ : ∃ n, fuel = n + 1 := ⟨fuel - 1, by omega⟩
  cases hdel : h.del with
  | none =>
    have he : h.entry = h.inserted := by simp [EntryHistory.entry, hdel]
    obtain ⟨cid, hsel, -⟩ := @selectEntry_spec _ _ env s load h.inserted h.ins _ hr.ins_meets rfl
      rfl hr.ins_kept cid₀ n
    have hop : xbtreeOperFromLp h.inserted.lp = .new := rfl
    have hlp : h.inserted.lp = .normal := rfl
    rw [hop] at hsel
    simp only [xbtTupleSatisfies, he, hsel, hlp, Option.bind_some, EntryHistory.visible, hdel]
    cases env.visible s h.ins.xid h.ins.cid <;>
      simp [XBTreeTupleOper.seen, XBTreeTupleOper.unseen]
  | some d =>
    have he : h.entry = h.inserted.markDeleted d.xid d.urp := by simp [EntryHistory.entry, hdel]
    have hm := hr.del_meets d hdel
    obtain ⟨cid, hsel, hcid⟩ := @selectEntry_spec _ _ env s load
      (h.inserted.markDeleted d.xid d.urp) d _ hm rfl rfl (hr.del_kept d hdel) cid₀ n
    have hop : xbtreeOperFromLp (h.inserted.markDeleted d.xid d.urp).lp = .gone := rfl
    have hlp : (h.inserted.markDeleted d.xid d.urp).lp = .deleted := rfl
    have hurec : (h.inserted.markDeleted d.xid d.urp).urec = d.urp := rfl
    rw [hop] at hsel
    simp only [xbtTupleSatisfies, he, hsel, hlp, hurec, Option.bind_some, EntryHistory.visible,
      hdel, Option.some.injEq, forall_eq']
    cases hvis : env.visible s d.xid d.cid with
    | true =>
      -- a visible delete hides the entry before the undo log is asked
      have hright := not_wrongCid_of_visible hvis h.ins cid₀
      simp [XBTreeTupleOper.seen, hright]
    | false =>
      have hkept : olderThanAllUndo env.globalFrozenXid d.xid = false := by
        by_contra hne
        rw [hm.visible_of_older (by simpa using hne)] at hvis
        cases hvis
      have hundo := xbtreeGetTupleFromUndo_eq hr hdel hkept cid n
      rw [← cidsAgree_iff_not_wrongCid hr.ins_meets hvis cid₀, ← hcid hvis,
        ← seenFromUndo_eq_iff hr.ins_meets cid]
      simp [XBTreeTupleOper.unseen, hundo]

end Entry

/-- An entry that transaction 7 inserted by its first command and deleted by its second. -/
def insertedAndDeletedBy7 : EntryHistory Nat Nat where
  key := 4
  tid := 1
  ins := ⟨7, 0, 16390, 16390, 1663, none, 100⟩
  insBlkno := 1
  del := some ⟨7, 1, 16390, 16390, 1663, none, 101⟩
  delBlkno := 1

def undoOfBoth (urp : Nat) : UndoLoad (IndexUndo Nat Nat) :=
  if urp = 100 then
    .normal (insertedAndDeletedBy7.ins.insertRecord 1 4 1)
  else if urp = 101 then
    .normal (IndexOpCtx.deleteRecord ⟨7, 1, 16390, 16390, 1663, none, 101⟩ 1
      insertedAndDeletedBy7.inserted)
  else .invalid

theorem insertedAndDeletedBy7_readable (curcid : Nat) :
    EntryReadable readerSeven (cursorOfSeven curcid) undoOfBoth insertedAndDeletedBy7 where
  ins_meets := ⟨fun h => absurd h (by decide), by decide, by decide⟩
  ins_kept := fun _ => rfl
  del_meets := by
    intro d hd
    cases hd
    exact ⟨fun h => absurd h (by decide), by decide, by decide⟩
  del_kept := by
    intro d hd _
    cases hd
    rfl

/-- A cursor opened between the two commands finds the entry. -/
theorem xbtTupleSatisfies_between_commands :
    xbtTupleSatisfies readerSeven (cursorOfSeven 1) undoOfBoth 1 0 insertedAndDeletedBy7.entry =
      some (.ok true) := by
  have hright : ∀ d, insertedAndDeletedBy7.del = some d →
      ¬WrongCid readerSeven (cursorOfSeven 1) 0 insertedAndDeletedBy7.ins d := by
    intro d hd
    cases hd
    rintro ⟨-, ⟨-, hle, -⟩ | ⟨hfalse, -⟩⟩
    · exact absurd hle (by decide)
    · cases hfalse
  exact (xbtTupleSatisfies_follows_snapshot_iff (insertedAndDeletedBy7_readable 1) 0
    (Nat.le_refl 1)).mpr hright

/-- A cursor opened before both commands sees neither, and yet finds the entry. -/
theorem xbtTupleSatisfies_before_insert :
    EntryReadable readerSeven (cursorOfSeven 0) undoOfBoth insertedAndDeletedBy7 ∧
      insertedAndDeletedBy7.visible readerSeven (cursorOfSeven 0) = false ∧
      xbtTupleSatisfies readerSeven (cursorOfSeven 0) undoOfBoth 1 0 insertedAndDeletedBy7.entry =
        some (.ok true) :=
  ⟨insertedAndDeletedBy7_readable 0, rfl, rfl⟩

end XStore
