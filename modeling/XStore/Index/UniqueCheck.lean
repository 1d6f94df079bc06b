import XStore.Chain.Scan
import XStore.Index.Visibility

/-!
# The unique check

`_xbt_check_unique` scans the entries with the key of a new one under a dirty snapshot.  It waits for
a transaction that is inserting or deleting such an entry, and raises an error at a live one.
-/
namespace XStore

open List

variable {K T : Type*}

/-- The session that checks, and the transaction status it finds. -/
structure UniqueEnv where
  /-- `TransactionIdIsCurrentTransactionId` -/
  isCurrentTransactionId : Nat → Bool
  /-- `TransactionIdIsInProgress` -/
  isInProgress : Nat → Bool
  /-- `TransactionIdDidCommit` -/
  didCommit : Nat → Bool
  globalFrozenXid : Nat

namespace UniqueEnv

variable (env : UniqueEnv)

/-- `xstore_transaction_id_is_in_progress` -/
def xstoreIsInProgress (xid : Nat) : Bool :=
  if olderThanAllUndo env.globalFrozenXid xid then false else env.isInProgress xid

/-- `xstore_transaction_id_did_commit` -/
def xstoreDidCommit (xid : Nat) : Bool :=
  if olderThanAllUndo env.globalFrozenXid xid then true else env.didCommit xid

end UniqueEnv

/-- The fields of a dirty snapshot that tell which transactions are at work. -/
structure DirtySnapshot where
  xmin : Nat
  xmax : Nat
  deriving DecidableEq

def DirtySnapshot.init : DirtySnapshot := ⟨invalidXid, invalidXid⟩

def xbtreeSelectVersionDirty (env : UniqueEnv) (op : XBTreeTupleOper) (xid : Nat) :
    XVersionSelector × DirtySnapshot :=
  match op with
  | .gone =>
    if env.isCurrentTransactionId xid then (.none, .init)
    else if env.xstoreIsInProgress xid then (.current, ⟨invalidXid, xid⟩)
    else if env.xstoreDidCommit xid then (.none, .init)
    else (.older, .init)
  | .new =>
    if env.isCurrentTransactionId xid then (.current, .init)
    else if env.xstoreIsInProgress xid then (.current, ⟨xid, invalidXid⟩)
    else if env.xstoreDidCommit xid then (.current, .init)
    else (.none, .init)

/-- `xbtree_tuple_version_select` for a dirty snapshot -/
def versionSelectDirty (env : UniqueEnv) (op : XBTreeTupleOper) (modifiedXid : Nat) :
    XVersionSelector × DirtySnapshot :=
  if olderThanAllUndo env.globalFrozenXid modifiedXid then (op.seen, .init)
  else xbtreeSelectVersionDirty env op modifiedXid

def xbtreeSelectVersionSelf (env : UniqueEnv) (op : XBTreeTupleOper) (xid : Nat) :
    XVersionSelector :=
  if env.isCurrentTransactionId xid then op.seen
  else if env.xstoreIsInProgress xid then op.unseen
  else if env.xstoreDidCommit xid then op.seen
  else op.unseen

/-- `fetch_undo_record` for an invalid transaction id, which every record satisfies. -/
def fetchLatest {β : Type*} (load : Nat → UndoLoad β) (urp : Nat) : UndoTraversal β :=
  match load urp with
  | .discard => .ended
  | .invalid => .ended
  | .forceDiscard => .abort
  | .normal u => .complete u

/-- `xbtree_get_tuple_from_undo` for a dirty snapshot: below a delete there is an insert, for which
`xbtree_select_version_self` never asks for an older version. -/
def getTupleFromUndoDirty (env : UniqueEnv) (load : Nat → UndoLoad (IndexUndo K T)) (urec : Nat) :
    Except FetchError Bool :=
  match fetchLatest load urec with
  | .abort => .error .snapshotTooOld
  | .ended => .error .snapshotTooOld
  | .complete u =>
    if olderThanAllUndo env.globalFrozenXid u.uurPrevxid then .ok true
    else .ok (decide (xbtreeSelectVersionSelf env .new u.uurPrevxid = .current))

def fetchSubxidFromUndo (load : Nat → UndoLoad (IndexUndo K T)) (urec : Nat) : Nat :=
  match fetchLatest load urec with
  | .complete u => u.uurSubxid.getD invalidXid
  | _ => invalidXid

/-- The subtransaction takes the place of its top transaction. -/
def DirtySnapshot.withSubxid (snap : DirtySnapshot) (subxid : Nat) : DirtySnapshot :=
  if subxid = invalidXid then snap
  else if snap.xmin ≠ invalidXid then { snap with xmin := subxid }
  else if snap.xmax ≠ invalidXid then { snap with xmax := subxid }
  else snap

/-- The transaction that the check has to wait for, if any. -/
def DirtySnapshot.xwait (snap : DirtySnapshot) : Nat :=
  if snap.xmin ≠ invalidXid then snap.xmin else snap.xmax

/-- `_xbt_tuple_satisfies` for a dirty snapshot -/
def xbtTupleSatisfiesDirty (env : UniqueEnv) (load : Nat → UndoLoad (IndexUndo K T))
    (e : IndexEntry K T) : Except FetchError (Bool × DirtySnapshot) :=
  if e.lp ≠ .normal ∧ e.lp ≠ .deleted then .ok (false, .init)
  else
    let r := versionSelectDirty env (xbtreeOperFromLp e.lp) e.modifiedXid
    let snap := r.2.withSubxid (fetchSubxidFromUndo load e.urec)
    match r.1 with
    | .older => do
      let visible ← getTupleFromUndoDirty env load e.urec
      .ok (visible, snap)
    | .current => .ok (true, snap)
    | _ => .ok (false, snap)

inductive IndexUniqueCheck where
  | uniqueCheckNo
  | uniqueCheckYes
  | uniqueCheckPartial
  | uniqueCheckExisting
  deriving DecidableEq

inductive UniqueError where
  | duplicateKey
  | fellOffEnd
  | failedToRefind
  | fetch (err : FetchError)
  deriving DecidableEq

/-- The returned transaction id and `*is_unique`. -/
structure UniqueResult where
  xwait : Nat
  isUnique : Bool
  deriving DecidableEq

/-- What the check does at an entry with the key that is not dead: it ends, or goes on with `found`. -/
def checkEntry [DecidableEq T] (env : UniqueEnv) (load : Nat → UndoLoad (IndexUndo K T))
    (checkUnique : IndexUniqueCheck) (tid : T) (found : Bool) (e : IndexEntry K T) :
    Except (Except UniqueError UniqueResult) Bool :=
  if checkUnique = .uniqueCheckExisting ∧ e.tid = tid then .ok true
  else match xbtTupleSatisfiesDirty env load e with
    | .error err => .error (.error (.fetch err))
    | .ok (isVisible, snap) =>
      if checkUnique = .uniqueCheckPartial ∧ isVisible = true then .error (.ok ⟨invalidXid, false⟩)
      else if isVisible = true ∧ snap.xwait = invalidXid then .error (.error .duplicateKey)
      else if isVisible = false then .ok found
      else .error (.ok ⟨snap.xwait, true⟩)

section Order

variable [LinearOrder K] [LinearOrder T] {p : IndexPos K T}

/-- `_xbt_compare` without a scan TID: a high key whose TID is truncated counts as smaller. -/
def xbtCompare (key : K) (p : IndexPos K T) : Ordering :=
  match compare key (ofLex p).1 with
  | .eq => if (ofLex p).2 = ⊥ then .gt else .eq
  | o => o

/-- `_xbt_check_unique`, with the search that leads to its first page. -/
def xbtCheckUnique (env : UniqueEnv) (load : Nat → UndoLoad (IndexUndo K T))
    (checkUnique : IndexUniqueCheck) (key : K) (tid : T) (ps : List (LeafPage K T)) :
    Except UniqueError UniqueResult :=
  match scan IndexEntry.pos (xbtCompare key) (fun e => decide (e.lp = .dead))
      (checkEntry env load checkUnique tid) (.error .fellOffEnd) false ps with
  | .error r => r
  | .ok found =>
    if checkUnique = .uniqueCheckExisting ∧ found = false then .error .failedToRefind
    else .ok ⟨invalidXid, true⟩

theorem xbtCompare_gt_iff {key : K} :
    xbtCompare key p = .gt ↔ p ≤ toLex (key, ⊥) := by
  unfold xbtCompare
  rw [Prod.Lex.le_iff]
  cases hcmp : compare key (ofLex p).1 with
  | lt =>
    have hlt := compare_lt_iff_lt.mp hcmp
    simp [not_lt.mpr hlt.le, hlt.ne']
  | eq => simp [compare_eq_iff_eq.mp hcmp]
  | gt => simp [compare_gt_iff_gt.mp hcmp]

theorem xbtCompare_lt_iff {key : K} :
    xbtCompare key p = .lt ↔ key < (ofLex p).1 := by
  unfold xbtCompare
  rw [← compare_lt_iff_lt]
  cases compare key (ofLex p).1 with
  | lt => simp
  | eq => by_cases hbot : (ofLex p).2 = ⊥ <;> simp [hbot]
  | gt => simp

theorem xbtCompare_cuts (key : K) : Cuts (xbtCompare (T := T) key) where
  gt_of_le := by
    intro b c hle hgt
    rw [xbtCompare_gt_iff] at hgt ⊢
    exact hle.trans hgt
  lt_of_le := by
    intro b c hle hlt
    rw [xbtCompare_lt_iff] at hlt ⊢
    exact hlt.trans_le (Prod.Lex.monotone_fst b c hle)

theorem xbtCompare_pos {key : K} {e : IndexEntry K T} :
    xbtCompare key e.pos = .eq ↔ e.key = key := by
  unfold xbtCompare
  change (match compare key e.key with
    | .eq => if (e.tid : WithBot T) = ⊥ then Ordering.gt else .eq
    | o => o) = .eq ↔ _
  have hiff : e.key = key ↔ compare key e.key = .eq := by
    rw [compare_eq_iff_eq]
    exact eq_comm
  rw [hiff]
  cases compare key e.key <;> simp

end Order

/-- Where the transaction of a change stands, seen from the session that checks. -/
inductive OwnerState where
  | current
  | running
  | committed
  | aborted
  deriving DecidableEq

def UniqueEnv.state (env : UniqueEnv) (xid : Nat) : OwnerState :=
  if env.isCurrentTransactionId xid then .current
  else if env.isInProgress xid then .running
  else if env.didCommit xid then .committed
  else .aborted

/-- What holds of an operation on an entry and its undo record: a transaction older than all undo has
committed, and the undo of the others is kept. -/
structure OpTold (env : UniqueEnv) (load : Nat → UndoLoad (IndexUndo K T)) (c : IndexOpCtx)
    (u : IndexRecord K T) : Prop where
  xid_valid : c.xid ≠ invalidXid
  subxid_valid : c.subxid ≠ some invalidXid
  older : olderThanAllUndo env.globalFrozenXid c.xid = true → env.state c.xid = .committed
  kept : olderThanAllUndo env.globalFrozenXid c.xid = false → load c.urp = .normal u

/-- The entry has this history.  Only what was committed or inserted by the same transaction was there
to be deleted. -/
structure EntryTold (env : UniqueEnv) (load : Nat → UndoLoad (IndexUndo K T)) (e : IndexEntry K T)
    (h : EntryHistory K T) : Prop where
  entry : h.entry = e
  ins : OpTold env load h.ins (h.ins.insertRecord h.insBlkno h.key h.tid)
  del : ∀ d, h.del = some d → OpTold env load d (d.deleteRecord h.delBlkno h.inserted)
  found : ∀ d, h.del = some d → d.xid = h.ins.xid ∨ env.state h.ins.xid = .committed

namespace EntryHistory

variable (env : UniqueEnv) (h : EntryHistory K T)

def ops : List IndexOpCtx := h.ins :: h.del.toList

/-- The entry was inserted by an aborted transaction, or deleted by a committed or the current one. -/
def Gone : Prop :=
  env.state h.ins.xid = .aborted ∨
    ∃ d, h.del = some d ∧ (env.state d.xid = .committed ∨ env.state d.xid = .current)

/-- The entry is being inserted or deleted by another running transaction. -/
def Busy (xid : Nat) : Prop := (∃ c ∈ h.ops, c.xid = xid) ∧ env.state xid = .running

/-- The entry is one of a committed or the current transaction and is not deleted. -/
def Live : Prop :=
  (env.state h.ins.xid = .committed ∨ env.state h.ins.xid = .current) ∧
    ∀ d, h.del = some d → env.state d.xid = .aborted

/-- The id is that of the transaction, or of a subtransaction of it that worked on the entry. -/
def BelongsTo (xid x : Nat) : Prop := x = xid ∨ ∃ c ∈ h.ops, c.xid = xid ∧ c.subxid = some x

end EntryHistory

section Status

variable {env : UniqueEnv} {load : Nat → UndoLoad (IndexUndo K T)} {c : IndexOpCtx}
  {u : IndexRecord K T}

/-- The selectors under a dirty snapshot, by the state of the transaction. -/
def dirtyAnswer (op : XBTreeTupleOper) (xid : Nat) : OwnerState → XVersionSelector × DirtySnapshot
  | .current => (op.seen, .init)
  | .committed => (op.seen, .init)
  | .aborted => (op.unseen, .init)
  | .running => (.current, match op with
    | .new => ⟨xid, invalidXid⟩
    | .gone => ⟨invalidXid, xid⟩)

section

variable (h : OpTold env load c u)

include h

theorem versionSelectDirty_eq (op : XBTreeTupleOper) :
    versionSelectDirty env op c.xid = dirtyAnswer op c.xid (env.state c.xid) := by
  unfold versionSelectDirty
  cases hold : olderThanAllUndo env.globalFrozenXid c.xid with
  | true => simp [h.older hold, dirtyAnswer]
  | false =>
    simp only [Bool.false_eq_true, if_false, xbtreeSelectVersionDirty, UniqueEnv.xstoreIsInProgress,
      UniqueEnv.xstoreDidCommit, hold, UniqueEnv.state]
    cases op <;> split_ifs <;> rfl

/-- The insert below an aborted delete counts where it is the current transaction's or committed. -/
theorem insertCounts_eq :
    (olderThanAllUndo env.globalFrozenXid c.xid ||
      decide (xbtreeSelectVersionSelf env .new c.xid = .current)) =
      decide (env.state c.xid = .committed ∨ env.state c.xid = .current) := by
  cases hold : olderThanAllUndo env.globalFrozenXid c.xid with
  | true => simp [h.older hold]
  | false =>
    simp only [xbtreeSelectVersionSelf, UniqueEnv.xstoreIsInProgress, UniqueEnv.xstoreDidCommit, hold,
      UniqueEnv.state, XBTreeTupleOper.seen, XBTreeTupleOper.unseen]
    split_ifs <;> simp_all

theorem OpTold.wait_valid : c.subxid.getD c.xid ≠ invalidXid := by
  cases hs : c.subxid with
  | none => exact h.xid_valid
  | some x =>
    intro heq
    exact h.subxid_valid (hs.trans (congrArg some heq))

/-- The transaction to wait for is the subtransaction, where the undo record names one. -/
theorem xwait_running (hsub : u.uurSubxid = c.subxid)
    (hrun : env.state c.xid = .running) (op : XBTreeTupleOper) :
    ((dirtyAnswer op c.xid .running).2.withSubxid (fetchSubxidFromUndo load c.urp)).xwait =
      c.subxid.getD c.xid := by
  have hkept : load c.urp = .normal u := by
    apply h.kept
    by_contra hne
    have hcommitted := h.older (by simpa using hne)
    rw [hrun] at hcommitted
    cases hcommitted
  have hfetch : fetchSubxidFromUndo load c.urp = c.subxid.getD invalidXid := by
    simp [fetchSubxidFromUndo, fetchLatest, hkept, hsub]
  rw [hfetch]
  have hxid := h.xid_valid
  have hvalid := h.subxid_valid
  cases hc : c.subxid with
  | none => cases op <;> simp [dirtyAnswer, DirtySnapshot.withSubxid, DirtySnapshot.xwait, hxid]
  | some x =>
    have hx : x ≠ invalidXid := fun heq => hvalid (heq ▸ hc)
    cases op <;> simp [dirtyAnswer, DirtySnapshot.withSubxid, DirtySnapshot.xwait, hx, hxid]

end

theorem withSubxid_init (subxid : Nat) : DirtySnapshot.init.withSubxid subxid = .init := by
  simp [DirtySnapshot.withSubxid, DirtySnapshot.init]

inductive EntryVerdict (env : UniqueEnv) (h : EntryHistory K T) (found : Bool) :
    Except (Except UniqueError UniqueResult) Bool → Prop
  | passed : h.Gone env → EntryVerdict env h found (.ok found)
  | duplicate : h.Live env → EntryVerdict env h found (.error (.error .duplicateKey))
  | waits {xid x : Nat} : h.Busy env xid → h.BelongsTo xid x → x ≠ invalidXid →
      EntryVerdict env h found (.error (.ok ⟨x, true⟩))

theorem EntryHistory.waits {h : EntryHistory K T} (hc : OpTold env load c u) (hmem : c ∈ h.ops)
    (hrun : env.state c.xid = .running) (found : Bool) :
    EntryVerdict env h found (.error (.ok ⟨c.subxid.getD c.xid, true⟩)) := by
  apply EntryVerdict.waits ⟨⟨c, hmem, rfl⟩, hrun⟩
  · cases hsub : c.subxid with
    | none => exact .inl rfl
    | some x => exact .inr ⟨c, hmem, rfl, hsub⟩
  · exact hc.wait_valid

end Status

section Entries

variable {env : UniqueEnv} {load : Nat → UndoLoad (IndexUndo K T)} {e : IndexEntry K T}
  {h : EntryHistory K T}

/-- Below an aborted delete the undo log tells whether the insert still counts. -/
theorem getTupleFromUndoDirty_eq (ht : EntryTold env load e h) {d : IndexOpCtx}
    (hdel : h.del = some d) (hstate : env.state d.xid = .aborted) :
    getTupleFromUndoDirty env load d.urp =
      .ok (decide (env.state h.ins.xid = .committed ∨ env.state h.ins.xid = .current)) := by
  have hkept : load d.urp = .normal (d.deleteRecord h.delBlkno h.inserted) := by
    apply (ht.del d hdel).kept
    by_contra hne
    have hcommitted := (ht.del d hdel).older (by simpa using hne)
    rw [hstate] at hcommitted
    cases hcommitted
  have hprev : (d.deleteRecord h.delBlkno h.inserted).uurPrevxid = h.ins.xid := rfl
  rw [← insertCounts_eq ht.ins]
  simp only [getTupleFromUndoDirty, fetchLatest, hkept, hprev]
  cases olderThanAllUndo env.globalFrozenXid h.ins.xid <;> simp

variable [DecidableEq T]

def undoVerdict (found : Bool) : Except FetchError Bool → Except (Except UniqueError UniqueResult) Bool
  | .error err => .error (.error (.fetch err))
  | .ok true => .error (.error .duplicateKey)
  | .ok false => .ok found

/-- What the check does by the state of the last transaction that changed the entry. -/
theorem checkEntry_last {c : IndexOpCtx} {u : IndexRecord K T} (hc : OpTold env load c u)
    (hsub : u.uurSubxid = c.subxid) (hlp : e.lp = .normal ∨ e.lp = .deleted)
    (hxid : e.modifiedXid = c.xid) (hurec : e.urec = c.urp) (tid : T) (found : Bool) :
    checkEntry env load .uniqueCheckYes tid found e =
      match env.state c.xid with
      | .running => .error (.ok ⟨c.subxid.getD c.xid, true⟩)
      | .aborted => if e.lp = .normal then .ok found
          else undoVerdict found (getTupleFromUndoDirty env load c.urp)
      | _ => if e.lp = .normal then .error (.error .duplicateKey) else .ok found := by
  have hlp' : ¬(e.lp ≠ .normal ∧ e.lp ≠ .deleted) := fun hne => hlp.elim hne.1 hne.2
  have hsel := versionSelectDirty_eq hc (xbtreeOperFromLp e.lp)
  have hinit : DirtySnapshot.init.xwait = invalidXid := rfl
  simp only [checkEntry, xbtTupleSatisfiesDirty, if_neg hlp', hxid, hurec, hsel]
  cases hstate : env.state c.xid with
  | running =>
    have hwait := xwait_running hc hsub hstate (xbtreeOperFromLp e.lp)
    simp only [dirtyAnswer] at hwait ⊢
    simp [hwait, hc.wait_valid]
  | current =>
    rcases hlp with hlp | hlp <;>
      simp [dirtyAnswer, hlp, xbtreeOperFromLp, XBTreeTupleOper.seen, withSubxid_init, hinit]
  | committed =>
    rcases hlp with hlp | hlp <;>
      simp [dirtyAnswer, hlp, xbtreeOperFromLp, XBTreeTupleOper.seen, withSubxid_init, hinit]
  | aborted =>
    rcases hlp with hlp | hlp
    · simp [dirtyAnswer, hlp, xbtreeOperFromLp, XBTreeTupleOper.unseen]
    · cases getTupleFromUndoDirty env load c.urp with
      | error err =>
        simp [dirtyAnswer, hlp, xbtreeOperFromLp, XBTreeTupleOper.unseen, undoVerdict, Bind.bind,
          Except.bind]
      | ok visible =>
        cases visible <;>
          simp [dirtyAnswer, hlp, xbtreeOperFromLp, XBTreeTupleOper.unseen, undoVerdict, Bind.bind,
            Except.bind, withSubxid_init, hinit]

/-- The check goes past an entry that is gone, stops at a live one with an error, and returns a
transaction that works on the entry. -/
theorem checkEntry_verdict (ht : EntryTold env load e h) (tid : T) (found : Bool) :
    EntryVerdict env h found (checkEntry env load .uniqueCheckYes tid found e) := by
  cases hdel : h.del with
  | none =>
    have he : e = h.inserted := by rw [← ht.entry, EntryHistory.entry, hdel]
    have hnone : ∀ d, h.del = some d → env.state d.xid = .aborted := by
      intro d hd
      rw [hdel] at hd
      cases hd
    rw [he, @checkEntry_last _ _ env load h.inserted _ _ _ ht.ins rfl (.inl rfl) rfl rfl]
    cases hstate : env.state h.ins.xid with
    | running => exact EntryHistory.waits ht.ins (mem_cons_self ..) hstate found
    | aborted => exact .passed (.inl hstate)
    | committed => exact .duplicate ⟨.inl hstate, hnone⟩
    | current => exact .duplicate ⟨.inr hstate, hnone⟩
  | some d =>
    have he : e = h.inserted.markDeleted d.xid d.urp := by rw [← ht.entry, EntryHistory.entry, hdel]
    rw [he, @checkEntry_last _ _ env load (h.inserted.markDeleted d.xid d.urp) _ _ _ (ht.del d hdel)
      rfl (.inr rfl) rfl rfl]
    cases hstate : env.state d.xid with
    | running =>
      apply EntryHistory.waits (ht.del d hdel) _ hstate found
      simp [EntryHistory.ops, hdel]
    | committed => exact .passed (.inr ⟨d, hdel, .inl hstate⟩)
    | current => exact .passed (.inr ⟨d, hdel, .inr hstate⟩)
    | aborted =>
      have hnormal : (h.inserted.markDeleted d.xid d.urp).lp ≠ .normal := fun heq => by cases heq
      simp only [if_neg hnormal, getTupleFromUndoDirty_eq ht hdel hstate]
      by_cases hcounts : env.state h.ins.xid = .committed ∨ env.state h.ins.xid = .current
      · rw [decide_eq_true hcounts]
        refine .duplicate ⟨hcounts, fun d' hd' => ?_⟩
        cases hdel.symm.trans hd'
        exact hstate
      · rw [decide_eq_false hcounts]
        apply EntryVerdict.passed
        rcases ht.found d hdel with hsame | hcommitted
        · exact .inl (hsame ▸ hstate)
        · exact absurd (.inl hcommitted) hcounts

end Entries

section Busy

variable {env : UniqueEnv} {load : Nat → UndoLoad (IndexUndo K T)} {e : IndexEntry K T}
  {h : EntryHistory K T} {xid : Nat}

section

variable (ht : EntryTold env load e h)

include ht

/-- A running transaction at work on an entry is the last that changed it. -/
theorem EntryTold.busy_last (hb : h.Busy env xid) :
    (h.del.getD h.ins).xid = xid := by
  obtain ⟨⟨c, hmem, rfl⟩, hrun⟩ := hb
  cases hdel : h.del with
  | none =>
    obtain rfl : c = h.ins := by simpa [EntryHistory.ops, hdel] using hmem
    rfl
  | some d =>
    have hor : c = h.ins ∨ c = d := by simpa [EntryHistory.ops, hdel] using hmem
    rcases hor with rfl | rfl
    · rcases ht.found d hdel with hsame | hcommitted
      · exact hsame
      · rw [hrun] at hcommitted
        cases hcommitted
    · rfl

theorem EntryTold.not_gone_of_busy (hb : h.Busy env xid) :
    ¬h.Gone env := by
  have hlast := ht.busy_last hb
  have hrun := hb.2
  rintro (haborted | ⟨d, hdel, hstate⟩)
  · cases hdel : h.del with
    | none =>
      simp only [hdel, Option.getD_none] at hlast
      rw [hlast, hrun] at haborted
      cases haborted
    | some d =>
      simp only [hdel, Option.getD_some] at hlast
      rcases ht.found d hdel with hsame | hcommitted
      · rw [← hsame, hlast, hrun] at haborted
        cases haborted
      · rw [hcommitted] at haborted
        cases haborted
  · simp only [hdel, Option.getD_some] at hlast
    rw [hlast, hrun] at hstate
    rcases hstate with hstate | hstate <;> cases hstate

theorem EntryTold.not_live_of_busy (hb : h.Busy env xid) :
    ¬h.Live env := by
  have hlast := ht.busy_last hb
  have hrun := hb.2
  rintro ⟨hins, hdels⟩
  cases hdel : h.del with
  | none =>
    simp only [hdel, Option.getD_none] at hlast
    rw [hlast, hrun] at hins
    rcases hins with hins | hins <;> cases hins
  | some d =>
    simp only [hdel, Option.getD_some] at hlast
    have haborted := hdels d hdel
    rw [hlast, hrun] at haborted
    cases haborted

end

theorem EntryHistory.not_live_of_gone (hg : h.Gone env) : ¬h.Live env := by
  rintro ⟨hins, hdels⟩
  rcases hg with haborted | ⟨d, hdel, hstate⟩
  · rw [haborted] at hins
    rcases hins with hins | hins <;> cases hins
  · rw [hdels d hdel] at hstate
    rcases hstate with hstate | hstate <;> cases hstate

variable [DecidableEq T]

theorem checkEntry_eq_ok_iff (ht : EntryTold env load e h) (tid : T) (found : Bool) :
    checkEntry env load .uniqueCheckYes tid found e = .ok found ↔ h.Gone env := by
  have hverdict := checkEntry_verdict ht tid found
  generalize checkEntry env load .uniqueCheckYes tid found e = r at hverdict
  cases hverdict with
  | passed hgone => exact iff_of_true rfl hgone
  | duplicate hlive =>
    exact iff_of_false nofun fun hgone => EntryHistory.not_live_of_gone hgone hlive
  | waits hbusy _ _ => exact iff_of_false nofun fun hgone => ht.not_gone_of_busy hbusy hgone

theorem checkEntry_of_busy (ht : EntryTold env load e h) (hb : h.Busy env xid) (tid : T)
    (found : Bool) :
    ∃ x, h.BelongsTo xid x ∧
      checkEntry env load .uniqueCheckYes tid found e = .error (.ok ⟨x, true⟩) := by
  have hverdict := checkEntry_verdict ht tid found
  generalize checkEntry env load .uniqueCheckYes tid found e = r at hverdict
  cases hverdict with
  | passed hgone => exact absurd hgone (ht.not_gone_of_busy hb)
  | duplicate hlive => exact absurd hlive (ht.not_live_of_busy hb)
  | @waits xid' x hbusy hbelongs _ =>
    obtain rfl : xid' = xid := (ht.busy_last hbusy).symm.trans (ht.busy_last hb)
    exact ⟨x, hbelongs, rfl⟩

end Busy

section Check

variable [LinearOrder K] [LinearOrder T] {env : UniqueEnv}
  {load : Nat → UndoLoad (IndexUndo K T)} {ps : List (LeafPage K T)}

/-- The entries with the key that are not dead, in the order of the chain. -/
def rivals (key : K) (ps : List (LeafPage K T)) : List (IndexEntry K T) :=
  (chainItems ps).filter fun e => decide (e.key = key ∧ e.lp ≠ .dead)

theorem met_eq_rivals (key : K) (ps : List (LeafPage K T)) :
    met IndexEntry.pos (xbtCompare key) (fun e => decide (e.lp = .dead)) (chainItems ps) =
      rivals key ps := by
  unfold met rivals
  congr 1
  funext e
  rw [Bool.eq_iff_iff]
  simp [xbtCompare_pos, and_comm]

/-- The unique check misses no conflict.  It never fails but for a duplicate.  Where it returns no
transaction, all entries with the key are gone; it returns the transaction at work on the first entry
that is not gone, or its subtransaction; and a duplicate is a live entry. -/
theorem check_unique_misses_no_conflict (hord : Ordered IndexEntry.pos ps) (hend : EndsInUse ps)
    (htold : ∀ e ∈ chainItems ps, e.lp ≠ .dead → ∃ h, EntryTold env load e h) (key : K) (tid : T) :
    let r := xbtCheckUnique env load .uniqueCheckYes key tid ps
    (∀ err, r = .error err → err = .duplicateKey) ∧
      (∀ res, r = .ok res → res.xwait = invalidXid →
        ∀ e ∈ rivals key ps, ∀ h, EntryTold env load e h → h.Gone env) ∧
      (∀ before e after, rivals key ps = before ++ e :: after →
        (∀ b ∈ before, ∀ h, EntryTold env load b h → h.Gone env) →
        ∀ h, EntryTold env load e h → ∀ xid, h.Busy env xid →
          ∃ x, h.BelongsTo xid x ∧ r = .ok ⟨x, true⟩) ∧
      (r = .error .duplicateKey → ∃ e ∈ rivals key ps, ∃ h, EntryTold env load e h ∧ h.Live env) := by
  intro r
  have hscan : scan IndexEntry.pos (xbtCompare key) (fun e => decide (e.lp = .dead))
      (checkEntry env load .uniqueCheckYes tid) (.error .fellOffEnd) false ps =
      (rivals key ps).foldlM (checkEntry env load .uniqueCheckYes tid) false := by
    rw [hord.scan_eq (xbtCompare_cuts key) hend, met_eq_rivals]
  have hhist : ∀ e ∈ rivals key ps, ∃ h, EntryTold env load e h := by
    intro e he
    obtain ⟨hmem, hkey⟩ := List.mem_filter.mp he
    exact htold e hmem (of_decide_eq_true hkey).2
  have hstep : ∀ e ∈ rivals key ps, checkEntry env load .uniqueCheckYes tid false e = .ok false ∨
      ∃ b, checkEntry env load .uniqueCheckYes tid false e = .error b := by
    intro e he
    obtain ⟨h, ht⟩ := hhist e he
    have hverdict := checkEntry_verdict ht tid false
    cases hcheck : checkEntry env load .uniqueCheckYes tid false e with
    | error b => exact .inr ⟨b, rfl⟩
    | ok found =>
      rw [hcheck] at hverdict
      cases hverdict
      exact .inl rfl
  have hbusy : ∀ before e after, rivals key ps = before ++ e :: after →
      (∀ b ∈ before, ∀ h, EntryTold env load b h → h.Gone env) →
      ∀ h, EntryTold env load e h → ∀ xid, h.Busy env xid →
        ∃ x, h.BelongsTo xid x ∧ r = .ok ⟨x, true⟩ := by
    intro before e after hsplit hgone h ht xid hb
    obtain ⟨x, hbelongs, hcheck⟩ := checkEntry_of_busy ht hb tid false
    refine ⟨x, hbelongs, ?_⟩
    have hpassed : ∀ b ∈ before, checkEntry env load .uniqueCheckYes tid false b = .ok false := by
      intro b hb'
      obtain ⟨hb, htb⟩ := hhist b (by rw [hsplit]; exact List.mem_append_left _ hb')
      exact (checkEntry_eq_ok_iff htb tid false).mpr (hgone b hb' hb htb)
    simp only [r, xbtCheckUnique, hscan, hsplit, foldlM_split hpassed hcheck]
  rcases foldlM_stops hstep with ⟨hfold, hall⟩ | ⟨before, e, after, b, hsplit, -, hcheck, hfold⟩
  · have hr : r = .ok ⟨invalidXid, true⟩ := by simp [r, xbtCheckUnique, hscan, hfold]
    refine ⟨fun err herr => ?_, fun _ _ _ e he h ht => ?_, hbusy, fun herr => ?_⟩
    · rw [hr] at herr
      cases herr
    · exact (checkEntry_eq_ok_iff ht tid false).mp (hall e he)
    · rw [hr] at herr
      cases herr
  · have hr : r = b := by simp only [r, xbtCheckUnique, hscan, hfold]
    have he : e ∈ rivals key ps := by
      rw [hsplit]
      simp
    obtain ⟨h, ht⟩ := hhist e he
    have hverdict := checkEntry_verdict ht tid false
    rw [hcheck] at hverdict
    rw [hr] at hbusy ⊢
    cases hverdict with
    | duplicate hlive =>
      exact ⟨fun err herr => (Except.error.inj herr).symm, nofun, hbusy, fun _ => ⟨e, he, h, ht, hlive⟩⟩
    | waits _ _ hx =>
      refine ⟨nofun, fun res hres hinvalid => ?_, hbusy, nofun⟩
      cases hres
      exact absurd hinvalid hx

end Check

/-- Transaction 7 checks; 5 has committed, 8 is running, 6 has aborted. -/
def checkerSeven : UniqueEnv where
  isCurrentTransactionId xid := xid == 7
  isInProgress xid := xid == 8
  didCommit xid := xid == 5
  globalFrozenXid := 4

/-- The insert of an entry whose undo pointer tells the transaction. -/
def insertOf (xid : Nat) (subxid : Option Nat) (key tid : Nat) : EntryHistory Nat Nat where
  key := key
  tid := tid
  ins := ⟨xid, 0, 16390, 16390, 1663, subxid, 100 + xid⟩
  insBlkno := 1
  del := none
  delBlkno := 0

def ofFive : EntryHistory Nat Nat := insertOf 5 none 2 1
def ofSix : EntryHistory Nat Nat := insertOf 6 none 4 1
def ofEight : EntryHistory Nat Nat := insertOf 8 (some 9) 4 2

def undoOfThree (urp : Nat) : UndoLoad (IndexUndo Nat Nat) :=
  if urp = 105 then .normal (ofFive.ins.insertRecord 1 2 1)
  else if urp = 106 then .normal (ofSix.ins.insertRecord 1 4 1)
  else if urp = 108 then .normal (ofEight.ins.insertRecord 1 4 2)
  else .invalid

/-- Key 4 stands on two pages, with a half-dead page between them. -/
def keyOnTwoPages : List (LeafPage Nat Nat) :=
  [⟨⟨1, 2, 0⟩, false, some (indexPos 4 1), [ofFive.entry, ofSix.entry]⟩,
    ⟨⟨2, 0, 0⟩, true, some (indexPos 4 1), []⟩, ⟨⟨3, 1, 0⟩, false, none, [ofEight.entry]⟩]

theorem keyOnTwoPages_ordered : Ordered IndexEntry.pos keyOnTwoPages where
  sorted := by
    intro p hp
    simp only [keyOnTwoPages, mem_cons, not_mem_nil, or_false] at hp
    rcases hp with rfl | rfl | rfl <;> decide
  le_bound := by
    intro p hp b hb
    simp only [keyOnTwoPages, mem_cons, not_mem_nil, or_false] at hp
    rcases hp with rfl | rfl | rfl <;> cases hb <;> decide
  empty := by
    intro p hp hi
    simp only [keyOnTwoPages, mem_cons, not_mem_nil, or_false] at hp
    rcases hp with rfl | rfl | rfl
    · cases hi
    · rfl
    · cases hi
  apart := by
    simp only [keyOnTwoPages, pairwise_cons]
    refine ⟨?_, ?_, ?_, List.Pairwise.nil⟩
    · intro q hq _
      refine ⟨_, rfl, ?_⟩
      simp only [mem_cons, not_mem_nil, or_false] at hq
      rcases hq with rfl | rfl
      · exact ⟨nofun, nofun⟩
      · exact ⟨by decide, nofun⟩
    · intro q _ hi
      cases hi
    · nofun

theorem keyOnTwoPages_told (e : IndexEntry Nat Nat) (he : e ∈ chainItems keyOnTwoPages) :
    ∃ h, EntryTold checkerSeven undoOfThree e h := by
  have hcases : e = ofFive.entry ∨ e = ofSix.entry ∨ e = ofEight.entry := by
    simpa [chainItems, keyOnTwoPages] using he
  rcases hcases with rfl | rfl | rfl
  · exact ⟨ofFive, rfl, ⟨by decide, (fun h => by cases h), fun _ => by decide, fun _ => rfl⟩,
      (fun _ h => by cases h), (fun _ h => by cases h)⟩
  · exact ⟨ofSix, rfl, ⟨by decide, (fun h => by cases h), fun h => absurd h (by decide), fun _ => rfl⟩,
      (fun _ h => by cases h), (fun _ h => by cases h)⟩
  · exact ⟨ofEight, rfl, ⟨by decide, by decide, fun h => absurd h (by decide), fun _ => rfl⟩,
      (fun _ h => by cases h), (fun _ h => by cases h)⟩

/-- The check goes past the insert of aborted transaction 6 and the half-dead page, and returns
transaction 8 or its subtransaction. -/
theorem check_unique_waits_on_second_page :
    ∃ x, ofEight.BelongsTo 8 x ∧
      xbtCheckUnique checkerSeven undoOfThree .uniqueCheckYes 4 3 keyOnTwoPages = .ok ⟨x, true⟩ := by
  have hcheck := check_unique_misses_no_conflict keyOnTwoPages_ordered ⟨_, rfl, rfl⟩
    (fun e he _ => keyOnTwoPages_told e he) 4 3
  apply hcheck.2.2.1 [ofSix.entry] ofEight.entry [] (by decide) ?_ ofEight
    ⟨rfl, ⟨by decide, by decide, fun h => absurd h (by decide), fun _ => rfl⟩, (fun _ h => by cases h),
      (fun _ h => by cases h)⟩ 8
    ⟨⟨ofEight.ins, List.mem_cons_self .., rfl⟩, by decide⟩
  intro b hb h ht
  obtain rfl := List.mem_singleton.mp hb
  exact (checkEntry_eq_ok_iff ht 3 false).mp rfl

end XStore
