import XStore.Chain.Path
import XStore.Undo.Backward

/-!
# The undo records of a subtransaction

`xxact.c` keeps per transaction level the first and the latest record it has to roll back.  A level
starts empty, a subtransaction that commits hands its records to its parent, and one that aborts
walks its own back through the log with `bulk_fetch_undo_for_range`.
-/
namespace XStore

open List

/-- `a < b` as packed pointers. -/
def UndoPtr.Before (a b : UndoPtr) : Prop := a.logno < b.logno ∨ a.logno = b.logno ∧ a.offset < b.offset

structure LoggedRecord where
  urp : UndoPtr
  /-- `undo_record_expected_size` -/
  size : Nat
  /-- `unpack_undo_record_size` -/
  unpackedSize : Nat
  /-- `uur_txnprevurp`, which is stored only with `UREC_INFO_PREURP` -/
  txnprevurp : UndoPtr
  deriving DecidableEq

/-- One level of `TransactionState`, with what it has to roll back: the records it wrote itself or
took over from subtransactions that committed into it, and those of subtransactions that aborted. -/
structure LevelUndo where
  firstUrp : UndoPtr
  latestUrp : UndoPtr
  latestUrpXact : UndoPtr
  own : List UndoPtr
  undone : List UndoPtr
  deriving DecidableEq

namespace LevelUndo

/-- `reset_undo_actions_info` -/
def empty : LevelUndo := ⟨.invalid, .invalid, .invalid, [], []⟩

/-- `set_current_tansaction_undorec_ptr` -/
def setUndorecPtr (l : LevelUndo) (p : UndoPtr) : LevelUndo :=
  { l with
    firstUrp := if l.firstUrp = .invalid then p else l.firstUrp
    latestUrp := p
    latestUrpXact := p
    own := p :: l.own }

/-- `proprgate_undo_info_to_parents` -/
def propagate (child parent : LevelUndo) : LevelUndo :=
  { firstUrp := if parent.firstUrp = .invalid then child.firstUrp else parent.firstUrp
    latestUrp := if child.latestUrp ≠ .invalid then child.latestUrp else parent.latestUrp
    latestUrpXact := if child.latestUrp ≠ .invalid then child.latestUrp else parent.latestUrpXact
    own := child.own ++ parent.own
    undone := child.undone ++ parent.undone }

/-- The parent of a subtransaction that aborts is left as it is. -/
def afterAbort (child parent : LevelUndo) : LevelUndo :=
  { parent with undone := child.own ++ child.undone ++ parent.undone }

end LevelUndo

/-- The levels of the running transaction, the insert position of the attached log, and the records
of its logs, newest first. -/
structure XactUndo where
  top : LevelUndo
  /-- The open subtransactions, innermost first. -/
  subs : List LevelUndo
  insert : UndoPtr
  recs : List LoggedRecord
  deriving DecidableEq

inductive XactEvent where
  | startSub
  /-- One record, behind a switch to a new log where there is one. -/
  | write (switchTo : Option Nat) (size unpackedSize : Nat)
  | commitSub
  | abortSub
  deriving DecidableEq

namespace XactUndo

def current (st : XactUndo) : LevelUndo := st.subs.headD st.top

def setCurrent (st : XactUndo) (l : LevelUndo) : XactUndo :=
  match st.subs with
  | [] => { st with top := l }
  | _ :: rest => { st with subs := l :: rest }

/-- `prepare_undo` for one record: behind a switch it begins the new log and names the latest record
of the current level. -/
def newRecord (st : XactUndo) (switchTo : Option Nat) (size unpackedSize : Nat) : LoggedRecord :=
  match switchTo with
  | none => ⟨st.insert, size, unpackedSize, .invalid⟩
  | some logno => ⟨⟨logno, undoLogBlockHeaderSize⟩, size, unpackedSize, st.current.latestUrpXact⟩

/-- Enter a record and make it the latest of the current level. -/
def logRecord (st : XactUndo) (r : LoggedRecord) : XactUndo :=
  { st.setCurrent (st.current.setUndorecPtr r.urp) with
    insert := getNextUndoptr r.urp r.size
    recs := r :: st.recs }

/-- A switch goes to a log with a larger number that is empty (`allocate_undo_logno`); the
transaction itself is neither committed nor aborted here. -/
def step (st : XactUndo) : XactEvent → Option XactUndo
  | .startSub => some { st with subs := LevelUndo.empty :: st.subs }
  | .write switchTo size unpackedSize =>
    if 0 < size ∧ switchTo.all (st.insert.logno < ·) then
      some (st.logRecord (st.newRecord switchTo size unpackedSize))
    else none
  | .commitSub =>
    match st.subs with
    | [] => none
    | [child] => some { st with top := child.propagate st.top, subs := [] }
    | child :: parent :: rest => some { st with subs := child.propagate parent :: rest }
  | .abortSub =>
    match st.subs with
    | [] => none
    | [child] => some { st with top := child.afterAbort st.top, subs := [] }
    | child :: parent :: rest => some { st with subs := child.afterAbort parent :: rest }

def run (st : XactUndo) : List XactEvent → Option XactUndo
  | [] => some st
  | e :: es => (st.step e).bind fun st => st.run es

end XactUndo

section Walk

variable (recs : List LoggedRecord)

def loadRecord (p : UndoPtr) : Option LoggedRecord := recs.find? fun r => decide (r.urp = p)

/-- The length in the two bytes before a pointer is that of the record which ends there. -/
def lengthBefore (p : UndoPtr) : Option Nat :=
  (recs.find? fun r => decide (getNextUndoptr r.urp r.size = p)).map (·.size)

/-- `undo_record_get_preurp` on a log whose records are known. -/
def preurp (r : LoggedRecord) : Except Panic UndoPtr :=
  if r.txnprevurp ≠ .invalid then .ok r.txnprevurp
  else match lengthBefore recs r.urp with
    | none => .error (.noPageBefore r.urp.offset)
    | some len => (distanceBack r.urp.offset len).map fun d => ⟨r.urp.logno, r.urp.offset - d⟩

/-- `bulk_fetch_undo_for_range`: one batch, and where the next one starts. -/
def bulkFetchUndoForRange (endRecptr : UndoPtr) (maxApplySize : Nat) :
    Nat → UndoPtr → Nat → List LoggedRecord → Option (Except Panic (List LoggedRecord × UndoPtr))
  | 0, _, _, _ => none
  | fuel + 1, cur, usedSize, undolist =>
    match loadRecord recs cur with
    | none => some (.ok (undolist, .invalid))
    | some r =>
      match if cur = endRecptr then .ok UndoPtr.invalid else preurp recs r with
      | .error e => some (.error e)
      | .ok next =>
        if next = .invalid then some (.ok (undolist ++ [r], .invalid))
        else if maxApplySize ≤ usedSize + r.unpackedSize then some (.ok (undolist ++ [r], next))
        else bulkFetchUndoForRange endRecptr maxApplySize fuel next (usedSize + r.unpackedSize)
          (undolist ++ [r])

/-- The batches of `execute_undo_actions`, one behind the other. -/
def fetchBatches (endRecptr : UndoPtr) (maxApplySize : Nat) :
    Nat → UndoPtr → Option (Except Panic (List LoggedRecord))
  | 0, _ => none
  | fuel + 1, start =>
    if start = .invalid then some (.ok [])
    else
      match bulkFetchUndoForRange recs endRecptr maxApplySize (fuel + 1) start 0 [] with
      | none => none
      | some (.error e) => some (.error e)
      | some (.ok (undolist, next)) =>
        if undolist = [] then some (.ok [])
        else (fetchBatches endRecptr maxApplySize fuel next).map fun r => r.map (undolist ++ ·)

end Walk

structure WalkComplete (l : LevelUndo) (L : List LoggedRecord) : Prop where
  newestFirst : L.Pairwise fun newer older => older.urp.Before newer.urp
  all : ∀ p ∈ l.own, ∃ r ∈ L, r.urp = p
  only : ∀ r ∈ L, r.urp ∈ l.own ∨ r.urp ∈ l.undone
  last : ∃ r, L.getLast? = some r ∧ r.urp = l.firstUrp

def LoggedRecord.EndsBy (r : LoggedRecord) (p : UndoPtr) : Prop :=
  r.urp.logno < p.logno ∨ r.urp.logno = p.logno ∧ (getNextUndoptr r.urp r.size).offset ≤ p.offset

/-- The record begins behind a page header and reaches at most into the next page. -/
structure LoggedRecord.Steppable (r : LoggedRecord) : Prop where
  aligned : undoLogBlockHeaderSize ≤ r.urp.offset % blcksz
  short : r.size < blcksz - r.urp.offset % blcksz + undoLogUsableBytesPerPage

structure LoggedRecord.Valid (r : LoggedRecord) : Prop where
  aligned : undoLogBlockHeaderSize ≤ r.urp.offset % blcksz
  pos : 0 < r.size

/-- Records that follow one another in the log, newest first. -/
structure InOrder (recs : List LoggedRecord) : Prop where
  sorted : recs.Pairwise fun newer older => older.EndsBy newer.urp
  valid : ∀ r ∈ recs, r.Valid

theorem pairwise_mem {α : Type*} {R : α → α → Prop} {l : List α} (h : l.Pairwise R) {x y : α}
    (hx : x ∈ l) (hy : y ∈ l) : x = y ∨ R x y ∨ R y x := by
  induction h with
  | nil => cases hx
  | cons hall _ ih =>
    rcases mem_cons.mp hx with rfl | hx'
    · rcases mem_cons.mp hy with rfl | hy'
      · exact .inl rfl
      · exact .inr (.inl (hall y hy'))
    · rcases mem_cons.mp hy with rfl | hy'
      · exact .inr (.inr (hall x hx'))
      · exact ih hx' hy'

theorem find?_unique {α : Type*} {p : α → Bool} {l : List α} {b : α} (hb : b ∈ l) (hp : p b = true)
    (huniq : ∀ x ∈ l, p x = true → x = b) : l.find? p = some b := by
  cases hf : l.find? p with
  | none => exact absurd hp (by simpa using find?_eq_none.mp hf b hb)
  | some x => rw [huniq x (mem_of_find?_eq_some hf) (find?_some hf)]

section Order

variable {r q : LoggedRecord} {p : UndoPtr} {a b : UndoPtr}

theorem UndoPtr.Before.trans {a b c : UndoPtr} (h : a.Before b) (h' : b.Before c) : a.Before c := by
  unfold UndoPtr.Before at *
  omega

theorem UndoPtr.Before.not_before (h : a.Before b) : ¬b.Before a := by
  unfold UndoPtr.Before at *
  omega

theorem UndoPtr.Before.ne (h : a.Before b) : a ≠ b := by
  rintro rfl
  exact h.not_before h

theorem LoggedRecord.Valid.offset_lt (h : r.Valid) : r.urp.offset < (getNextUndoptr r.urp r.size).offset := by
  have haddr := undoPaging.addr_index h.aligned
  have hlt := undoPaging.addr_lt_of_lt (by have := h.pos; omega :
    undoPaging.index r.urp.offset < undoPaging.index r.urp.offset + r.size)
  rw [haddr, ← offsetPlusUsableBytes_eq h.aligned] at hlt
  exact hlt

theorem LoggedRecord.EndsBy.before (h : r.EndsBy p) (hv : r.Valid) : r.urp.Before p := by
  have hlt := hv.offset_lt
  unfold EndsBy UndoPtr.Before at *
  omega

theorem LoggedRecord.EndsBy.next (h : q.EndsBy r.urp) (hv : r.Valid) :
    q.EndsBy (getNextUndoptr r.urp r.size) := by
  have hlt := hv.offset_lt
  have hlog := getNextUndoptr_logno r.urp r.size
  unfold EndsBy at *
  omega

theorem LoggedRecord.Valid.ne_invalid (h : r.Valid) : r.urp ≠ .invalid := by
  intro heq
  have := h.aligned
  rw [heq] at this
  exact absurd this (by decide)

variable {recs : List LoggedRecord}

variable (h : InOrder recs)

include h

theorem InOrder.eq_of_urp_eq (hr : r ∈ recs) (hq : q ∈ recs) (heq : r.urp = q.urp) :
    r = q := by
  rcases pairwise_mem h.sorted hr hq with rfl | hrq | hqr
  · rfl
  · exact absurd heq (hrq.before (h.valid q hq)).ne.symm
  · exact absurd heq (hqr.before (h.valid r hr)).ne

theorem InOrder.eq_of_next_eq (hr : r ∈ recs) (hq : q ∈ recs)
    (heq : getNextUndoptr r.urp r.size = getNextUndoptr q.urp q.size) : r = q := by
  have hlog : (getNextUndoptr r.urp r.size).logno = (getNextUndoptr q.urp q.size).logno := by rw [heq]
  rw [getNextUndoptr_logno, getNextUndoptr_logno] at hlog
  have hoff := congrArg UndoPtr.offset heq
  have hrlt := (h.valid r hr).offset_lt
  have hqlt := (h.valid q hq).offset_lt
  rcases pairwise_mem h.sorted hr hq with rfl | hrq | hqr
  · rfl
  · unfold LoggedRecord.EndsBy at hrq
    omega
  · unfold LoggedRecord.EndsBy at hqr
    omega

theorem InOrder.loadRecord_eq (hr : r ∈ recs) : loadRecord recs r.urp = some r :=
  find?_unique hr (by simp) fun x hx hp => h.eq_of_urp_eq hx hr (by simpa using hp)

theorem InOrder.lengthBefore_eq (hr : r ∈ recs) :
    lengthBefore recs (getNextUndoptr r.urp r.size) = some r.size := by
  rw [lengthBefore, find?_unique hr (by simp) fun x hx hp => h.eq_of_next_eq hx hr (by simpa using hp)]
  rfl

end Order

/-- From one record the walk goes on to another: by the pointer it stores, or to the one before it in
the log. -/
structure Link (a b : LoggedRecord) : Prop where
  before : b.urp.Before a.urp
  how : a.txnprevurp = b.urp ∨
    a.txnprevurp = .invalid ∧ a.urp = getNextUndoptr b.urp b.size ∧ b.Steppable

theorem preurp_of_link {recs : List LoggedRecord} (h : InOrder recs) {a b : LoggedRecord} (hb : b ∈ recs)
    (hl : Link a b) : preurp recs a = .ok b.urp := by
  have hne := (h.valid b hb).ne_invalid
  unfold preurp
  rcases hl.how with heq | ⟨hnone, hnext, hstep⟩
  · rw [heq, if_pos hne]
  · have hsize : b.size + undoLogBlockHeaderSize < 2 ^ 16 := by
      have := hstep.short
      unfold blcksz undoLogUsableBytesPerPage undoLogBlockHeaderSize blcksz at *
      omega
    have hdist : distanceBack a.urp.offset b.size = .ok (if (undoPaging.index b.urp.offset + b.size) %
        undoPaging.usable < b.size then b.size + undoLogBlockHeaderSize else b.size) := by
      rw [hnext, getNextUndoptr, offsetPlusUsableBytes_eq hstep.aligned]
      exact distanceBack_addr (h.valid b hb).pos hsize
    have hback := (next_sub_distance_iff hstep.aligned).mpr hstep.short
    rw [if_neg (not_not.mpr hnone), hnext, h.lengthBefore_eq hb, ← hnext]
    dsimp only
    rw [hdist]
    have hlog : a.urp.logno = b.urp.logno := by rw [hnext, getNextUndoptr_logno]
    have hoff : a.urp.offset = offsetPlusUsableBytes b.urp.offset b.size := by rw [hnext]; rfl
    rw [Except.map, hlog, hoff, hback]

section Fetch

variable {recs : List LoggedRecord} (maxApplySize : Nat) {a f : LoggedRecord} {L : List LoggedRecord}
  {fuel : Nat}

theorem path_newestFirst (hp : Path Link a L f) :
    L.Pairwise fun newer older => older.urp.Before newer.urp :=
  hp.pairwise (S := fun newer older => older.urp.Before newer.urp) (fun h h' => h'.trans h)
    fun h => h.before

/-- All records of a path are at its last one or behind it. -/
theorem Path.not_before_last (hp : Path Link a L f) {r : LoggedRecord} (hr : r ∈ L) :
    ¬r.urp.Before f.urp := by
  induction hp with
  | refl a =>
    rw [mem_singleton.mp hr]
    exact fun h => h.ne rfl
  | @step a b f L hlink hp ih =>
    rcases mem_cons.mp hr with rfl | hr
    · have hpair := pairwise_cons.mp (path_newestFirst (.step hlink hp))
      exact (hpair.1 f hp.mem_last).not_before
    · exact ih hr

/-- A batch is the beginning of the path, and the next one starts where it ends. -/
theorem bulkFetchUndoForRange_path (h : InOrder recs) (hp : Path Link a L f) (hL : ∀ r ∈ L, r ∈ recs)
    (hfuel : L.length ≤ fuel) (usedSize : Nat) (undolist : List LoggedRecord) :
    ∃ B M next, bulkFetchUndoForRange recs f.urp maxApplySize fuel a.urp usedSize undolist =
        some (.ok (undolist ++ B, next)) ∧ L = B ++ M ∧ B ≠ [] ∧
      (M = [] ∧ next = .invalid ∨ ∃ b, Path Link b M f ∧ next = b.urp) := by
  induction hp generalizing fuel usedSize undolist with
  | refl a =>
    obtain ⟨fuel, rfl⟩ := Nat.exists_eq_add_of_le' hfuel
    refine ⟨[a], [], .invalid, ?_, rfl, by simp, .inl ⟨rfl, rfl⟩⟩
    have hload := h.loadRecord_eq (hL a (by simp))
    simp [bulkFetchUndoForRange, hload]
  | @step a b f L hlink hp ih =>
    obtain ⟨fuel, rfl⟩ := Nat.exists_eq_add_of_le' (Nat.le_trans (Nat.succ_le_succ (Nat.zero_le _)) hfuel)
    have hload := h.loadRecord_eq (hL a (by simp))
    have hb : b ∈ recs := hL b (mem_cons_of_mem _ hp.mem_first)
    have hpre := preurp_of_link h hb hlink
    have hne : a.urp ≠ f.urp := by
      have hpair := pairwise_cons.mp (path_newestFirst (.step hlink hp))
      exact (hpair.1 f hp.mem_last).ne.symm
    have hbne := (h.valid b hb).ne_invalid
    by_cases hmax : maxApplySize ≤ usedSize + a.unpackedSize
    · refine ⟨[a], L, b.urp, ?_, rfl, by simp, .inr ⟨b, hp, rfl⟩⟩
      simp [bulkFetchUndoForRange, hload, hne, hpre, hbne, hmax]
    · obtain ⟨B, M, next, hrun, hsplit, -, hnext⟩ :=
        ih (fun r hr => hL r (mem_cons_of_mem _ hr)) (by simpa using hfuel)
          (usedSize + a.unpackedSize) (undolist ++ [a])
      refine ⟨a :: B, M, next, ?_, by rw [hsplit, cons_append], by simp, hnext⟩
      simp only [bulkFetchUndoForRange, hload, if_neg hne, hpre, if_neg hbne, if_neg hmax]
      rw [hrun]
      simp

theorem fetchBatches_path (h : InOrder recs) (hp : Path Link a L f) (hL : ∀ r ∈ L, r ∈ recs)
    (hfuel : L.length < fuel) : fetchBatches recs f.urp maxApplySize fuel a.urp = some (.ok L) := by
  induction fuel generalizing a L with
  | zero => exact absurd hfuel (Nat.not_lt_zero _)
  | succ fuel ih =>
    have hne := (h.valid a (hL a hp.mem_first)).ne_invalid
    obtain ⟨B, M, next, hrun, hsplit, hB, hnext⟩ :=
      bulkFetchUndoForRange_path maxApplySize h hp hL (Nat.le_of_lt hfuel) 0 []
    have hlen : M.length < fuel := by
      have := length_pos_iff.mpr hB
      rw [hsplit, length_append] at hfuel
      omega
    rw [nil_append] at hrun
    simp only [fetchBatches, if_neg hne, hrun, if_neg hB]
    rcases hnext with ⟨rfl, rfl⟩ | ⟨b, hpb, rfl⟩
    · obtain ⟨fuel, rfl⟩ := Nat.exists_eq_add_of_le' (Nat.lt_of_le_of_lt (Nat.zero_le _) hlen)
      rw [hsplit]
      simp [fetchBatches, Except.map]
    · rw [ih hpb (fun r hr => hL r (by rw [hsplit]; exact mem_append_right _ hr)) hlen, hsplit]
      rfl

end Fetch

end XStore
