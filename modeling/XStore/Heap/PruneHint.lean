import XStore.Heap.MultiInsert
import XStore.Heap.PruneScan

/-!
# The prune hint of a page

`pd_prune_xid` is the oldest transaction whose deletes may soon leave rows to free.  Pruning collects a new
hint while it scans the page and writes it back in two places.  Rows whose delete has committed but is not
yet old enough are not collected, and the hint can be written without a scan.
-/
namespace XStore

open List

def xheapPageFull : Flag := 0x0002#16

namespace XPage

/-- `XPageIsFull` -/
def isFull (p : XPage) : Bool := p.pdFlags.has xheapPageFull

/-- `XPageClearFull` -/
def clearFull (p : XPage) : XPage := { p with pdFlags := p.pdFlags &&& ~~~xheapPageFull }

/-- `RowPtrSetUnused` on a row of the page -/
def freeRow (p : XPage) (off : Nat) : XPage := p.setRow off ⟨RowPtr.unused, (p.row off).tup⟩

/-- `RowPtrChangeLen` on a row of the page -/
def shortenRow (p : XPage) (f : Nat × Nat) : Except Panic XPage :=
  ((p.row f.1).rp.changeLen f.2).map fun rp => p.setRow f.1 ⟨rp, (p.row f.1).tup.cut f.2⟩

/-- `xheap_page_prune_execute`; moving the rows together afterwards leaves them as they are. -/
def pruneExecute (p : XPage) (prstate : XPruneState) : Except Panic XPage :=
  prstate.nowfixed.foldlM shortenRow (prstate.nowunused.foldl freeRow p)

/-- `XPageIsPrunable` -/
def isPrunable (isInProgress : Nat → Bool) (p : XPage) : Bool :=
  p.pdPruneXid ≠ invalidXid && !isInProgress p.pdPruneXid

/-- `XPageIsPrunableWithOldestXmin` -/
def isPrunableWithOldestXmin (oldestXmin : Nat) (p : XPage) : Bool :=
  p.pdPruneXid ≠ invalidXid && p.pdPruneXid < oldestXmin

end XPage

/-- Where `xheap_page_prune_guts` and `xheap_page_prune` differ. -/
structure PruneCall where
  scans : Bool
  force : Bool
  isTarget : Nat → Bool
  spaceRequired : Nat
  spaceFreed : Nat

section Call

variable (env : PruneEnv) (load : Nat → UndoLoad HeapUndo) (desc : TupleDesc) (oldestXmin : Nat)
  (p : XPage)

namespace PruneCall

variable (call : PruneCall)

/-- The scan, from the state in which nothing is recorded. -/
def scan : Except Panic PruneScan :=
  let s : PruneScan := ⟨⟨[], []⟩, invalidXid, invalidXid, 0, 0, call.spaceFreed⟩
  if call.scans then pruneScan env load desc oldestXmin call.isTarget p s else .ok s

/-- `execute_pruning` -/
def executes (s : PruneScan) : Bool :=
  s.prstate.nowunused ≠ [] || call.force || s.prstate.nowfixed ≠ []

def apply (s : PruneScan) : Except Panic XPage :=
  if s.spaceFreed < call.spaceRequired then .ok p
  else if call.executes s then
    (p.pruneExecute s.prstate).map fun p => { p with pdPruneXid := s.newPruneXid }.clearFull
  else if p.pdPruneXid = s.newPruneXid ∨ p.isFull then
    .ok { p with pdPruneXid := s.newPruneXid }.clearFull
  else .ok p

def run : Except Panic XPage := (call.scan env load desc oldestXmin p).bind (call.apply p)

end PruneCall

def gutsCall (targetOffNum spaceRequired : Nat) (forcePrune : Bool) : PruneCall where
  scans := !(forcePrune && !p.isPrunable env.isInProgress)
  force := forcePrune
  isTarget := (· == targetOffNum)
  spaceRequired := spaceRequired
  spaceFreed := p.exactFreeSpace

def pageCall : PruneCall where
  scans := p.isPrunableWithOldestXmin oldestXmin
  force := false
  isTarget := fun _ => true
  spaceRequired := 0
  spaceFreed := 0

def XPage.xheapPagePruneGuts (targetOffNum spaceRequired : Nat) (forcePrune : Bool) : Except Panic XPage :=
  (gutsCall env p targetOffNum spaceRequired forcePrune).run env load desc oldestXmin p

def XPage.xheapPagePrune : Except Panic XPage := (pageCall oldestXmin p).run env load desc oldestXmin p

/-- The row was deleted, or left by an update, by a running or committed transaction that is not yet old
enough. -/
structure Waiting (r : Row) : Prop where
  used : r.rp.isUsed = true
  deleted : r.tup.isDeleted = true
  xact : env.isInProgress r.tup.modifiedXid = true ∨ env.didCommit r.tup.modifiedXid = true
  recent : olderThanAllUndo env.globalFrozenXid r.tup.modifiedXid = false ∧ oldestXmin ≤ r.tup.modifiedXid

/-- The page is considered again in time for every row that waits. -/
def HintComplete : Prop :=
  ∀ off, 1 ≤ off → Waiting env oldestXmin (p.row off) →
    p.pdPruneXid ≠ invalidXid ∧ p.pdPruneXid ≤ (p.row off).tup.modifiedXid

/-- `XHEAPTUPLE_DELETE_IN_PROGRESS` -/
def BeingDeleted (r : Row) : Prop :=
  r.rp.isUsed = true ∧ (xheapTupleSatisfiesOldestXmin env load oldestXmin r.tup).result = .deleteInProgress

/-- Every row that waits is still being deleted, or another row is by a transaction not newer. -/
def RecentCovered : Prop :=
  ∀ off, 1 ≤ off → Waiting env oldestXmin (p.row off) → ∃ off', 1 ≤ off' ∧
    BeingDeleted env load oldestXmin (p.row off') ∧
      (p.row off').tup.modifiedXid ≤ (p.row off).tup.modifiedXid

def PruneCall.RewritesHint (call : PruneCall) : Prop :=
  ∃ s, call.scan env load desc oldestXmin p = .ok s ∧ call.spaceRequired ≤ s.spaceFreed ∧
    (call.executes s = true ∨ p.isFull = true)

/-- What has to hold of the page so that the call keeps the hint complete. -/
def PruneCall.KeepsHint (call : PruneCall) : Prop :=
  call.RewritesHint env load desc oldestXmin p →
    if call.scans then RecentCovered env load oldestXmin p
    else ∀ off, 1 ≤ off → ¬ Waiting env oldestXmin (p.row off)

end Call

section Check

variable {env : PruneEnv} {load : Nat → UndoLoad HeapUndo} {oldestXmin : Nat} {r r' : Row}

theorem BeingDeleted.xid (h : BeingDeleted env load oldestXmin r) :
    (xheapTupleSatisfiesOldestXmin env load oldestXmin r.tup).xid = r.tup.modifiedXid ∧
      env.isInProgress r.tup.modifiedXid = true := by
  have h := h.2
  revert h
  unfold xheapTupleSatisfiesOldestXmin
  dsimp only
  repeat' split
  all_goals simp_all

theorem Waiting.not_dead (h : Waiting env oldestXmin r) :
    (xheapTupleSatisfiesOldestXmin env load oldestXmin r.tup).result ≠ .dead := by
  have hlt := not_lt.mpr h.recent.2
  have hold := h.recent.1
  have hdel := h.deleted
  unfold xheapTupleSatisfiesOldestXmin
  dsimp only
  repeat' split
  all_goals simp_all

/-- The row pointers agree in being used, and the rows in what the check reads of them. -/
structure SameHead (r r' : Row) : Prop where
  used : r'.rp.isUsed = r.rp.isUsed
  flag : r'.tup.flag = r.tup.flag
  xid : r'.tup.modifiedXid = r.tup.modifiedXid

theorem SameHead.waiting (h : SameHead r r') : Waiting env oldestXmin r' ↔ Waiting env oldestXmin r := by
  have hdel : r'.tup.isDeleted = r.tup.isDeleted := by
    rw [XHeapDiskTuple.isDeleted, h.flag, XHeapDiskTuple.isDeleted]
  constructor
  · intro hw
    exact ⟨h.used ▸ hw.used, hdel ▸ hw.deleted, h.xid ▸ hw.xact, h.xid ▸ hw.recent⟩
  · intro hw
    exact ⟨h.used ▸ hw.used, hdel ▸ hw.deleted, h.xid ▸ hw.xact, h.xid ▸ hw.recent⟩

end Check

section Collect

variable {env : PruneEnv} {load : Nat → UndoLoad HeapUndo} {desc : TupleDesc} {oldestXmin : Nat} {p p' : XPage}
  {s s' : PruneScan} {off : Nat} {offs : List Nat} {call : PruneCall}

/-- What the state of the scan says about the offsets it has passed. -/
structure PruneScan.Noted (env : PruneEnv) (load : Nat → UndoLoad HeapUndo) (oldestXmin : Nat) (p : XPage)
    (offs : List Nat) (s : PruneScan) : Prop where
  unused : ∀ off ∈ s.prstate.nowunused, off ∈ offs ∧
    (xheapTupleSatisfiesOldestXmin env load oldestXmin (p.row off).tup).result = .dead
  fixed : ∀ f ∈ s.prstate.nowfixed, f.1 ∈ offs
  noted : ∀ off ∈ offs, BeingDeleted env load oldestXmin (p.row off) →
    s.newPruneXid ≠ invalidXid ∧ s.newPruneXid ≤ (p.row off).tup.modifiedXid
  source : s.newPruneXid = invalidXid ∨ ∃ off ∈ offs, BeingDeleted env load oldestXmin (p.row off) ∧
    (p.row off).tup.modifiedXid = s.newPruneXid

theorem PruneScan.Noted.start (spaceFreed : Nat) : PruneScan.Noted env load oldestXmin p []
    ⟨⟨[], []⟩, invalidXid, invalidXid, 0, 0, spaceFreed⟩ := ⟨by simp, by simp, by simp, .inl rfl⟩

theorem PruneScan.count_newPruneXid (t : XHeapDiskTuple) (c : OldestXminCheck) :
    (s.count t c).newPruneXid =
      if c.result = .deleteInProgress then (s.recordPrunable c.xid).newPruneXid else s.newPruneXid := by
  unfold count recordPrunable
  cases c.result
  all_goals simp only [reduceCtorEq, if_false, if_true]
  all_goals split_ifs
  all_goals rfl

theorem xheapPruneItem_spec {isTarget : Bool}
    (h : xheapPruneItem env load desc oldestXmin isTarget off (p.row off) s = .ok s') :
    let c := xheapTupleSatisfiesOldestXmin env load oldestXmin (p.row off).tup
    s'.newPruneXid = (s.count (p.row off).tup c).newPruneXid ∧
      (∀ o ∈ s'.prstate.nowunused, o ∈ s.prstate.nowunused ∨ o = off ∧ c.result = .dead) ∧
      ∀ f ∈ s'.prstate.nowfixed, f ∈ s.prstate.nowfixed ∨ f.1 = off := by
  intro c
  simp only [xheapPruneItem] at h
  have hfix : ∀ s₁, s₁ = (if c.inplaceUpdated && !isTarget then
      (s.count (p.row off).tup c).fixLength desc off (p.row off) else s.count (p.row off).tup c) →
      s₁.newPruneXid = (s.count (p.row off).tup c).newPruneXid ∧
        s₁.prstate.nowunused = s.prstate.nowunused ∧
        ∀ f ∈ s₁.prstate.nowfixed, f ∈ s.prstate.nowfixed ∨ f.1 = off := by
    rintro s₁ rfl
    unfold PruneScan.fixLength
    dsimp only
    split_ifs
    · refine ⟨rfl, by rw [PruneScan.count_prstate], fun f hf => ?_⟩
      rcases mem_append.mp hf with hf | hf
      · rw [PruneScan.count_prstate] at hf
        exact .inl hf
      · exact .inr (congrArg Prod.fst (mem_singleton.mp hf))
    all_goals
      rw [PruneScan.count_prstate]
      exact ⟨rfl, rfl, fun f hf => .inl hf⟩
  obtain ⟨hnew, hunused, hfixed⟩ := hfix _ rfl
  split at h
  case isFalse =>
    cases h
    exact ⟨hnew, fun o ho => .inl (hunused ▸ ho), hfixed⟩
  case isTrue hdead =>
    unfold PruneScan.removeRow at h
    split at h
    · cases h
    · cases h
      refine ⟨hnew, fun o ho => ?_, hfixed⟩
      rcases mem_append.mp ho with ho | ho
      · exact .inl (hunused ▸ ho)
      · exact .inr ⟨mem_singleton.mp ho, hdead⟩

theorem PruneScan.recordPrunable_le {xid : Nat} (hxid : xid ≠ invalidXid) :
    (s.recordPrunable xid).newPruneXid ≠ invalidXid ∧ (s.recordPrunable xid).newPruneXid ≤ xid ∧
      (s.newPruneXid ≠ invalidXid → (s.recordPrunable xid).newPruneXid ≤ s.newPruneXid) ∧
      ((s.recordPrunable xid).newPruneXid = s.newPruneXid ∨ (s.recordPrunable xid).newPruneXid = xid) := by
  unfold recordPrunable
  split_ifs with h
  · exact ⟨hxid, le_rfl, fun hne => (h.resolve_left hne).le, .inr rfl⟩
  · obtain ⟨hne, hle⟩ := not_or.mp h
    exact ⟨hne, not_lt.mp hle, fun _ => le_rfl, .inl rfl⟩

section

variable (h : s.Noted env load oldestXmin p offs)

include h

theorem PruneScan.Noted.item {isTarget : Bool}
    (hzero : env.isInProgress invalidXid = false) (hused : (p.row off).rp.isUsed = true)
    (hrun : xheapPruneItem env load desc oldestXmin isTarget off (p.row off) s = .ok s') :
    s'.Noted env load oldestXmin p (offs ++ [off]) := by
  obtain ⟨hnew, hunused, hfixed⟩ := xheapPruneItem_spec hrun
  rw [count_newPruneXid] at hnew
  refine ⟨fun o ho => ?_, fun f hf => ?_, fun o ho hdel => ?_, ?_⟩
  · rcases hunused o ho with ho | ⟨rfl, hdead⟩
    · exact ⟨mem_append_left _ (h.unused o ho).1, (h.unused o ho).2⟩
    · exact ⟨by simp, hdead⟩
  · rcases hfixed f hf with hf | hf
    · exact mem_append_left _ (h.fixed f hf)
    · simp [hf]
  all_goals by_cases hnow : BeingDeleted env load oldestXmin (p.row off)
  · have hxid : (p.row off).tup.modifiedXid ≠ invalidXid := fun heq => by
      have := hnow.xid.2
      rw [heq, hzero] at this
      cases this
    rw [if_pos hnow.2, hnow.xid.1] at hnew
    obtain ⟨hne, hle, hprev, -⟩ := recordPrunable_le (s := s) hxid
    rw [hnew]
    rcases mem_append.mp ho with ho | ho
    · exact ⟨hne, (hprev (h.noted o ho hdel).1).trans (h.noted o ho hdel).2⟩
    · rw [mem_singleton.mp ho]
      exact ⟨hne, hle⟩
  · rw [if_neg fun hres => hnow ⟨hused, hres⟩] at hnew
    rw [hnew]
    rcases mem_append.mp ho with ho | ho
    · exact h.noted o ho hdel
    · exact absurd (mem_singleton.mp ho ▸ hdel) hnow
  · have hxid : (p.row off).tup.modifiedXid ≠ invalidXid := fun heq => by
      have := hnow.xid.2
      rw [heq, hzero] at this
      cases this
    rw [if_pos hnow.2, hnow.xid.1] at hnew
    rw [hnew]
    rcases (recordPrunable_le (s := s) hxid).2.2.2 with heq | heq
    · rw [heq]
      exact h.source.imp_right fun ⟨o, ho, hdel⟩ => ⟨o, mem_append_left _ ho, hdel⟩
    · exact .inr ⟨off, by simp, hnow, heq.symm⟩
  · rw [if_neg fun hres => hnow ⟨hused, hres⟩] at hnew
    rw [hnew]
    exact h.source.imp_right fun ⟨o, ho, hdel⟩ => ⟨o, mem_append_left _ ho, hdel⟩

theorem PruneScan.Noted.skip (hused : (p.row off).rp.isUsed = false) :
    s.Noted env load oldestXmin p (offs ++ [off]) where
  unused := fun o ho => ⟨mem_append_left _ (h.unused o ho).1, (h.unused o ho).2⟩
  fixed := fun f hf => mem_append_left _ (h.fixed f hf)
  noted := fun o ho hdel => by
    rcases mem_append.mp ho with ho | ho
    · exact h.noted o ho hdel
    · have hdel := hdel.1
      rw [mem_singleton.mp ho, hused] at hdel
      cases hdel
  source := h.source.imp_right fun ⟨o, ho, hdel⟩ => ⟨o, mem_append_left _ ho, hdel⟩

theorem PruneScan.Noted.items {isTarget : Nat → Bool} {rest : List Nat}
    (hzero : env.isInProgress invalidXid = false)
    (hrun : rest.foldlM (fun s off =>
      if (p.row off).rp.isUsed then
        xheapPruneItem env load desc oldestXmin (isTarget off) off (p.row off) s
      else .ok s) s = .ok s') : s'.Noted env load oldestXmin p (offs ++ rest) := by
  induction rest generalizing s offs with
  | nil =>
    cases hrun
    rwa [append_nil]
  | cons off rest ih =>
    rw [foldlM_cons] at hrun
    obtain ⟨s₁, hitem, hrest⟩ := bind_ok hrun
    rw [append_cons]
    refine ih ?_ hrest
    split at hitem
    case isTrue hused => exact h.item hzero hused hitem
    case isFalse hused =>
      cases hitem
      exact h.skip (Bool.eq_false_iff.mpr hused)

end

theorem freeRows_row {dead : List Nat} (hdead : ∀ o ∈ dead, 1 ≤ o) (hoff : 1 ≤ off) :
    (off ∉ dead → SameHead (p.row off) ((dead.foldl XPage.freeRow p).row off)) ∧
      (((dead.foldl XPage.freeRow p).row off).rp.isUsed = true →
        SameHead (p.row off) ((dead.foldl XPage.freeRow p).row off)) := by
  induction dead generalizing p with
  | nil => exact ⟨fun _ => ⟨rfl, rfl, rfl⟩, fun _ => ⟨rfl, rfl, rfl⟩⟩
  | cons o dead ih =>
    obtain ⟨ho, hdead⟩ := forall_mem_cons.mp hdead
    rw [foldl_cons]
    obtain ⟨hkept, hstill⟩ := @ih (p.freeRow o) hdead
    by_cases heq : off = o
    · subst heq
      refine ⟨fun hno => absurd mem_cons_self hno, fun hused => ?_⟩
      -- the row that was freed is not used again
      have := (hstill hused).used
      rw [hused] at this
      by_cases hle : off ≤ p.rows.length
      · rw [XPage.freeRow, XPage.row_setRow_self _ _ _ hoff hle] at this
        cases this
      · rw [XPage.row_of_length_lt _ _ (by simp [XPage.freeRow]; omega)] at this
        cases this
    · rw [XPage.freeRow, XPage.row_setRow_of_ne _ _ _ _ ho hoff heq] at hkept hstill
      exact ⟨fun hno => hkept fun hmem => hno (mem_cons_of_mem _ hmem), hstill⟩

theorem shortenRows_row {fixed : List (Nat × Nat)} (hfixed : ∀ f ∈ fixed, 1 ≤ f.1) (hoff : 1 ≤ off)
    (h : fixed.foldlM XPage.shortenRow p = .ok p') : SameHead (p.row off) (p'.row off) := by
  induction fixed generalizing p with
  | nil =>
    cases h
    exact ⟨rfl, rfl, rfl⟩
  | cons f fixed ih =>
    obtain ⟨hf, hfixed⟩ := forall_mem_cons.mp hfixed
    rw [foldlM_cons] at h
    obtain ⟨q, hq, hrest⟩ := bind_ok h
    obtain ⟨rp, hrp, rfl⟩ := map_ok hq
    have hnext := ih hfixed hrest
    obtain rfl := (RowPtr.changeLen_ok hrp).2
    by_cases heq : off = f.1
    · subst heq
      by_cases hle : f.1 ≤ p.rows.length
      · rw [XPage.row_setRow_self _ _ _ hoff hle] at hnext
        exact ⟨hnext.used, hnext.flag, hnext.xid⟩
      · rw [XPage.row_of_length_lt _ _ (by rw [XPage.setRow_rows_length]; omega)] at hnext
        rwa [XPage.row_of_length_lt _ _ (by omega)]
    · rwa [XPage.row_setRow_of_ne _ _ _ _ hf hoff heq] at hnext

variable (hzero : env.isInProgress invalidXid = false)

include hzero

/-- The collected hint is complete exactly when another row covers those that wait. -/
theorem collected_complete_iff
    (hscan : call.scan env load desc oldestXmin p = .ok s) :
    (∀ off, 1 ≤ off → Waiting env oldestXmin (p.row off) →
      s.newPruneXid ≠ invalidXid ∧ s.newPruneXid ≤ (p.row off).tup.modifiedXid) ↔
      if call.scans then RecentCovered env load oldestXmin p
      else ∀ off, 1 ≤ off → ¬ Waiting env oldestXmin (p.row off) := by
  rw [PruneCall.scan] at hscan
  split_ifs at hscan ⊢ with hscans
  · have hnoted := (PruneScan.Noted.start call.spaceFreed).items hzero hscan
    rw [nil_append] at hnoted
    constructor
    · intro h off hoff hw
      obtain ⟨hne, hle⟩ := h off hoff hw
      obtain ⟨off', hin, hdel, heq⟩ := hnoted.source.resolve_left hne
      exact ⟨off', (mem_range'_1.mp hin).1, hdel, heq ▸ hle⟩
    · intro h off hoff hw
      obtain ⟨off', hoff', hdel, hle⟩ := h off hoff hw
      have hin : off' ∈ List.range' firstOffsetNumber p.maxOffset := by
        refine mem_range'_1.mpr ⟨hoff', ?_⟩
        by_contra hlt
        have hused := hdel.1
        rw [p.row_of_length_lt off' (by unfold XPage.maxOffset firstOffsetNumber at hlt; omega)] at hused
        cases hused
      obtain ⟨hne, hle'⟩ := hnoted.noted off' hin hdel
      exact ⟨hne, hle'.trans hle⟩
  · cases hscan
    exact ⟨fun h off hoff hw => (h off hoff hw).1 rfl, fun h off hoff hw => absurd hw (h off hoff)⟩

theorem waiting_pruneExecute
    (hscan : call.scan env load desc oldestXmin p = .ok s) (hexec : p.pruneExecute s.prstate = .ok p')
    (hoff : 1 ≤ off) :
    (Waiting env oldestXmin (p'.row off) ↔ Waiting env oldestXmin (p.row off)) ∧
      (Waiting env oldestXmin (p.row off) → (p'.row off).tup.modifiedXid = (p.row off).tup.modifiedXid) := by
  obtain ⟨offs, hpos, hnoted⟩ : ∃ offs : List Nat, (∀ o ∈ offs, 1 ≤ o) ∧ s.Noted env load oldestXmin p offs := by
    rw [PruneCall.scan] at hscan
    split_ifs at hscan
    · exact ⟨_, fun o ho => (mem_range'_1.mp ho).1,
        (PruneScan.Noted.start call.spaceFreed).items hzero hscan⟩
    · cases hscan
      exact ⟨[], by simp, PruneScan.Noted.start call.spaceFreed⟩
  have hfree := freeRows_row (p := p) (fun o ho => hpos o (hnoted.unused o ho).1) hoff
  have hfix := shortenRows_row (fun f hf => hpos _ (hnoted.fixed f hf)) hoff hexec
  have hkept : Waiting env oldestXmin (p.row off) → SameHead (p.row off) _ := fun hw =>
    hfree.1 fun hdead => hw.not_dead (hnoted.unused off hdead).2
  refine ⟨⟨fun hw => ?_, fun hw => ?_⟩, fun hw => hfix.xid.trans (hkept hw).xid⟩
  · have hw := hfix.waiting.mp hw
    exact (hfree.2 hw.used).waiting.mp hw
  · exact hfix.waiting.mpr ((hkept hw).waiting.mpr hw)

theorem PruneCall.hintComplete_iff
    (h : HintComplete env oldestXmin p) (hrun : call.run env load desc oldestXmin p = .ok p') :
    HintComplete env oldestXmin p' ↔ call.KeepsHint env load desc oldestXmin p := by
  obtain ⟨s, hscan, happly⟩ := bind_ok hrun
  have hcollected := collected_complete_iff hzero hscan
  -- either the hint stays, or it becomes the collected one over the same rows that wait
  have hstays (hno : ¬ (call.spaceRequired ≤ s.spaceFreed ∧ (call.executes s = true ∨ p.isFull = true)))
      (hcomplete : HintComplete env oldestXmin p') : HintComplete env oldestXmin p' ↔
      call.KeepsHint env load desc oldestXmin p := by
    refine ⟨fun _ ⟨s', hs', hrw⟩ => ?_, fun _ => hcomplete⟩
    rw [hscan] at hs'
    cases hs'
    exact absurd hrw hno
  have hwrites (hrw : call.spaceRequired ≤ s.spaceFreed ∧ (call.executes s = true ∨ p.isFull = true))
      (hsame : HintComplete env oldestXmin p' ↔ ∀ off, 1 ≤ off → Waiting env oldestXmin (p.row off) →
        s.newPruneXid ≠ invalidXid ∧ s.newPruneXid ≤ (p.row off).tup.modifiedXid) :
      HintComplete env oldestXmin p' ↔ call.KeepsHint env load desc oldestXmin p := by
    rw [hsame, hcollected]
    exact ⟨fun hcov _ => hcov, fun hkeeps => hkeeps ⟨s, hscan, hrw⟩⟩
  rw [PruneCall.apply] at happly
  split_ifs at happly with hspace hexec hwrite
  · cases happly
    exact hstays (fun hrw => absurd hspace (not_lt.mpr hrw.1)) h
  · obtain ⟨q, hq, rfl⟩ := map_ok happly
    refine hwrites ⟨not_lt.mp hspace, .inl hexec⟩ ⟨fun hc off hoff hw => ?_, fun hc off hoff hw => ?_⟩
    · obtain ⟨hiff, hxid⟩ := waiting_pruneExecute hzero hscan hq hoff
      rw [← hxid hw]
      exact hc off hoff (hiff.mpr hw)
    · obtain ⟨hiff, hxid⟩ := waiting_pruneExecute hzero hscan hq hoff
      have hold := hiff.mp hw
      exact (hxid hold).symm ▸ hc off hoff hold
  · cases happly
    by_cases hfull : p.isFull = true
    · exact hwrites ⟨not_lt.mp hspace, .inr hfull⟩ Iff.rfl
    · refine hstays (fun hrw => hrw.2.elim hexec hfull) ?_
      rw [HintComplete, ← hwrite.resolve_right hfull]
      exact h
  · cases happly
    exact hstays (fun hrw => hrw.2.elim hexec fun hfull => hwrite (.inr hfull)) h

end Collect

/-- A call of either kind leaves the hint complete exactly when it does not write it, or every row that waits
is covered by a row that is still being deleted, or without a scan no row waits. -/
theorem prune_hint_complete_iff (env : PruneEnv) (load : Nat → UndoLoad HeapUndo) (desc : TupleDesc)
    (oldestXmin : Nat) (p : XPage) (hzero : env.isInProgress invalidXid = false)
    (h : HintComplete env oldestXmin p) :
    (∀ targetOffNum spaceRequired forcePrune p',
      p.xheapPagePruneGuts env load desc oldestXmin targetOffNum spaceRequired forcePrune = .ok p' →
      (HintComplete env oldestXmin p' ↔
        (gutsCall env p targetOffNum spaceRequired forcePrune).KeepsHint env load desc oldestXmin p)) ∧
    ∀ p', p.xheapPagePrune env load desc oldestXmin = .ok p' →
      (HintComplete env oldestXmin p' ↔ (pageCall oldestXmin p).KeepsHint env load desc oldestXmin p) :=
  ⟨fun _ _ _ _ hrun => PruneCall.hintComplete_iff hzero h hrun,
    fun _ hrun => PruneCall.hintComplete_iff hzero h hrun⟩

def twoDeleted : XPage where
  pdFlags := 0#16
  pdUpper := 8124
  pdSpecial := 8192
  pdPruneXid := 4
  potentialFreespace := 0
  rows :=
    [⟨⟨8158, .normal, 34⟩, ⟨4, 0, 1, xheapDeleted, 1#16, 29, [11, 97, 98, 99, 100]⟩⟩,
      ⟨⟨8124, .normal, 34⟩, ⟨10, 0, 2, xheapDeleted, 1#16, 29, [11, 97, 98, 99, 100]⟩⟩]

theorem twoDeleted_hintComplete (oldestXmin : Nat) : HintComplete pruneAfterTen oldestXmin twoDeleted := by
  intro off hoff hw
  have hall : ∀ r ∈ twoDeleted.rows, r.rp.isUsed = true → 4 ≤ r.tup.modifiedXid := by decide
  exact ⟨by decide, XPage.forall_row (P := fun r => r.rp.isUsed = true → 4 ≤ r.tup.modifiedXid) hall
    (by decide) hoff hw.used⟩

/-- Nothing is old enough, and the hint stays. -/
theorem twoDeleted_hint_kept : ∃ p', twoDeleted.xheapPagePruneGuts pruneAfterTen (fun _ => .invalid)
    (textColumns 1) 4 0 0 false = .ok p' ∧ HintComplete pruneAfterTen 4 p' := by
  refine ⟨twoDeleted, rfl, ?_⟩
  refine ((prune_hint_complete_iff pruneAfterTen (fun _ => .invalid) (textColumns 1) 4 twoDeleted rfl
    (twoDeleted_hintComplete 4)).1 0 0 false twoDeleted rfl).mpr ?_
  rintro ⟨s, hs, -, hrw⟩
  cases hs
  exact absurd hrw (by decide)

/-- The first row is freed, the second still waits, and the page is no longer hinted. -/
theorem prune_loses_hint : HintComplete pruneAfterTen 5 twoDeleted ∧
    (∃ p', twoDeleted.xheapPagePruneGuts pruneAfterTen (fun _ => .invalid) (textColumns 1) 5 0 0 false = .ok p' ∧
      ¬ HintComplete pruneAfterTen 5 p') ∧
    ∃ p', twoDeleted.xheapPagePrune pruneAfterTen (fun _ => .invalid) (textColumns 1) 5 = .ok p' ∧
      ¬ HintComplete pruneAfterTen 5 p' := by
  have hwaits (p' : XPage) (hrow : p'.row 2 = twoDeleted.row 2) : Waiting pruneAfterTen 5 (p'.row 2) := by
    rw [hrow]
    exact ⟨by decide, by decide, by decide, by decide⟩
  refine ⟨twoDeleted_hintComplete 5, ⟨_, rfl, fun h => ?_⟩, _, rfl, fun h => ?_⟩
  · exact (h 2 (by decide) (hwaits _ rfl)).1 rfl
  · exact (h 2 (by decide) (hwaits _ rfl)).1 rfl

end XStore
