import XStore.Rollback.NextRequest
import Mathlib.Data.List.Basic
import Mathlib.Logic.Function.Basic

/-!
# The undo launcher and its workers

The launcher hands a rollback request to a worker through one place in shared memory and waits until
the worker has entered itself in the array `undo_workers`.  After ten seconds it starts a second worker,
and then it stops waiting.  A worker may get going at any time, fail or finish.
-/
namespace XStore

/-- `UndoRequestInfoData` -/
structure UndoRequestInfo where
  fullXid : Nat
  startRecptr : Nat
  endRecptr : Nat
  dbid : Nat
  slotPtr : Nat
  deriving DecidableEq

def UndoRequestInfo.key (r : UndoRequestInfo) : Nat × Nat := (r.fullXid, r.startRecptr)

def RollbackHashEntry.info (e : RollbackHashEntry) : UndoRequestInfo :=
  ⟨e.fullXid, e.startUrecPtr, e.endUrecPtr, e.dbid, e.txnSlotPtr⟩

/-- The entry that `register_rollback_req` makes. -/
def UndoRequestInfo.entry (r : UndoRequestInfo) : RollbackHashEntry :=
  ⟨r.fullXid, r.startRecptr, r.endRecptr, r.dbid, r.slotPtr, false, 0⟩

def rollbackDelay : Nat := 10

/-- An element of `undo_workers`; it is not in use while its id is zero. -/
structure UndoApplyWorker where
  pid : Option Nat
  xid : Nat
  startRecptr : Nat
  deriving DecidableEq

inductive Launcher where
  | idle
  /-- In `StartUndoWorkerByIdx`, after `starts` calls of `RegisterUndoWorker`. -/
  | waiting (idx : Nat) (request : UndoRequestInfo) (starts : Nat)
  deriving DecidableEq

/-- How far a worker has come in `undo_worker_main`. -/
inductive UndoWorkerPhase where
  | starting
  /-- The request has been read, the database is being opened. -/
  | connecting (r : UndoRequestInfo)
  | entered (r : UndoRequestInfo) (databaseExists : Bool)
  | executing (r : UndoRequestInfo)
  | executed (r : UndoRequestInfo)
  /-- There is no database or no request. -/
  | dropping (r : UndoRequestInfo)
  /-- Before `UndoWorkerFreeInfo`, with `curr_undowork`. -/
  | exiting (curr : Option UndoRequestInfo)
  /-- `UndoWorkerFreeInfo` has cleared the process id of the element, its transaction not yet. -/
  | freeing (idx : Nat) (curr : Option UndoRequestInfo)
  /-- The array has been cleaned up, the mark of the request not yet. -/
  | leaving (curr : Option UndoRequestInfo)
  deriving DecidableEq

structure UndoWorker where
  /-- The request that the launcher had picked when it started the worker. -/
  startedFor : UndoRequestInfo
  phase : UndoWorkerPhase
  deriving DecidableEq

structure WorkerSys where
  table : Nat × Nat → Option RollbackHashEntry
  databases : Nat → Bool
  /-- `rollback_request` -/
  mailbox : Option UndoRequestInfo
  /-- `undo_workers` -/
  slots : Nat → UndoApplyWorker
  launcher : Launcher
  workers : Nat → Option UndoWorker
  /-- The requests whose undo has been executed since they were registered. -/
  finished : Nat × Nat → Bool
  /-- The entries that were removed before that, although their database was there. -/
  lost : List RollbackHashEntry

inductive WorkerAct where
  | register (r : UndoRequestInfo)
  | dropDatabase (dbid : Nat)
  /-- The launcher finds the entry, but it is delayed. -/
  | delay (key : Nat × Nat)
  /-- The launcher finds the entry and begins to start a worker. -/
  | pick (key : Nat × Nat)
  /-- `RegisterUndoWorker` has started a process, -/
  | start (pid : Nat)
  /-- or could not register it, -/
  | startFails
  /-- or found that the postmaster is gone. -/
  | startError
  | seen
  | giveUp
  /-- The launcher ends and is started anew. -/
  | restart
  | read (pid : Nat)
  | enter (pid : Nat)
  | mark (pid : Nat)
  | succeed (pid : Nat)
  | fail (pid : Nat)
  | remove (pid : Nat)
  | die (pid : Nat)
  /-- `UndoWorkerFreeInfo` writes the element without a lock: first the process id, -/
  | free (pid : Nat)
  /-- then the transaction. -/
  | clear (pid : Nat)
  | leave (pid : Nat)

namespace WorkerSys

variable (n : Nat) (s : WorkerSys)

def findSlot (p : UndoApplyWorker → Bool) : Option Nat := (List.range n).find? fun i => p (s.slots i)

def setSlot (i : Nat) (w : UndoApplyWorker) : WorkerSys := { s with slots := Function.update s.slots i w }

def setPhase (pid : Nat) (w : UndoWorker) (phase : UndoWorkerPhase) : WorkerSys :=
  { s with workers := Function.update s.workers pid (some { w with phase := phase }) }

/-- `mark_rollback_progress`, and the same for `mark_rollback_fail`. -/
def markProgress (key : Nat × Nat) (inProgress : Bool) : WorkerSys :=
  let entry := (s.table key).map fun e => { e with inProgress := inProgress, retryDelay := rollbackDelay }
  { s with table := Function.update s.table key entry }

/-- `remove_rollback_entry` -/
def removeEntry (key : Nat × Nat) : WorkerSys :=
  { s with
    table := Function.update s.table key none
    lost := match s.table key with
      | some e => if s.finished key || !s.databases e.dbid then s.lost else e :: s.lost
      | none => s.lost }

/-- An element of the array is given back; the process id stays. -/
def clearXid (i : Nat) : WorkerSys := s.setSlot i { s.slots i with xid := 0, startRecptr := 0 }

/-- One step of the launcher, a worker or somebody else; none if it cannot be taken. -/
def step : WorkerAct → Option WorkerSys
  | .register r =>
    if r.fullXid = 0 then none
    else if (s.table r.key).isSome then some s
    else some { s with
      table := Function.update s.table r.key (some r.entry)
      finished := Function.update s.finished r.key false }
  | .dropDatabase dbid => some { s with databases := Function.update s.databases dbid false }
  | .delay key =>
    match s.launcher, s.table key with
    | .idle, some e =>
      if e.inProgress = false ∧ 0 < e.retryDelay then
        some { s with table := Function.update s.table key (some { e with retryDelay := e.retryDelay - 1 }) }
      else none
    | _, _ => none
  | .pick key =>
    match s.launcher, s.table key, s.findSlot n (·.xid = 0) with
    | .idle, some e, some idx =>
      if e.inProgress = false ∧ e.retryDelay = 0 ∧ s.findSlot n (·.xid = e.fullXid) = none then
        some { s.setSlot idx { s.slots idx with xid := e.fullXid, startRecptr := e.startUrecPtr } with
          mailbox := some e.info
          launcher := .waiting idx e.info 0 }
      else none
    | _, _, _ => none
  | .start pid =>
    match s.launcher, s.workers pid with
    | .waiting idx r starts, none =>
      if starts < 2 then
        some { s with
          workers := Function.update s.workers pid (some ⟨r, .starting⟩)
          launcher := .waiting idx r (starts + 1) }
      else none
    | _, _ => none
  | .startFails =>
    match s.launcher with
    | .waiting idx r starts =>
      if starts < 2 then some { s with launcher := .waiting idx r (starts + 1) } else none
    | .idle => none
  | .startError =>
    match s.launcher with
    | .waiting idx _ _ => some { s.clearXid idx with launcher := .idle }
    | .idle => none
  | .seen =>
    match s.launcher with
    | .waiting idx _ starts =>
      if 0 < starts ∧ ((s.slots idx).xid = 0 ∨ (s.slots idx).pid ≠ none) then
        some { s with launcher := .idle }
      else none
    | .idle => none
  | .giveUp =>
    match s.launcher with
    | .waiting idx _ starts =>
      if starts = 2 then some { s.clearXid idx with launcher := .idle } else none
    | .idle => none
  | .restart =>
    match s.findSlot n (·.pid = none) with
    | some i => some { s.clearXid i with launcher := .idle }
    | none => some { s with launcher := .idle }
  | .read pid => (s.workers pid).bind fun w =>
    match w.phase, s.mailbox with
    | .starting, some r => some (s.setPhase pid w (.connecting r))
    | _, _ => none
  | .enter pid => (s.workers pid).bind fun w =>
    match w.phase with
    | .connecting r =>
      let phase := .entered r (s.databases r.dbid)
      match s.findSlot n (·.xid = r.fullXid) with
      | some i => some ((s.setSlot i { s.slots i with pid := some pid }).setPhase pid w phase)
      | none => some (s.setPhase pid w phase)
    | _ => none
  | .mark pid => (s.workers pid).bind fun w =>
    match w.phase with
    | .entered r databaseExists => some ((s.markProgress r.key true).setPhase pid w
        (if databaseExists && (s.table r.key).isSome then .executing r else .dropping r))
    | _ => none
  | .succeed pid => (s.workers pid).bind fun w =>
    match w.phase with
    | .executing r => some { s.setPhase pid w (.executed r) with
        finished := Function.update s.finished r.key true }
    | _ => none
  | .fail pid => (s.workers pid).bind fun w =>
    match w.phase with
    | .executing r => some ((s.markProgress r.key false).setPhase pid w (.exiting (some r)))
    | _ => none
  | .remove pid => (s.workers pid).bind fun w =>
    match w.phase with
    | .executed r | .dropping r => some ((s.removeEntry r.key).setPhase pid w (.exiting (some r)))
    | _ => none
  | .die pid => (s.workers pid).bind fun w =>
    match w.phase with
    | .starting | .connecting _ | .entered _ _ => some (s.setPhase pid w (.exiting none))
    | .executing r | .executed r | .dropping r => some (s.setPhase pid w (.exiting (some r)))
    | _ => none
  | .free pid => (s.workers pid).bind fun w =>
    match w.phase with
    | .exiting curr =>
      match s.findSlot n (·.pid = some pid) with
      | some i => some ((s.setSlot i { s.slots i with pid := none }).setPhase pid w (.freeing i curr))
      | none => some (s.setPhase pid w (.leaving curr))
    | _ => none
  | .clear pid => (s.workers pid).bind fun w =>
    match w.phase with
    | .freeing i curr => some ((s.clearXid i).setPhase pid w (.leaving curr))
    | _ => none
  | .leave pid => (s.workers pid).bind fun w =>
    match w.phase with
    | .leaving (some r) =>
      some { s.markProgress r.key false with workers := Function.update s.workers pid none }
    | .leaving none => some { s with workers := Function.update s.workers pid none }
    | _ => none

def run : WorkerSys → List WorkerAct → Option WorkerSys
  | s, [] => some s
  | s, a :: acts => (s.step n a).bind fun s' => run s' acts

theorem workers_setPhase {p q : Nat} {w v : UndoWorker} {phase : UndoWorkerPhase}
    (h : (s.setPhase p w phase).workers q = some v) :
    q = p ∧ v = { w with phase := phase } ∨ q ≠ p ∧ s.workers q = some v := by
  by_cases hq : q = p
  · subst hq
    have hself : (s.setPhase q w phase).workers q = some { w with phase := phase } :=
      Function.update_self ..
    exact .inl ⟨rfl, Option.some.inj (h.symm.trans hself)⟩
  · have hother : (s.setPhase p w phase).workers q = s.workers q := Function.update_of_ne hq ..
    exact .inr ⟨hq, hother ▸ h⟩

theorem slots_setSlot_of_ne {i j : Nat} (h : j ≠ i) (w : UndoApplyWorker) :
    (s.setSlot i w).slots j = s.slots j :=
  Function.update_of_ne h ..

def init : WorkerSys where
  table := fun _ => none
  databases := fun _ => true
  mailbox := none
  slots := fun _ => ⟨none, 0, 0⟩
  launcher := .idle
  workers := fun _ => none
  finished := fun _ => false
  lost := []

end WorkerSys

namespace UndoWorkerPhase

def Pending : UndoWorkerPhase → Prop
  | starting | connecting _ => True
  | _ => False

/-- The worker has taken its id from the element, and will clear the transaction there. -/
def Frees (idx : Nat) : UndoWorkerPhase → Prop
  | freeing i _ => i = idx
  | _ => False

def OwnsSlot : UndoWorkerPhase → Prop
  | entered _ _ | executing _ | executed _ | dropping _ | exiting _ => True
  | _ => False

def request? : UndoWorkerPhase → Option UndoRequestInfo
  | connecting r | entered r _ | executing r | executed r | dropping r => some r
  | _ => none

end UndoWorkerPhase

namespace WorkerSys

/-- No request is executed twice at a time, each worker acts on the request it was started for, and no
request has left the table before its time. -/
structure Exclusive (s : WorkerSys) : Prop where
  one_worker : ∀ p q v w r r', s.workers p = some v → s.workers q = some w → v.phase = .executing r →
    w.phase = .executing r' → r.key = r'.key → p = q
  own_request : ∀ p w r, s.workers p = some w → w.phase.request? = some r → r = w.startedFor
  none_lost : s.lost = []

/-- No worker is on its way to the element of the array or about to clear it. -/
def Quiet (s : WorkerSys) (idx : Nat) : Prop :=
  (s.slots idx).pid = none ∧ (s.slots idx).xid ≠ 0 ∧
    ∀ p w, s.workers p = some w → ¬ w.phase.Pending ∧ ¬ w.phase.Frees idx

/-- The launcher does not start a second worker, stop waiting or end while a worker that it has started
is alive and on its way, or has entered itself since the launcher looked.  It does not do so either while
a worker that ends is between its two writes to the element. -/
def OnTime (s : WorkerSys) : WorkerAct → Prop
  | .start _ => ∀ idx r starts, s.launcher = .waiting idx r starts → 0 < starts → s.Quiet idx
  | .giveUp | .startError => ∀ idx r starts, s.launcher = .waiting idx r starts → s.Quiet idx
  | .restart => ∀ p w, s.workers p = some w → ¬ w.phase.Pending ∧ ∀ idx, ¬ w.phase.Frees idx
  | _ => True

inductive OnTimeRun (n : Nat) : WorkerSys → Prop
  | init : OnTimeRun n .init
  | step {s s' : WorkerSys} {a : WorkerAct} (h : OnTimeRun n s) (htime : s.OnTime a)
      (hstep : s.step n a = some s') : OnTimeRun n s'

end WorkerSys

end XStore
