import Mathlib.Data.List.Basic
import Mathlib.Logic.Function.Basic

/-!
# The messages a session keeps for its proxy

`query_check` tells a connection proxy which statements changed the state of
the session. A message of a transactional statement waits for the commit: it
is kept in a `TransRecords` of the level it was recorded in, and the levels are
linked by their `parent` pointers. A message of a session-level statement goes
to a list of its own. Both are handed out by the transaction callback.
-/

namespace XStore.QueryCheck

/-- The targets of a `DISCARD`. -/
inductive DiscardMode
  | all
  | plans
  | sequences
  | temp
  deriving DecidableEq

inductive Message
  | createTempTable (relname : String)
  | dropTempTable (relname : String)
  | prepareStmt (name : String)
  | deallocateAll
  | deallocateStmt (name : String)
  | setVariable (name value : String)
  | setVariableFromCurrent (name : String)
  | resetVariable (name : String)
  | resetAll
  | discard (target : DiscardMode)
  | listenOn (condition : String)
  | unlistenAll
  | unlistenOn (condition : String)
  | declareCursor (portalname : String)
  | closeCursor (portalname : String)
  | closeAll
  | locksHeld
  | noLocksHeld
  deriving DecidableEq

/-- The fields of a lock tag that an advisory lock uses. -/
structure LockTag where
  database : Nat
  field2 : UInt32
  field3 : UInt32
  field4 : Nat
  deriving DecidableEq

inductive LockMode
  | share
  | exclusive
  deriving DecidableEq

structure LocalLockTag where
  lock : LockTag
  mode : LockMode
  deriving DecidableEq

/-- The messages of one transaction level, and the level it was started in. -/
structure TransRecords where
  records : List Message
  parent : Option Nat
  deriving DecidableEq

/-- The static variables of the module. `heap` is what is allocated in
`trans_records_ctx`; a pointer is the number of an allocation. -/
structure QcState where
  queryCheckEnabled : Bool
  heap : Nat → Option TransRecords
  nextPtr : Nat
  currentTransRecords : Option Nat
  transRecords : List Nat
  sessionRecords : List Message
  holdUnknownSessionLocks : Bool
  sessionLocks : List LocalLockTag
  advisoryLockFunctionInProgress : Bool

namespace QcState

/-- A fresh `TransRecords` at the end of `trans_records`, made the current one. -/
def pushRecords (r : TransRecords) (s : QcState) : QcState :=
  { s with
    heap := Function.update s.heap s.nextPtr (some r)
    nextPtr := s.nextPtr + 1
    transRecords := s.transRecords ++ [s.nextPtr]
    currentTransRecords := some s.nextPtr }

/-- Appends to the records of the node at `p`; fails where `p` is not allocated. -/
def appendTo (p : Nat) (records : List Message) (s : QcState) : Option QcState :=
  (s.heap p).map fun r =>
    { s with heap := Function.update s.heap p (some { r with records := r.records ++ records }) }

end QcState

def recordInTransaction (record : Message) (isSessionLevel : Bool) (s : QcState) :
    Option QcState :=
  if isSessionLevel then
    some { s with sessionRecords := s.sessionRecords ++ [record] }
  else
    match s.currentTransRecords with
    | some p => s.appendTo p [record]
    -- the record of the top level is made on its first message
    | none => (s.pushRecords ⟨[], none⟩).appendTo s.nextPtr [record]

inductive SubXactEvent
  | startSub
  | commitSub
  | abortSub
  | preCommitSub
  deriving DecidableEq

/-- `none` is a failed assertion or a pointer that is not allocated. -/
def qcSubXactCallback (event : SubXactEvent) (s : QcState) : Option QcState :=
  if s.queryCheckEnabled = false then some s
  else
    match event with
    | .startSub => some (s.pushRecords ⟨[], s.currentTransRecords⟩)
    | .abortSub => do
      let p ← s.transRecords.getLast?
      let r ← s.heap p
      if s.currentTransRecords = some p then
        some { s with
          heap := Function.update s.heap p none
          transRecords := s.transRecords.dropLast
          currentTransRecords := r.parent }
      else none
    | .commitSub => do
      let p ← s.transRecords.getLast?
      let r ← s.heap p
      if s.currentTransRecords = some p then
        match r.parent with
        | some q =>
          let s' := { s with
            transRecords := s.transRecords.dropLast
            currentTransRecords := some q }
          let s'' ← if r.records.isEmpty then some s' else s'.appendTo q r.records
          some { s'' with heap := Function.update s''.heap p none }
        -- the parent has no record yet and takes over this one
        | none => some s
      else none
    | .preCommitSub => some s

inductive XactEvent
  | commit
  | parallelCommit
  | abort
  | parallelAbort
  | prepare
  | preCommit
  | parallelPreCommit
  | prePrepare
  deriving DecidableEq

/-- The events at which the transactional messages are sent. -/
def XactEvent.isPreCommit (event : XactEvent) : Bool :=
  event = .preCommit || event = .parallelPreCommit

/-- What the callback says about advisory locks; `lockHeldByMe` is the lock manager. -/
def lockReport (lockHeldByMe : LocalLockTag → Bool) (s : QcState) : List Message :=
  if s.advisoryLockFunctionInProgress = false then []
  else if s.holdUnknownSessionLocks then [.locksHeld]
  else if s.sessionLocks.isEmpty then [.noLocksHeld]
  else if s.sessionLocks.any lockHeldByMe then [.locksHeld]
  else []

/-- Sends the messages of all of `trans_records`, oldest level first. -/
def sendTransRecords (s : QcState) : Option (List Message) :=
  (s.transRecords.mapM fun p => (s.heap p).map TransRecords.records).map List.flatten

/-- `MemoryContextReset(trans_records_ctx)` with the two pointers into it. -/
def QcState.resetTransRecords (s : QcState) : QcState :=
  if s.transRecords.isEmpty then s
  else { s with heap := fun _ => none, transRecords := [], currentTransRecords := none }

/-- The messages sent to the frontend, and the state after. -/
def qcXactCallback (lockHeldByMe : LocalLockTag → Bool) (event : XactEvent) (s : QcState) :
    Option (List Message × QcState) :=
  if s.queryCheckEnabled = false then some ([], s)
  else do
    let sent ← if event.isPreCommit then sendTransRecords s else some []
    some (sent ++ s.sessionRecords ++ lockReport lockHeldByMe s,
      { s.resetTransRecords with
        sessionRecords := []
        advisoryLockFunctionInProgress := false })

inductive QcEvent
  | record (msg : Message) (isSessionLevel : Bool)
  | subXact (event : SubXactEvent)
  deriving DecidableEq

def QcEvent.apply : QcEvent → QcState → Option QcState
  | .record msg isSessionLevel => recordInTransaction msg isSessionLevel
  | .subXact event => qcSubXactCallback event

def runEvents (es : List QcEvent) (s : QcState) : Option QcState :=
  es.foldlM (fun s e => e.apply s) s

def QcState.initial : QcState where
  queryCheckEnabled := true
  heap _ := none
  nextPtr := 0
  currentTransRecords := none
  transRecords := []
  sessionRecords := []
  holdUnknownSessionLocks := false
  sessionLocks := []
  advisoryLockFunctionInProgress := false

end XStore.QueryCheck
