import XStore.QueryCheck.Levels

/-!
# Session-level advisory locks

The module does not see the advisory locks of the session. It looks at the
plan of a statement after the statement has run: each call of a lock function
that it finds in the root of the plan or in a child of the root counts as one
lock taken, each call of an unlock function as one given back. The locks
the session really holds are a table of counters, and the two are compared over
whole sessions.
-/

namespace XStore.QueryCheck

open List

inductive AdvisoryKind
  | lock
  | tryLock
  | unlock
  | unlockAll
  deriving DecidableEq

/-- An entry of `advisory_lock_function_list`. -/
structure AdvisoryFunction where
  kind : AdvisoryKind
  shared : Bool
  deriving DecidableEq

/-- The flag `lock` of an entry. -/
def AdvisoryFunction.lock (f : AdvisoryFunction) : Bool :=
  f.kind = .lock || f.kind = .tryLock

def AdvisoryFunction.mode (f : AdvisoryFunction) : LockMode :=
  if f.shared then .share else .exclusive

inductive ConstType
  | int4
  | int8
  | other
  deriving DecidableEq

/-- An expression of a plan: a constant, a call, which may be one of the
functions above, or another node with its subexpressions. -/
inductive Expr
  | const (consttype : ConstType) (constvalue : UInt64)
  | funcExpr (func : Option AdvisoryFunction) (args : List Expr)
  | other (args : List Expr)

/-- `SET_LOCKTAG_INT64` -/
def lockTagInt64 (database : Nat) (key : UInt64) : LockTag :=
  ⟨database, (key >>> 32).toUInt32, key.toUInt32, 1⟩

/-- `SET_LOCKTAG_INT32` -/
def lockTagInt32 (database : Nat) (key1 key2 : UInt64) : LockTag :=
  ⟨database, key1.toUInt32, key2.toUInt32, 2⟩

/-- The constant keys of a call; `none` where one is computed. -/
def constKeys : List Expr → Option (List UInt64)
  | [] => some []
  | .const .int4 v :: args => (constKeys args).map (v :: ·)
  | .const .int8 v :: args => (constKeys args).map (v :: ·)
  | _ :: _ => none

/-- How `extract_advisory_lock_key` leaves: with a tag, without one, or without
one and with `hold_unknown_session_locks` set. -/
inductive ExtractedKey
  | tag (lock : LockTag)
  | failed
  | unknown
  deriving DecidableEq

def extractAdvisoryLockKey (database : Nat) (args : List Expr) : ExtractedKey :=
  if args.length = 0 ∨ 2 < args.length then .failed
  else
    match constKeys args with
    | some [key] => .tag (lockTagInt64 database key)
    | some [key1, key2] => .tag (lockTagInt32 database key1 key2)
    | some _ => .failed
    | none => .unknown

/-- What a call of an advisory lock function is to the module. -/
inductive CallSite
  | acquire (lock : LocalLockTag)
  | release (lock : LocalLockTag)
  | releaseAll
  | computed (func : AdvisoryFunction)
  | ignored
  deriving DecidableEq

def callSite (database : Nat) (func : AdvisoryFunction) (args : List Expr) : CallSite :=
  if func.kind = .unlockAll then .releaseAll
  else
    match extractAdvisoryLockKey database args with
    | .tag lock => if func.lock then .acquire ⟨lock, func.mode⟩ else .release ⟨lock, func.mode⟩
    | .failed => .ignored
    | .unknown => .computed func

/-- What `manage_session_locks` does at a call. Once a key is unknown the list
is given up until all locks are released. -/
def CallSite.track (site : CallSite) (s : QcState) : QcState :=
  match site with
  | .releaseAll => { s with sessionLocks := [], holdUnknownSessionLocks := false }
  | .acquire lock =>
    if s.holdUnknownSessionLocks then s
    else { s with sessionLocks := s.sessionLocks ++ [lock] }
  | .release lock =>
    if s.holdUnknownSessionLocks then s
    else { s with sessionLocks := s.sessionLocks.erase lock }
  | .computed _ =>
    if s.holdUnknownSessionLocks then s
    else { s with sessionLocks := [], holdUnknownSessionLocks := true }
  | .ignored => s

mutual

def manageSessionLocks (database : Nat) : Expr → QcState → QcState
  | .const _ _, s => s
  | .funcExpr none args, s => walkSessionLocks database args s
  | .funcExpr (some func) args, s =>
    walkSessionLocks database args ((callSite database func args).track s)
  | .other args, s => walkSessionLocks database args s

/-- `expression_tree_walker` over a list. -/
def walkSessionLocks (database : Nat) : List Expr → QcState → QcState
  | [], s => s
  | e :: es, s => walkSessionLocks database es (manageSessionLocks database e s)

end

/-- A node of a plan. `others` are the expressions the walker does not look at,
such as join conditions; `children` are what `planstate_tree_walker` visits. -/
inductive PlanState
  | node (targetlist qual others : List Expr) (children : List PlanState)

/-- The callback for one node. It does not go down to the children. -/
def hasAdvisoryLockFunctionCall (database : Nat) : PlanState → QcState → QcState
  | .node targetlist qual _ _, s =>
    walkSessionLocks database qual (walkSessionLocks database targetlist s)

def PlanState.children : PlanState → List PlanState
  | .node _ _ _ children => children

/-- The end of `qc_ExecutorFinish`: the children of the root, then the root. -/
def qcExecutorFinish (database : Nat) (plan : PlanState) (s : QcState) : QcState :=
  if s.queryCheckEnabled ∧ s.advisoryLockFunctionInProgress then
    hasAdvisoryLockFunctionCall database plan
      (plan.children.foldl (fun s child => hasAdvisoryLockFunctionCall database child s) s)
  else s

mutual

/-- The calls in an expression, in the order of the walker. -/
def Expr.sites (database : Nat) : Expr → List CallSite
  | .const _ _ => []
  | .funcExpr none args => sitesOf database args
  | .funcExpr (some func) args => callSite database func args :: sitesOf database args
  | .other args => sitesOf database args

def sitesOf (database : Nat) : List Expr → List CallSite
  | [] => []
  | e :: es => e.sites database ++ sitesOf database es

end

def PlanState.nodeSites (database : Nat) : PlanState → List CallSite
  | .node targetlist qual _ _ => sitesOf database targetlist ++ sitesOf database qual

/-- The calls the module sees, in the order it sees them. -/
def PlanState.visitedSites (database : Nat) (plan : PlanState) : List CallSite :=
  plan.children.flatMap (PlanState.nodeSites database) ++ plan.nodeSites database

mutual

def PlanState.allSites (database : Nat) : PlanState → List CallSite
  | .node targetlist qual others children =>
    sitesOf database targetlist ++ sitesOf database qual ++ sitesOf database others ++
      allSitesOf database children

def allSitesOf (database : Nat) : List PlanState → List CallSite
  | [] => []
  | p :: ps => p.allSites database ++ allSitesOf database ps

end

mutual

theorem manageSessionLocks_eq (database : Nat) : ∀ (e : Expr) (s : QcState),
    manageSessionLocks database e s =
      (e.sites database).foldl (fun s site => site.track s) s
  | .const _ _, s => by simp [manageSessionLocks, Expr.sites]
  | .funcExpr none args, s => by
    simpa [manageSessionLocks, Expr.sites] using walkSessionLocks_eq database args s
  | .funcExpr (some func) args, s => by
    simpa [manageSessionLocks, Expr.sites] using walkSessionLocks_eq database args _
  | .other args, s => by
    simpa [manageSessionLocks, Expr.sites] using walkSessionLocks_eq database args s

theorem walkSessionLocks_eq (database : Nat) : ∀ (es : List Expr) (s : QcState),
    walkSessionLocks database es s =
      (sitesOf database es).foldl (fun s site => site.track s) s
  | [], s => by simp [walkSessionLocks, sitesOf]
  | e :: es, s => by
    rw [walkSessionLocks, sitesOf, foldl_append, manageSessionLocks_eq database e s]
    exact walkSessionLocks_eq database es _

end

theorem hasAdvisoryLockFunctionCall_eq (database : Nat) (plan : PlanState) (s : QcState) :
    hasAdvisoryLockFunctionCall database plan s =
      (plan.nodeSites database).foldl (fun s site => site.track s) s := by
  cases plan with
  | node targetlist qual others children =>
    rw [hasAdvisoryLockFunctionCall, PlanState.nodeSites, foldl_append,
      walkSessionLocks_eq, walkSessionLocks_eq]

/-- The module follows the calls it sees, one after the other. -/
theorem qcExecutorFinish_eq (database : Nat) (plan : PlanState) {s : QcState}
    (henabled : s.queryCheckEnabled = true) (hflag : s.advisoryLockFunctionInProgress = true) :
    qcExecutorFinish database plan s =
      (plan.visitedSites database).foldl (fun s site => site.track s) s := by
  have hchildren : ∀ (ps : List PlanState) (s : QcState),
      ps.foldl (fun s child => hasAdvisoryLockFunctionCall database child s) s =
        (ps.flatMap (PlanState.nodeSites database)).foldl (fun s site => site.track s) s := by
    intro ps
    induction ps with
    | nil => exact fun s => rfl
    | cons p ps ih =>
      intro s
      rw [foldl_cons, flatMap_cons, foldl_append, ih,
        hasAdvisoryLockFunctionCall_eq]
  rw [qcExecutorFinish, if_pos ⟨henabled, hflag⟩, PlanState.visitedSites, foldl_append,
    hasAdvisoryLockFunctionCall_eq, hchildren]

inductive Evaluation
  | acquired (lock : LocalLockTag)
  | notAcquired
  | released (lock : LocalLockTag)
  | releasedAll
  deriving DecidableEq

/-- The counters of the session's locks after an evaluation; giving back a lock
that is not held does nothing. -/
def Evaluation.hold (e : Evaluation) (held : LocalLockTag → Nat) : LocalLockTag → Nat :=
  match e with
  | .acquired lock => Function.update held lock (held lock + 1)
  | .notAcquired => held
  | .released lock => Function.update held lock (held lock - 1)
  | .releasedAll => fun _ => 0

def CallSite.Evaluates : CallSite → Evaluation → Prop
  | .acquire lock, e => e = .acquired lock ∨ e = .notAcquired
  | .release lock, e => e = .released lock
  | .releaseAll, e => e = .releasedAll
  | .computed func, e =>
    if func.lock then e = .notAcquired ∨ ∃ lock, lock.mode = func.mode ∧ e = .acquired lock
    else ∃ lock, lock.mode = func.mode ∧ e = .released lock
  | .ignored, _ => False

/-- A statement that has run: its plan, the calls that were evaluated, each for
any number of rows, and whether the executor came to its end. -/
structure Statement (database : Nat) where
  plan : PlanState
  evaluated : List Evaluation
  finished : Bool
  fromSites : ∀ e ∈ evaluated, ∃ site ∈ plan.allSites database, site.Evaluates e

/-- The session: the variables of the module and the locks really held. -/
structure Session where
  qc : QcState
  held : LocalLockTag → Nat

inductive SessionStep (database : Nat)
  | execute (stmt : Statement database)
  | subXact (event : SubXactEvent)
  | xactEnd (event : XactEvent) (lockHeldByMe : LocalLockTag → Bool)

/-- Executing a statement: the access hook marks the start of every call, the
calls are evaluated, and an error skips the end of the executor. -/
def Statement.execute {database : Nat} (stmt : Statement database) (x : Session) : Session :=
  let qc := { x.qc with
    advisoryLockFunctionInProgress := x.qc.advisoryLockFunctionInProgress ||
      (x.qc.queryCheckEnabled && !(stmt.plan.allSites database).isEmpty) }
  { qc := if stmt.finished then qcExecutorFinish database stmt.plan qc else qc
    held := stmt.evaluated.foldl (fun held e => e.hold held) x.held }

def SessionStep.apply {database : Nat} (step : SessionStep database) (x : Session) :
    Option (List Message × Session) :=
  match step with
  | .execute stmt => some ([], stmt.execute x)
  | .subXact event => (qcSubXactCallback event x.qc).map fun qc => ([], { x with qc := qc })
  | .xactEnd event lockHeldByMe =>
    (qcXactCallback lockHeldByMe event x.qc).map fun (sent, qc) => (sent, { x with qc := qc })

/-- Along the steps, the proxy is told that no lock is held only when none is. -/
def TellsTruth {database : Nat} : List (SessionStep database) → Session → Prop
  | [], _ => True
  | step :: steps, x =>
    ∀ sent x', step.apply x = some (sent, x') →
      (.noLocksHeld ∈ sent → ∀ lock, x.held lock = 0) ∧ TellsTruth steps x'

/-- The calls the module sees follow the evaluations: every lock taken has a
call of its own, and every call that gives a lock back has been evaluated, in
the same order. `unknown` is `hold_unknown_session_locks`: while it is set,
locks may be taken freely. -/
inductive Followed : Bool → List Evaluation → List CallSite → Prop
  | nil {unknown} : Followed unknown [] []
  | acquired {unknown lock es sites} : Followed unknown es sites →
      Followed unknown (.acquired lock :: es) (.acquire lock :: sites)
  | idle {unknown lock es sites} : Followed unknown es sites →
      Followed unknown es (.acquire lock :: sites)
  | notAcquired {unknown es sites} : Followed unknown es sites →
      Followed unknown (.notAcquired :: es) sites
  | released {unknown lock es sites} : Followed unknown es sites →
      Followed unknown (.released lock :: es) (.release lock :: sites)
  | releasedAgain {unknown lock es sites} : Followed unknown es sites →
      Followed unknown (.released lock :: es) sites
  | releasedAll {unknown es sites} : Followed false es sites →
      Followed unknown (.releasedAll :: es) (.releaseAll :: sites)
  | releasedAllAgain {unknown es sites} : Followed unknown es sites →
      Followed unknown (.releasedAll :: es) sites
  | computed {unknown func es sites} : Followed true es sites →
      Followed unknown es (.computed func :: sites)
  | ignored {unknown es sites} : Followed unknown es sites →
      Followed unknown es (.ignored :: sites)
  | acquiredUnknown {lock es sites} : Followed true es sites →
      Followed true (.acquired lock :: es) sites
  | notReleased {lock es sites} : Followed true es sites →
      Followed true es (.release lock :: sites)

/-- A statement that the module can follow from the state it starts in. -/
def Statement.Followed {database : Nat} (stmt : Statement database) (s : QcState) : Prop :=
  if stmt.finished then
    QueryCheck.Followed s.holdUnknownSessionLocks stmt.evaluated (stmt.plan.visitedSites database)
  else s.holdUnknownSessionLocks = true ∨ ∀ lock, .acquired lock ∉ stmt.evaluated

/-- Every statement of the run can be followed from the state it starts in. -/
def FollowedRun {database : Nat} : List (SessionStep database) → Session → Prop
  | [], _ => True
  | step :: steps, x =>
    (∀ stmt, step = .execute stmt → stmt.Followed x.qc) ∧
      ∀ sent x', step.apply x = some (sent, x') → FollowedRun steps x'

def Covers (s : QcState) (held : LocalLockTag → Nat) : Prop :=
  s.holdUnknownSessionLocks = true ∨ ∀ lock, held lock ≤ s.sessionLocks.count lock

section Covering

variable {s : QcState} {held : LocalLockTag → Nat} {lock : LocalLockTag}

theorem Evaluation.hold_le (e : Evaluation) (hne : ∀ lock, e ≠ .acquired lock)
    (held : LocalLockTag → Nat) (lock : LocalLockTag) : e.hold held lock ≤ held lock := by
  cases e with
  | acquired lock' => exact absurd rfl (hne lock')
  | notAcquired => exact Nat.le_refl _
  | released lock' =>
    rw [Evaluation.hold, Function.update_apply]
    split
    · subst_vars
      exact Nat.sub_le _ _
    · exact Nat.le_refl _
  | releasedAll => exact Nat.zero_le _

theorem Covers.hold (h : Covers s held) (e : Evaluation) (hne : ∀ lock, e ≠ .acquired lock) :
    Covers s (e.hold held) :=
  h.imp_right fun hle lock => Nat.le_trans (e.hold_le hne held lock) (hle lock)

theorem CallSite.track_unknown (site : CallSite) (hsite : site ≠ .releaseAll)
    (hs : s.holdUnknownSessionLocks = true) : site.track s = s := by
  cases site with
  | releaseAll => exact absurd rfl hsite
  | acquire lock => exact if_pos hs
  | release lock => exact if_pos hs
  | computed func => exact if_pos hs
  | ignored => rfl

theorem Covers.acquire (h : Covers s held) :
    Covers ((CallSite.acquire lock).track s) ((Evaluation.acquired lock).hold held) := by
  rcases hunk : s.holdUnknownSessionLocks with _ | _
  · right
    intro lock'
    have hle := (h.resolve_left (by simp [hunk])) lock'
    simp only [CallSite.track, hunk, Evaluation.hold, Function.update_apply, Bool.false_eq_true,
      if_false, count_append, count_singleton]
    by_cases heq : lock' = lock
    · subst heq
      simpa using hle
    · rw [if_neg heq]
      exact Nat.le_trans hle (Nat.le_add_right _ _)
  · left
    rwa [CallSite.track_unknown _ (by simp) hunk]

theorem Covers.idle (h : Covers s held) : Covers ((CallSite.acquire lock).track s) held := by
  rcases hunk : s.holdUnknownSessionLocks with _ | _
  · right
    intro lock'
    have hle := (h.resolve_left (by simp [hunk])) lock'
    simp only [CallSite.track, hunk, Bool.false_eq_true, if_false, count_append]
    exact Nat.le_trans hle (Nat.le_add_right _ _)
  · left
    rwa [CallSite.track_unknown _ (by simp) hunk]

theorem Covers.release (h : Covers s held) :
    Covers ((CallSite.release lock).track s) ((Evaluation.released lock).hold held) := by
  rcases hunk : s.holdUnknownSessionLocks with _ | _
  · right
    intro lock'
    have hle := (h.resolve_left (by simp [hunk])) lock'
    simp only [CallSite.track, hunk, Evaluation.hold, Function.update_apply, Bool.false_eq_true,
      if_false]
    by_cases heq : lock' = lock
    · subst heq
      rw [if_pos rfl, count_erase_self]
      exact Nat.sub_le_sub_right hle 1
    · rw [if_neg heq, count_erase_of_ne heq]
      exact hle
  · left
    rwa [CallSite.track_unknown _ (by simp) hunk]

/-- Calls that follow the evaluations keep the list covering. -/
theorem Followed.covers {unknown : Bool} {es : List Evaluation} {sites : List CallSite}
    (hf : Followed unknown es sites) : ∀ {s : QcState} {held : LocalLockTag → Nat},
      s.holdUnknownSessionLocks = unknown → Covers s held →
      Covers (sites.foldl (fun s site => site.track s) s)
        (es.foldl (fun held e => e.hold held) held) := by
  -- one rule of the relation at a time; each moves the list, the locks or both
  induction hf with
  | nil => exact fun _ h => h
  | acquired _ ih =>
    intro s held hs h
    refine ih ?_ h.acquire
    cases hunk : s.holdUnknownSessionLocks <;> simp_all [CallSite.track]
  | idle _ ih =>
    intro s held hs h
    refine ih ?_ h.idle
    cases hunk : s.holdUnknownSessionLocks <;> simp_all [CallSite.track]
  | notAcquired _ ih => exact fun hs h => ih hs (h.hold _ nofun)
  | released _ ih =>
    intro s held hs h
    refine ih ?_ h.release
    cases hunk : s.holdUnknownSessionLocks <;> simp_all [CallSite.track]
  | releasedAgain _ ih => exact fun hs h => ih hs (h.hold _ nofun)
  | releasedAll _ ih => exact fun hs h => ih rfl (.inr fun lock => Nat.zero_le _)
  | releasedAllAgain _ ih => exact fun hs h => ih hs (h.hold _ nofun)
  | @computed unknown func es sites _ ih =>
    intro s held hs h
    have hunk : ((CallSite.computed func).track s).holdUnknownSessionLocks = true := by
      cases hunk : s.holdUnknownSessionLocks <;> simp [CallSite.track, hunk]
    exact ih hunk (.inl hunk)
  | ignored _ ih => exact fun hs h => ih hs h
  | acquiredUnknown _ ih => exact fun hs h => ih hs (.inl hs)
  | notReleased _ ih =>
    intro s held hs h
    rw [foldl_cons, CallSite.track_unknown _ (by simp) hs]
    exact ih hs h

/-- A statement that takes no lock keeps the list covering. -/
theorem Covers.hold_all (es : List Evaluation) : ∀ {held : LocalLockTag → Nat},
    (∀ lock, .acquired lock ∉ es) → Covers s held →
    Covers s (es.foldl (fun held e => e.hold held) held) := by
  induction es with
  | nil => exact fun _ h => h
  | cons e es ih =>
    intro held hes h
    have hne : ∀ lock, e ≠ .acquired lock := by
      rintro lock rfl
      exact hes lock mem_cons_self
    exact ih (fun lock hmem => hes lock (mem_cons_of_mem e hmem)) (h.hold e hne)

end Covering

/-- The calls seen by the module do not touch the messages. -/
theorem CallSite.track_messages (site : CallSite) (s : QcState) :
    ∃ locks unknown, site.track s =
      { s with sessionLocks := locks, holdUnknownSessionLocks := unknown } := by
  by_cases hunk : s.holdUnknownSessionLocks = true
  · by_cases hsite : site = .releaseAll
    · rw [hsite]
      exact ⟨_, _, rfl⟩
    · rw [CallSite.track_unknown site hsite hunk]
      exact ⟨_, _, rfl⟩
  · cases site with
    | releaseAll => exact ⟨_, _, rfl⟩
    | ignored => exact ⟨_, _, rfl⟩
    | acquire lock => exact ⟨_, _, if_neg hunk⟩
    | release lock => exact ⟨_, _, if_neg hunk⟩
    | computed func => exact ⟨_, _, if_neg hunk⟩

theorem track_all_messages (sites : List CallSite) : ∀ s : QcState,
    ∃ locks unknown, sites.foldl (fun s site => site.track s) s =
      { s with sessionLocks := locks, holdUnknownSessionLocks := unknown } := by
  induction sites with
  | nil => exact fun s => ⟨_, _, rfl⟩
  | cons site sites ih =>
    intro s
    obtain ⟨locks, unknown, hstep⟩ := site.track_messages s
    obtain ⟨locks', unknown', hrest⟩ := ih (site.track s)
    refine ⟨locks', unknown', ?_⟩
    rw [foldl_cons, hrest, hstep]

/-- Between the steps of a session: no message waits and the list covers the locks. -/
structure Session.Sound (x : Session) : Prop where
  holds : ∃ ls, x.qc.Holds ls ∧ ls.flatten = []
  session : x.qc.sessionRecords = []
  covers : Covers x.qc x.held

section Steps

variable {database : Nat} {x x' : Session} {sent : List Message} {lockHeldByMe : LocalLockTag → Bool}

/-- The state in which the calls of a statement are evaluated. -/
def Statement.started (stmt : Statement database) (s : QcState) : QcState :=
  { s with
    advisoryLockFunctionInProgress := s.advisoryLockFunctionInProgress ||
      (s.queryCheckEnabled && !(stmt.plan.allSites database).isEmpty) }

theorem Statement.evaluated_nil (stmt : Statement database)
    (h : (stmt.plan.allSites database).isEmpty = true) : stmt.evaluated = [] := by
  cases hev : stmt.evaluated with
  | nil => rfl
  | cons e es =>
    obtain ⟨site, hsite, -⟩ := stmt.fromSites e (hev ▸ mem_cons_self)
    rw [List.isEmpty_iff.mp h] at hsite
    cases hsite

theorem Session.Sound.execute (h : x.Sound) (stmt : Statement database)
    (hf : stmt.Followed x.qc) : (stmt.execute x).Sound := by
  obtain ⟨ls, hholds, hflat⟩ := h.holds
  have hstarted : (stmt.started x.qc).Holds ls :=
    ⟨hholds.enabled, hholds.linked, hholds.current, hholds.live, hholds.fresh⟩
  have hcovers : Covers (stmt.started x.qc) x.held := h.covers
  have hqc : (stmt.execute x).qc =
    if stmt.finished then qcExecutorFinish database stmt.plan (stmt.started x.qc)
    else stmt.started x.qc := rfl
  have hheld : (stmt.execute x).held =
    stmt.evaluated.foldl (fun held e => e.hold held) x.held := rfl
  cases hfin : stmt.finished with
  | false =>
    rw [hfin, if_neg Bool.false_ne_true] at hqc
    rw [Statement.Followed, hfin, if_neg Bool.false_ne_true] at hf
    refine ⟨⟨ls, hqc ▸ hstarted, hflat⟩, hqc ▸ h.session, ?_⟩
    rw [hqc, hheld]
    rcases hf with hunknown | hnone
    · exact .inl hunknown
    · exact hcovers.hold_all _ hnone
  | true =>
    rw [hfin, if_pos rfl] at hqc
    rw [Statement.Followed, hfin, if_pos rfl] at hf
    by_cases hflag : (stmt.started x.qc).advisoryLockFunctionInProgress = true
    · rw [qcExecutorFinish_eq database stmt.plan hstarted.enabled hflag] at hqc
      obtain ⟨locks, unknown, htrack⟩ :=
        track_all_messages (stmt.plan.visitedSites database) (stmt.started x.qc)
      refine ⟨⟨ls, ?_, hflat⟩, ?_, ?_⟩
      · rw [hqc, htrack]
        exact ⟨hstarted.enabled, hstarted.linked, hstarted.current, hstarted.live,
          hstarted.fresh⟩
      · rw [hqc, htrack]
        exact h.session
      · rw [hqc, hheld]
        exact hf.covers rfl hcovers
    · -- no call in this transaction: nothing is evaluated and nothing is looked at
      have hempty : (stmt.plan.allSites database).isEmpty = true := by
        simp only [Statement.started, hholds.enabled, Bool.true_and, Bool.or_eq_true,
          Bool.not_eq_true', not_or, Bool.not_eq_false] at hflag
        exact hflag.2
      rw [qcExecutorFinish, if_neg fun hboth => hflag hboth.2] at hqc
      rw [stmt.evaluated_nil hempty] at hheld
      refine ⟨⟨ls, hqc ▸ hstarted, hflat⟩, hqc ▸ h.session, ?_⟩
      rw [hqc, hheld]
      exact hcovers

theorem Session.Sound.subXact (h : x.Sound) {event : SubXactEvent}
    (happly : (SessionStep.subXact event : SessionStep database).apply x = some (sent, x')) :
    sent = [] ∧ x'.Sound := by
  obtain ⟨qc, hqc, heq⟩ := Option.map_eq_some_iff.mp happly
  obtain ⟨rfl, rfl⟩ := Prod.mk.inj heq
  obtain ⟨ls, hholds, hflat⟩ := h.holds
  have hevent : (QcEvent.subXact event).apply x.qc = some qc := hqc
  have henabled := QcEvent.enabled_of_apply _ hholds hevent
  obtain ⟨qc', hqc', hfollows⟩ := QcEvent.apply_follows _ hholds henabled
  obtain rfl : qc = qc' := Option.some.inj (hqc.symm.trans hqc')
  refine ⟨rfl, ⟨_, hfollows.holds, levelsAfter_flatten event hflat⟩, ?_, ?_⟩
  · rw [hfollows.session, h.session]
    rfl
  · exact h.covers.imp (hfollows.unknown.trans ·) fun hle lock => hfollows.sessionLocks ▸ hle lock

/-- Only a list that covers the locks and is empty says that none is held. -/
theorem held_eq_zero_of_report {s : QcState} {held : LocalLockTag → Nat} (h : Covers s held)
    (hmem : .noLocksHeld ∈ lockReport lockHeldByMe s)
    (lock : LocalLockTag) : held lock = 0 := by
  unfold lockReport at hmem
  split_ifs at hmem with _ hunknown hempty
  · simp at hmem
  · simp at hmem
  · have hle := (h.resolve_left hunknown) lock
    rw [List.isEmpty_iff.mp hempty] at hle
    exact Nat.le_zero.mp hle
  · simp at hmem
  · simp at hmem

theorem Session.Sound.xactEnd (h : x.Sound) {event : XactEvent}
    (happly : (SessionStep.xactEnd event lockHeldByMe : SessionStep database).apply x =
      some (sent, x')) :
    (.noLocksHeld ∈ sent → ∀ lock, x.held lock = 0) ∧ x'.Sound := by
  obtain ⟨⟨sent', qc⟩, hqc, heq⟩ := Option.map_eq_some_iff.mp happly
  obtain ⟨rfl, rfl⟩ := Prod.mk.inj heq
  obtain ⟨ls, hholds, hflat⟩ := h.holds
  obtain ⟨qc', hcall, hno, hsession, henabled, hunknown, hlocks⟩ :=
    hholds.qcXactCallback lockHeldByMe event
  obtain ⟨rfl, rfl⟩ := Prod.mk.inj (Option.some.inj (hqc.symm.trans hcall))
  refine ⟨?_, ⟨[], hno.holds henabled, rfl⟩, hsession, ?_⟩
  · have htrans : (if event.isPreCommit then ls.reverse.flatten else []) = [] := by
      split
      · simpa using hflat
      · rfl
    rw [htrans, h.session, nil_append, nil_append]
    exact fun hmem => held_eq_zero_of_report h.covers hmem
  · exact h.covers.imp (hunknown.trans ·) fun hle lock => hlocks ▸ hle lock

end Steps

/-- In every session whose statements the module can follow, with savepoints
and transactions that end in any way, the proxy is told that no session-level
advisory lock is held only when none is. -/
theorem no_locks_message_is_true {database : Nat} (steps : List (SessionStep database)) :
    ∀ x : Session, x.Sound → FollowedRun steps x → TellsTruth steps x := by
  induction steps with
  | nil => exact fun _ _ _ => trivial
  | cons step steps ih =>
    rintro x hx ⟨hstep, hrest⟩ sent x' happly
    cases step with
    | execute stmt =>
      obtain ⟨rfl, rfl⟩ := Prod.mk.inj (Option.some.inj happly)
      exact ⟨nofun, ih _ (hx.execute stmt (hstep stmt rfl)) (hrest _ _ rfl)⟩
    | subXact event =>
      obtain ⟨rfl, hx'⟩ := hx.subXact happly
      exact ⟨nofun, ih _ hx' (hrest _ _ happly)⟩
    | xactEnd event lockHeldByMe =>
      obtain ⟨htrue, hx'⟩ := hx.xactEnd happly
      exact ⟨htrue, ih _ hx' (hrest _ _ happly)⟩

def Session.initial : Session := ⟨QcState.initial, fun _ => 0⟩

theorem Session.initial_sound : Session.initial.Sound where
  holds := ⟨[], QcState.initial_noRecords.holds rfl, rfl⟩
  session := rfl
  covers := .inr fun _ => Nat.zero_le _

def keyOne : LocalLockTag := ⟨lockTagInt64 0 1, .exclusive⟩

/-- `SELECT pg_advisory_lock(1) FROM t` over a table of `rows` rows. -/
def lockPerRow (rows : Nat) : Statement 0 where
  plan := .node [.funcExpr (some ⟨.lock, false⟩) [.const .int8 1]] [] [] []
  evaluated := List.replicate rows (.acquired keyOne)
  finished := true
  fromSites e he := by
    rw [List.eq_of_mem_replicate he]
    exact ⟨.acquire keyOne, List.mem_cons_self, .inl rfl⟩

/-- `SELECT pg_advisory_unlock(1)` -/
def unlockOnce : Statement 0 where
  plan := .node [.funcExpr (some ⟨.unlock, false⟩) [.const .int8 1]] [] [] []
  evaluated := [.released keyOne]
  finished := true
  fromSites e he := by
    rw [List.mem_singleton.mp he]
    exact ⟨.release keyOne, List.mem_cons_self, rfl⟩

def lockThenUnlock (rows : Nat) : List (SessionStep 0) :=
  [.execute (lockPerRow rows), .execute unlockOnce, .xactEnd .preCommit fun _ => true]

/-- A lock taken for each of two rows and given back once is held still, and
the proxy is told that none is. -/
theorem two_rows_leave_a_lock :
    Session.initial.Sound ∧ ¬ TellsTruth (lockThenUnlock 2) Session.initial := by
  refine ⟨Session.initial_sound, fun htruth => ?_⟩
  have hend := ((htruth _ _ rfl).2 _ _ rfl).2 _ _ rfl
  have hheld := hend.1 (by decide) keyOne
  exact absurd hheld (by decide)

/-- With one row the two calls are followed. -/
theorem one_row_is_followed : TellsTruth (lockThenUnlock 1) Session.initial := by
  apply no_locks_message_is_true (lockThenUnlock 1) Session.initial Session.initial_sound
  refine ⟨?_, ?_⟩
  · intro stmt hstmt
    obtain rfl := SessionStep.execute.inj hstmt
    exact Followed.acquired .nil
  · rintro sent x' happly
    obtain ⟨rfl, rfl⟩ := Prod.mk.inj (Option.some.inj happly)
    refine ⟨?_, ?_⟩
    · intro stmt hstmt
      obtain rfl := SessionStep.execute.inj hstmt
      exact Followed.released .nil
    · rintro sent x' happly
      obtain ⟨rfl, rfl⟩ := Prod.mk.inj (Option.some.inj happly)
      exact ⟨nofun, fun _ _ _ => trivial⟩

end XStore.QueryCheck
