import XStore.QueryCheck.Levels

/-!
# Utility statements

`qc_ProcessUtility` records the message of a statement before the statement is
executed, so that an error has to take the message back. A `DEALLOCATE` of an
unknown statement is no error for the proxy, and keeps its message.
-/

namespace XStore.QueryCheck

open List

/-- The constants of a `SET`. -/
inductive ConstVal
  | integer (i : Int)
  | float (s : String)
  | string (s : String)
  | other
  deriving DecidableEq

/-- A member of the argument list of a `SET`, its type cast taken off; `none`
is a node that is not a constant. -/
abbrev SetArg := Option ConstVal

inductive VariableSetKind
  | setValue
  | setDefault
  | setCurrent
  | setMulti
  | reset
  | resetAll
  deriving DecidableEq

structure VariableSetStmt where
  kind : VariableSetKind
  name : String
  args : List SetArg
  isLocal : Bool
  deriving DecidableEq

/-- The statements `qc_ProcessUtility` tells apart. -/
inductive UtilityStmt
  | createStmt (relname : String) (isTemp ifNotExists : Bool)
  | createTableAsStmt (relname : String) (isTemp ifNotExists : Bool)
  | dropStmt
  | prepareStmt (name : String)
  | deallocateStmt (name : Option String)
  | variableSetStmt (stmt : VariableSetStmt)
  | discardStmt (target : DiscardMode)
  | listenStmt (conditionname : String)
  | unlistenStmt (conditionname : Option String)
  | declareCursorStmt (portalname : String) (hold : Bool)
  | closePortalStmt (portalname : Option String)
  | other
  deriving DecidableEq

/-- What the statement finds in the session: the relations and the reported
variables by name, and for a cursor whether it is holdable. -/
structure UtilityEnv where
  relationExists : String → Bool
  gucReport : String → Bool
  cursorHold : String → Option Bool

/-- `simple_quote_literal`: quotes and backslashes are doubled. -/
def simpleQuoteLiteral (val : String) : String :=
  String.ofList ('\'' :: val.toList.flatMap (fun ch =>
    if ch = '\'' ∨ ch = '\\' then [ch, ch] else [ch]) ++ ['\''])

/-- The text of one constant; `none` is the error "unrecognized node type". -/
def setArgText : SetArg → Option String
  | some (.integer i) => some (toString i)
  | some (.float s) => some s
  | some (.string s) => some (simpleQuoteLiteral s)
  | some .other => none
  | none => none

/-- The flat text of an argument list; an empty one prints as a null pointer does. -/
def flattenSetVariableArgs (args : List SetArg) : Option String :=
  if args.isEmpty then some "(null)"
  else (args.mapM setArgText).map fun texts => ", ".intercalate texts

/-- The message of a `SET`, if there is one; the outer `none` is an error. -/
def getVariablesetMessage (env : UtilityEnv) (stmt : VariableSetStmt) : Option (Option Message) :=
  if stmt.isLocal ∨ (stmt.kind ≠ .resetAll ∧ env.gucReport stmt.name) then some none
  else
    match stmt.kind with
    | .setValue =>
      (flattenSetVariableArgs stmt.args).map fun value => some (.setVariable stmt.name value)
    | .resetAll => some (some .resetAll)
    | .setCurrent => some (some (.setVariableFromCurrent stmt.name))
    | .setDefault => some (some (.resetVariable stmt.name))
    | .reset => some (some (.resetVariable stmt.name))
    | .setMulti => some none

/-- What is recorded before the statement runs, and whether at session level. -/
def utilityRecord (env : UtilityEnv) : UtilityStmt → Option (Option (Message × Bool))
  | .createStmt relname isTemp ifNotExists =>
    some (if isTemp ∧ (ifNotExists = false ∨ env.relationExists relname = false) then
      some (.createTempTable relname, false) else none)
  | .createTableAsStmt relname isTemp ifNotExists =>
    some (if isTemp ∧ (ifNotExists = false ∨ env.relationExists relname = false) then
      some (.createTempTable relname, false) else none)
  | .dropStmt => some none
  | .prepareStmt name => some (some (.prepareStmt name, true))
  | .deallocateStmt none => some (some (.deallocateAll, true))
  | .deallocateStmt (some name) => some (some (.deallocateStmt name, true))
  | .variableSetStmt stmt =>
    (getVariablesetMessage env stmt).map fun msg => msg.map fun m => (m, false)
  | .discardStmt target => some (some (.discard target, false))
  | .listenStmt conditionname => some (some (.listenOn conditionname, false))
  | .unlistenStmt none => some (some (.unlistenAll, false))
  | .unlistenStmt (some conditionname) => some (some (.unlistenOn conditionname, false))
  | .declareCursorStmt portalname hold =>
    some (if hold then some (.declareCursor portalname, false) else none)
  | .closePortalStmt (some portalname) =>
    some (if env.cursorHold portalname = some true then
      some (.closeCursor portalname, true) else none)
  | .closePortalStmt none => some (some (.closeAll, true))
  | .other => some none

/-- How the statement itself goes: an error names the function that raised it. -/
inductive Outcome
  | finished
  | error (funcname : String)
  deriving DecidableEq

/-- One execution of a utility statement; `during` are the events it causes,
such as the messages of the tables it drops. -/
structure UtilityCall where
  env : UtilityEnv
  node : UtilityStmt
  during : List QcEvent
  outcome : Outcome

namespace UtilityStmt

def isDeallocate : UtilityStmt → Bool
  | deallocateStmt _ => true
  | _ => false

/-- `PREPARE`, `DEALLOCATE` and `CLOSE`: an error takes back the last message. -/
def popsOnError : UtilityStmt → Bool
  | prepareStmt _ => true
  | deallocateStmt _ => true
  | closePortalStmt _ => true
  | _ => false

end UtilityStmt

namespace UtilityCall

/-- The error of a `DEALLOCATE` of an unknown statement, which is dropped. -/
def swallowed (c : UtilityCall) : Bool :=
  c.node.isDeallocate && c.outcome == .error "FetchPreparedStatement"

def raises (c : UtilityCall) : Bool :=
  c.outcome != .finished && !c.swallowed

end UtilityCall

/-- The hook. An error while the message is built leaves before anything is
recorded. -/
def qcProcessUtility (c : UtilityCall) (s : QcState) : Option QcState := do
  match (if s.queryCheckEnabled then utilityRecord c.env c.node else some none) with
  | none => some s
  | some record =>
    let s ← match record with
      | some (msg, isSessionLevel) => recordInTransaction msg isSessionLevel s
      | none => some s
    let s ← runEvents c.during s
    if c.raises && c.node.popsOnError then
      some { s with sessionRecords := s.sessionRecords.dropLast }
    else some s

inductive TxItem
  | call (c : UtilityCall)
  | subXact (event : SubXactEvent)

def TxItem.apply : TxItem → QcState → Option QcState
  | .call c => qcProcessUtility c
  | .subXact event => qcSubXactCallback event

def runItems (items : List TxItem) (s : QcState) : Option QcState :=
  items.foldlM (fun s i => i.apply s) s

/-- `PREPARE`, `DEALLOCATE` or `CLOSE`, which causes no other message. -/
structure UtilityCall.SessionLevel (c : UtilityCall) : Prop where
  node : c.node.popsOnError = true
  during : c.during = []

/-- With `n` subtransactions open, the items end none that is not open and
run session-level statements only. A transaction may stop anywhere. -/
def SessionItems : Nat → List TxItem → Prop
  | _, [] => True
  | n, .call c :: items => c.SessionLevel ∧ SessionItems n items
  | n, .subXact .startSub :: items => SessionItems (n + 1) items
  | n, .subXact .preCommitSub :: items => SessionItems n items
  | n, .subXact _ :: items => 0 < n ∧ SessionItems (n - 1) items

def UtilityCall.reported (c : UtilityCall) : List Message :=
  if c.raises then []
  else
    match c.node with
    | .prepareStmt name => [.prepareStmt name]
    | .deallocateStmt none => [.deallocateAll]
    | .deallocateStmt (some name) => [.deallocateStmt name]
    | .closePortalStmt none => [.closeAll]
    | .closePortalStmt (some portalname) =>
      if c.env.cursorHold portalname = some true then [.closeCursor portalname] else []
    | _ => []

def TxItem.reported : TxItem → List Message
  | .call c => c.reported
  | .subXact _ => []

/-- A `CLOSE` that fails and has recorded nothing: its cursor does not exist or
is not holdable. -/
def UtilityCall.closeFails (c : UtilityCall) : Bool :=
  match c.node with
  | .closePortalStmt (some portalname) =>
    c.raises && c.env.cursorHold portalname != some true
  | _ => false

/-- No failing `CLOSE` of that kind comes while a message waits; `pending` says
whether one does. -/
def NoneLost : Bool → List TxItem → Prop
  | _, [] => True
  | pending, .subXact _ :: items => NoneLost pending items
  | pending, .call c :: items =>
    (c.closeFails = true → pending = false) ∧ NoneLost (pending || !c.reported.isEmpty) items

def TxItem.pendingAfter : TxItem → List Message → List Message
  | .call c, pending => if c.closeFails then pending.dropLast else pending ++ c.reported
  | .subXact _, pending => pending

def pendingAfter (items : List TxItem) (pending : List Message) : List Message :=
  items.foldl (fun pending i => i.pendingAfter pending) pending

section Statement

variable {c : UtilityCall} {s : QcState} {ls : List (List Message)}

theorem UtilityCall.closeFails_raises (h : c.closeFails = true) : c.raises = true := by
  unfold UtilityCall.closeFails at h
  split at h
  · exact (Bool.and_eq_true_iff.mp h).1
  · cases h

theorem UtilityCall.reported_of_closeFails (h : c.closeFails = true) : c.reported = [] := by
  rw [UtilityCall.reported, if_pos (UtilityCall.closeFails_raises h)]

/-- What a session-level statement records before it runs. -/
theorem UtilityCall.SessionLevel.record (h : c.SessionLevel) :
    (utilityRecord c.env c.node = some none ∧ (c.raises = true → c.closeFails = true) ∧
      (c.raises = false → c.reported = [] ∧ c.closeFails = false)) ∨
    ∃ msg, utilityRecord c.env c.node = some (some (msg, true)) ∧ c.closeFails = false ∧
      c.reported = if c.raises then [] else [msg] := by
  have hnode := h.node
  unfold UtilityCall.reported UtilityCall.closeFails
  cases hc : c.node with
  | prepareStmt name => exact .inr ⟨_, rfl, rfl, rfl⟩
  | deallocateStmt name =>
    cases name with
    | none => exact .inr ⟨_, rfl, rfl, rfl⟩
    | some name => exact .inr ⟨_, rfl, rfl, rfl⟩
  | closePortalStmt name =>
    cases name with
    | none => exact .inr ⟨_, rfl, rfl, rfl⟩
    | some portalname =>
      by_cases hhold : c.env.cursorHold portalname = some true
      · exact .inr ⟨.closeCursor portalname, by simp [utilityRecord, hhold]⟩
      · exact .inl (by simp +contextual [utilityRecord, hhold])
  | _ => rw [hc] at hnode; cases hnode

/-- A session-level statement changes nothing but the session-level messages. -/
theorem qcProcessUtility_session (hc : c.SessionLevel) (h : s.Holds ls) :
    qcProcessUtility c s =
      some { s with sessionRecords := (TxItem.call c).pendingAfter s.sessionRecords } := by
  have hpops := hc.node
  rcases hc.record with ⟨hrec, hraise, hquiet⟩ | ⟨msg, hrec, hclose, hrep⟩
  · cases hr : c.raises with
    | true => simp [qcProcessUtility, h.enabled, hrec, hc.during, runEvents, hr, hpops,
        TxItem.pendingAfter, hraise hr]
    | false =>
      obtain ⟨hrep, hclose⟩ := hquiet hr
      simp [qcProcessUtility, h.enabled, hrec, hc.during, runEvents, hr, TxItem.pendingAfter,
        hclose, hrep]
      rw [← h.enabled]
  · cases hr : c.raises with
    | true => simp [qcProcessUtility, h.enabled, hrec, hc.during, runEvents, hr, hpops,
        TxItem.pendingAfter, hclose, hrep, recordInTransaction]
    | false => simp [qcProcessUtility, h.enabled, hrec, hc.during, runEvents, hr,
        TxItem.pendingAfter, hclose, hrep, recordInTransaction]

end Statement

theorem pendingAfter_cons (i : TxItem) (items : List TxItem) (pending : List Message) :
    pendingAfter (i :: items) pending = pendingAfter items (i.pendingAfter pending) := rfl

theorem TxItem.pendingAfter_lost {c : UtilityCall} (h : c.closeFails = true)
    (pending : List Message) : (TxItem.call c).pendingAfter pending = pending.dropLast :=
  if_pos h

theorem TxItem.pendingAfter_kept {c : UtilityCall} (h : c.closeFails = false)
    (pending : List Message) : (TxItem.call c).pendingAfter pending = pending ++ c.reported := by
  rw [TxItem.pendingAfter, h]
  rfl

theorem TxItem.pendingAfter_length_le (i : TxItem) (pending : List Message) :
    (i.pendingAfter pending).length ≤ pending.length + i.reported.length := by
  cases i with
  | subXact event => exact Nat.le_add_right _ _
  | call c =>
    cases hclose : c.closeFails with
    | true =>
      rw [TxItem.pendingAfter_lost hclose, length_dropLast]
      omega
    | false =>
      rw [TxItem.pendingAfter_kept hclose, length_append]
      exact Nat.le_refl _

theorem pendingAfter_length_le (items : List TxItem) : ∀ pending : List Message,
    (pendingAfter items pending).length ≤
      pending.length + (items.flatMap TxItem.reported).length := by
  induction items with
  | nil => exact fun pending => Nat.le_add_right _ _
  | cons i items ih =>
    intro pending
    have hstep := i.pendingAfter_length_le pending
    have hrest := ih (i.pendingAfter pending)
    rw [pendingAfter_cons, flatMap_cons, length_append]
    omega

/-- The waiting messages are all that was reported exactly where no failing
`CLOSE` took one of them away. -/
theorem pendingAfter_eq_iff (items : List TxItem) : ∀ pending : List Message,
    pendingAfter items pending = pending ++ items.flatMap TxItem.reported ↔
      NoneLost (!pending.isEmpty) items := by
  induction items with
  | nil => exact fun pending => by simp [pendingAfter, NoneLost]
  | cons i items ih =>
    intro pending
    rw [pendingAfter_cons, flatMap_cons, ← append_assoc]
    cases i with
    | subXact event =>
      rw [TxItem.reported, append_nil]
      exact ih pending
    | call c =>
      cases hclose : c.closeFails with
      | false =>
        rw [TxItem.pendingAfter_kept hclose]
        have hrest := ih (pending ++ c.reported)
        have hpending : (!(pending ++ c.reported).isEmpty) =
            (!pending.isEmpty || !c.reported.isEmpty) := by
          cases pending <;> simp
        rw [hpending] at hrest
        simpa [NoneLost, hclose, TxItem.reported] using hrest
      | true =>
        have hrep : (TxItem.call c).reported = [] := UtilityCall.reported_of_closeFails hclose
        rw [TxItem.pendingAfter_lost hclose, hrep, append_nil]
        cases pending with
        | nil =>
          have hrest := ih []
          have hnone : c.reported = [] := hrep
          simpa [NoneLost, hclose, hnone] using hrest
        | cons m pending =>
          -- one message is gone for good: the lengths no longer agree
          have hlen := pendingAfter_length_le items (m :: pending).dropLast
          constructor
          · intro heq
            rw [heq] at hlen
            simp only [length_append, length_cons, length_dropLast] at hlen
            omega
          · rintro ⟨hpend, -⟩
            cases hpend hclose

/-- Session-level items are handled, and leave the messages `pendingAfter` says. -/
theorem runItems_session : ∀ (items : List TxItem) {n : Nat} {s : QcState}
    {ls : List (List Message)}, SessionItems n items → s.Holds ls → n ≤ ls.length →
    ls.flatten = [] →
    ∃ s' ls', runItems items s = some s' ∧ s'.Holds ls' ∧ ls'.flatten = [] ∧
      s'.sessionRecords = pendingAfter items s.sessionRecords ∧
      ∀ lockHeldByMe, lockReport lockHeldByMe s' = lockReport lockHeldByMe s
  | [], n, s, ls, _, h, _, hflat => ⟨s, ls, rfl, h, hflat, rfl, fun _ => rfl⟩
  | .call c :: items, n, s, ls, ⟨hc, hitems⟩, h, hn, hflat => by
    have hstep := qcProcessUtility_session hc h
    obtain ⟨s', ls', hrun, hholds, hflat', hsession, hlocks⟩ :=
      runItems_session items hitems
        (s := { s with sessionRecords := (TxItem.call c).pendingAfter s.sessionRecords })
        ⟨h.enabled, h.linked, h.current, h.live, h.fresh⟩ hn hflat
    refine ⟨s', ls', ?_, hholds, hflat', hsession, hlocks⟩
    rw [runItems, foldlM_cons, TxItem.apply, hstep]
    exact hrun
  | .subXact event :: items, n, s, ls, hitems, h, hn, hflat => by
    obtain ⟨n', hitems', henabled, hn'⟩ : ∃ n', SessionItems n' items ∧
        (QcEvent.subXact event).Enabled ls ∧
        n' ≤ (levelsAfter (.subXact event) ls).length := by
      cases event with
      | startSub => exact ⟨n + 1, hitems, trivial, Nat.succ_le_succ hn⟩
      | preCommitSub => exact ⟨n, hitems, trivial, hn⟩
      | abortSub =>
        cases ls with
        | nil => exact absurd (Nat.lt_of_lt_of_le hitems.1 hn) (Nat.lt_irrefl 0)
        | cons l ls =>
          refine ⟨n - 1, hitems.2, cons_ne_nil _ _, ?_⟩
          simpa [levelsAfter] using hn
      | commitSub =>
        cases ls with
        | nil => exact absurd (Nat.lt_of_lt_of_le hitems.1 hn) (Nat.lt_irrefl 0)
        | cons l ls =>
          refine ⟨n - 1, hitems.2, cons_ne_nil _ _, ?_⟩
          cases ls with
          | nil => exact Nat.le_trans (Nat.sub_le n 1) hn
          | cons l' ls =>
            simp only [levelsAfter, length_cons] at hn ⊢
            omega
    have hflat' := levelsAfter_flatten event hflat
    obtain ⟨t, happly, hfollows⟩ := QcEvent.apply_follows (.subXact event) h henabled
    obtain ⟨s', ls', hrun, hholds, hflat'', hsession, hlocks⟩ :=
      runItems_session items hitems' hfollows.holds hn' hflat'
    refine ⟨s', ls', ?_, hholds, hflat'', ?_, ?_⟩
    · rw [runItems, foldlM_cons]
      have happly' : (TxItem.subXact event).apply s = some t := happly
      rw [happly']
      exact hrun
    · have hkeep : t.sessionRecords = s.sessionRecords := by
        rw [hfollows.session]
        exact append_nil _
      rw [hsession, hkeep]
      rfl
    · exact fun lockHeldByMe => (hlocks lockHeldByMe).trans (hfollows.locks lockHeldByMe)

/-- In every transaction of `PREPARE`, `DEALLOCATE` and `CLOSE` statements, with
savepoints around any of them and ending in any way, the messages sent at its
end are those of the statements that took effect exactly where no `CLOSE` of a
cursor that does not exist or is not holdable fails while a message waits. -/
theorem session_messages_exact_iff (s : QcState) (henabled : s.queryCheckEnabled = true)
    (hidle : s.NoRecords) (hsession : s.sessionRecords = [])
    (hadvisory : s.advisoryLockFunctionInProgress = false) (items : List TxItem)
    (hitems : SessionItems 0 items) (lockHeldByMe : LocalLockTag → Bool) (event : XactEvent) :
    ∃ s' sent s'', runItems items s = some s' ∧
      qcXactCallback lockHeldByMe event s' = some (sent, s'') ∧
      (sent = items.flatMap TxItem.reported ↔ NoneLost false items) := by
  obtain ⟨s', ls', hrun, hholds, hflat, hpending, hlocks⟩ :=
    runItems_session items hitems (hidle.holds henabled) (Nat.zero_le _) rfl
  obtain ⟨s'', hcall, -⟩ := hholds.qcXactCallback lockHeldByMe event
  refine ⟨s', _, s'', hrun, hcall, ?_⟩
  have hreport : lockReport lockHeldByMe s' = [] := by
    rw [hlocks, lockReport, if_pos hadvisory]
  have htrans : (if event.isPreCommit then ls'.reverse.flatten else []) = [] := by
    split
    · simpa using hflat
    · rfl
  rw [htrans, hreport, hpending, hsession, List.nil_append, List.append_nil]
  exact pendingAfter_eq_iff items []

/-- `PREPARE p`, then a `CLOSE` of an unknown cursor at a savepoint. -/
def closeAfterPrepare : List TxItem :=
  let env : UtilityEnv := ⟨fun _ => false, fun _ => false, fun _ => none⟩
  [.call ⟨env, .prepareStmt "p", [], .finished⟩, .subXact .startSub,
    .call ⟨env, .closePortalStmt (some "c"), [], .error "PerformPortalClose"⟩,
    .subXact .abortSub]

/-- The statement prepared before is not reported: the failing `CLOSE` has taken
its message back. -/
theorem prepared_statement_is_not_reported :
    closeAfterPrepare.flatMap TxItem.reported = [.prepareStmt "p"] ∧
      ∃ s' s'', runItems closeAfterPrepare QcState.initial = some s' ∧
        qcXactCallback (fun _ => false) .preCommit s' = some ([], s'') :=
  ⟨rfl, _, _, rfl, rfl⟩

/-- A failing `CLOSE` before the first message does no harm. -/
theorem session_messages_after_close :
    ∃ s' sent s'', runItems (closeAfterPrepare.drop 1 ++ closeAfterPrepare.take 1)
        QcState.initial = some s' ∧
      qcXactCallback (fun _ => false) .preCommit s' = some (sent, s'') ∧
      (sent = [.prepareStmt "p"] ↔
        NoneLost false (closeAfterPrepare.drop 1 ++ closeAfterPrepare.take 1)) ∧
      NoneLost false (closeAfterPrepare.drop 1 ++ closeAfterPrepare.take 1) := by
  obtain ⟨s', sent, s'', hrun, hcall, hiff⟩ := session_messages_exact_iff QcState.initial rfl
    QcState.initial_noRecords rfl rfl (closeAfterPrepare.drop 1 ++ closeAfterPrepare.take 1)
    ⟨⟨rfl, rfl⟩, Nat.one_pos, ⟨rfl, rfl⟩, trivial⟩ (fun _ => false) .preCommit
  exact ⟨s', sent, s'', hrun, hcall, hiff, fun _ => rfl, nofun, trivial⟩

end XStore.QueryCheck
