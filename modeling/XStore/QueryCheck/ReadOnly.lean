import Mathlib.Data.List.Basic

/-!
# Which queries may run on a standby

`is_read_only_query` looks at an analysed query before it is planned. Row marks
and the commands of common table expressions are tested on the top level,
function calls and catalogs are searched in the whole tree, and an `EXPLAIN`
has a path of its own.
-/

namespace XStore.QueryCheck

inductive CmdType
  | select
  | update
  | insert
  | delete
  | merge
  | utility
  deriving DecidableEq

/-- A row mark of `FOR UPDATE` or `FOR SHARE`; one that was pushed down comes
from the clause of an outer level. -/
structure RowMarkClause where
  rti : Nat
  pushedDown : Bool
  deriving DecidableEq

inductive RteKind
  | relation
  | subquery
  | join
  | function
  | tablefunc
  | values
  | cte
  | namedtuplestore
  | result
  deriving DecidableEq

mutual

/-- A node of an analysed query. `exprs` are the parts of a query that
`query_tree_walker` visits before the common table expressions. Any other node
has the subnodes `expression_tree_walker` visits, in its order; `word` is what
stands in it where a call has the OID of its function. -/
inductive Node
  | funcExpr (funcid : Nat) (args : List Node)
  | rangeTblFunction (funcexpr : Node)
  | commonTableExpr (cterefcount : Nat) (ctequery : Node) (clauses : List Node)
  | query (commandType : CmdType) (rowMarks : List RowMarkClause) (exprs cteList : List Node)
      (rtable : List RangeTblEntry)
  | other (word : Nat) (children : List Node)

/-- An entry of the range table; `contents` are the parts of it that go with its kind. -/
inductive RangeTblEntry
  | mk (rtekind : RteKind) (relid : Nat) (contents securityQuals : List Node)

end

structure Query where
  commandType : CmdType
  rowMarks : List RowMarkClause
  exprs : List Node
  cteList : List Node
  rtable : List RangeTblEntry

/-- Set by an explicit locking clause of the query itself. -/
def Query.hasForUpdate (q : Query) : Bool :=
  q.rowMarks.any fun m => !m.pushedDown

inductive CopySource
  | table
  | selectStmt
  | otherStmt
  deriving DecidableEq

/-- What reaches the hook: a query, or a utility statement. The top level of a
query has no locking clause above it. -/
inductive AnalysedQuery
  | plain (q : Query) (explicitMarks : ∀ m ∈ q.rowMarks, m.pushedDown = false)
  | createTableAs (isSelectInto : Bool)
  | copy (isFrom hasFilename : Bool) (source : CopySource)
  | explain (query : AnalysedQuery) (options : List (String × Bool))
  | variableSet
  | variableShow
  | otherUtility

def firstNormalObjectId : Nat := 16384

/-- The OIDs of `system_function_write_list`, which holds `nextval` and the two
forms of `setval`, and of `system_catalog_need_primary_list`, after the names
have been looked up. -/
structure SystemObjects where
  functionWriteList : List Nat
  catalogNeedPrimaryList : List Nat
  valid : 0 ∉ functionWriteList

def qcSystemObjectIsInBlacklists (sys : SystemObjects) (objectId : Nat) (isFunction : Bool) :
    Bool :=
  if objectId = 0 then false
  else (isFunction && sys.functionWriteList.contains objectId) ||
    sys.catalogNeedPrimaryList.contains objectId

def isWriteFunction (sys : SystemObjects) (funcid : Nat) : Bool :=
  firstNormalObjectId < funcid || qcSystemObjectIsInBlacklists sys funcid true

structure SelectContext where
  hasSystemCatalog : Bool
  hasFunctionCall : Bool
  deriving DecidableEq

/-- The word a cast to `FuncExpr` reads as the OID of the function. -/
def Node.funcidField : Node → Nat
  | .funcExpr funcid _ => funcid
  | .other word _ => word
  | _ => 0

def andThen (r : Bool × SelectContext) (next : SelectContext → Bool × SelectContext) :
    Bool × SelectContext :=
  if r.1 then r else next r.2

mutual

def qcQueryTreeWalker (sys : SystemObjects) : Node → SelectContext → Bool × SelectContext
  | .funcExpr funcid args, ctx =>
    if isWriteFunction sys funcid then (true, { ctx with hasFunctionCall := true })
    else walkNodes sys args ctx
  | .rangeTblFunction funcexpr, ctx =>
    if isWriteFunction sys funcexpr.funcidField then (true, { ctx with hasFunctionCall := true })
    else qcQueryTreeWalker sys funcexpr ctx
  | .commonTableExpr _ ctequery clauses, ctx =>
    andThen (qcQueryTreeWalker sys ctequery ctx) fun ctx => walkNodes sys clauses ctx
  | .query _ _ exprs cteList rtable, ctx =>
    andThen (walkNodes sys exprs ctx) fun ctx =>
      andThen (walkNodes sys cteList ctx) fun ctx => rangeTableWalker sys rtable ctx
  | .other _ children, ctx => walkNodes sys children ctx

/-- The nodes of a list, up to the first that stops the walk. -/
def walkNodes (sys : SystemObjects) : List Node → SelectContext → Bool × SelectContext
  | [], ctx => (false, ctx)
  | n :: ns, ctx => andThen (qcQueryTreeWalker sys n ctx) fun ctx => walkNodes sys ns ctx

/-- The entry itself is examined before what it contains. -/
def rangeTableEntryWalker (sys : SystemObjects) :
    RangeTblEntry → SelectContext → Bool × SelectContext
  | .mk rtekind relid contents securityQuals, ctx =>
    if rtekind = .relation ∧ relid < firstNormalObjectId ∧
        qcSystemObjectIsInBlacklists sys relid false then
      (true, { ctx with hasSystemCatalog := true })
    else andThen (walkNodes sys contents ctx) fun ctx => walkNodes sys securityQuals ctx

def rangeTableWalker (sys : SystemObjects) :
    List RangeTblEntry → SelectContext → Bool × SelectContext
  | [], ctx => (false, ctx)
  | rte :: rtes, ctx =>
    andThen (rangeTableEntryWalker sys rte ctx) fun ctx => rangeTableWalker sys rtes ctx

end

def Query.node (q : Query) : Node :=
  .query q.commandType q.rowMarks q.exprs q.cteList q.rtable

def qcHasFunctionCallOrSystemCatalog (sys : SystemObjects) (q : Query) : Bool :=
  if q.commandType ≠ .select then false
  else
    let ctx := (qcQueryTreeWalker sys q.node ⟨false, false⟩).2
    ctx.hasFunctionCall || ctx.hasSystemCatalog

/-- A common table expression whose query is a `SELECT`. -/
def Node.isSelectCte : Node → Bool
  | .commonTableExpr _ (.query .select _ _ _ _) _ => true
  | _ => false

def selectIsReadOnly (sys : SystemObjects) (q : Query) : Bool :=
  if q.commandType ≠ .select then false
  else if q.hasForUpdate then false
  else if q.cteList.all Node.isSelectCte = false then false
  else !qcHasFunctionCallOrSystemCatalog sys q

/-- The tests made on the statement of an `EXPLAIN`. -/
def explainIsReadOnly (sys : SystemObjects) (equery : AnalysedQuery) (analyze : Bool) : Bool :=
  match equery with
  | .plain q _ =>
    if q.commandType = .select then
      if analyze = false then true else !qcHasFunctionCallOrSystemCatalog sys q
    else !analyze
  | _ => !analyze

def isReadOnlyQuery (sys : SystemObjects) : Option AnalysedQuery → Bool
  | none => false
  | some (.plain q _) => selectIsReadOnly sys q
  | some (.createTableAs _) => false
  | some (.copy isFrom hasFilename source) =>
    !isFrom && !hasFilename && source != .otherStmt
  | some (.explain equery options) =>
    -- the value of the option is not looked at
    explainIsReadOnly sys equery (options.any fun opt => opt.1 == "analyze")
  | some .variableSet => true
  | some .variableShow => true
  | some .otherUtility => false

structure Level where
  commandType : CmdType
  rowMarks : List RowMarkClause

mutual

/-- The levels in a node that are executed: all but those of a common table
expression that is a `SELECT` nobody refers to. -/
def Node.levels : Node → List Level
  | .funcExpr _ args => levelsOf args
  | .rangeTblFunction funcexpr => funcexpr.levels
  | .commonTableExpr cterefcount ctequery clauses =>
    if cterefcount = 0 ∧ (Node.commonTableExpr cterefcount ctequery clauses).isSelectCte then []
    else ctequery.levels ++ levelsOf clauses
  | .query commandType rowMarks exprs cteList rtable =>
    ⟨commandType, rowMarks⟩ :: (levelsOf exprs ++ levelsOf cteList ++ levelsOfEntries rtable)
  | .other _ children => levelsOf children

def levelsOf : List Node → List Level
  | [] => []
  | n :: ns => n.levels ++ levelsOf ns

def RangeTblEntry.levels : RangeTblEntry → List Level
  | .mk _ _ contents securityQuals => levelsOf contents ++ levelsOf securityQuals

def levelsOfEntries : List RangeTblEntry → List Level
  | [] => []
  | rte :: rtes => rte.levels ++ levelsOfEntries rtes

end

mutual

def Node.calls : Node → List Nat
  | .funcExpr funcid args => funcid :: callsOf args
  | .rangeTblFunction funcexpr => funcexpr.calls
  | .commonTableExpr _ ctequery clauses => ctequery.calls ++ callsOf clauses
  | .query _ _ exprs cteList rtable => callsOf exprs ++ callsOf cteList ++ callsOfEntries rtable
  | .other _ children => callsOf children

def callsOf : List Node → List Nat
  | [] => []
  | n :: ns => n.calls ++ callsOf ns

def RangeTblEntry.calls : RangeTblEntry → List Nat
  | .mk _ _ contents securityQuals => callsOf contents ++ callsOf securityQuals

def callsOfEntries : List RangeTblEntry → List Nat
  | [] => []
  | rte :: rtes => rte.calls ++ callsOfEntries rtes

end

def Level.Reads (l : Level) : Prop :=
  l.rowMarks = [] ∧ (l.commandType = .select ∨ l.commandType = .utility)

def Query.innerLevels (q : Query) : List Level :=
  levelsOf q.exprs ++ levelsOf q.cteList ++ levelsOfEntries q.rtable

theorem Query.levels_node (q : Query) :
    q.node.levels = ⟨q.commandType, q.rowMarks⟩ :: q.innerLevels := by
  rw [Query.node, Node.levels, Query.innerLevels]

/-- An `EXPLAIN` runs its statement if the last `analyze` option says so. -/
def explainAnalyzes (options : List (String × Bool)) : Bool :=
  (options.filter fun opt => opt.1 == "analyze").getLast?.any fun opt => opt.2

/-- The query that is executed, if it is one with levels. -/
def AnalysedQuery.executed : AnalysedQuery → Option Query
  | .plain q _ => some q
  | .explain (.plain q _) options => if explainAnalyzes options then some q else none
  | _ => none

/-- No executed level locks rows or changes data, and no level calls `nextval`,
`setval` or a function that is not built in. -/
def Query.Reads (sys : SystemObjects) (q : Query) : Prop :=
  (∀ l ∈ q.node.levels, l.Reads) ∧
    ∀ funcid ∈ q.node.calls, funcid < firstNormalObjectId ∧ funcid ∉ sys.functionWriteList

/-- The condition under which the answer is right: what the tests let pass has
no row mark and no data-modifying command on an inner level, and does not call
the function with the first OID of the user. The statement of an
`EXPLAIN ANALYZE` is not tested for row marks and common table expressions, so
there the top level counts too. -/
def AnalysedQuery.TestedEnough (sys : SystemObjects) : AnalysedQuery → Prop
  | .plain q _ => q.commandType = .select → q.hasForUpdate = false →
      q.cteList.all Node.isSelectCte = true → qcHasFunctionCallOrSystemCatalog sys q = false →
      (∀ l ∈ q.innerLevels, l.Reads) ∧ firstNormalObjectId ∉ q.node.calls
  | .explain (.plain q _) options => explainAnalyzes options = true → q.commandType = .select →
      qcHasFunctionCallOrSystemCatalog sys q = false →
      (∀ l ∈ q.node.levels, l.Reads) ∧ firstNormalObjectId ∉ q.node.calls
  | _ => True

def Quiet (sys : SystemObjects) (calls : List Nat) : Prop :=
  ∀ funcid ∈ calls, isWriteFunction sys funcid = false

/-- A walk either goes through with its context unchanged and no call to be
found, or stops with one of the two flags set. -/
def WalkSpec (sys : SystemObjects) (ctx : SelectContext) (calls : List Nat)
    (r : Bool × SelectContext) : Prop :=
  (r = (false, ctx) ∧ Quiet sys calls) ∨
    (r.1 = true ∧ (r.2.hasFunctionCall || r.2.hasSystemCatalog) = true)

section Walk

variable {sys : SystemObjects} {ctx : SelectContext} {calls calls' : List Nat}
  {r : Bool × SelectContext}

theorem WalkSpec.nil : WalkSpec sys ctx [] (false, ctx) := .inl ⟨rfl, nofun⟩

theorem WalkSpec.foundCall : WalkSpec sys ctx calls (true, { ctx with hasFunctionCall := true }) :=
  .inr ⟨rfl, rfl⟩

theorem WalkSpec.foundCatalog :
    WalkSpec sys ctx calls (true, { ctx with hasSystemCatalog := true }) :=
  .inr ⟨rfl, Bool.or_true _⟩

/-- A walk goes on with the next part unless it has stopped. -/
theorem WalkSpec.andThen {next : SelectContext → Bool × SelectContext}
    (h : WalkSpec sys ctx calls r) (h' : WalkSpec sys ctx calls' (next ctx)) :
    WalkSpec sys ctx (calls ++ calls') (QueryCheck.andThen r next) := by
  rcases h with ⟨rfl, hquiet⟩ | ⟨hstop, hflag⟩
  · rcases h' with ⟨hnext, hquiet'⟩ | hfound
    · exact .inl ⟨hnext, List.forall_mem_append.mpr ⟨hquiet, hquiet'⟩⟩
    · exact .inr hfound
  · rw [QueryCheck.andThen, if_pos hstop]
    exact .inr ⟨hstop, hflag⟩

mutual

theorem qcQueryTreeWalker_spec (sys : SystemObjects) : ∀ (n : Node) (ctx : SelectContext),
    WalkSpec sys ctx n.calls (qcQueryTreeWalker sys n ctx)
  | .funcExpr funcid args, ctx => by
    rw [qcQueryTreeWalker, Node.calls]
    split
    · exact WalkSpec.foundCall
    · rename_i hfuncid
      rcases walkNodes_spec sys args ctx with ⟨hwalk, hquiet⟩ | hfound
      · exact .inl ⟨hwalk, List.forall_mem_cons.mpr ⟨Bool.eq_false_iff.mpr hfuncid, hquiet⟩⟩
      · exact .inr hfound
  | .rangeTblFunction funcexpr, ctx => by
    rw [qcQueryTreeWalker, Node.calls]
    split
    · exact WalkSpec.foundCall
    · exact qcQueryTreeWalker_spec sys funcexpr ctx
  | .commonTableExpr _ ctequery clauses, ctx => by
    rw [qcQueryTreeWalker, Node.calls]
    exact (qcQueryTreeWalker_spec sys ctequery ctx).andThen (walkNodes_spec sys clauses ctx)
  | .query _ _ exprs cteList rtable, ctx => by
    rw [qcQueryTreeWalker, Node.calls, List.append_assoc]
    exact (walkNodes_spec sys exprs ctx).andThen
      ((walkNodes_spec sys cteList ctx).andThen (rangeTableWalker_spec sys rtable ctx))
  | .other _ children, ctx => by
    rw [qcQueryTreeWalker, Node.calls]
    exact walkNodes_spec sys children ctx

theorem walkNodes_spec (sys : SystemObjects) : ∀ (ns : List Node) (ctx : SelectContext),
    WalkSpec sys ctx (callsOf ns) (walkNodes sys ns ctx)
  | [], ctx => by
    rw [walkNodes, callsOf]
    exact WalkSpec.nil
  | n :: ns, ctx => by
    rw [walkNodes, callsOf]
    exact (qcQueryTreeWalker_spec sys n ctx).andThen (walkNodes_spec sys ns ctx)

theorem rangeTableEntryWalker_spec (sys : SystemObjects) :
    ∀ (rte : RangeTblEntry) (ctx : SelectContext),
      WalkSpec sys ctx rte.calls (rangeTableEntryWalker sys rte ctx)
  | .mk rtekind relid contents securityQuals, ctx => by
    rw [rangeTableEntryWalker, RangeTblEntry.calls]
    split
    · exact WalkSpec.foundCatalog
    · exact (walkNodes_spec sys contents ctx).andThen (walkNodes_spec sys securityQuals ctx)

theorem rangeTableWalker_spec (sys : SystemObjects) :
    ∀ (rtes : List RangeTblEntry) (ctx : SelectContext),
      WalkSpec sys ctx (callsOfEntries rtes) (rangeTableWalker sys rtes ctx)
  | [], ctx => by
    rw [rangeTableWalker, callsOfEntries]
    exact WalkSpec.nil
  | rte :: rtes, ctx => by
    rw [rangeTableWalker, callsOfEntries]
    exact (rangeTableEntryWalker_spec sys rte ctx).andThen (rangeTableWalker_spec sys rtes ctx)

end

/-- A `SELECT` in which nothing is found calls nothing that is taken for a write. -/
theorem quiet_of_not_hasFunctionCall {q : Query} (hselect : q.commandType = .select)
    (h : qcHasFunctionCallOrSystemCatalog sys q = false) : Quiet sys q.node.calls := by
  rw [qcHasFunctionCallOrSystemCatalog, if_neg (not_not_intro hselect)] at h
  rcases qcQueryTreeWalker_spec sys q.node ⟨false, false⟩ with ⟨-, hquiet⟩ | ⟨-, hflag⟩
  · exact hquiet
  · rw [h] at hflag
    cases hflag

/-- Such a call is built in, or the first function of the user, and not listed. -/
theorem Quiet.harmless (h : Quiet sys calls) (hfirst : firstNormalObjectId ∉ calls) :
    ∀ funcid ∈ calls, funcid < firstNormalObjectId ∧ funcid ∉ sys.functionWriteList := by
  intro funcid hmem
  have hquiet := h funcid hmem
  rw [isWriteFunction, Bool.or_eq_false_iff, decide_eq_false_iff_not, Nat.not_lt] at hquiet
  constructor
  · apply Nat.lt_of_le_of_ne hquiet.1
    rintro rfl
    exact hfirst hmem
  · intro hlisted
    have hne : funcid ≠ 0 := by
      rintro rfl
      exact sys.valid hlisted
    have hblack := hquiet.2
    simp [qcSystemObjectIsInBlacklists, hne, hlisted] at hblack

end Walk

variable {sys : SystemObjects}

theorem selectIsReadOnly_iff {q : Query} :
    selectIsReadOnly sys q = true ↔ q.commandType = .select ∧ q.hasForUpdate = false ∧
      q.cteList.all Node.isSelectCte = true ∧ qcHasFunctionCallOrSystemCatalog sys q = false := by
  unfold selectIsReadOnly
  split_ifs with hselect hmark hcte
  · simp [hselect]
  · simp [hmark]
  · simp [hcte]
  · simp_all

theorem explainIsReadOnly_analyze {q : Query}
    {hmarks : ∀ m ∈ q.rowMarks, m.pushedDown = false} :
    explainIsReadOnly sys (.plain q hmarks) true = true ↔
      q.commandType = .select ∧ qcHasFunctionCallOrSystemCatalog sys q = false := by
  by_cases hselect : q.commandType = .select
  · simp [explainIsReadOnly, hselect]
  · simp [explainIsReadOnly, hselect]

/-- An `EXPLAIN` that runs its statement has the option the module looks for. -/
theorem analyze_of_explainAnalyzes {options : List (String × Bool)}
    (h : explainAnalyzes options = true) : (options.any fun opt => opt.1 == "analyze") = true := by
  unfold explainAnalyzes at h
  cases hlast : (options.filter fun opt => opt.1 == "analyze").getLast? with
  | none =>
    rw [hlast] at h
    cases h
  | some opt =>
    have hmem := List.mem_of_getLast? hlast
    rw [List.mem_filter] at hmem
    exact List.any_eq_true.mpr ⟨opt, hmem⟩

/-- The answer "read-only" is right for an analysed query, at any depth of
nesting and under `EXPLAIN ANALYZE`, exactly where the tests made on one level
were enough. -/
theorem readOnly_sound_iff (sys : SystemObjects) (a : AnalysedQuery) :
    (isReadOnlyQuery sys (some a) = true → ∀ q, a.executed = some q → q.Reads sys) ↔
      a.TestedEnough sys := by
  cases a with
  | plain q hmarks =>
    constructor
    · intro hsound hselect hmark hcte hflag
      have hreads := hsound (selectIsReadOnly_iff.mpr ⟨hselect, hmark, hcte, hflag⟩) q rfl
      rw [Query.Reads, Query.levels_node] at hreads
      refine ⟨(List.forall_mem_cons.mp hreads.1).2, fun hmem => ?_⟩
      exact Nat.lt_irrefl _ (hreads.2 _ hmem).1
    · rintro htested hread _ ⟨⟩
      obtain ⟨hselect, hmark, hcte, hflag⟩ := selectIsReadOnly_iff.mp hread
      obtain ⟨hinner, hfirst⟩ := htested hselect hmark hcte hflag
      -- all marks of the top level are explicit, so that there is none
      have hnone : q.rowMarks = [] := by
        cases hq : q.rowMarks with
        | nil => rfl
        | cons m ms =>
          have hm := hmarks m (hq ▸ List.mem_cons_self)
          simp [Query.hasForUpdate, hq, hm] at hmark
      refine ⟨?_, (quiet_of_not_hasFunctionCall hselect hflag).harmless hfirst⟩
      rw [Query.levels_node]
      exact List.forall_mem_cons.mpr ⟨⟨hnone, .inl hselect⟩, hinner⟩
  | explain equery options =>
    cases equery with
    | plain q hmarks =>
      constructor
      · intro hsound hrun hselect hflag
        have hread : isReadOnlyQuery sys (some (.explain (.plain q hmarks) options)) = true := by
          rw [isReadOnlyQuery, analyze_of_explainAnalyzes hrun]
          exact explainIsReadOnly_analyze.mpr ⟨hselect, hflag⟩
        have hreads := hsound hread q (if_pos hrun)
        exact ⟨hreads.1, fun hmem => Nat.lt_irrefl _ (hreads.2 _ hmem).1⟩
      · intro htested hread q' hq'
        obtain ⟨hrun, rfl⟩ := Option.ite_some_none_eq_some.mp hq'
        have hanalyze := analyze_of_explainAnalyzes hrun
        rw [isReadOnlyQuery, hanalyze] at hread
        obtain ⟨hselect, hflag⟩ := explainIsReadOnly_analyze.mp hread
        obtain ⟨hlevels, hfirst⟩ := htested hrun hselect hflag
        exact ⟨hlevels, (quiet_of_not_hasFunctionCall hselect hflag).harmless hfirst⟩
    | _ => exact ⟨fun _ => trivial, fun _ _ _ => nofun⟩
  | _ => exact ⟨fun _ => trivial, fun _ _ _ => nofun⟩

/-- `nextval` and `setval` with the OIDs of the catalog. -/
def catalogOids : SystemObjects := ⟨[1574, 1576, 1765], [], by decide⟩

/-- `SELECT … FROM t`, with a `FOR UPDATE` or without. -/
def selectFrom (marks : List RowMarkClause) (exprs : List Node) : Query :=
  ⟨.select, marks, exprs, [], [.mk .relation 20000 [] []]⟩

/-- `SELECT … FROM (SELECT … FROM t FOR UPDATE) s` -/
def lockingSubselect : AnalysedQuery :=
  .plain ⟨.select, [], [], [], [.mk .subquery 0 [(selectFrom [⟨1, false⟩] []).node] []]⟩ nofun

/-- `EXPLAIN ANALYZE WITH d AS (DELETE FROM t) SELECT …` -/
def explainedDelete : AnalysedQuery :=
  .explain (.plain ⟨.select, [], [], [.commonTableExpr 0 (.query .delete [] [] [] []) []], []⟩
    nofun) [("analyze", true)]

/-- `SELECT f() FROM t` where `f` was the first object made by a user. -/
def firstUserCall : AnalysedQuery :=
  .plain (selectFrom [] [.funcExpr firstNormalObjectId []]) nofun

/-- Three queries that lock rows, delete rows and call a function of the user,
and are taken for read-only. -/
theorem writes_taken_for_read_only :
    (isReadOnlyQuery catalogOids (some lockingSubselect) = true ∧
      ∃ q, lockingSubselect.executed = some q ∧ ∃ l ∈ q.node.levels, l.rowMarks ≠ []) ∧
    (isReadOnlyQuery catalogOids (some explainedDelete) = true ∧
      ∃ q, explainedDelete.executed = some q ∧ ∃ l ∈ q.node.levels, l.commandType = .delete) ∧
    isReadOnlyQuery catalogOids (some firstUserCall) = true ∧
      ∃ q, firstUserCall.executed = some q ∧ firstNormalObjectId ∈ q.node.calls := by
  refine ⟨⟨rfl, _, rfl, ⟨.select, [⟨1, false⟩]⟩, ?_, List.cons_ne_nil _ _⟩,
    ⟨rfl, _, rfl, ⟨.delete, []⟩, ?_, rfl⟩, rfl, _, rfl, ?_⟩
  · exact List.mem_cons_of_mem _ List.mem_cons_self
  · exact List.mem_cons_of_mem _ List.mem_cons_self
  · exact List.mem_cons_self

end XStore.QueryCheck
