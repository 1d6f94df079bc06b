import XStore.QueryCheck.Levels

/-!
# Switching `query_check.enabled` on inside a transaction

The callback for subtransactions returns at once while the option is off, so
that a subtransaction that starts then has no record. When it ends with the
option on, the callback takes the last record all the same.
-/

namespace XStore.QueryCheck

open Option

/-- `query_check_enabled_check_hook` -/
def queryCheckEnabledCheckHook (s : QcState) (newval : Bool) : Bool :=
  !(s.queryCheckEnabled && !newval)

/-- A session in a transaction, with the record that each open subtransaction pushed when it
started, innermost first. -/
structure QcSession where
  qc : QcState
  started : List (Option Nat)

/-- `restore` is the end of a setting: it brings the old value back without the hook, and where a
subtransaction aborts it comes after the callback. -/
inductive SessionEvent
  | set (newval : Bool)
  | restore (oldval : Bool)
  | record (msg : Message) (isSessionLevel : Bool)
  | subXact (event : SubXactEvent)

namespace QcSession

def assign (value : Bool) (t : QcSession) : QcSession :=
  { t with qc := { t.qc with queryCheckEnabled := value } }

def after (t : QcSession) (qc : QcState) : SubXactEvent → QcSession
  | .startSub => ⟨qc, (qc.transRecords.drop t.qc.transRecords.length).head? :: t.started⟩
  | .commitSub => ⟨qc, t.started.tail⟩
  | .abortSub => ⟨qc, t.started.tail⟩
  | .preCommitSub => ⟨qc, t.started⟩

/-- The hooks record nothing while the option is off. -/
def apply (t : QcSession) : SessionEvent → Option QcSession
  | .set newval => some (if queryCheckEnabledCheckHook t.qc newval then t.assign newval else t)
  | .restore oldval => some (t.assign oldval)
  | .record msg isSessionLevel =>
    if t.qc.queryCheckEnabled = false then some t
    else (recordInTransaction msg isSessionLevel t.qc).map fun qc => { t with qc := qc }
  | .subXact event => (qcSubXactCallback event t.qc).map (t.after · event)

/-- Each event of the run meets `P` in the state it comes in. -/
def Along (P : QcSession → SessionEvent → Prop) : List SessionEvent → QcSession → Prop
  | [], _ => True
  | e :: es, t => P t e ∧ ∀ t', t.apply e = some t' → Along P es t'

/-- Only an open subtransaction is committed or aborted. -/
def Nested (t : QcSession) : SessionEvent → Prop
  | .subXact .commitSub => t.started ≠ []
  | .subXact .abortSub => t.started ≠ []
  | _ => True

/-- The callback has the record of the subtransaction that ends as the last one, and does
nothing where that has none. -/
def FindsOwn (t : QcSession) (event : SubXactEvent) : Prop :=
  match t.started with
  | some p :: _ => t.qc.transRecords.getLast? = some p
  | _ => qcSubXactCallback event t.qc = some t.qc

/-- The event is handled, and the end of a subtransaction finds its record. -/
def Safe (t : QcSession) (e : SessionEvent) : Prop :=
  (t.apply e).isSome = true ∧
    (e = .subXact .commitSub → t.FindsOwn .commitSub) ∧ (e = .subXact .abortSub → t.FindsOwn .abortSub)

/-- The option changes only where no subtransaction is open. -/
def SwitchedOutside (t : QcSession) : SessionEvent → Prop
  | .set newval => t.qc.queryCheckEnabled = false → newval = true → t.started = []
  | .restore oldval => t.qc.queryCheckEnabled ≠ oldval → t.started = []
  | _ => True

/-- While the option is on, the open subtransactions have the last records; while it is off, none
of them has a record. -/
structure Balanced (t : QcSession) : Prop where
  holds : ∃ ls, (t.assign true).qc.Holds ls
  on : t.qc.queryCheckEnabled = true → ∃ base ps, t.started = List.map some ps ∧
    t.qc.transRecords = base ++ ps.reverse
  off : t.qc.queryCheckEnabled = false → ∀ r ∈ t.started, r = none

section Steps

variable {s s' : QcState} {ls : List (List Message)} {t : QcSession} {ps : List Nat} {p : Nat}
  {isSessionLevel : Bool} {msg : Message}

theorem callback_off (h : s.queryCheckEnabled = false) (event : SubXactEvent) :
    qcSubXactCallback event s = some s := by
  unfold qcSubXactCallback
  exact if_pos h

theorem appendTo_transRecords {records : List Message} (hs : s.appendTo p records = some s') :
    s'.transRecords = s.transRecords := by
  obtain ⟨r, -, rfl⟩ := map_eq_some_iff.mp hs
  rfl

theorem abortSub_transRecords (h : s.Holds ls) (htrans : s.transRecords = ps ++ [p])
    (hs : qcSubXactCallback .abortSub s = some s') : s'.transRecords = ps := by
  simp only [qcSubXactCallback, h.enabled, Bool.true_eq_false, if_false, htrans, List.getLast?_concat,
    bind_eq_bind, bind_some, bind_eq_some_iff] at hs
  obtain ⟨r, -, hs⟩ := hs
  split_ifs at hs
  cases hs
  exact List.dropLast_concat

/-- A commit takes the last record away, unless it is the only one. -/
theorem commitSub_transRecords (h : s.Holds ls) (htrans : s.transRecords = ps ++ [p])
    (hs : qcSubXactCallback .commitSub s = some s') :
    s'.transRecords = ps ∨ ps = [] ∧ s'.transRecords = [p] := by
  obtain ⟨l, ls, rfl⟩ : ∃ l ls', ls = l :: ls' := by
    cases ls with
    | nil => simp [h.transRecords_nil] at htrans
    | cons l ls => exact ⟨l, ls, rfl⟩
  obtain ⟨qs, q, hlast, hcur, hheap, -, -⟩ := h.last
  obtain ⟨rfl, hq⟩ := List.append_inj' (hlast.symm.trans htrans) rfl
  obtain rfl : q = p := List.head_eq_of_cons_eq hq
  simp only [qcSubXactCallback, h.enabled, Bool.true_eq_false, if_false, htrans, List.getLast?_concat, hheap,
    hcur, bind_eq_bind, bind_some, List.dropLast_concat, if_true] at hs
  cases hparent : qs.reverse.head? with
  | none =>
    obtain rfl : qs = [] := by simpa using hparent
    cases hs
    exact .inr ⟨rfl, htrans⟩
  | some q' =>
    simp only [hparent] at hs
    split_ifs at hs
    · cases hs
      exact .inl rfl
    · obtain ⟨s'', hs'', hs⟩ := bind_eq_some_iff.mp hs
      cases hs
      exact .inl (appendTo_transRecords hs'')

/-- A message makes a record only where there is none. -/
theorem record_transRecords (h : s.Holds ls)
    (hs : recordInTransaction msg isSessionLevel s = some s') :
    ∃ base, s'.transRecords = base ++ s.transRecords := by
  cases isSessionLevel with
  | true =>
    cases hs
    exact ⟨[], rfl⟩
  | false =>
    cases hcur : s.currentTransRecords with
    | some p =>
      simp only [recordInTransaction, hcur] at hs
      exact ⟨[], appendTo_transRecords hs⟩
    | none =>
      simp only [recordInTransaction, hcur] at hs
      have hnil : s.transRecords = [] := by simpa using h.current.symm.trans hcur
      refine ⟨[s.nextPtr], (appendTo_transRecords hs).trans ?_⟩
      rw [QcState.pushRecords, hnil]
      rfl

theorem balanced_begin (h : s.NoRecords) : Balanced ⟨s, []⟩ where
  holds := ⟨[], QcState.NoRecords.holds ⟨h.transRecords, h.current, h.heap⟩ rfl⟩
  on _ := ⟨[], [], rfl, h.transRecords⟩
  off _ _ hr := by cases hr

theorem Balanced.holds_on (h : t.Balanced) (hon : t.qc.queryCheckEnabled = true) : ∃ ls, t.qc.Holds ls := by
  obtain ⟨ls, hls⟩ := h.holds
  exact ⟨ls, hon, hls.linked, hls.current, hls.live, hls.fresh⟩

theorem Balanced.assign (h : t.Balanced) {value : Bool} (hs : t.qc.queryCheckEnabled ≠ value → t.started = []) :
    (t.assign value).Balanced := by
  by_cases hsame : t.qc.queryCheckEnabled = value
  · subst hsame
    exact h
  · refine ⟨h.holds, fun _ => ⟨t.qc.transRecords, [], hs hsame, (List.append_nil _).symm⟩, fun _ r hr => ?_⟩
    have hnil : (t.assign value).started = [] := hs hsame
    rw [hnil] at hr
    cases hr

theorem balanced_of_follows {s₀ : QcState} {notes : List Message} (h : Follows s₀ ls notes s) (base : List Nat)
    (htrans : s.transRecords = base ++ ps.reverse) : Balanced ⟨s, ps.map some⟩ where
  holds := ⟨ls, rfl, h.holds.linked, h.holds.current, h.holds.live, h.holds.fresh⟩
  on _ := ⟨base, ps, rfl, htrans⟩
  off hoff := absurd (h.holds.enabled.symm.trans hoff) (by decide)

theorem Balanced.record (h : t.Balanced) :
    ∃ t', t.apply (.record msg isSessionLevel) = some t' ∧ t'.Balanced := by
  cases henabled : t.qc.queryCheckEnabled with
  | false => exact ⟨t, if_pos henabled, h⟩
  | true =>
    obtain ⟨ls, hholds⟩ := h.holds_on henabled
    obtain ⟨base, ps, hstarted, htrans⟩ := h.on henabled
    obtain ⟨s', hs', hfollows⟩ := recordInTransaction_follows hholds msg isSessionLevel
    obtain ⟨base', hbase⟩ := record_transRecords hholds hs'
    refine ⟨⟨s', ps.map some⟩, ?_, balanced_of_follows hfollows (base' ++ base) ?_⟩
    · simp [apply, henabled, hs', hstarted]
    · rw [hbase, htrans, List.append_assoc]

theorem Balanced.subXact_off (h : t.Balanced) (hoff : t.qc.queryCheckEnabled = false) (event : SubXactEvent) :
    (t.after t.qc event).Balanced := by
  have hkeep : ∀ rs : List (Option Nat), (∀ r ∈ rs, r = none) → Balanced ⟨t.qc, rs⟩ := fun rs hrs =>
    ⟨h.holds, fun hon => absurd (hon.symm.trans hoff) (by decide), fun _ => hrs⟩
  have htail : Balanced ⟨t.qc, t.started.tail⟩ := hkeep _ fun r hr => h.off hoff r (List.mem_of_mem_tail hr)
  cases event with
  | startSub =>
    refine hkeep _ ?_
    simpa using h.off hoff
  | preCommitSub => exact h
  | commitSub => exact htail
  | abortSub => exact htail

/-- With the option on, a subtransaction pushes the record that it finds at its end. -/
theorem Balanced.subXact_on (h : t.Balanced) (hon : t.qc.queryCheckEnabled = true) {event : SubXactEvent}
    (hn : t.Nested (.subXact event)) :
    ∃ s', qcSubXactCallback event t.qc = some s' ∧ (t.after s' event).Balanced := by
  obtain ⟨ls, hholds⟩ := h.holds_on hon
  obtain ⟨base, ps, hstarted, htrans⟩ := h.on hon
  have hps : t.started ≠ [] → ∃ q qs, ps = q :: qs := fun hne => by
    cases ps with
    | nil => exact absurd hstarted hne
    | cons q qs => exact ⟨q, qs, rfl⟩
  have hls : t.started ≠ [] → ls ≠ [] := by
    rintro hne rfl
    obtain ⟨q, qs, rfl⟩ := hps hne
    simp [hholds.transRecords_nil] at htrans
  have henabled : QcEvent.Enabled (.subXact event) ls := by
    cases event with
    | startSub => trivial
    | preCommitSub => trivial
    | commitSub => exact hls hn
    | abortSub => exact hls hn
  obtain ⟨s', hs', hfollows⟩ := QcEvent.apply_follows (.subXact event) hholds henabled
  change qcSubXactCallback event t.qc = some s' at hs'
  refine ⟨s', hs', ?_⟩
  cases event with
  | startSub =>
    have hpush : s' = t.qc.pushRecords ⟨[], t.qc.currentTransRecords⟩ := by
      simpa [qcSubXactCallback, hon] using hs'.symm
    have hstart : t.after s' .startSub = ⟨s', (t.qc.nextPtr :: ps).map some⟩ := by
      simp [after, hpush, QcState.pushRecords, hstarted]
    rw [hstart]
    refine balanced_of_follows hfollows base ?_
    simp [hpush, QcState.pushRecords, htrans]
  | preCommitSub =>
    obtain rfl : t.qc = s' := by simpa [qcSubXactCallback] using hs'
    exact h
  | commitSub =>
    obtain ⟨q, qs, rfl⟩ := hps hn
    rw [List.reverse_cons, ← List.append_assoc] at htrans
    rw [after, hstarted]
    rcases commitSub_transRecords hholds htrans hs' with hrest | ⟨hnil, hone⟩
    · exact balanced_of_follows hfollows base hrest
    · obtain ⟨-, hqs⟩ := List.append_eq_nil_iff.mp hnil
      obtain rfl : qs = [] := List.reverse_eq_nil_iff.mp hqs
      exact (balanced_of_follows hfollows [q] hone : Balanced ⟨s', List.map some []⟩)
  | abortSub =>
    obtain ⟨q, qs, rfl⟩ := hps hn
    rw [List.reverse_cons, ← List.append_assoc] at htrans
    rw [after, hstarted]
    exact balanced_of_follows hfollows base (abortSub_transRecords hholds htrans hs')

theorem Balanced.findsOwn (h : t.Balanced) (hne : t.started ≠ []) (event : SubXactEvent) : t.FindsOwn event := by
  unfold FindsOwn
  cases henabled : t.qc.queryCheckEnabled with
  | true =>
    obtain ⟨base, ps, hstarted, htrans⟩ := h.on henabled
    cases ps with
    | nil => exact absurd hstarted hne
    | cons p ps =>
      rw [hstarted, htrans, List.reverse_cons, ← List.append_assoc]
      exact List.getLast?_concat
  | false =>
    cases hstarted : t.started with
    | nil => exact callback_off henabled event
    | cons r rs =>
      obtain rfl : r = none := h.off henabled r (hstarted ▸ List.mem_cons_self)
      exact callback_off henabled event

theorem Balanced.step (h : t.Balanced) {e : SessionEvent} (hn : t.Nested e) (hs : t.SwitchedOutside e) :
    t.Safe e ∧ ∀ t', t.apply e = some t' → t'.Balanced := by
  obtain ⟨t', ht', hbal⟩ : ∃ t', t.apply e = some t' ∧ t'.Balanced := by
    cases e with
    | set newval =>
      refine ⟨_, rfl, ?_⟩
      split_ifs with hhook
      · refine h.assign fun hne => ?_
        cases henabled : t.qc.queryCheckEnabled <;> cases newval <;>
          simp_all [queryCheckEnabledCheckHook, SwitchedOutside]
      · exact h
    | restore oldval => exact ⟨_, rfl, h.assign hs⟩
    | record msg isSessionLevel => exact h.record
    | subXact event =>
      cases henabled : t.qc.queryCheckEnabled with
      | false => exact ⟨_, congrArg (Option.map _) (callback_off henabled event), h.subXact_off henabled event⟩
      | true =>
        obtain ⟨s', hs', hbal⟩ := h.subXact_on henabled hn
        exact ⟨_, congrArg (Option.map _) hs', hbal⟩
  refine ⟨⟨ht' ▸ rfl, ?_, ?_⟩, fun u hu => Option.some.inj (ht'.symm.trans hu) ▸ hbal⟩
  · rintro rfl
    exact h.findsOwn hn _
  · rintro rfl
    exact h.findsOwn hn _

theorem Balanced.along {es : List SessionEvent} (h : t.Balanced) (hn : Along Nested es t)
    (hs : Along SwitchedOutside es t) : Along Safe es t := by
  induction es generalizing t with
  | nil => trivial
  | cons e es ih =>
    obtain ⟨hsafe, hnext⟩ := h.step hn.1 hs.1
    exact ⟨hsafe, fun t' ht' => ih (hnext t' ht') (hn.2 t' ht') (hs.2 t' ht')⟩

end Steps

end QcSession

open QcSession

/-- In a transaction in which the option changes only outside of subtransactions, each of these
finds its own record when it ends. -/
theorem subtransactions_find_own_records (s : QcState) (h : s.NoRecords) (es : List SessionEvent)
    (hnested : Along Nested es ⟨s, []⟩) (hswitched : Along SwitchedOutside es ⟨s, []⟩) : Along Safe es ⟨s, []⟩ :=
  (balanced_begin h).along hnested hswitched

def switchedOff : QcSession := ⟨{ QcState.initial with queryCheckEnabled := false }, []⟩

theorem switch_then_savepoint_is_safe :
    Along Safe [.set true, .subXact .startSub, .subXact .commitSub] switchedOff := by
  refine subtransactions_find_own_records _ ⟨rfl, rfl, fun _ => rfl⟩ _ ?_ ?_
  · simp [Along, Nested, apply, after, assign, qcSubXactCallback, queryCheckEnabledCheckHook]
  · simp [Along, SwitchedOutside]

/-- `SAVEPOINT`, the switch, and then `RELEASE` takes the last record of an empty list; with a
message before it, `ROLLBACK TO` drops a record that the savepoint did not make. -/
theorem switch_inside_savepoint_is_unsafe :
    (Along Nested [.subXact .startSub, .set true, .subXact .commitSub] switchedOff ∧
      ¬ Along Safe [.subXact .startSub, .set true, .subXact .commitSub] switchedOff) ∧
    Along Nested [.subXact .startSub, .set true, .record .closeAll false, .subXact .abortSub] switchedOff ∧
      ¬ Along Safe [.subXact .startSub, .set true, .record .closeAll false, .subXact .abortSub] switchedOff := by
  refine ⟨⟨?_, fun h => ?_⟩, ?_, fun h => ?_⟩
  · simp [Along, Nested, apply, after, assign, qcSubXactCallback, queryCheckEnabledCheckHook, switchedOff]
  · exact absurd ((h.2 _ rfl).2 _ rfl).1.1 (by decide)
  · simp [Along, Nested, apply, after, assign, qcSubXactCallback, queryCheckEnabledCheckHook, switchedOff]
  · have hskipped := (((h.2 _ rfl).2 _ rfl).2 _ rfl).1.2.2 rfl
    exact absurd (congrArg (Option.map QcState.transRecords) hskipped) (by decide)

end XStore.QueryCheck
