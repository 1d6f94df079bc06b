import XStore.QueryCheck.Records

/-!
# What a transaction reports

The nodes of `trans_records` form a stack that the parent pointers link; each
event takes the stack of a transaction's levels to the next. Work that is
nested in any way therefore leaves at the top what its aborted parts did not
take away, and the pre-commit callback sends that.
-/

namespace XStore.QueryCheck

open Function List

/-- `ps`, innermost first, are distinct nodes that carry the messages `ls` and
whose parent pointers lead from one to the next. -/
def Linked (heap : Nat → Option TransRecords) : List Nat → List (List Message) → Prop
  | [], [] => True
  | p :: ps, l :: ls => heap p = some ⟨l, ps.head?⟩ ∧ p ∉ ps ∧ Linked heap ps ls
  | _, _ => False

/-- The state holds the messages `ls` by level, innermost first, and nothing else. -/
structure QcState.Holds (s : QcState) (ls : List (List Message)) : Prop where
  enabled : s.queryCheckEnabled = true
  linked : Linked s.heap s.transRecords.reverse ls
  current : s.currentTransRecords = s.transRecords.reverse.head?
  live : ∀ p r, s.heap p = some r → p ∈ s.transRecords
  fresh : ∀ p ∈ s.transRecords, p < s.nextPtr

structure QcState.NoRecords (s : QcState) : Prop where
  transRecords : s.transRecords = []
  current : s.currentTransRecords = none
  heap : ∀ p, s.heap p = none

theorem Linked.congr {heap heap' : Nat → Option TransRecords} :
    ∀ {ps : List Nat} {ls : List (List Message)}, Linked heap ps ls →
      (∀ p ∈ ps, heap' p = heap p) → Linked heap' ps ls
  | [], [], _, _ => trivial
  | p :: ps, l :: ls, ⟨hp, hnot, hps⟩, heq => by
    refine ⟨(heq p mem_cons_self).trans hp, hnot, hps.congr fun q hq => ?_⟩
    exact heq q (mem_cons_of_mem p hq)

variable {ls : List (List Message)} {heap : Nat → Option TransRecords}

theorem Linked.update {ps : List Nat}
    {p : Nat} (h : Linked heap ps ls) (hp : p ∉ ps)
    (r : Option TransRecords) : Linked (Function.update heap p r) ps ls := by
  apply h.congr
  intro q hq
  apply update_of_ne
  rintro rfl
  exact hp hq

section Levels

variable {s : QcState} {ls : List (List Message)} {l m : List Message} {p : Nat}

theorem QcState.Holds.last (h : s.Holds (l :: ls)) :
    ∃ ps p, s.transRecords = ps ++ [p] ∧ s.currentTransRecords = some p ∧
      s.heap p = some ⟨l, ps.reverse.head?⟩ ∧ p ∉ ps ∧ Linked s.heap ps.reverse ls := by
  cases hrev : s.transRecords.reverse with
  | nil =>
    have hlinked := h.linked
    rw [hrev] at hlinked
    exact hlinked.elim
  | cons p ps =>
    have hlinked := h.linked
    rw [hrev] at hlinked
    refine ⟨ps.reverse, p, ?_, ?_, ?_, ?_, ?_⟩
    · rw [← reverse_reverse s.transRecords, hrev, reverse_cons]
    · rw [h.current, hrev, head?_cons]
    · rw [reverse_reverse]
      exact hlinked.1
    · rw [mem_reverse]
      exact hlinked.2.1
    · rw [reverse_reverse]
      exact hlinked.2.2

theorem QcState.Holds.transRecords_nil (h : s.Holds []) : s.transRecords = [] := by
  cases hrev : s.transRecords.reverse with
  | nil => exact reverse_eq_nil_iff.mp hrev
  | cons p ps =>
    have hlinked := h.linked
    rw [hrev] at hlinked
    exact hlinked.elim

theorem QcState.Holds.noRecords (h : s.Holds []) : s.NoRecords where
  transRecords := h.transRecords_nil
  current := by
    rw [h.current, h.transRecords_nil]
    rfl
  heap p := by
    cases hp : s.heap p with
    | none => rfl
    | some r =>
      have hmem := h.live p r hp
      rw [h.transRecords_nil] at hmem
      cases hmem

theorem QcState.NoRecords.holds (h : s.NoRecords) (henabled : s.queryCheckEnabled = true) :
    s.Holds [] where
  enabled := henabled
  linked := by
    rw [h.transRecords]
    trivial
  current := by
    rw [h.current, h.transRecords]
    rfl
  live p r hp := by
    rw [h.heap p] at hp
    cases hp
  fresh p hp := by
    rw [h.transRecords] at hp
    cases hp

theorem QcState.Holds.pushRecords (h : s.Holds ls) :
    (s.pushRecords ⟨m, s.currentTransRecords⟩).Holds (m :: ls) where
  enabled := h.enabled
  linked := by
    have hfresh : s.nextPtr ∉ s.transRecords.reverse := by
      intro hmem
      exact Nat.lt_irrefl _ (h.fresh _ (mem_reverse.mp hmem))
    simp only [QcState.pushRecords, reverse_append, reverse_singleton,
      singleton_append]
    refine ⟨?_, hfresh, h.linked.update hfresh _⟩
    rw [update_self, h.current]
  current := by simp [QcState.pushRecords]
  live p r hp := by
    simp only [QcState.pushRecords, mem_append, mem_singleton] at hp ⊢
    by_cases heq : p = s.nextPtr
    · exact .inr heq
    · rw [update_of_ne heq] at hp
      exact .inl (h.live p r hp)
  fresh p hp := by
    simp only [QcState.pushRecords, mem_append, mem_singleton] at hp ⊢
    rcases hp with hp | rfl
    · exact Nat.lt_succ_of_lt (h.fresh p hp)
    · exact Nat.lt_succ_self _

/-- The state with the records of the node at `p` set to `l`. -/
def QcState.setRecords (p : Nat) (l : List Message) (parent : Option Nat) (s : QcState) :
    QcState :=
  { s with heap := Function.update s.heap p (some ⟨l, parent⟩) }

theorem QcState.appendTo_eq {parent : Option Nat} (hp : s.heap p = some ⟨l, parent⟩) :
    s.appendTo p m = some (s.setRecords p (l ++ m) parent) := by
  rw [QcState.appendTo, hp]
  rfl

theorem QcState.Holds.appendTo (h : s.Holds (l :: ls))
    (hp : s.currentTransRecords = some p) :
    ∃ parent, s.appendTo p m = some (s.setRecords p (l ++ m) parent) ∧
      (s.setRecords p (l ++ m) parent).Holds ((l ++ m) :: ls) := by
  obtain ⟨ps, q, htrans, hcur, hheap, hnot, hlinked⟩ := h.last
  obtain rfl : q = p := Option.some.inj (hcur.symm.trans hp)
  refine ⟨_, QcState.appendTo_eq hheap, h.enabled, ?_, h.current, ?_, h.fresh⟩
  · simp only [QcState.setRecords, htrans, reverse_append, reverse_singleton,
      singleton_append]
    rw [← mem_reverse] at hnot
    exact ⟨update_self .., hnot, hlinked.update hnot _⟩
  · intro q' r hq'
    by_cases heq : q' = q
    · rw [heq]
      exact htrans ▸ mem_append_right _ mem_cons_self
    · exact h.live q' r ((update_of_ne heq _ _).symm.trans hq')

/-- The state without the node at `p`, the last of `trans_records`. -/
def QcState.popRecords (ps : List Nat) (p : Nat) (s : QcState) : QcState :=
  { s with
    heap := Function.update s.heap p none
    transRecords := ps
    currentTransRecords := ps.reverse.head? }

/-- Dropping the innermost level frees its node and makes its parent current. -/
theorem QcState.Holds.popRecords (h : s.Holds (l :: ls)) {ps : List Nat}
    (htrans : s.transRecords = ps ++ [p]) (hnot : p ∉ ps)
    (hlinked : Linked s.heap ps.reverse ls) : (s.popRecords ps p).Holds ls where
  enabled := h.enabled
  linked := by
    apply hlinked.update
    rwa [mem_reverse]
  current := rfl
  live q r hq := by
    by_cases heq : q = p
    · have hnone : (s.popRecords ps p).heap q = none := heq ▸ update_self ..
      rw [hnone] at hq
      cases hq
    · have hmem := h.live q r ((update_of_ne heq _ _).symm.trans hq)
      rw [htrans, mem_append, mem_singleton] at hmem
      exact hmem.resolve_right heq
  fresh q hq := h.fresh q (htrans ▸ mem_append_left _ hq)

end Levels

/-- The levels after an event, innermost first; the top level may have none. -/
def levelsAfter : QcEvent → List (List Message) → List (List Message)
  | .record m false, l :: ls => (l ++ [m]) :: ls
  | .record m false, [] => [[m]]
  | .record _ true, ls => ls
  | .subXact .startSub, ls => [] :: ls
  | .subXact .abortSub, ls => ls.tail
  | .subXact .commitSub, l :: l' :: ls => (l' ++ l) :: ls
  | .subXact .commitSub, ls => ls
  | .subXact .preCommitSub, ls => ls

theorem levelsAfter_flatten (event : SubXactEvent)
    (h : ls.flatten = []) : (levelsAfter (.subXact event) ls).flatten = [] := by
  rw [flatten_eq_nil_iff] at h ⊢
  cases event with
  | startSub => simpa [levelsAfter] using h
  | preCommitSub => exact h
  | abortSub => exact fun l hl => h l (mem_of_mem_tail hl)
  | commitSub =>
    match ls with
    | [] => exact h
    | [l] => exact h
    | l :: l' :: ls =>
      simp only [levelsAfter, forall_mem_cons, append_eq_nil_iff] at h ⊢
      exact ⟨⟨h.2.1, h.1⟩, h.2.2⟩

/-- A commit or an abort of a subtransaction needs one to be open. -/
def QcEvent.Enabled : QcEvent → List (List Message) → Prop
  | .subXact .abortSub, ls => ls ≠ []
  | .subXact .commitSub, ls => ls ≠ []
  | _, _ => True

def QcEvent.sessionNotes : QcEvent → List Message
  | .record m true => [m]
  | _ => []

/-- `s'` comes from `s` by events that leave the levels `ls` and add `notes` to
the session-level messages. -/
structure Follows (s : QcState) (ls : List (List Message)) (notes : List Message)
    (s' : QcState) : Prop where
  holds : s'.Holds ls
  session : s'.sessionRecords = s.sessionRecords ++ notes
  unknown : s'.holdUnknownSessionLocks = s.holdUnknownSessionLocks
  sessionLocks : s'.sessionLocks = s.sessionLocks
  inProgress : s'.advisoryLockFunctionInProgress = s.advisoryLockFunctionInProgress

theorem Follows.locks {s s' : QcState} {notes : List Message}
    (h : Follows s ls notes s') (lockHeldByMe : LocalLockTag → Bool) :
    lockReport lockHeldByMe s' = lockReport lockHeldByMe s := by
  rw [lockReport, lockReport, h.unknown, h.sessionLocks, h.inProgress]

theorem Follows.trans {s s' s'' : QcState} {ls ls' : List (List Message)}
    {notes notes' : List Message} (h : Follows s ls notes s') (h' : Follows s' ls' notes' s'') :
    Follows s ls' (notes ++ notes') s'' where
  holds := h'.holds
  session := by rw [h'.session, h.session, append_assoc]
  unknown := h'.unknown.trans h.unknown
  sessionLocks := h'.sessionLocks.trans h.sessionLocks
  inProgress := h'.inProgress.trans h.inProgress

section Events

variable {s s' : QcState} {ls : List (List Message)} {l : List Message}

theorem recordInTransaction_follows (h : s.Holds ls) (m : Message) (isSessionLevel : Bool) :
    ∃ s', recordInTransaction m isSessionLevel s = some s' ∧
      Follows s (levelsAfter (.record m isSessionLevel) ls)
        (QcEvent.record m isSessionLevel).sessionNotes s' := by
  cases isSessionLevel with
  | true => exact ⟨_, rfl, ⟨h.enabled, h.linked, h.current, h.live, h.fresh⟩, rfl, rfl, rfl, rfl⟩
  | false =>
    cases ls with
    | nil =>
      obtain ⟨parent, happend, hholds⟩ := QcState.Holds.appendTo (m := [m])
        (h.pushRecords (m := [])) (p := s.nextPtr) rfl
      have hcur : s.currentTransRecords = none := h.noRecords.current
      rw [hcur] at happend hholds
      refine ⟨_, ?_, hholds, (append_nil _).symm, rfl, rfl, rfl⟩
      simp only [recordInTransaction, hcur]
      exact happend
    | cons l ls =>
      obtain ⟨ps, p, -, hcur, -⟩ := h.last
      obtain ⟨parent, happend, hholds⟩ := h.appendTo (m := [m]) hcur
      refine ⟨_, ?_, hholds, (append_nil _).symm, rfl, rfl, rfl⟩
      simp only [recordInTransaction, hcur]
      exact happend

theorem startSub_follows (h : s.Holds ls) :
    ∃ s', qcSubXactCallback .startSub s = some s' ∧ Follows s ([] :: ls) [] s' := by
  refine ⟨_, ?_, h.pushRecords, (append_nil _).symm, rfl, rfl, rfl⟩
  simp [qcSubXactCallback, h.enabled]

theorem abortSub_follows (h : s.Holds (l :: ls)) :
    ∃ s', qcSubXactCallback .abortSub s = some s' ∧ Follows s ls [] s' := by
  obtain ⟨ps, p, htrans, hcur, hheap, hnot, hlinked⟩ := h.last
  refine ⟨_, ?_, h.popRecords htrans hnot hlinked, (append_nil _).symm, rfl, rfl, rfl⟩
  simp [qcSubXactCallback, QcState.popRecords, h.enabled, htrans, hcur, hheap]

/-- The first subtransaction of a top level that has no record becomes its record. -/
theorem commitSub_follows_top (h : s.Holds [l]) :
    ∃ s', qcSubXactCallback .commitSub s = some s' ∧ Follows s [l] [] s' := by
  obtain ⟨ps, p, htrans, hcur, hheap, hnot, hlinked⟩ := h.last
  have hps : ps.reverse = [] := by
    cases hrev : ps.reverse with
    | nil => rfl
    | cons q qs =>
      rw [hrev] at hlinked
      exact hlinked.elim
  refine ⟨s, ?_, h, (append_nil _).symm, rfl, rfl, rfl⟩
  rw [hps] at hheap
  simp [qcSubXactCallback, h.enabled, htrans, hcur, hheap]

/-- The messages of a committed subtransaction go to the level it was started in. -/
theorem commitSub_follows {l l' : List Message} (h : s.Holds (l :: l' :: ls)) :
    ∃ s', qcSubXactCallback .commitSub s = some s' ∧ Follows s ((l' ++ l) :: ls) [] s' := by
  obtain ⟨ps, p, htrans, hcur, hheap, hnot, hlinked⟩ := h.last
  have hpop := h.popRecords htrans hnot hlinked
  obtain ⟨ps', q, hps, hcur', hheap', -, -⟩ := hpop.last
  obtain rfl : ps = ps' ++ [q] := hps
  have hne : q ≠ p := by
    rintro rfl
    exact hnot (mem_append_right _ mem_cons_self)
  have hq : s.heap q = some ⟨l', ps'.reverse.head?⟩ :=
    (update_of_ne hne _ _).symm.trans hheap'
  cases l with
  | nil =>
    rw [append_nil]
    refine ⟨_, ?_, hpop, (append_nil _).symm, rfl, rfl, rfl⟩
    simp [qcSubXactCallback, QcState.popRecords, h.enabled, htrans, hcur, hheap]
  | cons m l =>
    obtain ⟨parent, happend, hholds⟩ := hpop.appendTo (m := m :: l) hcur'
    obtain rfl : parent = ps'.reverse.head? := by
      have hsame := (QcState.appendTo_eq hheap').symm.trans happend
      have hnode := congrFun (congrArg QcState.heap (Option.some.inj hsame)) q
      simpa [QcState.setRecords] using hnode.symm
    refine ⟨_, ?_, hholds, (append_nil _).symm, rfl, rfl, rfl⟩
    simp [qcSubXactCallback, QcState.popRecords, QcState.setRecords, QcState.appendTo, h.enabled,
      htrans, hcur, hheap, hq, update_comm hne]

/-- An event that finds the level it needs does what `levelsAfter` says. -/
theorem QcEvent.apply_follows (e : QcEvent) (h : s.Holds ls) (he : e.Enabled ls) :
    ∃ s', e.apply s = some s' ∧ Follows s (levelsAfter e ls) e.sessionNotes s' := by
  cases e with
  | record m isSessionLevel => exact recordInTransaction_follows h m isSessionLevel
  | subXact event =>
    cases event with
    | startSub => exact startSub_follows h
    | preCommitSub =>
      refine ⟨s, ?_, h, (append_nil _).symm, rfl, rfl, rfl⟩
      simp [QcEvent.apply, qcSubXactCallback]
    | abortSub =>
      cases ls with
      | nil => exact absurd rfl he
      | cons l ls => exact abortSub_follows h
    | commitSub =>
      cases ls with
      | nil => exact absurd rfl he
      | cons l ls =>
        cases ls with
        | nil => exact commitSub_follows_top h
        | cons l' ls => exact commitSub_follows h

/-- Ending a subtransaction where none is open is not handled. -/
theorem QcEvent.enabled_of_apply (e : QcEvent) (h : s.Holds ls) (he : e.apply s = some s') :
    e.Enabled ls := by
  cases e with
  | record m isSessionLevel => trivial
  | subXact event =>
    cases event with
    | startSub => trivial
    | preCommitSub => trivial
    | abortSub =>
      rintro rfl
      simp [QcEvent.apply, qcSubXactCallback, h.enabled, h.transRecords_nil] at he
    | commitSub =>
      rintro rfl
      simp [QcEvent.apply, qcSubXactCallback, h.enabled, h.transRecords_nil] at he

theorem runEvents_append (es es' : List QcEvent) (s : QcState) :
    runEvents (es ++ es') s = (runEvents es s).bind (runEvents es') := by
  simp [runEvents, foldlM_append]
  rfl

/-- Along any events that are handled the records stay linked. -/
theorem holds_of_runEvents : ∀ {es : List QcEvent} {s : QcState} {ls : List (List Message)},
    s.Holds ls → runEvents es s = some s' →
    ∃ ls', Follows s ls' (es.flatMap QcEvent.sessionNotes) s'
  | [], s, ls, h, hrun => by
    obtain rfl : s = s' := Option.some.inj hrun
    exact ⟨ls, h, (append_nil _).symm, rfl, rfl, rfl⟩
  | e :: es, s, ls, h, hrun => by
    obtain ⟨t, happly, hrest⟩ := Option.bind_eq_some_iff.mp hrun
    obtain ⟨t', happly', hfollows⟩ := e.apply_follows h (e.enabled_of_apply h happly)
    obtain rfl : t = t' := Option.some.inj (happly.symm.trans happly')
    obtain ⟨ls', hfollows'⟩ := holds_of_runEvents hfollows.holds hrest
    exact ⟨ls', hfollows.trans hfollows'⟩

end Events

/-- How a subtransaction ends. An error during its commit still aborts it. -/
inductive SubEnd
  | committed
  | aborted
  | abortedInCommit
  deriving DecidableEq

def SubEnd.events : SubEnd → List QcEvent
  | .committed => [.subXact .preCommitSub, .subXact .commitSub]
  | .aborted => [.subXact .abortSub]
  | .abortedInCommit => [.subXact .preCommitSub, .subXact .abortSub]

/-- What a transaction does: messages, and subtransactions with work of their own. -/
inductive Work
  | done
  | note (msg : Message) (isSessionLevel : Bool) (rest : Work)
  | sub (body : Work) (ending : SubEnd) (rest : Work)
  deriving DecidableEq

namespace Work

/-- The events of the work, in the order they reach the module. -/
def events : Work → List QcEvent
  | done => []
  | note msg isSessionLevel rest => .record msg isSessionLevel :: rest.events
  | sub body ending rest =>
    .subXact .startSub :: (body.events ++ (ending.events ++ rest.events))

/-- The transactional messages recorded outside every aborted subtransaction. -/
def surviving : Work → List Message
  | done => []
  | note msg false rest => msg :: rest.surviving
  | note _ true rest => rest.surviving
  | sub body .committed rest => body.surviving ++ rest.surviving
  | sub _ _ rest => rest.surviving

/-- The session-level messages, whatever became of the subtransactions. -/
def sessionNotes (w : Work) : List Message :=
  w.events.flatMap QcEvent.sessionNotes

end Work

/-- The events are handled from every state with the levels `ls` and leave `ls'`. -/
def Brings (es : List QcEvent) (ls ls' : List (List Message)) : Prop :=
  ∀ s : QcState, s.Holds ls →
    ∃ s', runEvents es s = some s' ∧ Follows s ls' (es.flatMap QcEvent.sessionNotes) s'

section Transactions

variable {es es' : List QcEvent} {ls ls' ls'' : List (List Message)} {l l' : List Message}

theorem Brings.nil : Brings [] ls ls := fun s h =>
  ⟨s, rfl, h, (append_nil _).symm, rfl, rfl, rfl⟩

theorem Brings.event (e : QcEvent) (he : e.Enabled ls) : Brings [e] ls (levelsAfter e ls) := by
  intro s h
  obtain ⟨s', happly, hfollows⟩ := e.apply_follows h he
  refine ⟨s', ?_, ?_⟩
  · rw [runEvents, foldlM_cons, happly]
    rfl
  · rwa [flatMap_singleton]

theorem Brings.append (h : Brings es ls ls') (h' : Brings es' ls' ls'') :
    Brings (es ++ es') ls ls'' := by
  intro s hs
  obtain ⟨t, hrun, hfollows⟩ := h s hs
  obtain ⟨t', hrun', hfollows'⟩ := h' t hfollows.holds
  refine ⟨t', ?_, ?_⟩
  · rw [runEvents_append, hrun]
    exact hrun'
  · rw [flatMap_append]
    exact hfollows.trans hfollows'

/-- A subtransaction that did not commit takes its messages with it. -/
theorem SubEnd.brings_drop {ending : SubEnd} (h : ending ≠ .committed) :
    Brings ending.events (l :: ls) ls := by
  cases ending with
  | committed => exact absurd rfl h
  | aborted => exact .event (.subXact .abortSub) (cons_ne_nil _ _)
  | abortedInCommit =>
    exact Brings.append (.event (.subXact .preCommitSub) trivial)
      (.event (.subXact .abortSub) (cons_ne_nil _ _))

theorem SubEnd.brings_committed (h : levelsAfter (.subXact .commitSub) (l :: ls) = ls') :
    Brings SubEnd.committed.events (l :: ls) ls' :=
  Brings.append (.event (.subXact .preCommitSub) trivial)
    (h ▸ .event (.subXact .commitSub) (cons_ne_nil _ _))

/-- Inside a level that has a record, work appends its surviving messages to it. -/
theorem Work.brings_inner (w : Work) : ∀ l ls,
    Brings w.events (l :: ls) ((l ++ w.surviving) :: ls) := by
  induction w with
  | done =>
    intro l ls
    rw [Work.surviving, append_nil]
    exact Brings.nil
  | note m isSessionLevel rest ih =>
    intro l ls
    cases isSessionLevel with
    | true => exact Brings.append (.event (.record m true) trivial) (ih l ls)
    | false =>
      have hrest := ih (l ++ [m]) ls
      rw [append_assoc] at hrest
      exact Brings.append (.event (.record m false) trivial) hrest
  | sub body ending rest ihBody ihRest =>
    intro l ls
    have hbody := Brings.append (.event (.subXact .startSub) trivial) (ihBody [] (l :: ls))
    by_cases hend : ending = .committed
    · subst hend
      have hrest := ihRest (l ++ body.surviving) ls
      rw [append_assoc] at hrest
      exact hbody.append ((SubEnd.brings_committed rfl).append hrest)
    · have hsurv : (Work.sub body ending rest).surviving = rest.surviving := by
        cases ending with
        | committed => exact absurd rfl hend
        | aborted => rfl
        | abortedInCommit => rfl
      rw [hsurv]
      exact hbody.append ((SubEnd.brings_drop hend).append (ihRest l ls))

/-- At the top level, where no record exists yet, work leaves its surviving
messages in one record, or none at all. -/
theorem Work.brings_top (w : Work) :
    ∃ ls, Brings w.events [] ls ∧ ls.reverse.flatten = w.surviving := by
  induction w with
  | done => exact ⟨[], Brings.nil, rfl⟩
  | note m isSessionLevel rest ih =>
    cases isSessionLevel with
    | true =>
      obtain ⟨ls, hrest, heq⟩ := ih
      exact ⟨ls, Brings.append (.event (.record m true) trivial) hrest, heq⟩
    | false =>
      refine ⟨_, Brings.append (.event (.record m false) trivial) (rest.brings_inner [m] []), ?_⟩
      simp [Work.surviving]
  | sub body ending rest ihBody ihRest =>
    have hbody := Brings.append (.event (.subXact .startSub) trivial) (body.brings_inner [] [])
    cases hend : ending with
    | committed =>
      refine ⟨_, hbody.append ((SubEnd.brings_committed rfl).append
        (rest.brings_inner _ [])), ?_⟩
      simp [Work.surviving]
    | aborted =>
      obtain ⟨ls, hrest, heq⟩ := ihRest
      exact ⟨ls, hbody.append ((SubEnd.brings_drop (by decide)).append hrest), heq⟩
    | abortedInCommit =>
      obtain ⟨ls, hrest, heq⟩ := ihRest
      exact ⟨ls, hbody.append ((SubEnd.brings_drop (by decide)).append hrest), heq⟩

end Transactions

theorem Linked.mapM_records :
    ∀ {ps : List Nat} {ls : List (List Message)}, Linked heap ps ls →
      ps.reverse.mapM (fun p => (heap p).map TransRecords.records) = some ls.reverse
  | [], [], _ => rfl
  | p :: ps, l :: ls, ⟨hp, _, hps⟩ => by
    simp [mapM_append, hps.mapM_records, hp]

/-- The callback sends what the levels hold if the event is a pre-commit, the
session-level messages in any case, and forgets all of them. -/
theorem QcState.Holds.qcXactCallback {s : QcState} (h : s.Holds ls)
    (lockHeldByMe : LocalLockTag → Bool) (event : XactEvent) :
    ∃ s', qcXactCallback lockHeldByMe event s =
        some ((if event.isPreCommit then ls.reverse.flatten else []) ++ s.sessionRecords ++
          lockReport lockHeldByMe s, s') ∧
      s'.NoRecords ∧ s'.sessionRecords = [] ∧ s'.queryCheckEnabled = true ∧
      s'.holdUnknownSessionLocks = s.holdUnknownSessionLocks ∧
      s'.sessionLocks = s.sessionLocks := by
  have hsend : sendTransRecords s = some ls.reverse.flatten := by
    have hmap := h.linked.mapM_records
    rw [reverse_reverse] at hmap
    rw [sendTransRecords, hmap]
    rfl
  have hreset : s.resetTransRecords.NoRecords ∧
      s.resetTransRecords.queryCheckEnabled = true ∧
      s.resetTransRecords.holdUnknownSessionLocks = s.holdUnknownSessionLocks ∧
      s.resetTransRecords.sessionLocks = s.sessionLocks := by
    unfold QcState.resetTransRecords
    split
    · cases ls with
      | nil => exact ⟨h.noRecords, h.enabled, rfl, rfl⟩
      | cons l ls =>
        obtain ⟨ps, p, htrans, -⟩ := h.last
        simp_all
    · exact ⟨⟨rfl, rfl, fun _ => rfl⟩, h.enabled, rfl, rfl⟩
  refine ⟨{ s.resetTransRecords with
    sessionRecords := [], advisoryLockFunctionInProgress := false }, ?_,
    ⟨hreset.1.transRecords, hreset.1.current, hreset.1.heap⟩, rfl, hreset.2⟩
  cases hevent : event.isPreCommit <;> simp [QueryCheck.qcXactCallback, h.enabled, hevent, hsend]

/-- For every nesting of subtransactions, with messages at any point of it:
the events are handled, a pre-commit sends the messages recorded outside every
aborted subtransaction in their order, before those of the session, and no
event of the top transaction leaves a record, also where it comes in the
middle of the work, when only session-level messages are sent unless it is a
pre-commit. -/
theorem reports_surviving_messages (s : QcState) (henabled : s.queryCheckEnabled = true)
    (hidle : s.NoRecords) (w : Work) (lockHeldByMe : LocalLockTag → Bool) :
    (∀ event : XactEvent, event.isPreCommit = true →
      ∃ s' s'', runEvents w.events s = some s' ∧
        qcXactCallback lockHeldByMe event s' =
          some (w.surviving ++ (s.sessionRecords ++ w.sessionNotes) ++
            lockReport lockHeldByMe s, s'') ∧
        s''.NoRecords ∧ s''.sessionRecords = []) ∧
    ∀ es, es <+: w.events → ∀ event : XactEvent,
      ∃ s' sent s'', runEvents es s = some s' ∧
        qcXactCallback lockHeldByMe event s' = some (sent, s'') ∧
        (event.isPreCommit = false → sent = s.sessionRecords ++
          es.flatMap QcEvent.sessionNotes ++ lockReport lockHeldByMe s) ∧
        s''.NoRecords ∧ s''.sessionRecords = [] := by
  have hholds := hidle.holds henabled
  obtain ⟨ls, hbrings, hflat⟩ := w.brings_top
  obtain ⟨s', hrun, hfollows⟩ := hbrings s hholds
  constructor
  · intro event hevent
    obtain ⟨s'', hcall, hno, hsession, -⟩ := hfollows.holds.qcXactCallback lockHeldByMe event
    refine ⟨s', s'', hrun, ?_, hno, hsession⟩
    rw [hcall, hevent, if_pos rfl, hflat, hfollows.session, hfollows.locks, Work.sessionNotes]
  · intro es hes event
    obtain ⟨rest, hsplit⟩ := hes
    rw [← hsplit, runEvents_append] at hrun
    obtain ⟨t, hrunEs, -⟩ := Option.bind_eq_some_iff.mp hrun
    obtain ⟨ls', hfollows'⟩ := holds_of_runEvents hholds hrunEs
    obtain ⟨t', hcall, hno, hsession, -⟩ := hfollows'.holds.qcXactCallback lockHeldByMe event
    refine ⟨t, _, t', hrunEs, hcall, ?_, hno, hsession⟩
    intro hevent
    rw [hevent, hfollows'.session, hfollows'.locks]
    simp

theorem QcState.initial_noRecords : QcState.initial.NoRecords := ⟨rfl, rfl, fun _ => rfl⟩

/-- A table made in a committed subtransaction survives the abort of a later one. -/
def nestedWork : Work :=
  .sub (.note (.createTempTable "a") false
      (.sub (.note (.createTempTable "b") false .done) .aborted .done)) .committed
    (.note .resetAll false .done)

theorem nestedWork_is_reported :
    ∃ s' s'', runEvents nestedWork.events QcState.initial = some s' ∧
      qcXactCallback (fun _ => false) .preCommit s' =
        some ([.createTempTable "a", .resetAll], s'') ∧ s''.NoRecords := by
  obtain ⟨s', s'', hrun, hcall, hno, -⟩ := (reports_surviving_messages QcState.initial rfl
    QcState.initial_noRecords nestedWork fun _ => false).1 .preCommit rfl
  exact ⟨s', s'', hrun, hcall, hno⟩

end XStore.QueryCheck
