import XStore.Rollback.Workers

/-!
# One worker for each rollback request

A worker that is on its way has the launcher waiting for it, at an element of the array that carries its
transaction and no process id.  A worker that is entered holds such an element, and no other worker holds
one for the same transaction.  Both fail once a worker is late.
-/
namespace XStore

open Option Function

namespace WorkerSys

/-- The table has the entry that the request was copied from. -/
def Present (s : WorkerSys) (r : UndoRequestInfo) : Prop := ∃ e, s.table r.key = some e ∧ e.info = r

variable (n : Nat)

/-- No worker is about to clear the element. -/
def Unfreed (s : WorkerSys) (idx : Nat) : Prop := ∀ p w, s.workers p = some w → ¬ w.phase.Frees idx

def Expected (s : WorkerSys) (r : UndoRequestInfo) : Prop :=
  ∃ idx starts, s.launcher = .waiting idx r starts ∧ (s.slots idx).pid = none ∧
    (s.slots idx).xid = r.fullXid ∧ s.Present r

/-- The worker is entered in the array for this request. -/
def Holds (s : WorkerSys) (p : Nat) (r : UndoRequestInfo) : Prop :=
  ∃ i < n, (s.slots i).pid = some p ∧ (s.slots i).xid = r.fullXid

def Linked (s : WorkerSys) (p : Nat) (w : UndoWorker) : Prop :=
  match w.phase with
  | .starting => s.Expected w.startedFor
  | .connecting r => r = w.startedFor ∧ s.Expected r
  | .entered r d =>
    r = w.startedFor ∧ s.Holds n p r ∧ s.Present r ∧ (d = false → s.databases r.dbid = false)
  | .executing r => r = w.startedFor ∧ s.Holds n p r ∧ s.Present r
  | .executed r => r = w.startedFor ∧ s.Holds n p r ∧ s.Present r ∧ s.finished r.key = true
  | .dropping r => r = w.startedFor ∧ s.Holds n p r ∧ s.Present r ∧ s.databases r.dbid = false
  | .exiting _ | .freeing _ _ | .leaving _ => True

structure Inv (s : WorkerSys) : Prop where
  keys : ∀ k e, s.table k = some e → e.info.key = k ∧ e.fullXid ≠ 0
  distinct : ∀ i < n, ∀ j < n, (s.slots i).xid ≠ 0 → (s.slots i).xid = (s.slots j).xid → i = j
  unused : ∀ i < n, (s.slots i).xid = 0 → (s.slots i).pid = none
  owner : ∀ i < n, ∀ p, (s.slots i).pid = some p → ∃ w, s.workers p = some w ∧ w.phase.OwnsSlot
  owned_once : ∀ i < n, ∀ j < n, ∀ p, (s.slots i).pid = some p → (s.slots j).pid = some p → i = j
  waiting : ∀ idx r starts, s.launcher = .waiting idx r starts → idx < n ∧ r.fullXid ≠ 0 ∧
    s.mailbox = some r ∧ ((s.slots idx).xid ≠ 0 → (s.slots idx).xid = r.fullXid ∧
      ((s.slots idx).pid = none → s.Unfreed idx → s.Present r))
  fresh : ∀ idx r, s.launcher = .waiting idx r 0 → s.Quiet idx
  linked : ∀ p w, s.workers p = some w → s.Linked n p w
  alone : ∀ p q v w, s.workers p = some v → s.workers q = some w → v.phase.Pending → w.phase.Pending →
    p = q
  freed : ∀ p w i, s.workers p = some w → w.phase.Frees i →
    i < n ∧ (s.slots i).pid = none ∧ (s.slots i).xid ≠ 0 ∧
      ∀ r k, s.launcher = .waiting i r k → ∀ q v, s.workers q = some v → ¬ v.phase.Pending
  freed_once : ∀ p q v w i, s.workers p = some v → s.workers q = some w → v.phase.Frees i →
    w.phase.Frees i → p = q
  none_lost : s.lost = []

variable {n} {s s' : WorkerSys} {p q i idx k : Nat} {w : UndoWorker} {r r' : UndoRequestInfo}
  {phase : UndoWorkerPhase} {t : Nat × Nat → Option RollbackHashEntry}

theorem findSlot_some {p : UndoApplyWorker → Bool} (h : s.findSlot n p = some i) :
    i < n ∧ p (s.slots i) = true := by
  have hp := List.find?_some (p := fun i => p (s.slots i)) h
  exact ⟨List.mem_range.mp (List.mem_of_find?_eq_some h), hp⟩

theorem findSlot_none {p : UndoApplyWorker → Bool} (h : s.findSlot n p = none) (hi : i < n) :
    p (s.slots i) = false := by
  simpa using List.find?_eq_none.mp h i (List.mem_range.mpr hi)

theorem init_inv : Inv n init where
  keys := fun k e h => by cases h
  distinct := fun i _ j _ h => absurd rfl h
  unused := fun i _ _ => rfl
  owner := fun i _ p h => by cases h
  owned_once := fun i _ j _ p h => by cases h
  waiting := fun idx r k h => by cases h
  fresh := fun idx r h => by cases h
  linked := fun p w h => by cases h
  alone := fun p q v w h => by cases h
  freed := fun p w i h => by cases h
  freed_once := fun p q v w i h => by cases h
  none_lost := rfl

/-- Two workers that are entered for the same transaction are the same. -/
theorem Inv.holds_unique (h : Inv n s) (hr : r.fullXid ≠ 0)
    (hp : s.Holds n p r) (hq : s.Holds n q r') (heq : r.fullXid = r'.fullXid) : p = q := by
  obtain ⟨i, hi, hpid, hxid⟩ := hp
  obtain ⟨j, hj, hpid', hxid'⟩ := hq
  obtain rfl := h.distinct i hi j hj (hxid ▸ hr) (by rw [hxid, hxid', heq])
  exact Option.some.inj (hpid.symm.trans hpid')

theorem Inv.present_ne_zero (h : Inv n s) (hr : s.Present r) : r.fullXid ≠ 0 := by
  obtain ⟨e, he, rfl⟩ := hr
  exact (h.keys _ e he).2

theorem Inv.exclusive (h : Inv n s) : s.Exclusive where
  one_worker := by
    intro p q v w r r' hp hq hv hw hkey
    have hlp := h.linked p v hp
    have hlq := h.linked q w hq
    rw [Linked, hv] at hlp
    rw [Linked, hw] at hlq
    exact h.holds_unique (h.present_ne_zero hlp.2.2) hlp.2.1 hlq.2.1 (congrArg Prod.fst hkey)
  own_request := by
    intro p w r hp hr
    have hl := h.linked p w hp
    rw [Linked] at hl
    cases hphase : w.phase <;> rw [hphase] at hl hr <;> simp only [UndoWorkerPhase.request?] at hr <;>
      cases hr
    all_goals exact hl.1
  none_lost := h.none_lost

/-- A worker keeps what it has if the step leaves it alone. -/
theorem Linked.mono (hl : s.Linked n p w)
    (hexpected : w.phase.Pending → s.Expected w.startedFor → s'.Expected w.startedFor)
    (hholds : s.Holds n p w.startedFor → s.Present w.startedFor →
      s'.Holds n p w.startedFor ∧ s'.Present w.startedFor)
    (hdatabases : ∀ d, s.databases d = false → s'.databases d = false)
    (hfinished : s.Present w.startedFor → s.finished w.startedFor.key = true →
      s'.finished w.startedFor.key = true) : s'.Linked n p w := by
  cases hphase : w.phase <;>
    simp only [Linked, hphase, UndoWorkerPhase.Pending] at hl hexpected ⊢ <;> grind

theorem Holds.setSlot_of_ne {entry : UndoApplyWorker} (h : s.Holds n p r)
    (hi : (s.slots i).pid ≠ some p) : (s.setSlot i entry).Holds n p r := by
  obtain ⟨j, hj, hpid, hxid⟩ := h
  have hji : j ≠ i := by
    rintro rfl
    exact hi hpid
  rw [← slots_setSlot_of_ne s hji entry] at hpid hxid
  exact ⟨j, hj, hpid, hxid⟩

theorem Expected.mono (h : s.Expected r)
    (hlauncher : s'.launcher = s.launcher) (hslots : s'.slots = s.slots)
    (hpresent : s.Present r → s'.Present r) : s'.Expected r := by
  obtain ⟨idx, k, hwait, hpid, hxid, hr⟩ := h
  exact ⟨idx, k, hlauncher ▸ hwait, hslots ▸ hpid, hslots ▸ hxid, hpresent hr⟩

/-- The table changes, but keeps what the workers and the launcher rely on. -/
theorem Inv.setTable (h : Inv n s)
    {f : Nat × Nat → Bool} (hkeys : ∀ k e, t k = some e → e.info.key = k ∧ e.fullXid ≠ 0)
    (hpresent : ∀ r, s.Present r → Present { s with table := t, finished := f } r)
    (hfinished : ∀ r, s.Present r → s.finished r.key = true → f r.key = true) :
    Inv n { s with table := t, finished := f } := by
  refine { h with keys := hkeys, waiting := ?_, linked := ?_ }
  · intro idx r k hwait
    obtain ⟨hlt, hr, hmail, hslot⟩ := h.waiting idx r k hwait
    exact ⟨hlt, hr, hmail, fun hx => ⟨(hslot hx).1, fun hp hu => hpresent r ((hslot hx).2 hp hu)⟩⟩
  · intro p w hw
    exact (h.linked p w hw).mono (fun _ he => he.mono rfl rfl (hpresent _))
      (fun hh hp => ⟨hh, hpresent _ hp⟩) (fun _ hd => hd) (hfinished _)

/-- Entries may change in what is not copied to the request. -/
theorem Inv.setEntries (h : Inv n s)
    (ht : ∀ k, (t k).map RollbackHashEntry.info = (s.table k).map RollbackHashEntry.info) :
    Inv n { s with table := t } := by
  apply h.setTable
  · intro k e he
    have hk : some e.info = (s.table k).map RollbackHashEntry.info := by
      rw [← ht k, he, map_some]
    obtain ⟨e', he', hinfo⟩ := map_eq_some_iff.mp hk.symm
    have hkey := h.keys k e' he'
    have hxid : e'.fullXid = e.fullXid := congrArg UndoRequestInfo.fullXid hinfo
    exact ⟨hinfo ▸ hkey.1, hxid ▸ hkey.2⟩
  · rintro r ⟨e, he, hinfo⟩
    have hk := ht r.key
    rw [he, map_some, hinfo] at hk
    exact map_eq_some_iff.mp hk
  · intro _ _ hf
    exact hf

theorem Inv.markProgress (h : Inv n s) (key : Nat × Nat) (b : Bool) : Inv n (s.markProgress key b) := by
  apply h.setEntries
  intro k
  by_cases hk : k = key
  · subst hk
    rw [update_self, map_map]
    rfl
  · rw [update_of_ne hk]

theorem Inv.setPhase (h : Inv n s) (hw : s.workers p = some w)
    (hlinked : s.Linked n p { w with phase := phase })
    (hown : w.phase.OwnsSlot → phase.OwnsSlot ∨ ∀ i < n, (s.slots i).pid ≠ some p)
    (hpend : phase.Pending → w.phase.Pending)
    (hfrees : ∀ i, ¬ w.phase.Frees i ∧ ¬ phase.Frees i) : Inv n (s.setPhase p w phase) := by
  obtain ⟨keys, distinct, unused, owner, owned_once, waiting, fresh, linked, alone, freed, freed_once, none_lost⟩ := h
  constructor
  case linked =>
    intro q v hq
    rcases workers_setPhase s hq with ⟨rfl, rfl⟩ | ⟨-, hq⟩
    · exact hlinked
    · exact linked q v hq
  all_goals
    simp only [WorkerSys.setPhase, Quiet, Present, Unfreed, update_apply]
    grind [Quiet, Present, Unfreed]

section

variable (h : Inv n s)

include h

section

variable (hw : s.workers p = some w)

include hw

theorem Inv.read
    (hphase : w.phase = .starting) (hmail : s.mailbox = some r) :
    Inv n (s.setPhase p w (.connecting r)) := by
  have hl := h.linked p w hw
  rw [Linked, hphase] at hl
  have hr : r = w.startedFor := by
    obtain ⟨idx, k, hwait, -⟩ := hl
    exact Option.some.inj (hmail.symm.trans (h.waiting idx _ k hwait).2.2.1)
  apply h.setPhase hw
  · exact ⟨hr, hr ▸ hl⟩
  · intro hown
    rw [hphase] at hown
    exact hown.elim
  · intro _
    rw [hphase]
    trivial
  · simp [hphase, UndoWorkerPhase.Frees]

theorem Inv.exit (hfrees : ∀ i, ¬ w.phase.Frees i)
    (curr : Option UndoRequestInfo) : Inv n (s.setPhase p w (.exiting curr)) :=
  h.setPhase hw trivial (fun _ => .inl trivial) (fun hp => hp.elim) (fun i => ⟨hfrees i, id⟩)

theorem Inv.mark {d : Bool}
    (hphase : w.phase = .entered r d) :
    Inv n ((s.markProgress r.key true).setPhase p w
      (if d && (s.table r.key).isSome then .executing r else .dropping r)) := by
  have hl := (h.markProgress r.key true).linked p w hw
  have hl' := h.linked p w hw
  rw [Linked, hphase] at hl hl'
  obtain ⟨hr, hholds, hpresent, hgone⟩ := hl
  have hsome : (s.table r.key).isSome = true := by
    obtain ⟨e, he, -⟩ := hl'.2.2.1
    rw [he]
    rfl
  apply (h.markProgress r.key true).setPhase hw
  · cases d with
    | true =>
      rw [hsome]
      exact ⟨hr, hholds, hpresent⟩
    | false => exact ⟨hr, hholds, hpresent, hgone rfl⟩
  · intro _
    left
    split <;> trivial
  · intro hp
    split at hp <;> exact hp.elim
  · intro i
    rw [hphase]
    split <;> exact ⟨id, id⟩

theorem Inv.succeed
    (hphase : w.phase = .executing r) :
    Inv n ({ s with finished := Function.update s.finished r.key true }.setPhase p w (.executed r)) := by
  have hl := h.linked p w hw
  rw [Linked, hphase] at hl
  have hinv : Inv n { s with finished := Function.update s.finished r.key true } := by
    apply h.setTable (f := Function.update s.finished r.key true) h.keys (fun _ hr => hr)
    intro r' _ hf
    by_cases hk : r'.key = r.key
    · rw [hk, update_self]
    · rw [update_of_ne hk, hf]
  apply hinv.setPhase hw
  · exact ⟨hl.1, hl.2.1, hl.2.2, update_self ..⟩
  · exact fun _ => .inl trivial
  · exact fun hp => hp.elim
  · simp [hphase, UndoWorkerPhase.Frees]

theorem Inv.fail (hphase : w.phase = .executing r) :
    Inv n ((s.markProgress r.key false).setPhase p w (.exiting (some r))) :=
  (h.markProgress r.key false).exit hw (by simp [hphase, UndoWorkerPhase.Frees]) (some r)

end

theorem Inv.expected_of_pending (hw : s.workers p = some w)
    (hp : w.phase.Pending) : s.Expected w.startedFor := by
  have hl := h.linked p w hw
  rw [Linked] at hl
  cases hphase : w.phase <;> rw [hphase] at hl hp
  case starting => exact hl
  case connecting r => exact hl.1 ▸ hl.2
  all_goals exact hp.elim

theorem Inv.not_pending_of_idle (hidle : s.launcher = .idle)
    (hw : s.workers p = some w) : ¬ w.phase.Pending := by
  intro hp
  obtain ⟨idx, k, hwait, -⟩ := h.expected_of_pending hw hp
  rw [hidle] at hwait
  cases hwait

theorem Inv.fullXid_ne_of_holds (hr : r.fullXid ≠ 0)
    (hholds : s.Holds n p r) (hidx : idx < n) (hpid : (s.slots idx).pid = none) :
    (s.slots idx).xid ≠ r.fullXid := by
  intro hxid
  obtain ⟨i, hi, hpid', hxid'⟩ := hholds
  obtain rfl := h.distinct i hi idx hidx (hxid' ▸ hr) (hxid'.trans hxid.symm)
  rw [hpid] at hpid'
  cases hpid'

/-- A worker that holds an element of the array is the only one with its request. -/
theorem Inv.removeEntry {curr : Option UndoRequestInfo}
    (hw : s.workers p = some w) (hphase : w.phase = .exiting curr)
    (hholds : s.Holds n p r) (hpresent : s.Present r)
    (hdone : s.finished r.key = true ∨ s.databases r.dbid = false) : Inv n (s.removeEntry r.key) := by
  have hr := h.present_ne_zero hpresent
  have hkeep : ∀ r', s.Present r' → r'.fullXid ≠ r.fullXid → (s.removeEntry r.key).Present r' := by
    rintro r' ⟨e, he, hinfo⟩ hne
    exact ⟨e, (update_of_ne (fun hk => hne (congrArg Prod.fst hk)) ..).trans he, hinfo⟩
  refine { h with keys := ?_, waiting := ?_, linked := ?_, none_lost := ?_ }
  · intro k e he
    by_cases hk : k = r.key
    · subst hk
      have hnone : (s.removeEntry r.key).table r.key = none := update_self ..
      rw [hnone] at he
      cases he
    · exact h.keys k e ((update_of_ne hk ..).symm.trans he)
  · intro idx r' k hwait
    obtain ⟨hlt, hr', hmail, hslot⟩ := h.waiting idx r' k hwait
    refine ⟨hlt, hr', hmail, fun hx => ⟨(hslot hx).1, fun hp hu => ?_⟩⟩
    apply hkeep r' ((hslot hx).2 hp hu)
    rw [← (hslot hx).1]
    exact h.fullXid_ne_of_holds hr hholds hlt hp
  · intro q v hv
    by_cases hq : q = p
    · subst hq
      obtain rfl := Option.some.inj (hw.symm.trans hv)
      rw [Linked, hphase]
      trivial
    · refine (h.linked q v hv).mono ?_ ?_ (fun _ hd => hd) (fun _ hf => hf)
      · rintro - ⟨idx, k, hwait, hpid, hxid, hp⟩
        refine ⟨idx, k, hwait, hpid, hxid, hkeep _ hp ?_⟩
        rw [← hxid]
        exact h.fullXid_ne_of_holds hr hholds (h.waiting idx _ k hwait).1 hpid
      · intro hh hp
        refine ⟨hh, hkeep _ hp ?_⟩
        intro hx
        exact hq (h.holds_unique (h.present_ne_zero hp) hh hholds hx)
  · obtain ⟨e, he, rfl⟩ := hpresent
    have hlost : (s.removeEntry e.info.key).lost = s.lost := by
      have hif : (s.finished e.info.key || !s.databases e.dbid) = true := by
        rcases hdone with hd | hd
        · rw [hd, Bool.true_or]
        · rw [show s.databases e.dbid = false from hd, Bool.not_false, Bool.or_true]
      simp only [WorkerSys.removeEntry, he, if_pos hif]
    exact hlost.trans h.none_lost

theorem Inv.remove
    (hw : s.workers p = some w) (hfrees : ∀ i, ¬ w.phase.Frees i)
    (hholds : s.Holds n p r) (hpresent : s.Present r)
    (hdone : s.finished r.key = true ∨ s.databases r.dbid = false) :
    Inv n ((s.removeEntry r.key).setPhase p w (.exiting (some r))) :=
  (h.exit hw hfrees (some r)).removeEntry (update_self ..) rfl hholds hpresent hdone

/-- The worker enters itself where the launcher waits for it. -/
theorem Inv.enter (hw : s.workers p = some w) (hphase : w.phase = .connecting r)
    (hi : i < n) (hxid : (s.slots i).xid = r.fullXid) :
    Inv n ((s.setSlot i { s.slots i with pid := some p }).setPhase p w
      (.entered r (s.databases r.dbid))) := by
  have hl := h.linked p w hw
  rw [Linked, hphase] at hl
  obtain ⟨hr, idx, k, hwait, hpid, hxidx, hpresent⟩ := hl
  have hpend : w.phase.Pending := by
    rw [hphase]
    trivial
  have hnone : ¬ w.phase.OwnsSlot := by
    rw [hphase]
    exact id
  have hzero := h.present_ne_zero hpresent
  obtain rfl : i = idx := h.distinct i hi idx (h.waiting idx r k hwait).1
    (hxid ▸ hzero) (hxid.trans hxidx.symm)
  obtain ⟨keys, distinct, unused, owner, owned_once, waiting, fresh, linked, alone, freed, freed_once, none_lost⟩ := h
  constructor
  case linked =>
    intro q v hq
    rcases workers_setPhase _ hq with ⟨rfl, rfl⟩ | ⟨hqp, hq⟩
    · refine ⟨hr, ⟨i, hi, ?_, ?_⟩, hpresent, fun hd => hd⟩ <;>
        simp only [WorkerSys.setPhase, setSlot, update_self]
      exact hxid
    · refine (linked q v hq).mono ?_ ?_ (fun _ hd => hd) (fun _ hf => hf)
      · -- the worker that was on its way was the only one
        exact fun hvp => absurd (alone q p v w hq hw hvp hpend) hqp
      · exact fun hh hp => ⟨hh.setSlot_of_ne (by rw [hpid]; exact nofun), hp⟩
  all_goals
    simp only [WorkerSys.setPhase, setSlot, Quiet, Present, Unfreed, update_apply]
    grind [UndoWorkerPhase.OwnsSlot, UndoWorkerPhase.Pending, UndoWorkerPhase.Frees, Quiet, Present, Unfreed]

theorem Inv.left (curr : Option UndoRequestInfo) (hw : s.workers p = some w)
    (hphase : w.phase = .exiting curr) (hnone : ∀ i < n, (s.slots i).pid ≠ some p) :
    Inv n (s.setPhase p w (.leaving curr)) :=
  h.setPhase hw trivial (fun _ => .inr hnone) (fun hp => hp.elim)
    (by simp [hphase, UndoWorkerPhase.Frees])

/-- The worker takes its id from the element, where the launcher may still be waiting for nobody. -/
theorem Inv.free
    (hw : s.workers p = some w) (hphase : w.phase = .exiting curr) (hi : i < n)
    (hpid : (s.slots i).pid = some p) :
    Inv n ((s.setSlot i { s.slots i with pid := none }).setPhase p w (.freeing i curr)) := by
  have hexpected : ∀ q v, s.workers q = some v → v.phase.Pending → s.Expected v.startedFor :=
    fun q v => h.expected_of_pending
  obtain ⟨keys, distinct, unused, owner, owned_once, waiting, fresh, linked, alone, freed, freed_once,
    none_lost⟩ := h
  constructor
  case linked =>
    intro q v hq
    rcases workers_setPhase _ hq with ⟨rfl, rfl⟩ | ⟨hqp, hq⟩
    · trivial
    · refine (linked q v hq).mono ?_ ?_ (fun _ hd => hd) (fun _ hf => hf)
      · rintro - ⟨idx, k, hwait, hnone, hxid, hp⟩
        have hne : idx ≠ i := by
          rintro rfl
          rw [hnone] at hpid
          cases hpid
        rw [← slots_setSlot_of_ne s hne { s.slots i with pid := none }] at hnone hxid
        exact ⟨idx, k, hwait, hnone, hxid, hp⟩
      · intro hh hp
        refine ⟨hh.setSlot_of_ne ?_, hp⟩
        rw [hpid]
        exact fun heq => hqp (Option.some.inj heq).symm
  case freed =>
    simp only [WorkerSys.setPhase, setSlot, update_apply]
    grind [UndoWorkerPhase.Frees, UndoWorkerPhase.Pending, Expected]
  all_goals
    simp only [WorkerSys.setPhase, setSlot, Quiet, Present, Unfreed, update_apply]
    grind [UndoWorkerPhase.OwnsSlot, UndoWorkerPhase.Pending, UndoWorkerPhase.Frees, Quiet, Present, Unfreed]

/-- The worker clears the transaction of the element, which nobody has taken in the meantime. -/
theorem Inv.clear
    (hw : s.workers p = some w) (hphase : w.phase = .freeing i curr) :
    Inv n ((s.clearXid i).setPhase p w (.leaving curr)) := by
  obtain ⟨keys, distinct, unused, owner, owned_once, waiting, fresh, linked, alone, freed, freed_once,
    none_lost⟩ := h
  have hfrees : w.phase.Frees i := by
    rw [hphase]
    rfl
  obtain ⟨hi, hpid, hxid, hnone⟩ := freed p w i hw hfrees
  constructor
  case linked =>
    intro q v hq
    rcases workers_setPhase _ hq with ⟨rfl, rfl⟩ | ⟨hqp, hq⟩
    · trivial
    · refine (linked q v hq).mono ?_ ?_ (fun _ hd => hd) (fun _ hf => hf)
      · rintro hpend ⟨idx, k, hwait, hidx, hx, hp⟩
        have hne : idx ≠ i := by
          rintro rfl
          exact hnone _ k hwait q v hq hpend
        rw [← slots_setSlot_of_ne s hne { s.slots i with xid := 0, startRecptr := 0 }] at hidx hx
        exact ⟨idx, k, hwait, hidx, hx, hp⟩
      · exact fun hh hp => ⟨hh.setSlot_of_ne (by rw [hpid]; exact nofun), hp⟩
  all_goals
    simp only [WorkerSys.setPhase, WorkerSys.clearXid, setSlot, Quiet, Present, Unfreed, update_apply]
    grind [UndoWorkerPhase.OwnsSlot, UndoWorkerPhase.Pending, UndoWorkerPhase.Frees, Quiet, Present, Unfreed]

theorem Inv.leave (hw : s.workers p = some w) (hphase : w.phase = .leaving curr) :
    Inv n { s with workers := Function.update s.workers p none } := by
  have hnone : ¬ w.phase.OwnsSlot := by
    rw [hphase]
    exact id
  obtain ⟨keys, distinct, unused, owner, owned_once, waiting, fresh, linked, alone, freed, freed_once, none_lost⟩ := h
  constructor
  case linked =>
    intro q v hq
    apply linked q v
    grind
  all_goals
    simp only [Quiet, Present, Unfreed, update_apply]
    grind [UndoWorkerPhase.Frees, Quiet, Present, Unfreed]

end

section

variable (h : Inv n s)

include h

theorem Inv.register (hr : r.fullXid ≠ 0)
    (hnone : s.table r.key = none) :
    Inv n { s with
      table := Function.update s.table r.key (some r.entry)
      finished := Function.update s.finished r.key false } := by
  have hother : ∀ r', s.Present r' → r'.key ≠ r.key := by
    rintro r' ⟨e, he, -⟩ hk
    rw [hk, hnone] at he
    cases he
  apply h.setTable
  · intro k e he
    by_cases hk : k = r.key
    · subst hk
      rw [update_self] at he
      cases he
      exact ⟨rfl, hr⟩
    · rw [update_of_ne hk] at he
      exact h.keys k e he
  · intro r' hr'
    obtain ⟨e, he, hinfo⟩ := id hr'
    exact ⟨e, (update_of_ne (hother r' hr') ..).trans he, hinfo⟩
  · intro r' hr' hf
    rwa [update_of_ne (hother r' hr')]

theorem Inv.dropDatabase (dbid : Nat) :
    Inv n { s with databases := Function.update s.databases dbid false } := by
  refine { h with linked := ?_ }
  intro p w hw
  refine (h.linked p w hw).mono (fun _ he => he) (fun hh hp => ⟨hh, hp⟩) ?_ (fun _ hf => hf)
  intro d hd
  by_cases hdb : d = dbid
  · exact hdb ▸ update_self ..
  · exact (update_of_ne hdb ..).trans hd

/-- With nobody on the way the launcher may stop waiting. -/
theorem Inv.idle (hquiet : ∀ p w, s.workers p = some w → ¬ w.phase.Pending) :
    Inv n { s with launcher := .idle } := by
  refine { h with waiting := ?_, fresh := ?_, linked := ?_, freed := ?_ }
  · intro idx r k hwait
    cases hwait
  · intro idx r hwait
    cases hwait
  case refine_4 =>
    intro p w i hw hf
    obtain ⟨hi, hpid, hxid, -⟩ := h.freed p w i hw hf
    exact ⟨hi, hpid, hxid, fun r k hwait => by cases hwait⟩
  · intro p w hw
    exact (h.linked p w hw).mono (fun hp => absurd hp (hquiet p w hw)) (fun hh hp => ⟨hh, hp⟩)
      (fun _ hd => hd) (fun _ hf => hf)

/-- The launcher gives back an element where nobody is entered. -/
theorem Inv.clearXid (hidle : s.launcher = .idle) (hpid : (s.slots i).pid = none) (hunfreed : s.Unfreed i) :
    Inv n (s.clearXid i) := by
  have hnone : ∀ q v, s.workers q = some v → ¬ v.phase.Pending := fun q v => h.not_pending_of_idle hidle
  obtain ⟨keys, distinct, unused, owner, owned_once, waiting, fresh, linked, alone, freed, freed_once,
    none_lost⟩ := h
  constructor
  case linked =>
    intro q v hv
    refine (linked q v hv).mono ?_ ?_ (fun _ hd => hd) (fun _ hf => hf)
    · exact fun hp => absurd hp (hnone q v hv)
    · exact fun hh hp => ⟨hh.setSlot_of_ne (by rw [hpid]; exact nofun), hp⟩
  all_goals
    simp only [WorkerSys.clearXid, setSlot, Quiet, Present, Unfreed, update_apply]
    grind [Quiet, Present, Unfreed]

theorem Inv.pick {key : Nat × Nat} {e : RollbackHashEntry}
    (hidle : s.launcher = .idle) (he : s.table key = some e) (hidx : idx < n)
    (hzero : (s.slots idx).xid = 0) (hnew : ∀ i < n, (s.slots i).xid ≠ e.fullXid) :
    Inv n { s.setSlot idx { s.slots idx with xid := e.fullXid, startRecptr := e.startUrecPtr } with
      mailbox := some e.info
      launcher := .waiting idx e.info 0 } := by
  have hxid : e.info.fullXid ≠ 0 := (h.keys key e he).2
  have hpid : (s.slots idx).pid = none := h.unused idx hidx hzero
  have hpresent : s.Present e.info := ⟨e, (h.keys key e he).1 ▸ he, rfl⟩
  have hnone : ∀ q v, s.workers q = some v → ¬ v.phase.Pending := fun q v => h.not_pending_of_idle hidle
  have hinfo : e.info.fullXid = e.fullXid := rfl
  obtain ⟨keys, distinct, unused, owner, owned_once, waiting, fresh, linked, alone, freed, freed_once, none_lost⟩ := h
  constructor
  case linked =>
    intro q v hv
    refine (linked q v hv).mono ?_ ?_ (fun _ hd => hd) (fun _ hf => hf)
    · exact fun hp => absurd hp (hnone q v hv)
    · exact fun hh hp => ⟨hh.setSlot_of_ne (by rw [hpid]; exact nofun), hp⟩
  all_goals
    simp only [setSlot, Quiet, Present, Unfreed, update_apply]
    grind [Present]

end

theorem Inv.start (h : Inv n s) (hwait : s.launcher = .waiting idx r k) (hp : s.workers p = none)
    (hquiet : s.Quiet idx) :
    Inv n { s with
      workers := Function.update s.workers p (some ⟨r, .starting⟩)
      launcher := .waiting idx r (k + 1) } := by
  obtain ⟨hpid, hxid, hnone⟩ := hquiet
  obtain ⟨keys, distinct, unused, owner, owned_once, waiting, fresh, linked, alone, freed, freed_once, none_lost⟩ := h
  constructor
  case linked =>
    intro q v hq
    by_cases hqp : q = p
    · obtain rfl : v = ⟨r, .starting⟩ := by simpa [hqp] using hq.symm
      obtain ⟨-, -, -, hslot⟩ := waiting idx r k hwait
      exact ⟨idx, k + 1, rfl, hpid, (hslot hxid).1, (hslot hxid).2 hpid fun q v hv => (hnone q v hv).2⟩
    · have hq : s.workers q = some v := by simpa [hqp] using hq
      exact (linked q v hq).mono (fun hv => absurd hv (hnone q v hq).1) (fun hh hp => ⟨hh, hp⟩)
        (fun _ hd => hd) (fun _ hf => hf)
  all_goals
    simp only [Quiet, Present, Unfreed, update_apply]
    grind [UndoWorkerPhase.Frees, Present, Unfreed]

theorem Inv.startFails (h : Inv n s)
    (hwait : s.launcher = .waiting idx r k) :
    Inv n { s with launcher := .waiting idx r (k + 1) } := by
  refine { h with waiting := ?_, fresh := ?_, linked := ?_, freed := ?_ }
  · intro idx' r' k' hwait'
    cases hwait'
    exact h.waiting idx r k hwait
  · intro idx' r' hwait'
    cases hwait'
  case refine_4 =>
    intro p w i hw hf
    obtain ⟨hi, hpid, hxid, hnone⟩ := h.freed p w i hw hf
    refine ⟨hi, hpid, hxid, fun r' k' hwait' => ?_⟩
    cases hwait'
    exact hnone r k hwait
  · intro q v hv
    refine (h.linked q v hv).mono ?_ (fun hh hp => ⟨hh, hp⟩) (fun _ hd => hd) (fun _ hf => hf)
    rintro - ⟨idx', k', hwait', hrest⟩
    rw [hwait] at hwait'
    cases hwait'
    exact ⟨idx, k + 1, rfl, hrest⟩

theorem Inv.seen (h : Inv n s)
    (hwait : s.launcher = .waiting idx r k) (hseen : (s.slots idx).xid = 0 ∨ (s.slots idx).pid ≠ none) :
    Inv n { s with launcher := .idle } := by
  apply h.idle
  intro p w hw hp
  obtain ⟨idx', k', hwait', hpid, hxid, hpresent⟩ := h.expected_of_pending hw hp
  rw [hwait] at hwait'
  cases hwait'
  rcases hseen with hzero | hne
  · exact h.present_ne_zero hpresent (hxid.symm.trans hzero)
  · exact hne hpid

/-- A step of a run in which every worker is on time keeps the invariant. -/
theorem Inv.step (h : Inv n s) {a : WorkerAct} (htime : s.OnTime a)
    (hstep : s.step n a = some s') : Inv n s' := by
  cases a with
  | register r =>
    simp only [WorkerSys.step] at hstep
    split at hstep
    · cases hstep
    · next hr =>
      split at hstep
      · cases hstep
        exact h
      · next hnone =>
        cases hstep
        exact h.register hr (not_isSome_iff_eq_none.mp hnone)
  | dropDatabase dbid =>
    cases hstep
    exact h.dropDatabase dbid
  | delay key =>
    simp only [WorkerSys.step] at hstep
    split at hstep
    · next e _ he =>
      split at hstep
      · cases hstep
        apply h.setEntries
        intro k
        by_cases hk : k = key
        · rw [hk, update_self, he]
          rfl
        · rw [update_of_ne hk]
      · cases hstep
    · cases hstep
  | pick key =>
    simp only [WorkerSys.step] at hstep
    split at hstep
    · next e idx hidle he hfree =>
      split at hstep
      · next hpick =>
        cases hstep
        obtain ⟨hidx, hzero⟩ := findSlot_some hfree
        apply h.pick hidle he hidx (of_decide_eq_true hzero)
        intro i hi
        exact of_decide_eq_false (findSlot_none hpick.2.2 hi)
      · cases hstep
    · cases hstep
  | start pid =>
    simp only [WorkerSys.step] at hstep
    split at hstep
    · next idx r k hwait hnone =>
      split at hstep
      · cases hstep
        apply h.start hwait hnone
        rcases Nat.eq_zero_or_pos k with rfl | hk
        · exact h.fresh idx r hwait
        · exact htime idx r k hwait hk
      · cases hstep
    · cases hstep
  | startFails =>
    simp only [WorkerSys.step] at hstep
    split at hstep
    · next idx r k hwait =>
      split at hstep
      · cases hstep
        exact h.startFails hwait
      · cases hstep
    · cases hstep
  | startError =>
    simp only [WorkerSys.step] at hstep
    split at hstep
    · next idx r k hwait =>
      cases hstep
      obtain ⟨hpid, -, hquiet⟩ := htime idx r k hwait
      exact (h.idle fun p w hw => (hquiet p w hw).1).clearXid rfl hpid fun p w hw => (hquiet p w hw).2
    · cases hstep
  | seen =>
    simp only [WorkerSys.step] at hstep
    split at hstep
    · next idx r k hwait =>
      split at hstep
      · next hseen =>
        cases hstep
        exact h.seen hwait hseen.2
      · cases hstep
    · cases hstep
  | giveUp =>
    simp only [WorkerSys.step] at hstep
    split at hstep
    · next idx r k hwait =>
      split at hstep
      · cases hstep
        obtain ⟨hpid, -, hquiet⟩ := htime idx r k hwait
        exact (h.idle fun p w hw => (hquiet p w hw).1).clearXid rfl hpid fun p w hw => (hquiet p w hw).2
      · cases hstep
    · cases hstep
  | restart =>
    simp only [WorkerSys.step] at hstep
    split at hstep
    · next i hfree =>
      cases hstep
      exact (h.idle fun p w hw => (htime p w hw).1).clearXid rfl (of_decide_eq_true (findSlot_some hfree).2)
        fun p w hw => (htime p w hw).2 i
    · cases hstep
      exact h.idle fun p w hw => (htime p w hw).1
  | read pid =>
    obtain ⟨w, hw, hstep⟩ := bind_eq_some_iff.mp hstep
    split at hstep
    · next r hphase hmail =>
      cases hstep
      exact h.read hw hphase hmail
    · cases hstep
  | enter pid =>
    obtain ⟨w, hw, hstep⟩ := bind_eq_some_iff.mp hstep
    split at hstep
    · next r hphase =>
      split at hstep
      · next i hfound =>
        cases hstep
        obtain ⟨hi, hxid⟩ := findSlot_some hfound
        exact h.enter hw hphase hi (of_decide_eq_true hxid)
      · next hfound =>
        -- the launcher still waits, so the element is there
        have hpend : w.phase.Pending := by
          rw [hphase]
          trivial
        obtain ⟨idx, k, hwait, -, hxid, -⟩ := h.expected_of_pending hw hpend
        have hl := h.linked pid w hw
        rw [Linked, hphase] at hl
        have hne := of_decide_eq_false (findSlot_none hfound (h.waiting idx _ k hwait).1)
        exact absurd (hl.1 ▸ hxid) hne
    · cases hstep
  | mark pid =>
    obtain ⟨w, hw, hstep⟩ := bind_eq_some_iff.mp hstep
    split at hstep
    · next r d hphase =>
      cases hstep
      exact h.mark hw hphase
    · cases hstep
  | succeed pid =>
    obtain ⟨w, hw, hstep⟩ := bind_eq_some_iff.mp hstep
    split at hstep
    · next r hphase =>
      cases hstep
      exact h.succeed hw hphase
    · cases hstep
  | fail pid =>
    obtain ⟨w, hw, hstep⟩ := bind_eq_some_iff.mp hstep
    split at hstep
    · next r hphase =>
      cases hstep
      exact h.fail hw hphase
    · cases hstep
  | remove pid =>
    obtain ⟨w, hw, hstep⟩ := bind_eq_some_iff.mp hstep
    have hl := h.linked pid w hw
    rw [Linked] at hl
    split at hstep
    · next r hphase =>
      cases hstep
      rw [hphase] at hl
      exact h.remove hw (by simp [hphase, UndoWorkerPhase.Frees]) hl.2.1 hl.2.2.1 (.inl hl.2.2.2)
    · next r hphase =>
      cases hstep
      rw [hphase] at hl
      exact h.remove hw (by simp [hphase, UndoWorkerPhase.Frees]) hl.2.1 hl.2.2.1 (.inr hl.2.2.2)
    · cases hstep
  | die pid =>
    obtain ⟨w, hw, hstep⟩ := bind_eq_some_iff.mp hstep
    split at hstep <;> cases hstep <;> apply h.exit hw <;> intro i <;> simp_all [UndoWorkerPhase.Frees]
  | free pid =>
    obtain ⟨w, hw, hstep⟩ := bind_eq_some_iff.mp hstep
    split at hstep
    · next curr hphase =>
      split at hstep
      · next i hfound =>
        cases hstep
        obtain ⟨hi, hpid⟩ := findSlot_some hfound
        exact h.free hw hphase hi (of_decide_eq_true hpid)
      · next hfound =>
        cases hstep
        exact h.left curr hw hphase (fun i hi => of_decide_eq_false (findSlot_none hfound hi))
    · cases hstep
  | clear pid =>
    obtain ⟨w, hw, hstep⟩ := bind_eq_some_iff.mp hstep
    split at hstep
    · next i curr hphase =>
      cases hstep
      exact h.clear hw hphase
    · cases hstep
  | leave pid =>
    obtain ⟨w, hw, hstep⟩ := bind_eq_some_iff.mp hstep
    split at hstep
    · next r hphase =>
      cases hstep
      exact (h.markProgress r.key false).leave hw hphase
    · next hphase =>
      cases hstep
      exact h.leave hw hphase
    · cases hstep

theorem OnTimeRun.inv (h : OnTimeRun n s) : Inv n s := by
  induction h with
  | init => exact init_inv
  | step _ htime hstep ih => exact ih.step htime hstep

/-- The worker is late, so the launcher starts another one; both read the request and execute it. -/
def twoStarted : List WorkerAct :=
  [.register ⟨10, 100, 200, 5, 40⟩, .pick (10, 100), .start 1, .start 2, .read 1, .read 2, .enter 1, .enter 2,
    .mark 1, .mark 2]

/-- The launcher gives the worker up and goes on to the next request, which the late worker then reads. -/
def mailboxOverwritten : List WorkerAct :=
  [.register ⟨10, 100, 200, 5, 40⟩, .register ⟨11, 300, 400, 5, 80⟩, .pick (10, 100), .start 1, .startFails,
    .giveUp, .pick (11, 300), .start 2, .read 1, .enter 1, .mark 1]

/-- The launcher is started anew between the two writes of a worker that ends.  It gives the element to the
next request, the second write clears that, and the launcher picks the request again. -/
def elementClearedTwice : List WorkerAct :=
  [.register ⟨10, 100, 200, 5, 40⟩, .register ⟨11, 300, 400, 5, 80⟩, .pick (10, 100), .start 1, .read 1, .enter 1,
    .mark 1, .seen, .succeed 1, .remove 1, .free 1, .restart, .pick (11, 300), .start 2, .read 2, .clear 1,
    .enter 2, .seen, .pick (11, 300), .start 3, .read 3, .enter 3, .mark 2, .mark 3]

/-- Two workers execute one request, and a worker executes another request than its own. -/
theorem late_workers_collide : (∃ s, run 4 .init twoStarted = some s ∧ ¬ s.Exclusive) ∧
    (∃ s, run 4 .init mailboxOverwritten = some s ∧ s.workers 1 =
      some ⟨⟨10, 100, 200, 5, 40⟩, .executing ⟨11, 300, 400, 5, 80⟩⟩) ∧
    ∃ s, run 4 .init elementClearedTwice = some s ∧ ¬ s.Exclusive := by
  refine ⟨⟨_, rfl, fun h => ?_⟩, ⟨_, rfl, rfl⟩, _, rfl, fun h => ?_⟩
  · exact absurd (h.one_worker 1 2 _ _ _ _ rfl rfl rfl rfl rfl) (by decide)
  · exact absurd (h.one_worker 2 3 _ _ _ _ rfl rfl rfl rfl rfl) (by decide)

/-- While every worker is on time, whatever fails, a request has one worker at a time, the worker has the
request it was started for, and a request stays until it is executed or its database is gone. -/
theorem one_worker_per_request (h : OnTimeRun n s) : s.Exclusive := h.inv.exclusive

theorem OnTimeRun.run (h : OnTimeRun n s) (acts : List WorkerAct)
    (htime : ∀ a ∈ acts, ∀ s : WorkerSys, s.OnTime a) (hrun : s.run n acts = some s') : OnTimeRun n s' := by
  induction acts generalizing s with
  | nil =>
    cases hrun
    exact h
  | cons a acts ih =>
    obtain ⟨s₁, hstep, hrun⟩ := bind_eq_some_iff.mp hrun
    exact ih (h.step (htime a (List.mem_cons_self ..) s) hstep) (fun b hb => htime b (List.mem_cons_of_mem a hb)) hrun

/-- The first worker that is started for a request is never a second one. -/
theorem OnTimeRun.startFirst (h : OnTimeRun n s) (hwait : s.launcher = .waiting idx r 0)
    (hstep : s.step n (.start p) = some s') : OnTimeRun n s' := by
  refine h.step (a := .start p) (fun idx' r' k hwait' hk => ?_) hstep
  cases hwait.symm.trans hwait'
  exact absurd hk (Nat.lt_irrefl 0)

/-- Two requests have their workers at the same time.  The worker of the first one fails and ends, the
launcher waits until the request may be tried again, and a third worker executes it beside the second one. -/
theorem one_worker_for_each_of_two : ∃ s : WorkerSys, OnTimeRun 4 s ∧
    (s.workers 2).map UndoWorker.phase = some (.executing ⟨11, 300, 400, 5, 80⟩) ∧
    (s.workers 3).map UndoWorker.phase = some (.executing ⟨10, 100, 200, 5, 40⟩) ∧ s.Exclusive := by
  have hpicked : OnTimeRun 4 _ := OnTimeRun.init.run
    [.register ⟨10, 100, 200, 5, 40⟩, .register ⟨11, 300, 400, 5, 80⟩, .pick (10, 100)] (by simp [OnTime]) rfl
  have hfirst : OnTimeRun 4 _ := (hpicked.startFirst (p := 1) rfl rfl).run
    [.read 1, .enter 1, .mark 1, .seen, .pick (11, 300)] (by simp [OnTime]) rfl
  have hsecond : OnTimeRun 4 _ := (hfirst.startFirst (p := 2) rfl rfl).run
    ([.read 2, .enter 2, .mark 2, .seen, .fail 1, .free 1, .clear 1, .leave 1] ++
      List.replicate rollbackDelay (.delay (10, 100)) ++ [.pick (10, 100)])
    (by simp [OnTime, or_imp, forall_and, List.mem_replicate]) rfl
  have hthird : OnTimeRun 4 _ := (hsecond.startFirst (p := 3) rfl rfl).run
    [.read 3, .enter 3, .mark 3] (by simp [OnTime]) rfl
  exact ⟨_, hthird, rfl, rfl, one_worker_per_request hthird⟩

end WorkerSys

end XStore
