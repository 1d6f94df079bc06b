import XStore.Undo.LogSpace
import XStore.Undo.Widths

/-!
# Handing over undo logs

Backends attach to undo logs before their first transaction id, switch to another log when one is full,
and release the log they are at when they exit.  A log that a backend has left by a switch stays
attached.
-/
namespace XStore

open Option Function

inductive UndoPersistence where
  | permanent
  | unlogged
  | temp
  deriving DecidableEq

/-- `GET_START_LOGNO_BY_UPERSISTENCE` -/
def UndoPersistence.startLogno : UndoPersistence → Nat
  | permanent => 0
  | unlogged => persistUndologCount
  | temp => persistUndologCount + undologTotalCount / 4

/-- The part of `UndoLogControl` that decides who may use the log. -/
structure PoolLog where
  persistence : UndoPersistence
  attached : Bool
  insertOffset : Nat
  /-- The transaction ids of the slots, in slot order. -/
  slots : List Nat
  /-- How many slots it has been given; behind 4 GB of them it is given the first one again. -/
  taken : Nat
  /-- Undo has been written to the log. -/
  data : Bool

/-- `undo_log_ctx` and the transaction of a backend. -/
structure PoolBackend where
  exiting : Bool
  /-- `GetTopFullTransactionId`, once it is assigned. -/
  top : Option Nat
  logs : UndoPersistence → Option Nat
  prevXid : UndoPersistence → Nat
  /-- The logs it has attached and not released. -/
  attachedTo : List Nat

structure LogPool where
  logs : Nat → PoolLog
  backends : Nat → PoolBackend
  nextXid : Nat

inductive PoolAct where
  /-- `alloc_undo_log` for one level -/
  | attach (b : Nat) (p : UndoPersistence)
  /-- `GetNewTransactionId` -/
  | assign (b xid : Nat)
  | endXact (b : Nat)
  /-- An operation writes undo, -/
  | write (b : Nat) (p : UndoPersistence) (size : Nat)
  /-- or does so after `undolog_switch`, -/
  | switchWrite (b : Nat) (p : UndoPersistence) (size : Nat)
  /-- or fails after it, -/
  | switchFail (b : Nat) (p : UndoPersistence)
  /-- or finds no log to switch to. -/
  | noLog (b : Nat) (p : UndoPersistence)
  | exit (b : Nat)
  /-- `undolog_release` for one level -/
  | release (b : Nat) (p : UndoPersistence)

/-- The slot at the pointer that `get_next_slotptr` has advanced is given to a transaction. -/
def PoolLog.giveSlot (u : PoolLog) (xid : Nat) : PoolLog :=
  { u with
    slots := if u.taken < narrowBlocks * slotsPerBlock then u.slots ++ [xid]
      else u.slots.set (u.taken % (narrowBlocks * slotsPerBlock)) xid
    taken := u.taken + 1 }

theorem PoolLog.mem_giveSlot {u : PoolLog} {xid y : Nat} (h : y ∈ (u.giveSlot xid).slots) :
    y ∈ u.slots ∨ y = xid := by
  unfold giveSlot at h
  split at h
  · simpa using h
  · exact List.mem_or_eq_of_mem_set h

namespace LogPool

/-- The loop of `allocate_undo_logno`. -/
def firstLog (usable : Nat → Bool) : (fuel i : Nat) → Option Nat
  | 0, _ => none
  | fuel + 1, i => if usable i then some i else firstLog usable fuel (i + 1)

variable (maxSize : Nat) (s : LogPool)

/-- `allocate_undo_logno`; `old` is the log that is switched from. -/
def allocateUndoLogno (p : UndoPersistence) (old : Option Nat) (size : Nat) : Option Nat :=
  firstLog (fun i => !(s.logs i).attached && decide ((s.logs i).persistence = p) &&
    match old with
    | some l => decide (l < i) && decide ((s.logs i).insertOffset = undoLogBlockHeaderSize)
    | none => decide (offsetPlusUsableBytes (s.logs i).insertOffset size ≤ maxSize))
    (undologTotalCount - p.startLogno) p.startLogno

def setLog (l : Nat) (f : PoolLog → PoolLog) : LogPool :=
  { s with logs := Function.update s.logs l (f (s.logs l)) }

def setBackend (b : Nat) (f : PoolBackend → PoolBackend) : LogPool :=
  { s with backends := Function.update s.backends b (f (s.backends b)) }

/-- The backend attaches to the log and makes it its current one. -/
def attachTo (b : Nat) (p : UndoPersistence) (l : Nat) : LogPool :=
  (s.setLog l fun u => { u with attached := true }).setBackend b fun k =>
    { k with logs := fun q => if q = p then some l else k.logs q, attachedTo := l :: k.attachedTo }

/-- `undolog_prepare_switch` -/
def prepareSwitch (p : UndoPersistence) (l : Nat) : LogPool :=
  if p = .permanent then s.setLog l fun u => { u with insertOffset := maxSize } else s

/-- `update_undolog_meta`; a new slot for the transaction or not. -/
def writeTo (b : Nat) (p : UndoPersistence) (l xid size : Nat) (newSlot : Bool) : LogPool :=
  (s.setLog l fun u => { if newSlot then u.giveSlot xid else u with
    insertOffset := offsetPlusUsableBytes u.insertOffset size
    data := true }).setBackend b fun k => { k with
    prevXid := fun q => if q = p then xid else k.prevXid q }

/-- What a backend that works in a transaction has: its id and its current log. -/
def current (b : Nat) (p : UndoPersistence) : Option (Nat × Nat) :=
  if (s.backends b).exiting then none
  else (s.backends b).top.bind fun xid => ((s.backends b).logs p).map fun l => (xid, l)

/-- `undolog_switch` -/
def switchLog (b : Nat) (p : UndoPersistence) (l : Nat) : Option (LogPool × Nat) :=
  let t := s.prepareSwitch maxSize p l
  (t.allocateUndoLogno maxSize p (some l) 0).map fun l' => (t.attachTo b p l', l')

def step : PoolAct → Option LogPool
  | .attach b p =>
    if (s.backends b).exiting = false ∧ (s.backends b).top = none ∧ (s.backends b).logs p = none then
      (s.allocateUndoLogno maxSize p none blcksz).map fun l => s.attachTo b p l
    else none
  | .assign b xid =>
    if (s.backends b).exiting = false ∧ (s.backends b).top = none ∧ s.nextXid ≤ xid then
      some { s.setBackend b (fun k => { k with top := some xid }) with nextXid := xid + 1 }
    else none
  | .endXact b => some (s.setBackend b fun k => { k with top := none })
  | .write b p size =>
    (s.current b p).bind fun (xid, l) =>
      if sizeOfUndoRecordHeader ≤ size ∧ offsetPlusUsableBytes (s.logs l).insertOffset size ≤ maxSize then
        some (s.writeTo b p l xid size (decide (xid ≠ (s.backends b).prevXid p)))
      else none
  | .switchWrite b p size =>
    (s.current b p).bind fun (xid, l) => if sizeOfUndoRecordHeader ≤ size then
      (s.switchLog maxSize b p l).map fun (t, l') => t.writeTo b p l' xid size true else none
  | .switchFail b p => (s.current b p).bind fun (_, l) => (s.switchLog maxSize b p l).map Prod.fst
  | .noLog b p => (s.current b p).map fun (_, l) => s.prepareSwitch maxSize p l
  | .exit b => some (s.setBackend b fun k => { k with exiting := true, top := none })
  | .release b p =>
    if (s.backends b).exiting then
      ((s.backends b).logs p).map fun l =>
        (s.setLog l fun u => { u with attached := false }).setBackend b fun k =>
          { k with
            logs := fun q => if q = p then none else k.logs q
            attachedTo := k.attachedTo.filter (· ≠ l) }
    else none

/-- The server has started: no log is attached, and what the logs hold is older than every new
transaction. -/
structure Started : Prop where
  detached : ∀ l, (s.logs l).attached = false
  backends : ∀ b, (s.backends b).top = none ∧ (s.backends b).attachedTo = [] ∧ ∀ p, (s.backends b).logs p = none
  sorted : ∀ l, (s.logs l).taken ≤ narrowBlocks * slotsPerBlock → (s.logs l).slots.Pairwise (· < ·)
  counted : ∀ l, (s.logs l).slots.length = min (s.logs l).taken (narrowBlocks * slotsPerBlock)
  below : ∀ l, ∀ y ∈ (s.logs l).slots, y < s.nextXid
  fresh : ∀ l, (s.logs l).insertOffset = undoLogBlockHeaderSize → (s.logs l).data = false ∧ (s.logs l).slots = []
  header_le : ∀ l, undoLogBlockHeaderSize ≤ (s.logs l).insertOffset

inductive Reached : LogPool → Prop
  | start {s : LogPool} (h : s.Started) : Reached s
  | step {s s' : LogPool} {a : PoolAct} (h : Reached s) (hstep : s.step maxSize a = some s') : Reached s'

/-- A log has one backend, whose transaction is not older than the slots of the log. -/
structure Inv : Prop where
  attached : ∀ b, ∀ l ∈ (s.backends b).attachedTo, (s.logs l).attached = true
  unique : ∀ b b' l, l ∈ (s.backends b).attachedTo → l ∈ (s.backends b').attachedTo → b = b'
  current : ∀ b p l, (s.backends b).logs p = some l → l ∈ (s.backends b).attachedTo ∧ (s.logs l).persistence = p
  sorted : ∀ l, (s.logs l).taken ≤ narrowBlocks * slotsPerBlock → (s.logs l).slots.Pairwise (· < ·)
  below : ∀ l, ∀ y ∈ (s.logs l).slots, y < s.nextXid
  fresh : ∀ l, (s.logs l).insertOffset = undoLogBlockHeaderSize → (s.logs l).data = false ∧ (s.logs l).slots = []
  header_le : ∀ l, undoLogBlockHeaderSize ≤ (s.logs l).insertOffset
  own : ∀ b p l x, (s.backends b).logs p = some l → (s.backends b).top = some x →
    ∀ y ∈ (s.logs l).slots, y < x ∨ y = x ∧ (s.backends b).prevXid p = x
  top_lt : ∀ b x, (s.backends b).top = some x → x < s.nextXid

variable {maxSize : Nat} {s : LogPool} {b : Nat} {p : UndoPersistence} {l : Nat}

theorem update_field {α β : Type} (proj : α → β) {f : Nat → α} {a : Nat} {v : α} (h : proj v = proj (f a)) (a' : Nat) :
    proj (Function.update f a v a') = proj (f a') := by
  rw [update_apply]
  split
  · next heq => rw [h, heq]
  · rfl

theorem Inv.attachTo (h : Inv s) (hdetached : (s.logs l).attached = false) (hp : (s.logs l).persistence = p)
    (htop : (s.backends b).top = none ∨ (s.logs l).slots = []) : Inv (s.attachTo b p l) := by
  have hnot : ∀ b, l ∉ (s.backends b).attachedTo := by
    intro b hmem
    rw [h.attached b l hmem] at hdetached
    cases hdetached
  obtain ⟨h1, h2, h3, h4, h5, h6, h7, h8, h9⟩ := h
  constructor <;> simp only [LogPool.attachTo, setLog, setBackend, update_apply] <;> grind

theorem Inv.prepareSwitch (h : Inv s) (hmax : undoLogBlockHeaderSize < maxSize) :
    Inv (s.prepareSwitch maxSize p l) := by
  rw [LogPool.prepareSwitch]
  split
  · obtain ⟨h1, h2, h3, h4, h5, h6, h7, h8, h9⟩ := h
    constructor <;> simp only [setLog, update_apply] <;> grind
  · exact h

theorem Inv.release (h : Inv s) (hlog : (s.backends b).logs p = some l) :
    Inv ((s.setLog l fun u => { u with attached := false }).setBackend b fun k =>
      { k with
        logs := fun q => if q = p then none else k.logs q
        attachedTo := k.attachedTo.filter (· ≠ l) }) := by
  obtain ⟨h1, h2, h3, h4, h5, h6, h7, h8, h9⟩ := h
  constructor <;> simp only [setLog, setBackend, update_apply] <;>
    grind

section WriteTo

variable {xid size : Nat} {newSlot : Bool}

theorem writeTo_attachedTo :
    ∀ b', ((s.writeTo b p l xid size newSlot).backends b').attachedTo = (s.backends b').attachedTo :=
  update_field PoolBackend.attachedTo rfl

theorem writeTo_logs :
    ∀ b', ((s.writeTo b p l xid size newSlot).backends b').logs = (s.backends b').logs :=
  update_field PoolBackend.logs rfl

theorem writeTo_top :
    ∀ b', ((s.writeTo b p l xid size newSlot).backends b').top = (s.backends b').top :=
  update_field PoolBackend.top rfl

theorem writeTo_prevXid_self : ((s.writeTo b p l xid size newSlot).backends b).prevXid p = xid := by
  simp [LogPool.writeTo, setBackend]

theorem writeTo_prevXid {b' : Nat} {p' : UndoPersistence} (hne : ¬ (b' = b ∧ p' = p)) :
    ((s.writeTo b p l xid size newSlot).backends b').prevXid p' = (s.backends b').prevXid p' := by
  by_cases hb : b' = b
  · have hp : p' ≠ p := fun hp => hne ⟨hb, hp⟩
    simp [LogPool.writeTo, setBackend, hb, hp, setLog]
  · simp [LogPool.writeTo, setBackend, update_of_ne hb, setLog]

theorem writeTo_attached :
    ∀ l', ((s.writeTo b p l xid size newSlot).logs l').attached = (s.logs l').attached :=
  update_field PoolLog.attached (by cases newSlot <;> rfl)

theorem writeTo_persistence :
    ∀ l', ((s.writeTo b p l xid size newSlot).logs l').persistence = (s.logs l').persistence :=
  update_field PoolLog.persistence (by cases newSlot <;> rfl)

theorem writeTo_log_of_ne {l' : Nat} (hl : l' ≠ l) : (s.writeTo b p l xid size newSlot).logs l' = s.logs l' :=
  update_of_ne hl _ _

theorem writeTo_log : (s.writeTo b p l xid size newSlot).logs l =
    { if newSlot then (s.logs l).giveSlot xid else s.logs l with
      insertOffset := offsetPlusUsableBytes (s.logs l).insertOffset size
      data := true } := by
  cases newSlot <;> exact update_self _ _ _

theorem mem_slots_writeTo {y : Nat} (hy : y ∈ ((s.writeTo b p l xid size newSlot).logs l).slots) :
    y ∈ (s.logs l).slots ∨ y = xid := by
  rw [writeTo_log] at hy
  cases newSlot with
  | false => exact .inl hy
  | true => exact PoolLog.mem_giveSlot hy

end WriteTo

/-- The current log of a backend is that of no other backend and of no other level. -/
theorem Inv.current_unique (h : Inv s) (hlog : (s.backends b).logs p = some l) {b' : Nat} {p' : UndoPersistence}
    (hl : (s.backends b').logs p' = some l) : b' = b ∧ p' = p :=
  ⟨h.unique b' b l (h.current b' p' l hl).1 (h.current b p l hlog).1,
    (h.current b' p' l hl).2.symm.trans (h.current b p l hlog).2⟩

/-- Writing to the current log; a transaction is given a slot unless it was the last one to get one. -/
theorem Inv.writeTo (h : Inv s) {xid size : Nat} {newSlot : Bool} (htop : (s.backends b).top = some xid)
    (hlog : (s.backends b).logs p = some l) (hsize : sizeOfUndoRecordHeader ≤ size)
    (hnew : newSlot = true → ∀ y ∈ (s.logs l).slots, y < xid) : Inv (s.writeTo b p l xid size newSlot) := by
  have hgrows : (s.logs l).insertOffset < offsetPlusUsableBytes (s.logs l).insertOffset size :=
    lt_offsetPlusUsableBytes hsize
  refine ⟨?_, ?_, ?_, ?_, ?_, ?_, ?_, ?_, ?_⟩
  · simpa only [writeTo_attachedTo, writeTo_attached] using h.attached
  · simpa only [writeTo_attachedTo] using h.unique
  · simpa only [writeTo_logs, writeTo_attachedTo, writeTo_persistence] using h.current
  · intro l'
    by_cases hl : l' = l
    · rw [hl, writeTo_log]
      cases newSlot with
      | false => exact h.sorted l
      | true =>
        -- the slot is behind the others, as the pointer has not come round
        intro htaken
        have hlt : (s.logs l).taken < narrowBlocks * slotsPerBlock := htaken
        simp only [if_true, PoolLog.giveSlot, if_pos hlt]
        exact List.pairwise_append.mpr
          ⟨h.sorted l (Nat.le_of_lt hlt), List.pairwise_singleton _ _, by simpa using hnew rfl⟩
    · rw [writeTo_log_of_ne hl]
      exact h.sorted l'
  · intro l' y hy
    by_cases hl : l' = l
    · rw [hl] at hy
      rcases mem_slots_writeTo hy with hmem | rfl
      · exact h.below l y hmem
      · exact h.top_lt b y htop
    · rw [writeTo_log_of_ne hl] at hy
      exact h.below l' y hy
  · intro l' hi
    by_cases hl : l' = l
    · rw [hl, writeTo_log] at hi
      have hle := h.header_le l
      exact absurd hi (Nat.ne_of_gt (Nat.lt_of_le_of_lt hle hgrows))
    · rw [writeTo_log_of_ne hl] at hi ⊢
      exact h.fresh l' hi
  · intro l'
    by_cases hl : l' = l
    · rw [hl, writeTo_log]
      exact Nat.le_trans (h.header_le l) (Nat.le_of_lt hgrows)
    · rw [writeTo_log_of_ne hl]
      exact h.header_le l'
  · intro b' p' l' x hl' hx y hy
    rw [writeTo_logs] at hl'
    rw [writeTo_top] at hx
    by_cases hl : l' = l
    · rw [hl] at hl' hy
      obtain ⟨rfl, rfl⟩ := h.current_unique hlog hl'
      obtain rfl := Option.some.inj (htop.symm.trans hx)
      rcases mem_slots_writeTo hy with hmem | rfl
      · rcases h.own b' p' l xid hl' hx y hmem with hlt | ⟨rfl, -⟩
        · exact .inl hlt
        · exact .inr ⟨rfl, writeTo_prevXid_self⟩
      · exact .inr ⟨rfl, writeTo_prevXid_self⟩
    · rw [writeTo_log_of_ne hl] at hy
      rcases h.own b' p' l' x hl' hx y hy with hlt | ⟨rfl, hp⟩
      · exact .inl hlt
      · refine .inr ⟨rfl, (writeTo_prevXid ?_).trans hp⟩
        rintro ⟨rfl, rfl⟩
        exact hl (Option.some.inj (hl'.symm.trans hlog))
  · intro b' x hx
    rw [writeTo_top] at hx
    exact h.top_lt b' x hx

theorem Inv.setTop (h : Inv s) {top : Option Nat} {exiting : Bool} {next : Nat} (hnext : s.nextXid ≤ next)
    (htop : ∀ x, top = some x → s.nextXid ≤ x ∧ x < next) :
    Inv { s.setBackend b (fun k => { k with top := top, exiting := exiting }) with nextXid := next } := by
  have hatt : ∀ b', ((s.setBackend b fun k => { k with top := top, exiting := exiting }).backends b').attachedTo =
      (s.backends b').attachedTo := update_field PoolBackend.attachedTo rfl
  have hlogs : ∀ b', ((s.setBackend b fun k => { k with top := top, exiting := exiting }).backends b').logs =
      (s.backends b').logs := update_field PoolBackend.logs rfl
  have hprev : ∀ b', ((s.setBackend b fun k => { k with top := top, exiting := exiting }).backends b').prevXid =
      (s.backends b').prevXid := update_field PoolBackend.prevXid rfl
  have htops : ∀ b' x, ((s.setBackend b fun k => { k with top := top, exiting := exiting }).backends b').top = some x →
      (s.backends b').top = some x ∨ s.nextXid ≤ x ∧ x < next := by
    intro b' x hx
    by_cases hb : b' = b
    · simp only [hb, setBackend, update_self] at hx
      exact .inr (htop x hx)
    · simp only [setBackend, update_of_ne hb] at hx
      exact .inl hx
  refine ⟨?_, ?_, ?_, h.sorted, ?_, h.fresh, h.header_le, ?_, ?_⟩
  · intro b' l' hl
    exact h.attached b' l' (hatt b' ▸ hl)
  · simpa only [hatt] using h.unique
  · intro b' p' l' hl
    rw [hlogs] at hl
    rw [hatt]
    exact h.current b' p' l' hl
  · exact fun l y hy => Nat.lt_of_lt_of_le (h.below l y hy) hnext
  · intro b' p' l' x hl hx y hy
    rw [hlogs] at hl
    rw [hprev]
    rcases htops b' x hx with hx | ⟨hx, -⟩
    · exact h.own b' p' l' x hl hx y hy
    · exact .inl (Nat.lt_of_lt_of_le (h.below l' y hy) hx)
  · intro b' x hx
    rcases htops b' x hx with hx | ⟨-, hx⟩
    · exact Nat.lt_of_lt_of_le (h.top_lt b' x hx) hnext
    · exact hx

theorem firstLog_spec {usable : Nat → Bool} {fuel i j : Nat} (h : firstLog usable fuel i = some j) :
    usable j = true := by
  induction fuel generalizing i with
  | zero => cases h
  | succ fuel ih =>
    rw [firstLog] at h
    split at h
    · next hi =>
      cases h
      exact hi
    · exact ih h

/-- A log that is allocated is not attached; one that is switched to is a later one without data. -/
theorem allocateUndoLogno_spec {old : Option Nat} {size : Nat} (h : s.allocateUndoLogno maxSize p old size = some l) :
    (s.logs l).attached = false ∧ (s.logs l).persistence = p ∧
      ∀ l₀, old = some l₀ → l₀ < l ∧ (s.logs l).insertOffset = undoLogBlockHeaderSize := by
  have husable := firstLog_spec h
  cases old with
  | none =>
    simp only [Bool.and_eq_true, Bool.not_eq_true', decide_eq_true_eq] at husable
    exact ⟨husable.1.1, husable.1.2, nofun⟩
  | some l₀ =>
    simp only [Bool.and_eq_true, Bool.not_eq_true', decide_eq_true_eq] at husable
    exact ⟨husable.1.1, husable.1.2, fun l₁ hl => Option.some.inj hl ▸ husable.2⟩

theorem current_eq_some {xid : Nat} (h : s.current b p = some (xid, l)) :
    (s.backends b).top = some xid ∧ (s.backends b).logs p = some l := by
  rw [LogPool.current] at h
  split at h
  · cases h
  · obtain ⟨x, hx, h⟩ := bind_eq_some_iff.mp h
    obtain ⟨l', hl, h⟩ := map_eq_some_iff.mp h
    cases h
    exact ⟨hx, hl⟩

/-- What a switch does: the new log is a later one that has never held data. -/
structure Switched (s : LogPool) (b : Nat) (p : UndoPersistence) (l l' : Nat) (t : LogPool) : Prop where
  inv : Inv t
  later : l < l'
  noData : (s.logs l').data = false ∧ (s.logs l').slots = []
  noSlots : (t.logs l').slots = []
  top : (t.backends b).top = (s.backends b).top
  logs : (t.backends b).logs p = some l'

theorem Inv.switchLog (h : Inv s) (hmax : undoLogBlockHeaderSize < maxSize) {l' : Nat} {t : LogPool}
    (hs : s.switchLog maxSize b p l = some (t, l')) : Switched s b p l l' t := by
  obtain ⟨l₁, hl₁, heq⟩ := map_eq_some_iff.mp hs
  cases heq
  have hprep := h.prepareSwitch (p := p) (l := l) hmax
  obtain ⟨hdetached, hlevel, hlater⟩ := allocateUndoLogno_spec hl₁
  obtain ⟨hlt, hinsert⟩ := hlater l rfl
  have hfresh := hprep.fresh l' hinsert
  have hsame : (s.prepareSwitch maxSize p l).logs l' = s.logs l' := by
    rw [LogPool.prepareSwitch]
    split
    · exact update_of_ne (Nat.ne_of_gt hlt) _ _
    · rfl
  refine ⟨hprep.attachTo hdetached hlevel (.inr hfresh.2), hlt, hsame ▸ hfresh, ?_, ?_, ?_⟩
  · simp [LogPool.attachTo, setLog, setBackend, hfresh.2]
  · rw [LogPool.prepareSwitch]
    split <;> simp [LogPool.attachTo, setLog, setBackend]
  · simp [LogPool.attachTo, setBackend]

theorem Inv.step (h : Inv s) (hmax : undoLogBlockHeaderSize < maxSize) {a : PoolAct} {s' : LogPool}
    (hstep : s.step maxSize a = some s') : Inv s' := by
  cases a with
  | attach b p =>
    rw [LogPool.step] at hstep
    split_ifs at hstep with hguard
    obtain ⟨l, hl, rfl⟩ := map_eq_some_iff.mp hstep
    obtain ⟨hdetached, hlevel, -⟩ := allocateUndoLogno_spec hl
    exact h.attachTo hdetached hlevel (.inl hguard.2.1)
  | assign b xid =>
    rw [LogPool.step] at hstep
    split_ifs at hstep with hguard
    cases hstep
    apply h.setTop (Nat.le_succ_of_le hguard.2.2)
    intro x hx
    cases hx
    exact ⟨hguard.2.2, Nat.lt_succ_self _⟩
  | endXact b =>
    cases hstep
    exact h.setTop (Nat.le_refl _) nofun
  | write b p size =>
    obtain ⟨⟨xid, l⟩, hcur, hstep⟩ := bind_eq_some_iff.mp hstep
    obtain ⟨htop, hlog⟩ := current_eq_some hcur
    dsimp only at hstep
    split_ifs at hstep with hguard
    cases hstep
    apply h.writeTo htop hlog hguard.1
    intro hnew y hy
    rcases h.own b p l xid hlog htop y hy with hlt | ⟨-, hprev⟩
    · exact hlt
    · exact absurd hprev.symm (of_decide_eq_true hnew)
  | switchWrite b p size =>
    obtain ⟨⟨xid, l⟩, hcur, hstep⟩ := bind_eq_some_iff.mp hstep
    obtain ⟨htop, -⟩ := current_eq_some hcur
    dsimp only at hstep
    split_ifs at hstep with hsize
    obtain ⟨⟨t, l'⟩, hs, rfl⟩ := map_eq_some_iff.mp hstep
    have hsw := h.switchLog hmax hs
    apply hsw.inv.writeTo (hsw.top.trans htop) hsw.logs hsize
    intro _ y hy
    rw [hsw.noSlots] at hy
    cases hy
  | switchFail b p =>
    obtain ⟨⟨xid, l⟩, -, hstep⟩ := bind_eq_some_iff.mp hstep
    obtain ⟨⟨t, l'⟩, hs, rfl⟩ := map_eq_some_iff.mp hstep
    exact (h.switchLog hmax hs).inv
  | noLog b p =>
    obtain ⟨⟨xid, l⟩, -, rfl⟩ := map_eq_some_iff.mp hstep
    exact h.prepareSwitch hmax
  | exit b =>
    cases hstep
    exact h.setTop (Nat.le_refl _) nofun
  | release b p =>
    rw [LogPool.step] at hstep
    split_ifs at hstep
    obtain ⟨l, hl, rfl⟩ := map_eq_some_iff.mp hstep
    exact h.release hl

theorem Started.inv (h : Started s) : Inv s where
  attached b l hl := by simp [(h.backends b).2.1] at hl
  unique b b' l hl := by simp [(h.backends b).2.1] at hl
  current b p l hl := by simp [(h.backends b).2.2 p] at hl
  sorted := h.sorted
  below := h.below
  fresh := h.fresh
  header_le := h.header_le
  own b p l x hl := by simp [(h.backends b).2.2 p] at hl
  top_lt b x hx := by simp [(h.backends b).1] at hx

theorem Reached.inv (hmax : undoLogBlockHeaderSize < maxSize) (h : Reached maxSize s) : Inv s := by
  induction h with
  | start h => exact h.inv
  | step _ hstep ih => exact ih.step hmax hstep

/-- The pool is in order; the slots are in the order of their transactions in a log that has not been
given more of them than fit into 4 GB. -/
structure HandedOver (maxSize : Nat) (s : LogPool) : Prop where
  oneBackend : ∀ b b' l, l ∈ (s.backends b).attachedTo → l ∈ (s.backends b').attachedTo → b = b'
  increasing : ∀ l, (s.logs l).taken ≤ narrowBlocks * slotsPerBlock → (s.logs l).slots.Pairwise (· < ·)
  later : ∀ b p s', (s.step maxSize (.switchFail b p) = some s' ∨
      ∃ size, s.step maxSize (.switchWrite b p size) = some s') →
    ∃ l l', (s.backends b).logs p = some l ∧ (s'.backends b).logs p = some l' ∧ l < l' ∧
      (s.logs l').data = false ∧ (s.logs l').slots = []

theorem undo_logs_handed_over (k : Int) {s : LogPool} (h : Reached (undoLogMaxSizeFor k) s) :
    HandedOver (undoLogMaxSizeFor k) s := by
  have hmax : undoLogBlockHeaderSize < undoLogMaxSizeFor k :=
    Nat.lt_of_lt_of_le (by decide) (Nat.le_of_dvd (undoLogMaxSizeFor_pos k) (dvd_undoLogMaxSizeFor k))
  have hinv := h.inv hmax
  refine ⟨hinv.unique, hinv.sorted, ?_⟩
  rintro b p s' (hstep | ⟨size, hstep⟩)
  · obtain ⟨⟨xid, l⟩, hcur, hstep⟩ := Option.bind_eq_some_iff.mp hstep
    obtain ⟨⟨t, l'⟩, hs, rfl⟩ := Option.map_eq_some_iff.mp hstep
    have hsw := hinv.switchLog hmax hs
    exact ⟨l, l', (current_eq_some hcur).2, hsw.logs, hsw.later, hsw.noData⟩
  · obtain ⟨⟨xid, l⟩, hcur, hstep⟩ := Option.bind_eq_some_iff.mp hstep
    dsimp only at hstep
    split_ifs at hstep
    obtain ⟨⟨t, l'⟩, hs, rfl⟩ := Option.map_eq_some_iff.mp hstep
    have hsw := hinv.switchLog hmax hs
    refine ⟨l, l', (current_eq_some hcur).2, ?_, hsw.later, hsw.noData⟩
    have hlogs : ∀ b', ((t.writeTo b p l' xid size true).backends b').logs = (t.backends b').logs :=
      update_field PoolBackend.logs rfl
    exact (congrFun (hlogs b) p).trans hsw.logs

def newPool : LogPool where
  logs l :=
    ⟨if l < persistUndologCount then .permanent
      else if l < persistUndologCount + undologTotalCount / 4 then .unlogged else .temp,
      false, undoLogBlockHeaderSize, [], 0, false⟩
  backends _ := ⟨false, none, fun _ => none, fun _ => invalidXid, []⟩
  nextXid := frozenXid + 1

theorem newPool_started : newPool.Started :=
  ⟨fun _ => rfl, fun _ => ⟨rfl, rfl, fun _ => rfl⟩, fun _ _ => .nil, fun _ => rfl, nofun, fun _ _ => ⟨rfl, rfl⟩,
    fun _ => Nat.le_refl _⟩

theorem Reached.run {maxSize : Nat} {acts : List PoolAct} {s s' : LogPool} (h : Reached maxSize s)
    (hrun : acts.foldlM (LogPool.step maxSize) s = some s') : Reached maxSize s' := by
  induction acts generalizing s with
  | nil =>
    cases hrun
    exact h
  | cons a acts ih =>
    obtain ⟨t, hstep, hrest⟩ := bind_eq_some_iff.mp hrun
    exact ih (h.step hstep) hrest

/-- Two backends at work: the first switches in its transaction, and a third takes over the log of the
second one. -/
def threeBackends : List PoolAct :=
  [.attach 1 .permanent, .attach 2 .permanent, .assign 1 5, .assign 2 6, .write 1 .permanent 100,
    .write 2 .permanent 100, .switchWrite 1 .permanent 100, .endXact 1, .assign 1 7, .write 1 .permanent 100,
    .exit 2, .release 2 .permanent, .attach 3 .permanent, .assign 3 8, .write 3 .permanent 100]

theorem undo_logs_handed_over_among_three :
    ∃ s, threeBackends.foldlM (step (undoLogMaxSizeFor 1)) newPool = some s ∧
      (List.range 3).map (fun l => (s.logs l).slots) = [[5], [6, 8], [5, 7]] ∧
      HandedOver (undoLogMaxSizeFor 1) s := by
  have hrun : (threeBackends.foldlM (step (undoLogMaxSizeFor 1)) newPool).map
      (fun s => (List.range 3).map fun l => (s.logs l).slots) = some [[5], [6, 8], [5, 7]] := by
    decide +kernel
  obtain ⟨s, hs, hslots⟩ := Option.map_eq_some_iff.mp hrun
  exact ⟨s, hs, hslots, undo_logs_handed_over 1 ((Reached.start newPool_started).run hs)⟩

/-- The first backend is at the first log and between two transactions. -/
structure Idle (s : LogPool) : Prop where
  running : (s.backends 1).exiting = false
  top : (s.backends 1).top = none
  log : (s.backends 1).logs .permanent = some 0
  prev : (s.backends 1).prevXid .permanent < s.nextXid

/-- It writes undo in one more transaction. -/
theorem Idle.transaction {maxSize : Nat} {s : LogPool} (h : Idle s) (hs : Reached maxSize s)
    (hroom : offsetPlusUsableBytes (s.logs 0).insertOffset 100 ≤ maxSize) :
    ∃ s', Reached maxSize s' ∧ Idle s' ∧ s'.logs 0 = { (s.logs 0).giveSlot s.nextXid with
      insertOffset := offsetPlusUsableBytes (s.logs 0).insertOffset 100
      data := true } := by
  have hprev := h.prev
  have hassign : s.step maxSize (.assign 1 s.nextXid) =
      some { s.setBackend 1 (fun k => { k with top := some s.nextXid }) with nextXid := s.nextXid + 1 } := by
    simp [step, h.running, h.top]
  obtain ⟨s₁, hs₁⟩ : ∃ s₁, s₁ =
      { s.setBackend 1 (fun k => { k with top := some s.nextXid }) with nextXid := s.nextXid + 1 } := ⟨_, rfl⟩
  have hwrite : s₁.step maxSize (.write 1 .permanent 100) =
      some (s₁.writeTo 1 .permanent 0 s.nextXid 100 true) := by
    simp [hs₁, LogPool.step, current, setBackend, h.running, h.log, hroom, hprev.ne', sizeOfUndoRecordHeader]
  rw [← hs₁] at hassign
  refine ⟨_, ((hs.step hassign).step hwrite).step (a := .endXact 1) rfl, ?_, ?_⟩
  · constructor <;> simp [hs₁, setBackend, writeTo, setLog, h.running, h.log]
  · simp [hs₁, setBackend, writeTo, setLog]

theorem offsetPlusUsableBytes_hundred (offset : Nat) : offsetPlusUsableBytes offset 100 ≤ offset + 1000 := by
  unfold offsetPlusUsableBytes undoLogUsableBytesPerPage undoLogBlockHeaderSize blcksz
  dsimp only
  omega

/-- After `n` transactions. -/
theorem reached_slots (n : Nat) (hn : n ≤ narrowBlocks * slotsPerBlock) :
    ∃ s, Reached undoLogMaxSize s ∧ Idle s ∧ (s.logs 0).taken = n ∧ (s.logs 0).slots.length = n ∧
      (s.logs 0).insertOffset ≤ undoLogBlockHeaderSize + 1000 * n := by
  induction n with
  | zero =>
    have hattach : (newPool.step undoLogMaxSize (.attach 1 .permanent)) = some (newPool.attachTo 1 .permanent 0) := rfl
    refine ⟨_, (Reached.start newPool_started).step hattach, ?_, rfl, rfl, Nat.le_refl _⟩
    constructor <;> simp [attachTo, setBackend, setLog, newPool, invalidXid]
  | succ n ih =>
    obtain ⟨s, hs, hidle, htaken, hlen, hinsert⟩ := ih (by omega)
    have hle := offsetPlusUsableBytes_hundred (s.logs 0).insertOffset
    have hmax : undoLogBlockHeaderSize + 1000 * (narrowBlocks * slotsPerBlock) ≤ undoLogMaxSize := by decide
    obtain ⟨s', hs', hidle', hlog⟩ := hidle.transaction hs (by omega)
    refine ⟨s', hs', hidle', ?_, ?_, ?_⟩
    · rw [hlog, PoolLog.giveSlot, htaken]
    · simp [hlog, PoolLog.giveSlot, htaken, hlen, show n < narrowBlocks * slotsPerBlock from hn]
    · have hnext : (s'.logs 0).insertOffset = offsetPlusUsableBytes (s.logs 0).insertOffset 100 := by rw [hlog]
      omega

/-- One backend writes undo in 133693441 transactions: the last one is given the first slot. -/
theorem slot_order_lost : ∃ s, Reached undoLogMaxSize s ∧ ¬ (s.logs 0).slots.Pairwise (· < ·) := by
  obtain ⟨s, hs, hidle, htaken, hlen, hinsert⟩ := reached_slots (narrowBlocks * slotsPerBlock) (Nat.le_refl _)
  have hle := offsetPlusUsableBytes_hundred (s.logs 0).insertOffset
  have hmax : undoLogBlockHeaderSize + 1000 * (narrowBlocks * slotsPerBlock) + 1000 ≤ undoLogMaxSize := by decide
  obtain ⟨s', hs', -, hlog⟩ := hidle.transaction hs (by omega)
  refine ⟨s', hs', fun hsorted => ?_⟩
  have hslots : (s'.logs 0).slots = (s.logs 0).slots.set 0 s.nextXid := by
    simp [hlog, PoolLog.giveSlot, htaken]
  have htwo : 1 < (s.logs 0).slots.length := by
    rw [hlen]
    decide
  rw [hslots] at hsorted
  have hlt := List.pairwise_iff_getElem.mp hsorted 0 1 (by simp; omega) (by simpa using htwo) Nat.zero_lt_one
  rw [List.getElem_set_self, List.getElem_set_ne (by decide)] at hlt
  have hbelow := (hs.inv (by decide)).below 0 _ (List.getElem_mem htwo)
  omega

end LogPool

end XStore
