import Mathlib.Algebra.Order.Ring.Nat
import Mathlib.Data.List.Basic

/-!
# Multixact horizons

Every backend publishes two multixact ids in shared memory: the oldest one that its transaction can
be a member of, and the oldest one that it takes for possibly live. Lookups refuse ids below the
second entry of their own backend, and truncation removes ids below the minimum of all entries.
-/
namespace XStore

open Function

def invalidXMultiXactId : Nat := 0

def firstXMultiXactId : Nat := 1

/-- `XMultiXactStateData`. The oldest-member entries of all process numbers stand in front of the
array, the oldest-visible ones behind them. -/
structure XMultiXactState where
  nextXMXact : Nat
  nextOffset : Nat
  perBackendXactIds : Nat → Nat

/-- The smaller of a bound and an entry, unless the entry is invalid. -/
def older (bound entry : Nat) : Nat :=
  if entry ≠ invalidXMultiXactId ∧ entry < bound then entry else bound

section Older

theorem older_le (bound entry : Nat) : older bound entry ≤ bound := by
  unfold older
  split_ifs with h
  · exact h.2.le
  · exact le_rfl

theorem older_le_entry (bound : Nat) {entry : Nat} (h : entry ≠ invalidXMultiXactId) :
    older bound entry ≤ entry := by
  unfold older
  split_ifs with hlt
  · exact le_rfl
  · exact not_lt.mp fun hl => hlt ⟨h, hl⟩

theorem foldl_older_le (entries : List Nat) (bound : Nat) : entries.foldl older bound ≤ bound := by
  induction entries generalizing bound with
  | nil => exact le_rfl
  | cons e entries ih => exact (ih _).trans (older_le bound e)

theorem foldl_older_le_entry {entries : List Nat} {e : Nat} (he : e ∈ entries)
    (hvalid : e ≠ invalidXMultiXactId) (bound : Nat) : entries.foldl older bound ≤ e := by
  induction entries generalizing bound with
  | nil => cases he
  | cons e' entries ih =>
    rcases List.mem_cons.mp he with rfl | he
    · exact (foldl_older_le entries _).trans (older_le_entry bound hvalid)
    · exact ih he _

end Older

/-- The loop `for (i = 1; i <= MaxOldestSlot; i++)`. -/
def scannedSlots (maxOldestSlot : Nat) : List Nat := (List.range maxOldestSlot).map (· + 1)

theorem mem_scannedSlots {n p : Nat} : p ∈ scannedSlots n ↔ 0 < p ∧ p ≤ n := by
  simp only [scannedSlots, List.mem_map, List.mem_range]
  constructor
  · rintro ⟨i, hi, rfl⟩
    omega
  · rintro ⟨h0, hn⟩
    exact ⟨p - 1, by omega, by omega⟩

namespace XMultiXactState

variable (maxOldestSlot : Nat) (s : XMultiXactState)

def oldestMember (me : Nat) : Nat := s.perBackendXactIds me

def oldestVisible (me : Nat) : Nat := s.perBackendXactIds (maxOldestSlot + me)

def validNext : Nat :=
  if s.nextXMXact < firstXMultiXactId then firstXMultiXactId else s.nextXMXact

/-- `XMultiXactIdSetOldestMember` -/
def setOldestMember (me : Nat) : XMultiXactState :=
  if s.oldestMember me ≠ invalidXMultiXactId then s
  else { s with perBackendXactIds := Function.update s.perBackendXactIds me s.validNext }

/-- `XMultiXactIdSetOldestVisible` -/
def setOldestVisible (me : Nat) : XMultiXactState :=
  if s.oldestVisible maxOldestSlot me ≠ invalidXMultiXactId then s
  else { s with
    perBackendXactIds := Function.update s.perBackendXactIds (maxOldestSlot + me)
      (((scannedSlots maxOldestSlot).map s.oldestMember).foldl older s.validNext) }

/-- `GetOldestXMultiXactId` -/
def getOldest : Nat :=
  ((scannedSlots maxOldestSlot).flatMap fun i =>
    [s.oldestMember i, s.oldestVisible maxOldestSlot i]).foldl older s.nextXMXact

/-- `AtEOXact_XMultiXact` -/
def atEOXact (me : Nat) : XMultiXactState :=
  { s with
    perBackendXactIds :=
      Function.update (Function.update s.perBackendXactIds me invalidXMultiXactId)
        (maxOldestSlot + me) invalidXMultiXactId }

/-- `GetNewXMultiXactId`: the new id, the place of its first member, and the advanced counters.
Offset zero is never given out. -/
def getNewXMultiXactId (nmembers : Nat) : Nat × Nat × XMultiXactState :=
  let offset := if s.nextOffset = 0 then 1 else s.nextOffset
  let nmembers := if s.nextOffset = 0 then nmembers + 1 else nmembers
  (s.validNext, offset,
    { s with
      nextXMXact := (s.validNext + 1) % 2 ^ 64
      nextOffset := (s.nextOffset + nmembers) % 2 ^ 64 })

variable {maxOldestSlot} {s} {me p q : Nat}

theorem setOldestMember_other (h : p ≠ me) :
    (s.setOldestMember me).perBackendXactIds p = s.perBackendXactIds p := by
  unfold setOldestMember
  split_ifs
  · rfl
  · exact update_of_ne h _ _

theorem setOldestMember_self :
    (s.setOldestMember me).oldestMember me = s.oldestMember me ∨
      (s.setOldestMember me).oldestMember me = s.validNext := by
  unfold setOldestMember
  split_ifs
  · exact .inl rfl
  · exact .inr (update_self _ _ _)

@[simp] theorem setOldestMember_validNext : (s.setOldestMember me).validNext = s.validNext := by
  unfold setOldestMember
  split_ifs <;> rfl

theorem setOldestVisible_other (h : p ≠ maxOldestSlot + me) :
    (s.setOldestVisible maxOldestSlot me).perBackendXactIds p = s.perBackendXactIds p := by
  unfold setOldestVisible
  split_ifs
  · rfl
  · exact update_of_ne h _ _

/-- The entry that a backend computes is at most every entry that the loop reads. -/
theorem setOldestVisible_self :
    (s.setOldestVisible maxOldestSlot me).oldestVisible maxOldestSlot me =
        s.oldestVisible maxOldestSlot me ∨
      (s.setOldestVisible maxOldestSlot me).oldestVisible maxOldestSlot me ≤ s.validNext ∧
      ∀ p, 0 < p → p ≤ maxOldestSlot → s.oldestMember p ≠ invalidXMultiXactId →
        (s.setOldestVisible maxOldestSlot me).oldestVisible maxOldestSlot me ≤ s.oldestMember p := by
  unfold setOldestVisible
  split_ifs
  · exact .inl rfl
  · right
    simp only [oldestVisible, update_self]
    refine ⟨foldl_older_le _ _, fun p h0 hp hvalid => ?_⟩
    exact foldl_older_le_entry (List.mem_map_of_mem (mem_scannedSlots.mpr ⟨h0, hp⟩)) hvalid _

@[simp] theorem setOldestVisible_validNext :
    (s.setOldestVisible maxOldestSlot me).validNext = s.validNext := by
  unfold setOldestVisible
  split_ifs <;> rfl

theorem getOldest_le_member (h0 : 0 < p) (hp : p ≤ maxOldestSlot)
    (hvalid : s.oldestMember p ≠ invalidXMultiXactId) :
    s.getOldest maxOldestSlot ≤ s.oldestMember p :=
  foldl_older_le_entry
    (List.mem_flatMap.mpr ⟨p, mem_scannedSlots.mpr ⟨h0, hp⟩, List.mem_cons_self ..⟩) hvalid _

theorem atEOXact_cases :
    (s.atEOXact maxOldestSlot me).perBackendXactIds p = s.perBackendXactIds p ∨
      (s.atEOXact maxOldestSlot me).perBackendXactIds p = invalidXMultiXactId := by
  simp only [atEOXact, update_apply]
  split_ifs
  · exact .inr rfl
  · exact .inr rfl
  · exact .inl rfl

theorem atEOXact_other (h : p ≠ me) (h' : p ≠ maxOldestSlot + me) :
    (s.atEOXact maxOldestSlot me).perBackendXactIds p = s.perBackendXactIds p := by
  simp [atEOXact, h, h']

theorem le_validNext : s.nextXMXact ≤ s.validNext := by
  unfold validNext
  split_ifs with h
  · exact h.le
  · exact le_rfl

end XMultiXactState

/-- The shared state, the running transaction ids of every process number, and the multixacts that
have been created, with their members. -/
structure MultiSystem where
  shared : XMultiXactState
  xids : Nat → List Nat
  multis : List (Nat × List Nat)

inductive MultiAct where
  /-- A transaction or subtransaction gets its id. -/
  | assignXid (me xid : Nat)
  /-- An id is no longer in progress. -/
  | stopXid (me xid : Nat)
  | setOldestMember (me : Nat)
  | setOldestVisible (me : Nat)
  /-- The members hold share locks, so that those still running have called
  `XMultiXactIdSetOldestMember`. -/
  | create (members : List Nat)
  /-- The entries of a backend are cleared once its ids are not in progress any more. -/
  | atEOXact (me : Nat)

namespace MultiSystem

variable (maxOldestSlot : Nat) (s : MultiSystem)

def step : MultiAct → Option MultiSystem
  | .assignXid me xid =>
    if me < maxOldestSlot ∧ (∀ p < maxOldestSlot, xid ∉ s.xids p) ∧ ∀ m ∈ s.multis, xid ∉ m.2 then
      some { s with xids := Function.update s.xids me (xid :: s.xids me) }
    else none
  | .stopXid me xid =>
    if me < maxOldestSlot then
      some { s with xids := Function.update s.xids me ((s.xids me).filter (· ≠ xid)) }
    else none
  | .setOldestMember me =>
    if me < maxOldestSlot then some { s with shared := s.shared.setOldestMember me } else none
  | .setOldestVisible me =>
    if me < maxOldestSlot then
      some { s with shared := s.shared.setOldestVisible maxOldestSlot me }
    else none
  | .create members =>
    if ∀ x ∈ members, ∀ p < maxOldestSlot, x ∈ s.xids p →
        s.shared.oldestMember p ≠ invalidXMultiXactId then
      let (multi, _, shared) := s.shared.getNewXMultiXactId members.length
      some { s with shared := shared, multis := (multi, members) :: s.multis }
    else none
  | .atEOXact me =>
    if me < maxOldestSlot ∧ s.xids me = [] then
      some { s with shared := s.shared.atEOXact maxOldestSlot me }
    else none

def run : MultiSystem → List MultiAct → Option MultiSystem
  | s, [] => some s
  | s, a :: acts => (s.step maxOldestSlot a).bind (run · acts)

/-- Nothing has happened yet; the counters are arbitrary. -/
def boot (nextXMXact nextOffset : Nat) : MultiSystem :=
  ⟨⟨nextXMXact, nextOffset, fun _ => invalidXMultiXactId⟩, fun _ => [], []⟩

def KeepsLive : Prop :=
  ∀ m ∈ s.multis, (∃ x ∈ m.2, ∃ p < maxOldestSlot, x ∈ s.xids p) →
    (∀ q < maxOldestSlot, s.shared.oldestVisible maxOldestSlot q ≤ m.1) ∧
      s.shared.getOldest maxOldestSlot ≤ m.1

/-- The oldest-member entry of process number 0, which no loop reads, stays unset, and the last
64-bit id is not given out. -/
def Scanned : MultiAct → Prop
  | .setOldestMember me => me ≠ 0
  | .create _ => s.shared.nextXMXact + 1 < 2 ^ 64
  | _ => True

/-- The states of runs whose steps are `Scanned`. -/
inductive Reached (s₀ : MultiSystem) : MultiSystem → Prop
  | start : Reached s₀ s₀
  | step {s s' : MultiSystem} {a : MultiAct} (hs : Reached s₀ s) (ha : s.Scanned a)
      (h : s.step maxOldestSlot a = some s') : Reached s₀ s'

/-- What holds between the entries, the counter and the running members. -/
structure Ordered : Prop where
  zero_unset : s.shared.oldestMember 0 = invalidXMultiXactId
  member_le_next : ∀ p < maxOldestSlot, s.shared.oldestMember p ≤ s.shared.validNext
  visible_le_next : ∀ q < maxOldestSlot,
    s.shared.oldestVisible maxOldestSlot q ≤ s.shared.validNext
  visible_le_member : ∀ p < maxOldestSlot, s.shared.oldestMember p ≠ invalidXMultiXactId →
    ∀ q < maxOldestSlot, s.shared.oldestVisible maxOldestSlot q ≤ s.shared.oldestMember p
  live : ∀ m ∈ s.multis, ∀ x ∈ m.2, ∀ p < maxOldestSlot, x ∈ s.xids p →
    s.shared.oldestMember p ≠ invalidXMultiXactId ∧ s.shared.oldestMember p ≤ m.1

section Invariant

variable {maxOldestSlot s} {s' : MultiSystem} {me : Nat}

theorem Ordered.boot (nextXMXact nextOffset : Nat) :
    Ordered maxOldestSlot (boot nextXMXact nextOffset) where
  zero_unset := rfl
  member_le_next := fun _ _ => Nat.zero_le _
  visible_le_next := fun _ _ => Nat.zero_le _
  visible_le_member := fun _ _ h => absurd rfl h
  live := by simp [MultiSystem.boot]

section

variable (h : Ordered maxOldestSlot s)

include h

/-- Ids may stop running, and new ones are members of no multixact. -/
theorem Ordered.setXids {ids : Nat → List Nat}
    (hids : ∀ m ∈ s.multis, ∀ x ∈ m.2, ∀ p, x ∈ ids p → x ∈ s.xids p) :
    Ordered maxOldestSlot { s with xids := ids } where
  __ := h
  live := fun m hm x hx p hp hxp => h.live m hm x hx p hp (hids m hm x hx p hxp)

theorem Ordered.setOldestMember (hme : me < maxOldestSlot)
    (h0 : me ≠ 0) : Ordered maxOldestSlot { s with shared := s.shared.setOldestMember me } := by
  have hvis : ∀ q, (s.shared.setOldestMember me).oldestVisible maxOldestSlot q =
      s.shared.oldestVisible maxOldestSlot q := fun q =>
    XMultiXactState.setOldestMember_other (by omega)
  -- an entry either stays or is set to the counter, which no bound exceeds
  have hmem : ∀ p < maxOldestSlot,
      (s.shared.setOldestMember me).oldestMember p = s.shared.oldestMember p ∨
        (s.shared.setOldestMember me).oldestMember p = s.shared.validNext := by
    intro p _
    by_cases hp : p = me
    · subst hp
      exact XMultiXactState.setOldestMember_self
    · exact .inl (XMultiXactState.setOldestMember_other hp)
  constructor
  · exact (XMultiXactState.setOldestMember_other h0.symm).trans h.zero_unset
  · intro p hp
    rw [XMultiXactState.setOldestMember_validNext]
    rcases hmem p hp with he | he
    · exact he ▸ h.member_le_next p hp
    · exact he.le
  · intro q hq
    rw [hvis, XMultiXactState.setOldestMember_validNext]
    exact h.visible_le_next q hq
  · intro p hp hvalid q hq
    simp only at hvalid ⊢
    rw [hvis]
    rcases hmem p hp with he | he
    · rw [he] at hvalid ⊢
      exact h.visible_le_member p hp hvalid q hq
    · rw [he]
      exact h.visible_le_next q hq
  · intro m hm x hx p hp hxp
    obtain ⟨hvalid, hle⟩ := h.live m hm x hx p hp hxp
    have hsame : (s.shared.setOldestMember me).oldestMember p = s.shared.oldestMember p := by
      by_cases hpm : p = me
      · subst hpm
        rw [XMultiXactState.setOldestMember, if_pos hvalid]
      · exact XMultiXactState.setOldestMember_other hpm
    exact hsame ▸ ⟨hvalid, hle⟩

theorem Ordered.setOldestVisible (hme : me < maxOldestSlot) :
    Ordered maxOldestSlot { s with shared := s.shared.setOldestVisible maxOldestSlot me } := by
  have hmem : ∀ p < maxOldestSlot, (s.shared.setOldestVisible maxOldestSlot me).oldestMember p =
      s.shared.oldestMember p := fun p hp =>
    XMultiXactState.setOldestVisible_other (by omega)
  have hother : ∀ q, q ≠ me → (s.shared.setOldestVisible maxOldestSlot me).oldestVisible
      maxOldestSlot q = s.shared.oldestVisible maxOldestSlot q := fun q hq =>
    XMultiXactState.setOldestVisible_other (by omega)
  constructor
  · exact (hmem 0 (by omega)).trans h.zero_unset
  · intro p hp
    rw [hmem p hp, XMultiXactState.setOldestVisible_validNext]
    exact h.member_le_next p hp
  · intro q hq
    rw [XMultiXactState.setOldestVisible_validNext]
    by_cases hqm : q = me
    · subst hqm
      rcases XMultiXactState.setOldestVisible_self (s := s.shared) with he | ⟨hle, -⟩
      · exact he ▸ h.visible_le_next q hq
      · exact hle
    · exact hother q hqm ▸ h.visible_le_next q hq
  · intro p hp hvalid q hq
    simp only [hmem p hp] at hvalid ⊢
    -- process number 0 is not scanned, but its entry is unset
    have hp0 : 0 < p := by
      refine Nat.pos_of_ne_zero fun he => hvalid ?_
      rw [he]
      exact h.zero_unset
    by_cases hqm : q = me
    · subst hqm
      rcases XMultiXactState.setOldestVisible_self (s := s.shared) with he | ⟨-, hle⟩
      · exact he ▸ h.visible_le_member p hp hvalid q hq
      · exact hle p hp0 hp.le hvalid
    · exact hother q hqm ▸ h.visible_le_member p hp hvalid q hq
  · intro m hm x hx p hp hxp
    exact hmem p hp ▸ h.live m hm x hx p hp hxp

theorem Ordered.atEOXact (hme : me < maxOldestSlot)
    (hxids : s.xids me = []) :
    Ordered maxOldestSlot { s with shared := s.shared.atEOXact maxOldestSlot me } := by
  have hle : ∀ p, (s.shared.atEOXact maxOldestSlot me).perBackendXactIds p ≤
      s.shared.perBackendXactIds p := by
    intro p
    rcases XMultiXactState.atEOXact_cases (s := s.shared) (p := p) with he | he
    · exact he.le
    · exact he ▸ Nat.zero_le _
  constructor
  · exact Nat.le_zero.mp ((hle 0).trans h.zero_unset.le)
  · intro p hp
    exact (hle p).trans (h.member_le_next p hp)
  · intro q hq
    exact (hle _).trans (h.visible_le_next q hq)
  · intro p hp hvalid q hq
    rcases XMultiXactState.atEOXact_cases (s := s.shared) (p := p) with he | he
    · simp only [XMultiXactState.oldestMember] at hvalid ⊢
      rw [he] at hvalid ⊢
      exact (hle _).trans (h.visible_le_member p hp hvalid q hq)
    · exact absurd he hvalid
  · intro m hm x hx p hp hxp
    have hpm : p ≠ me := by
      rintro rfl
      rw [hxids] at hxp
      cases hxp
    have hsame : (s.shared.atEOXact maxOldestSlot me).oldestMember p = s.shared.oldestMember p :=
      XMultiXactState.atEOXact_other hpm (by omega)
    exact hsame ▸ h.live m hm x hx p hp hxp

theorem Ordered.create {members : List Nat}
    (hset : ∀ x ∈ members, ∀ p < maxOldestSlot, x ∈ s.xids p →
      s.shared.oldestMember p ≠ invalidXMultiXactId)
    (hlast : s.shared.nextXMXact + 1 < 2 ^ 64) :
    Ordered maxOldestSlot
      { s with
        shared := (s.shared.getNewXMultiXactId members.length).2.2
        multis := (s.shared.validNext, members) :: s.multis } := by
  have hnext : s.shared.validNext ≤
      (s.shared.getNewXMultiXactId members.length).2.2.validNext := by
    have hlt : s.shared.validNext + 1 < 2 ^ 64 := by
      unfold XMultiXactState.validNext firstXMultiXactId
      split_ifs <;> omega
    refine le_trans ?_ XMultiXactState.le_validNext
    simp only [XMultiXactState.getNewXMultiXactId, Nat.mod_eq_of_lt hlt]
    omega
  constructor
  · exact h.zero_unset
  · exact fun p hp => (h.member_le_next p hp).trans hnext
  · exact fun q hq => (h.visible_le_next q hq).trans hnext
  · exact h.visible_le_member
  · intro m hm x hx p hp hxp
    rcases List.mem_cons.mp hm with rfl | hm
    · exact ⟨hset x hx p hp hxp, h.member_le_next p hp⟩
    · exact h.live m hm x hx p hp hxp

end

theorem Ordered.step {a : MultiAct} (h : Ordered maxOldestSlot s) (ha : s.Scanned a)
    (hs : s.step maxOldestSlot a = some s') : Ordered maxOldestSlot s' := by
  cases a <;> simp only [MultiSystem.step, Option.ite_none_right_eq_some, Option.some.injEq] at hs
  case assignXid me xid =>
    obtain ⟨hg, rfl⟩ := hs
    refine h.setXids fun m hm x hx p hxp => ?_
    rw [update_apply] at hxp
    split_ifs at hxp with hp
    · have hne : x ≠ xid := fun he => hg.2.2 m hm (he ▸ hx)
      exact hp ▸ (List.mem_cons.mp hxp).resolve_left hne
    · exact hxp
  case stopXid me xid =>
    obtain ⟨-, rfl⟩ := hs
    refine h.setXids fun m hm x hx p hxp => ?_
    rw [update_apply] at hxp
    split_ifs at hxp with hp
    · exact hp ▸ List.mem_of_mem_filter hxp
    · exact hxp
  case setOldestMember me =>
    obtain ⟨hg, rfl⟩ := hs
    exact h.setOldestMember hg ha
  case setOldestVisible me =>
    obtain ⟨hg, rfl⟩ := hs
    exact h.setOldestVisible hg
  case create members =>
    obtain ⟨hg, rfl⟩ := hs
    exact h.create hg ha
  case atEOXact me =>
    obtain ⟨hg, rfl⟩ := hs
    exact h.atEOXact hg.1 hg.2

theorem Ordered.keepsLive (h : Ordered maxOldestSlot s) : KeepsLive maxOldestSlot s := by
  rintro m hm ⟨x, hx, p, hp, hxp⟩
  obtain ⟨hvalid, hle⟩ := h.live m hm x hx p hp hxp
  have hp0 : 0 < p := by
    refine Nat.pos_of_ne_zero fun he => hvalid ?_
    rw [he]
    exact h.zero_unset
  constructor
  · intro q hq
    exact (h.visible_le_member p hp hvalid q hq).trans hle
  · exact (XMultiXactState.getOldest_le_member hp0 hp.le hvalid).trans hle

end Invariant

end MultiSystem

/-- As long as process number 0 sets no oldest-member entry, no live multixact falls below a bound,
whatever the backends do in which order. -/
theorem live_multixacts_kept (maxOldestSlot nextXMXact nextOffset : Nat) (s : MultiSystem)
    (hs : MultiSystem.Reached maxOldestSlot (.boot nextXMXact nextOffset) s) :
    s.KeepsLive maxOldestSlot := by
  suffices h : s.Ordered maxOldestSlot from h.keepsLive
  induction hs with
  | start => exact .boot nextXMXact nextOffset
  | step _ ha h ih => exact ih.step ha h

/-- Transactions 10 and 11 of process numbers `p` and `q` share a row lock. Then 11 ends, and the next
transaction of its backend computes the oldest id it takes for live. -/
def lockShared (p q : Nat) : List MultiAct :=
  [.assignXid p 10, .setOldestMember p, .assignXid q 11, .setOldestMember q, .create [10, 11],
    .stopXid q 11, .atEOXact q, .setOldestVisible q]

theorem live_multixact_of_scanned_slots_kept :
    ∃ s, (MultiSystem.boot 0 0).run 3 (lockShared 1 2) = some s ∧ 10 ∈ s.xids 1 ∧
      (1, [10, 11]) ∈ s.multis ∧ s.KeepsLive 3 := by
  have h₀ : MultiSystem.Reached 3 (.boot 0 0) (.boot 0 0) := .start
  have h₁ := h₀.step (a := .assignXid 1 10) trivial rfl
  have h₂ := h₁.step (a := .setOldestMember 1) (by decide : 1 ≠ 0) rfl
  have h₃ := h₂.step (a := .assignXid 2 11) trivial rfl
  have h₄ := h₃.step (a := .setOldestMember 2) (by decide : 2 ≠ 0) rfl
  have h₅ := h₄.step (a := .create [10, 11]) (by decide : 0 + 1 < 2 ^ 64) rfl
  have h₆ := h₅.step (a := .stopXid 2 11) trivial rfl
  have h₇ := h₆.step (a := .atEOXact 2) trivial rfl
  have h₈ := h₇.step (a := .setOldestVisible 2) trivial rfl
  exact ⟨_, rfl, by decide, by decide, live_multixacts_kept 3 0 0 _ h₈⟩

/-- Process number 0 holds the lock: multixact 1 is live, and every bound has passed it. -/
theorem live_multixact_of_slot_zero_dropped :
    ∃ s, (MultiSystem.boot 0 0).run 2 (lockShared 0 1) = some s ∧ 10 ∈ s.xids 0 ∧
      (1, [10, 11]) ∈ s.multis ∧ s.shared.oldestVisible 2 1 = 2 ∧ s.shared.getOldest 2 = 2 :=
  ⟨_, rfl, by decide, by decide, by decide, by decide⟩

end XStore
