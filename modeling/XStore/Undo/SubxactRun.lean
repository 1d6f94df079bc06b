import XStore.Undo.SubxactWalk
import Mathlib.Data.List.Perm.Basic

/-!
# Every abort of a subtransaction finds its records

The invariant: from the newest record of the log, and from the latest record of every level, the
walk leads to the first record of each open level in turn and over all records the level has to
roll back.  A switch keeps it when the new log begins with a pointer to a record of the same level.
-/
namespace XStore

open List

namespace LevelUndo

def IsEmpty (l : LevelUndo) : Prop := l.firstUrp = .invalid

instance (l : LevelUndo) : Decidable l.IsEmpty := inferInstanceAs (Decidable (l.firstUrp = .invalid))

structure Consistent (l : LevelUndo) : Prop where
  latest : l.IsEmpty ↔ l.latestUrp = .invalid
  xact : l.latestUrpXact = l.latestUrp
  own : l.IsEmpty → l.own = []

end LevelUndo

section Reaches

variable (recs : List LoggedRecord)

/-- The walk from a record leads to the first record of each level in turn, over all that the level
has to roll back. -/
def Reaches : LoggedRecord → List LevelUndo → Prop
  | _, [] => True
  | a, l :: ls =>
    if l.IsEmpty then Reaches a ls
    else ∃ L f, Path Link a L f ∧ (∀ r ∈ L, r ∈ recs) ∧ f.urp = l.firstUrp ∧
      (∀ p ∈ l.own, ∃ r ∈ L, r.urp = p) ∧ Reaches f ls

def LatestReaches : List LevelUndo → Prop
  | [] => True
  | l :: ls => (¬l.IsEmpty → ∃ a ∈ recs, a.urp = l.latestUrp ∧ Reaches recs a (l :: ls)) ∧ LatestReaches ls

/-- Every record since the first one of a level was written by the level or inside it. -/
def Covered : List UndoPtr → List LevelUndo → Prop
  | _, [] => True
  | inner, l :: ls =>
    (¬l.IsEmpty → ∀ r ∈ recs, ¬r.urp.Before l.firstUrp → r.urp ∈ inner ++ l.own ++ l.undone) ∧
      Covered (inner ++ l.own ++ l.undone) ls

end Reaches

section ReachesLemmas

variable {recs recs' : List LoggedRecord} {a b : LoggedRecord} {l l' : LevelUndo} {ls : List LevelUndo}

theorem reaches_empty (h : l.IsEmpty) : Reaches recs a (l :: ls) ↔ Reaches recs a ls := by
  rw [Reaches, if_pos h]

theorem reaches_cons (h : ¬l.IsEmpty) : Reaches recs a (l :: ls) ↔
    ∃ L f, Path Link a L f ∧ (∀ r ∈ L, r ∈ recs) ∧ f.urp = l.firstUrp ∧
      (∀ p ∈ l.own, ∃ r ∈ L, r.urp = p) ∧ Reaches recs f ls := by
  rw [Reaches, if_neg h]

theorem reaches_of_all_empty (h : ∀ l ∈ ls, l.IsEmpty) : Reaches recs a ls := by
  induction ls with
  | nil => trivial
  | cons l ls ih =>
    rw [reaches_empty (h l (by simp))]
    exact ih fun l hl => h l (by simp [hl])

theorem Reaches.mono (hsub : ∀ r ∈ recs, r ∈ recs') (h : Reaches recs a ls) : Reaches recs' a ls := by
  induction ls generalizing a with
  | nil => trivial
  | cons l ls ih =>
    by_cases he : l.IsEmpty
    · rw [reaches_empty he] at h ⊢
      exact ih h
    · obtain ⟨L, f, hp, hL, hf, hown, hrest⟩ := (reaches_cons he).mp h
      exact (reaches_cons he).mpr ⟨L, f, hp, fun r hr => hsub r (hL r hr), hf, hown, ih hrest⟩

/-- What can be reached from the end of a path can be reached from its beginning. -/
theorem Reaches.of_path {L : List LoggedRecord} (hp : Path Link a L b) (hL : ∀ r ∈ L, r ∈ recs)
    (h : Reaches recs b ls) : Reaches recs a ls := by
  induction ls with
  | nil => trivial
  | cons l ls ih =>
    by_cases he : l.IsEmpty
    · rw [reaches_empty he] at h ⊢
      exact ih h
    · obtain ⟨M, f, hpb, hM, hf, hown, hrest⟩ := (reaches_cons he).mp h
      obtain ⟨N, hN, hmem⟩ := hp.trans hpb
      refine (reaches_cons he).mpr ⟨N, f, hN, fun r hr => ?_, hf, fun p hp => ?_, hrest⟩
      · rcases (hmem r).mp hr with hr | hr
        · exact hL r hr
        · exact hM r hr
      · obtain ⟨r, hr, heq⟩ := hown p hp
        exact ⟨r, (hmem r).mpr (.inr hr), heq⟩

theorem Reaches.link (hl : Link a b) (ha : a ∈ recs) (hb : b ∈ recs) (h : Reaches recs b ls) :
    Reaches recs a ls :=
  h.of_path (.step hl (.refl b)) (by simp [ha, hb])

theorem Reaches.tail (h : Reaches recs a (l :: ls)) : Reaches recs a ls := by
  by_cases he : l.IsEmpty
  · exact (reaches_empty he).mp h
  · obtain ⟨L, f, hp, hL, -, -, hrest⟩ := (reaches_cons he).mp h
    exact hrest.of_path hp hL

/-- Only the first record and the records to roll back count. -/
theorem Reaches.congr (hfirst : l'.firstUrp = l.firstUrp) (hown : l'.own = l.own)
    (h : Reaches recs a (l :: ls)) : Reaches recs a (l' :: ls) := by
  have hiff : l'.IsEmpty ↔ l.IsEmpty := by rw [LevelUndo.IsEmpty, LevelUndo.IsEmpty, hfirst]
  by_cases he : l.IsEmpty
  · exact (reaches_empty (hiff.mpr he)).mpr ((reaches_empty he).mp h)
  · have hcons := (reaches_cons he).mp h
    rw [← hfirst, ← hown] at hcons
    exact (reaches_cons (mt hiff.mp he)).mpr hcons

/-- A new record of the level at the beginning of the walk. -/
theorem Reaches.setUndorecPtr (h : Reaches recs a (l :: ls)) (ha : a ∈ recs) (hv : a.Valid)
    (hown : l.IsEmpty → l.own = []) : Reaches recs a (l.setUndorecPtr a.urp :: ls) := by
  have hne := hv.ne_invalid
  by_cases he : l.IsEmpty
  · have hfirst : (l.setUndorecPtr a.urp).firstUrp = a.urp := if_pos he
    have he' : ¬(l.setUndorecPtr a.urp).IsEmpty := by
      unfold LevelUndo.IsEmpty
      rwa [hfirst]
    refine (reaches_cons he').mpr ⟨[a], a, .refl a, by simp [ha], hfirst.symm, ?_, (reaches_empty he).mp h⟩
    intro p hp
    rw [LevelUndo.setUndorecPtr, hown he] at hp
    exact ⟨a, by simp, (mem_singleton.mp hp).symm⟩
  · have hfirst : (l.setUndorecPtr a.urp).firstUrp = l.firstUrp := if_neg he
    have he' : ¬(l.setUndorecPtr a.urp).IsEmpty := by
      unfold LevelUndo.IsEmpty
      rwa [hfirst]
    obtain ⟨L, f, hp, hL, hf, hall, hrest⟩ := (reaches_cons he).mp h
    refine (reaches_cons he').mpr ⟨L, f, hp, hL, by rw [hf, hfirst], fun p hmem => ?_, hrest⟩
    rcases mem_cons.mp hmem with rfl | hmem
    · exact ⟨a, hp.mem_first, rfl⟩
    · exact hall p hmem

/-- The records of a level that commits go to the level around it. -/
theorem Reaches.propagate (hl : l.Consistent) (hl' : l'.Consistent)
    (h : Reaches recs a (l :: l' :: ls)) : Reaches recs a (l.propagate l' :: ls) := by
  by_cases he : l.IsEmpty
  · rw [reaches_empty he] at h
    refine h.congr ?_ ?_
    · unfold LevelUndo.IsEmpty at he
      simp only [LevelUndo.propagate, he]
      split
      · rename_i h'
        rw [h']
      · rfl
    · rw [LevelUndo.propagate, hl.own he, nil_append]
  · obtain ⟨L, f, hp, hL, hf, hall, hrest⟩ := (reaches_cons he).mp h
    by_cases he' : l'.IsEmpty
    · have hfirst : (l.propagate l').firstUrp = l.firstUrp := if_pos he'
      have hne : ¬(l.propagate l').IsEmpty := by
        unfold LevelUndo.IsEmpty
        rwa [hfirst]
      refine (reaches_cons hne).mpr ⟨L, f, hp, hL, by rw [hf, hfirst], fun p hmem => ?_,
        (reaches_empty he').mp hrest⟩
      rw [LevelUndo.propagate, hl'.own he', append_nil] at hmem
      exact hall p hmem
    · have hfirst : (l.propagate l').firstUrp = l'.firstUrp := if_neg he'
      have hne : ¬(l.propagate l').IsEmpty := by
        unfold LevelUndo.IsEmpty
        rwa [hfirst]
      obtain ⟨M, g, hp', hM, hg, hall', hrest'⟩ := (reaches_cons he').mp hrest
      obtain ⟨N, hN, hmem⟩ := hp.trans hp'
      refine (reaches_cons hne).mpr ⟨N, g, hN, fun r hr => ?_, by rw [hg, hfirst], fun p hpm => ?_, hrest'⟩
      · rcases (hmem r).mp hr with hr | hr
        · exact hL r hr
        · exact hM r hr
      · rcases mem_append.mp hpm with hpm | hpm
        · obtain ⟨r, hr, heq⟩ := hall p hpm
          exact ⟨r, (hmem r).mpr (.inl hr), heq⟩
        · obtain ⟨r, hr, heq⟩ := hall' p hpm
          exact ⟨r, (hmem r).mpr (.inr hr), heq⟩

theorem LatestReaches.mono (hsub : ∀ r ∈ recs, r ∈ recs') (h : LatestReaches recs ls) :
    LatestReaches recs' ls := by
  induction ls with
  | nil => trivial
  | cons l ls ih =>
    refine ⟨fun he => ?_, ih h.2⟩
    obtain ⟨a, ha, hurp, hreach⟩ := h.1 he
    exact ⟨a, hsub a ha, hurp, hreach.mono hsub⟩

theorem Covered.mono {inner inner' : List UndoPtr} (hsub : ∀ p ∈ inner, p ∈ inner')
    (h : Covered recs inner ls) : Covered recs inner' ls := by
  induction ls generalizing inner inner' with
  | nil => trivial
  | cons l ls ih =>
    have hsub' : ∀ p ∈ inner ++ l.own ++ l.undone, p ∈ inner' ++ l.own ++ l.undone := by
      intro p hp
      simp only [mem_append] at hp ⊢
      rcases hp with (hp | hp) | hp
      · exact .inl (.inl (hsub p hp))
      · exact .inl (.inr hp)
      · exact .inr hp
    exact ⟨fun he r hr hb => hsub' _ (h.1 he r hr hb), ih hsub' h.2⟩

theorem Covered.cons {inner : List UndoPtr} (ha : a.urp ∈ inner) (h : Covered recs inner ls) :
    Covered (a :: recs) inner ls := by
  induction ls generalizing inner with
  | nil => trivial
  | cons l ls ih =>
    have ha' : a.urp ∈ inner ++ l.own ++ l.undone := by simp [ha]
    refine ⟨fun he r hr hb => ?_, ih ha' h.2⟩
    rcases mem_cons.mp hr with rfl | hr
    · exact ha'
    · exact h.1 he r hr hb

end ReachesLemmas

namespace XactUndo

/-- The condition on a step: a switch comes behind a record of the current level, unless no open
subtransaction has any, and no record reaches into a third page. -/
def StepOk (st : XactUndo) : XactEvent → Prop
  | .write switchTo size unpackedSize =>
    (switchTo.isSome = true → st.current.latestUrpXact ≠ .invalid ∨ ∀ l ∈ st.subs, l.firstUrp = .invalid) ∧
      size < blcksz - (st.newRecord switchTo size unpackedSize).urp.offset % blcksz +
        undoLogUsableBytesPerPage
  | _ => True

def RunOk (st : XactUndo) : List XactEvent → Prop
  | [] => True
  | e :: es => st.StepOk e ∧ ∀ st', st.step e = some st' → st'.RunOk es

/-- At the beginning of a transaction: nothing of it is in the log yet. -/
structure Begins (st : XactUndo) : Prop where
  top : st.top = LevelUndo.empty
  subs : st.subs = []
  inOrder : InOrder st.recs
  ahead : ∀ r ∈ st.recs, r.EndsBy st.insert
  aligned : undoLogBlockHeaderSize ≤ st.insert.offset % blcksz

structure Inv (st : XactUndo) : Prop where
  inOrder : InOrder st.recs
  ahead : ∀ r ∈ st.recs, r.EndsBy st.insert
  aligned : undoLogBlockHeaderSize ≤ st.insert.offset % blcksz
  top : st.top.Consistent
  levels : ∀ l ∈ st.subs, l.Consistent
  newest : (∀ l ∈ st.subs, l.IsEmpty) ∨ ∃ r rs, st.recs = r :: rs ∧ st.insert = getNextUndoptr r.urp r.size ∧
    r.Steppable ∧ Reaches st.recs r st.subs
  latest : LatestReaches st.recs st.subs
  covered : Covered st.recs [] st.subs

end XactUndo

theorem LevelUndo.empty_isEmpty : LevelUndo.empty.IsEmpty := rfl

theorem LevelUndo.empty_consistent : LevelUndo.empty.Consistent :=
  ⟨Iff.rfl, rfl, fun _ => rfl⟩

theorem LevelUndo.Consistent.setUndorecPtr {l : LevelUndo} {p : UndoPtr} (hp : p ≠ .invalid) :
    (l.setUndorecPtr p).Consistent := by
  have hne : ¬(l.setUndorecPtr p).IsEmpty := by
    unfold LevelUndo.IsEmpty LevelUndo.setUndorecPtr
    dsimp only
    split
    · exact hp
    · assumption
  exact ⟨⟨fun h => absurd h hne, fun h => absurd h hp⟩, rfl, fun h => absurd h hne⟩

variable {l l' : LevelUndo}

theorem LevelUndo.Consistent.propagate (hl : l.Consistent) (hl' : l'.Consistent) :
    (l.propagate l').Consistent := by
  by_cases he : l.IsEmpty
  · have hlatest := hl.latest.mp he
    have hfirst : (l.propagate l').firstUrp = l'.firstUrp := by
      unfold LevelUndo.IsEmpty at he
      simp only [LevelUndo.propagate, he]
      split
      · rename_i h'
        rw [h']
      · rfl
    have heq : (l.propagate l').latestUrp = l'.latestUrp := if_neg (not_not.mpr hlatest)
    have heqx : (l.propagate l').latestUrpXact = l'.latestUrpXact := if_neg (not_not.mpr hlatest)
    refine ⟨?_, by rw [heq, heqx, hl'.xact], fun h => ?_⟩
    · rw [IsEmpty, hfirst, heq]
      exact hl'.latest
    · rw [IsEmpty, hfirst] at h
      rw [LevelUndo.propagate, hl.own he, hl'.own h, nil_append]
  · have hlatest : l.latestUrp ≠ .invalid := mt hl.latest.mpr he
    have heq : (l.propagate l').latestUrp = l.latestUrp := if_pos hlatest
    have heqx : (l.propagate l').latestUrpXact = l.latestUrp := if_pos hlatest
    have hne : ¬(l.propagate l').IsEmpty := by
      unfold LevelUndo.IsEmpty LevelUndo.propagate
      dsimp only
      split
      · exact he
      · assumption
    exact ⟨⟨fun h => absurd h hne, fun h => absurd (heq ▸ h) hlatest⟩, by rw [heq, heqx], fun h => absurd h hne⟩

theorem LevelUndo.Consistent.afterAbort (hl' : l'.Consistent) :
    (l.afterAbort l').Consistent := ⟨hl'.latest, hl'.xact, hl'.own⟩

namespace XactUndo

variable {st st' : XactUndo} {child parent : LevelUndo} {rest : List LevelUndo}

theorem Begins.inv (h : st.Begins) : st.Inv where
  inOrder := h.inOrder
  ahead := h.ahead
  aligned := h.aligned
  top := h.top ▸ LevelUndo.empty_consistent
  levels := by simp [h.subs]
  newest := .inl (by simp [h.subs])
  latest := by rw [h.subs]; trivial
  covered := by rw [h.subs]; trivial

theorem Inv.startSub (h : st.Inv) : Inv { st with subs := LevelUndo.empty :: st.subs } where
  inOrder := h.inOrder
  ahead := h.ahead
  aligned := h.aligned
  top := h.top
  levels := by
    intro l hl
    rcases mem_cons.mp hl with rfl | hl
    · exact LevelUndo.empty_consistent
    · exact h.levels l hl
  newest := by
    rcases h.newest with hall | ⟨r, rs, hrecs, hins, hstep, hreach⟩
    · left
      intro l hl
      rcases mem_cons.mp hl with rfl | hl
      · rfl
      · exact hall l hl
    · exact .inr ⟨r, rs, hrecs, hins, hstep, (reaches_empty LevelUndo.empty_isEmpty).mpr hreach⟩
  latest := ⟨fun he => absurd rfl he, h.latest⟩
  covered := ⟨fun he => absurd rfl he, h.covered⟩

theorem Inv.abortSub (h : st.Inv)
    (hsubs : st.subs = child :: parent :: rest) :
    Inv { st with subs := child.afterAbort parent :: rest } := by
  have hlevels := h.levels
  have hlatest := h.latest
  have hcovered := h.covered
  have hnewest := h.newest
  rw [hsubs] at hlevels hlatest hcovered hnewest
  refine ⟨h.inOrder, h.ahead, h.aligned, h.top, ?_, ?_, ?_, ?_⟩
  · intro l hl
    rcases mem_cons.mp hl with rfl | hl
    · exact (hlevels parent (by simp)).afterAbort
    · exact hlevels l (by simp [hl])
  · rcases hnewest with hall | ⟨r, rs, hrecs, hins, hstep, hreach⟩
    · left
      intro l hl
      rcases mem_cons.mp hl with rfl | hl
      · exact hall parent (by simp)
      · exact hall l (by simp [hl])
    · exact .inr ⟨r, rs, hrecs, hins, hstep, hreach.tail.congr rfl rfl⟩
  · refine ⟨fun he => ?_, hlatest.2.2⟩
    obtain ⟨a, ha, hurp, hreach⟩ := hlatest.2.1 he
    exact ⟨a, ha, hurp, hreach.congr rfl rfl⟩
  · have hsub : ∀ p, p ∈ [] ++ child.own ++ child.undone ++ parent.own ++ parent.undone →
        p ∈ [] ++ (child.afterAbort parent).own ++ (child.afterAbort parent).undone := by
      intro p hp
      simp only [LevelUndo.afterAbort, nil_append, mem_append] at hp ⊢
      tauto
    exact ⟨fun he r hr hb => hsub _ (hcovered.2.1 he r hr hb), hcovered.2.2.mono hsub⟩

theorem Inv.commitSub (h : st.Inv)
    (hsubs : st.subs = child :: parent :: rest) :
    Inv { st with subs := child.propagate parent :: rest } := by
  have hlevels := h.levels
  have hlatest := h.latest
  have hcovered := h.covered
  have hnewest := h.newest
  rw [hsubs] at hlevels hlatest hcovered hnewest
  have hchild := hlevels child (by simp)
  have hparent := hlevels parent (by simp)
  refine ⟨h.inOrder, h.ahead, h.aligned, h.top, ?_, ?_, ?_, ?_⟩
  · intro l hl
    rcases mem_cons.mp hl with rfl | hl
    · exact hchild.propagate hparent
    · exact hlevels l (by simp [hl])
  · rcases hnewest with hall | ⟨r, rs, hrecs, hins, hstep, hreach⟩
    · left
      intro l hl
      rcases mem_cons.mp hl with rfl | hl
      · have hp := hall parent (by simp)
        have hc := hall child (by simp)
        exact (if_pos hp).trans hc
      · exact hall l (by simp [hl])
    · exact .inr ⟨r, rs, hrecs, hins, hstep, hreach.propagate hchild hparent⟩
  · refine ⟨fun he => ?_, hlatest.2.2⟩
    by_cases hc : child.IsEmpty
    · have hnone := hchild.latest.mp hc
      have hp : ¬parent.IsEmpty := fun hp => he ((if_pos hp).trans hc)
      obtain ⟨a, ha, hurp, hreach⟩ := hlatest.2.1 hp
      refine ⟨a, ha, hurp.trans (if_neg (not_not.mpr hnone)).symm, ?_⟩
      exact ((reaches_empty hc).mpr hreach).propagate hchild hparent
    · obtain ⟨a, ha, hurp, hreach⟩ := hlatest.1 hc
      exact ⟨a, ha, hurp.trans (if_pos (mt hchild.latest.mpr hc)).symm, hreach.propagate hchild hparent⟩
  · have hsub : ∀ p, p ∈ [] ++ child.own ++ child.undone ++ parent.own ++ parent.undone →
        p ∈ [] ++ (child.propagate parent).own ++ (child.propagate parent).undone := by
      intro p hp
      simp only [LevelUndo.propagate, nil_append, mem_append] at hp ⊢
      tauto
    refine ⟨fun he r hr hb => hsub _ ?_, hcovered.2.2.mono hsub⟩
    by_cases hp : parent.IsEmpty
    · have hfirst : (child.propagate parent).firstUrp = child.firstUrp := if_pos hp
      have hc : ¬child.IsEmpty := fun hc => he (hfirst.trans hc)
      rw [hfirst] at hb
      exact mem_append_left _ (mem_append_left _ (hcovered.1 hc r hr hb))
    · have hfirst : (child.propagate parent).firstUrp = parent.firstUrp := if_neg hp
      exact hcovered.2.1 hp r hr (hfirst ▸ hb)

section Write

variable {r : LoggedRecord}

/-- A record that is linked to one from which all open levels can be reached, or is the first of
all. -/
theorem Inv.logRecord (h : st.Inv) (hv : r.Valid) (hstep : r.Steppable)
    (hahead : ∀ q ∈ st.recs, q.EndsBy r.urp)
    (hlink : (∀ l ∈ st.subs, l.IsEmpty) ∨ ∃ b ∈ st.recs, Link r b ∧ Reaches st.recs b st.subs) :
    (st.logRecord r).Inv := by
  have hgrow : ∀ q ∈ st.recs, q ∈ r :: st.recs := fun q hq => mem_cons_of_mem _ hq
  have horder : InOrder (r :: st.recs) := by
    refine ⟨pairwise_cons.mpr ⟨hahead, h.inOrder.sorted⟩, fun q hq => ?_⟩
    rcases mem_cons.mp hq with rfl | hq
    · exact hv
    · exact h.inOrder.valid q hq
  have hends : ∀ q ∈ r :: st.recs, q.EndsBy (getNextUndoptr r.urp r.size) := by
    intro q hq
    rcases mem_cons.mp hq with rfl | hq
    · exact .inr ⟨rfl, Nat.le_refl _⟩
    · exact (hahead q hq).next hv
  have haligned : undoLogBlockHeaderSize ≤ (getNextUndoptr r.urp r.size).offset % blcksz := by
    have hmod := undoPaging.addr_mod (undoPaging.index r.urp.offset + r.size)
    rw [← offsetPlusUsableBytes_eq hv.aligned] at hmod
    exact hmod ▸ Nat.le_add_right _ _
  have hreach : Reaches (r :: st.recs) r st.subs := by
    rcases hlink with hall | ⟨b, hb, hl, hreach⟩
    · exact reaches_of_all_empty hall
    · exact (hreach.mono hgrow).link hl (by simp) (hgrow b hb)
  cases hsubs : st.subs with
  | nil =>
    have hst : st.logRecord r = { st with
        top := st.top.setUndorecPtr r.urp
        insert := getNextUndoptr r.urp r.size
        recs := r :: st.recs } := by
      simp [XactUndo.logRecord, XactUndo.setCurrent, XactUndo.current, hsubs]
    rw [hst]
    refine ⟨horder, hends, haligned, .setUndorecPtr hv.ne_invalid, h.levels, .inl ?_, ?_, ?_⟩
    · simp [hsubs]
    · rw [hsubs]
      trivial
    · rw [hsubs]
      trivial
  | cons l ls =>
    have hst : st.logRecord r = { st with
        subs := l.setUndorecPtr r.urp :: ls
        insert := getNextUndoptr r.urp r.size
        recs := r :: st.recs } := by
      simp [XactUndo.logRecord, XactUndo.setCurrent, XactUndo.current, hsubs]
    have hlevels := h.levels
    have hlatest := h.latest
    have hcovered := h.covered
    rw [hsubs] at hlevels hlatest hcovered hreach
    have hl := hlevels l (by simp)
    have hreach' := hreach.setUndorecPtr (by simp) hv hl.own
    have hmem : r.urp ∈ [] ++ (l.setUndorecPtr r.urp).own ++ (l.setUndorecPtr r.urp).undone := by
      simp [LevelUndo.setUndorecPtr]
    have hsub : ∀ p ∈ [] ++ l.own ++ l.undone,
        p ∈ [] ++ (l.setUndorecPtr r.urp).own ++ (l.setUndorecPtr r.urp).undone := by
      intro p hp
      simp only [LevelUndo.setUndorecPtr, nil_append, mem_append, mem_cons] at hp ⊢
      tauto
    rw [hst]
    refine ⟨horder, hends, haligned, h.top, ?_, ?_, ?_, ?_⟩
    · intro l' hl'
      rcases mem_cons.mp hl' with rfl | hl'
      · exact .setUndorecPtr hv.ne_invalid
      · exact hlevels l' (by simp [hl'])
    · exact .inr ⟨r, st.recs, rfl, rfl, hstep, hreach'⟩
    · exact ⟨fun _ => ⟨r, by simp, rfl, hreach'⟩, hlatest.2.mono hgrow⟩
    · refine ⟨fun _ q hq hb => ?_, (hcovered.2.mono hsub).cons hmem⟩
      rcases mem_cons.mp hq with rfl | hq
      · exact hmem
      · by_cases he : l.IsEmpty
        · have hfirst : (l.setUndorecPtr r.urp).firstUrp = r.urp := if_pos he
          rw [hfirst] at hb
          exact absurd ((hahead q hq).before (h.inOrder.valid q hq)) hb
        · have hfirst : (l.setUndorecPtr r.urp).firstUrp = l.firstUrp := if_neg he
          rw [hfirst] at hb
          exact hsub _ (hcovered.1 he q hq hb)

theorem Inv.write (h : st.Inv) {switchTo : Option Nat} {size unpackedSize : Nat} (hsize : 0 < size)
    (hswitch : switchTo.all (st.insert.logno < ·) = true)
    (hok : st.StepOk (.write switchTo size unpackedSize)) :
    (st.logRecord (st.newRecord switchTo size unpackedSize)).Inv := by
  obtain ⟨hcond, hshort⟩ := hok
  cases switchTo with
  | none =>
    apply h.logRecord ⟨h.aligned, hsize⟩ ⟨h.aligned, hshort⟩ h.ahead
    rcases h.newest with hall | ⟨b, bs, hrecs, hins, hstep, hreach⟩
    · exact .inl hall
    · have hb : b ∈ st.recs := by simp [hrecs]
      exact .inr ⟨b, hb, ⟨(h.ahead b hb).before (h.inOrder.valid b hb), .inr ⟨rfl, hins, hstep⟩⟩, hreach⟩
  | some logno =>
    have hlt : st.insert.logno < logno := by simpa using hswitch
    have hahead : ∀ q ∈ st.recs, q.EndsBy ⟨logno, undoLogBlockHeaderSize⟩ := by
      intro q hq
      have := h.ahead q hq
      unfold LoggedRecord.EndsBy at *
      dsimp only
      omega
    have haligned : undoLogBlockHeaderSize ≤
        (st.newRecord (some logno) size unpackedSize).urp.offset % blcksz := by
      show undoLogBlockHeaderSize ≤ undoLogBlockHeaderSize % blcksz
      decide
    apply h.logRecord ⟨haligned, hsize⟩ ⟨haligned, hshort⟩ hahead
    rcases hcond rfl with hlatest | hall
    · cases hsubs : st.subs with
      | nil => exact .inl (by simp)
      | cons l ls =>
        have hcur : st.current = l := by simp [XactUndo.current, hsubs]
        have hl := h.levels l (by simp [hsubs])
        have hall := h.latest
        rw [hsubs] at hall
        rw [hcur, hl.xact] at hlatest
        obtain ⟨a, ha, hurp, hreach⟩ := hall.1 (mt hl.latest.mp hlatest)
        refine .inr ⟨a, ha, ⟨(hahead a ha).before (h.inOrder.valid a ha), .inl ?_⟩, hreach⟩
        rw [hurp, ← hl.xact, ← hcur]
        rfl
    · exact .inl hall

theorem Inv.step (h : st.Inv) {e : XactEvent} (hok : st.StepOk e) (hstep : st.step e = some st') :
    st'.Inv := by
  cases e with
  | startSub =>
    cases hstep
    exact h.startSub
  | write switchTo size unpackedSize =>
    simp only [XactUndo.step] at hstep
    split at hstep
    · rename_i hcond
      cases hstep
      exact h.write hcond.1 hcond.2 hok
    · cases hstep
  | commitSub =>
    simp only [XactUndo.step] at hstep
    split at hstep
    · cases hstep
    · rename_i child hsubs
      cases hstep
      exact ⟨h.inOrder, h.ahead, h.aligned, (h.levels child (by simp [hsubs])).propagate h.top, by simp,
        .inl (by simp), trivial, trivial⟩
    · rename_i child parent rest hsubs
      cases hstep
      exact h.commitSub hsubs
  | abortSub =>
    simp only [XactUndo.step] at hstep
    split at hstep
    · cases hstep
    · cases hstep
      exact ⟨h.inOrder, h.ahead, h.aligned, h.top.afterAbort, by simp, .inl (by simp), trivial, trivial⟩
    · rename_i child parent rest hsubs
      cases hstep
      exact h.abortSub hsubs

theorem Inv.run (h : st.Inv) {es : List XactEvent} (hok : st.RunOk es) (hrun : st.run es = some st') :
    st'.Inv := by
  induction es generalizing st with
  | nil =>
    cases hrun
    exact h
  | cons e es ih =>
    simp only [XactUndo.run] at hrun
    obtain ⟨st₁, hstep, hrest⟩ := Option.bind_eq_some_iff.mp hrun
    exact ih (h.step hok.1 hstep) (hok.2 st₁ hstep) hrest

end Write

end XactUndo

/-- At every point of every run whose switches and records meet the condition, the walk of the
innermost subtransaction, over all batches, gives the records it has to roll back and nothing that
was not written inside it, newest first and down to its first record. -/
theorem subxact_walk_complete (st₀ st : XactUndo) (hbegin : st₀.Begins) (es : List XactEvent)
    (hok : st₀.RunOk es) (hrun : st₀.run es = some st) (child : LevelUndo) (rest : List LevelUndo)
    (hsubs : st.subs = child :: rest) (maxApplySize fuel : Nat) (hfuel : st.recs.length < fuel) :
    (child.latestUrp = .invalid → child.own = []) ∧
      (child.latestUrp ≠ .invalid →
        ∃ L, fetchBatches st.recs child.firstUrp maxApplySize fuel child.latestUrp = some (.ok L) ∧
          WalkComplete child L) := by
  have hinv := hbegin.inv.run hok hrun
  have hchild := hinv.levels child (by simp [hsubs])
  refine ⟨fun hnone => hchild.own (hchild.latest.mpr hnone), fun hsome => ?_⟩
  have hlatest := hinv.latest
  have hcovered := hinv.covered
  rw [hsubs] at hlatest hcovered
  have hne : ¬child.IsEmpty := mt hchild.latest.mp hsome
  obtain ⟨a, -, hurp, hreach⟩ := hlatest.1 hne
  obtain ⟨L, f, hp, hL, hf, hown, -⟩ := (reaches_cons hne).mp hreach
  have hnewest := path_newestFirst hp
  have hlen : L.length ≤ st.recs.length := by
    have hnodup : L.Nodup := hnewest.imp fun h heq => h.ne (by rw [heq])
    exact (List.subperm_of_subset hnodup hL).length_le
  refine ⟨L, ?_, hnewest, hown, fun r hr => ?_, f, hp.getLast?, hf⟩
  · rw [← hurp, ← hf]
    exact fetchBatches_path maxApplySize hinv.inOrder hp hL (by omega)
  · have hnot : ¬r.urp.Before child.firstUrp := by
      rw [← hf]
      exact hp.not_before_last hr
    simpa using hcovered.1 hne r (hL r hr) hnot

def freshXact : XactUndo := ⟨LevelUndo.empty, [], ⟨1, undoLogBlockHeaderSize⟩, []⟩

theorem freshXact_begins : freshXact.Begins :=
  ⟨rfl, rfl, ⟨.nil, by simp [freshXact]⟩, by simp [freshXact], by decide⟩

/-- A savepoint writes a record; inside a second savepoint the log is switched before the next one,
which then knows no record before it; the second savepoint is released. -/
def switchInsideSavepoint : List XactEvent :=
  [.startSub, .write none 60 100, .startSub, .write (some 2) 60 100, .commitSub]

/-- When the first savepoint is rolled back its walk asks for the page before the new log. -/
theorem subxact_walk_stops_at_switch :
    ∃ st child, freshXact.run switchInsideSavepoint = some st ∧ st.subs = [child] ∧
      child.own = [⟨2, 24⟩, ⟨1, 24⟩] ∧
      fetchBatches st.recs child.firstUrp 1024 10 child.latestUrp = some (.error (.noPageBefore 24)) :=
  ⟨_, _, rfl, rfl, rfl, rfl⟩

/-- The same with a record of the second savepoint before the switch. -/
def switchBehindRecord : List XactEvent :=
  [.startSub, .write none 60 100, .startSub, .write none 60 100, .write (some 2) 60 100, .commitSub]

theorem subxact_walk_complete_across_switch :
    ∃ st child L, freshXact.run switchBehindRecord = some st ∧ st.subs = [child] ∧
      fetchBatches st.recs child.firstUrp 1024 10 child.latestUrp = some (.ok L) ∧
      WalkComplete child L ∧ child.own = [⟨2, 24⟩, ⟨1, 84⟩, ⟨1, 24⟩] := by
  have hok : freshXact.RunOk switchBehindRecord := by
    refine ⟨trivial, fun st h => ?_⟩
    cases h
    refine ⟨⟨fun h => absurd h (by decide), by decide⟩, fun st h => ?_⟩
    cases h
    refine ⟨trivial, fun st h => ?_⟩
    cases h
    refine ⟨⟨fun h => absurd h (by decide), by decide⟩, fun st h => ?_⟩
    cases h
    refine ⟨⟨fun _ => .inl (by decide), by decide⟩, fun st h => ?_⟩
    cases h
    exact ⟨trivial, fun _ _ => trivial⟩
  obtain ⟨L, hL, hcomplete⟩ := (subxact_walk_complete freshXact _ freshXact_begins switchBehindRecord hok rfl
    _ [] rfl 1024 10 (by decide)).2 (by decide)
  exact ⟨_, _, L, rfl, rfl, hL, hcomplete, rfl⟩

end XStore
