import XStore.Index.Leaf

/-!
# Rolling back the index changes of a transaction

A transaction inserts and deletes leaf entries while pages split, and its undo records are then
executed.  Undo finds an entry again by its key and TID and acts on every entry with that TID from
there on, so the rollback is exact as long as no other entry of the transaction is in the way.
-/
namespace XStore

open List

variable {K T : Type*}

/-- What the transaction did to an entry and has not undone yet. -/
inductive Story (K T : Type*) where
  | untouched (e : IndexEntry K T)
  | deleted (e : IndexEntry K T) (u : IndexRecord K T)
  | inserted (key : K) (tid : T) (u : IndexRecord K T)
  | insertedDeleted (key : K) (tid : T) (u v : IndexRecord K T)
  | gone (key : K) (tid : T)

namespace Story

def current (xid : Nat) : Story K T → IndexEntry K T
  | untouched e => e
  | deleted e u => e.markDeleted xid u.uurUrp
  | inserted key tid u => .new xid key tid u.uurUrp
  | insertedDeleted key tid u v => (IndexEntry.new xid key tid u.uurUrp).markDeleted xid v.uurUrp
  | gone key tid => ⟨key, tid, .dead, true, invalidXid, invalidUndoRecPtr⟩

def pending : Story K T → List (IndexRecord K T)
  | deleted _ u => [u]
  | inserted _ _ u => [u]
  | insertedDeleted _ _ u v => [v, u]
  | _ => []

def origin : Story K T → Option (IndexEntry K T)
  | untouched e => some e
  | deleted e _ => some e
  | _ => none

def insertedKey : Story K T → Option (K × T)
  | inserted key tid _ => some (key, tid)
  | insertedDeleted key tid _ _ => some (key, tid)
  | gone key tid => some (key, tid)
  | _ => none

def Deletes (xid : Nat) (u : IndexRecord K T) (e : IndexEntry K T) : Prop :=
  u.uurXid = xid ∧ u.body = .delete e.key e.tid ∧ u.uurPrevxid = e.modifiedXid ∧
    u.uurTpprevurp = e.urec ∧ e.lp = .normal

def Inserts (xid : Nat) (u : IndexRecord K T) (key : K) (tid : T) : Prop :=
  u.uurXid = xid ∧ u.body = .insert key tid

def Valid (xid : Nat) : Story K T → Prop
  | untouched e => e.modifiedXid ≠ xid
  | deleted e u => e.modifiedXid ≠ xid ∧ Deletes xid u e
  | inserted key tid u => Inserts xid u key tid
  | insertedDeleted key tid u v =>
    Inserts xid u key tid ∧ Deletes xid v (IndexEntry.new xid key tid u.uurUrp)
  | gone _ _ => True

variable {xid : Nat} {s : Story K T}

/-- An entry of the transaction carries the pointer of its newest record. -/
theorem urec_mem_pending (hxid : xid ≠ invalidXid) (hv : s.Valid xid)
    (h : (s.current xid).modifiedXid = xid) :
    (s.current xid).urec ∈ s.pending.map UnpackedUndoRecord.uurUrp := by
  cases s with
  | untouched e => exact absurd h hv
  | deleted e u => exact mem_singleton.mpr rfl
  | inserted key tid u => exact mem_singleton.mpr rfl
  | insertedDeleted key tid u v => exact mem_cons_self ..
  | gone key tid => exact absurd h.symm hxid

def undone : Story K T → Story K T
  | untouched e => untouched e
  | deleted e _ => untouched e
  | inserted key tid _ => gone key tid
  | insertedDeleted key tid u _ => inserted key tid u
  | gone key tid => gone key tid

/-- Undo puts an entry back to where it was before the newest record. -/
theorem undoAt_current [LinearOrder T] {u : IndexRecord K T} {rest : List (IndexRecord K T)} (hv : s.Valid xid)
    (hp : s.pending = u :: rest) :
    undoAt u (s.current xid) = .put (s.undone.current xid) ∧ s.undone.pending = rest ∧
      (s.current xid).pos = u.body.pos ∧ (s.current xid).modifiedXid = xid ∧
        (s.current xid).urec = u.uurUrp := by
  cases s with
  | untouched e => cases hp
  | gone key tid => cases hp
  | deleted e w =>
    cases hp
    obtain ⟨-, hown, hbody, hprev, htp, hlp⟩ := hv
    refine ⟨?_, rfl, by rw [hbody]; rfl, rfl, rfl⟩
    simp only [undoAt, hbody, undoDeleteAt, current, undone, IndexEntry.markDeleted, hown, hprev, htp]
    rw [← hlp]
    simp
  | inserted key tid w =>
    cases hp
    obtain ⟨hown, hbody⟩ := hv
    refine ⟨?_, rfl, by rw [hbody]; rfl, rfl, rfl⟩
    simp [undoAt, hbody, undoInsertAt, current, undone, IndexEntry.new, hown]
  | insertedDeleted key tid w v =>
    cases hp
    obtain ⟨-, hown, hbody, hprev, htp, hlp⟩ := hv
    refine ⟨?_, rfl, by rw [hbody]; rfl, rfl, rfl⟩
    simp only [undoAt, hbody, undoDeleteAt, current, undone, IndexEntry.markDeleted, IndexEntry.new,
      hown, hprev, htp]
    simp

theorem undone_valid (hv : s.Valid xid) : s.undone.Valid xid := by
  cases s with
  | untouched e => exact hv
  | deleted e u => exact hv.1
  | inserted key tid u => trivial
  | insertedDeleted key tid u v => exact hv.1
  | gone key tid => trivial

@[simp] theorem undone_origin : s.undone.origin = s.origin := by cases s <;> rfl

@[simp] theorem undone_insertedKey : s.undone.insertedKey = s.insertedKey := by cases s <;> rfl

end Story

/-- With nothing left to undo, every entry is untouched or gone. -/
theorem settled_perm {xid : Nat} {stories : List (Story K T)}
    (hnone : ∀ s ∈ stories, s.pending = []) :
    (stories.map (Story.current xid)).Perm (stories.filterMap Story.origin ++
      (stories.filterMap Story.insertedKey).map fun k => (Story.gone k.1 k.2).current xid) := by
  induction stories with
  | nil => exact List.Perm.refl _
  | cons s stories ih =>
    have hrest := ih fun x hx => hnone x (mem_cons_of_mem s hx)
    have hs := hnone s (mem_cons_self ..)
    cases s with
    | untouched e => exact hrest.cons e
    | deleted e u => cases hs
    | inserted key tid u => cases hs
    | insertedDeleted key tid u v => cases hs
    | gone key tid => exact (hrest.cons _).trans perm_middle.symm

theorem nodup_cons_of_newer {u : IndexRecord K T} {us : List (IndexRecord K T)}
    (h : (us.map UnpackedUndoRecord.uurUrp).Nodup) (hnew : ∀ v ∈ us, v.uurUrp < u.uurUrp) :
    ((u :: us).map UnpackedUndoRecord.uurUrp).Nodup := by
  refine nodup_cons.mpr ⟨fun hin => ?_, h⟩
  obtain ⟨v, hv, heq⟩ := mem_map.mp hin
  exact absurd heq (Nat.ne_of_lt (hnew v hv))

variable [LinearOrder K] [LinearOrder T]

/-- One operation of transaction `xid` on the leaf level, or a page split.  A delete takes the
entry that `_xbt_finddeleteloc` settled on; `ok` restricts which entries these are. -/
inductive IndexStep (xid : Nat) (ok : IndexEntry K T → Prop) :
    List (LeafPage K T) → Option (IndexRecord K T) → List (LeafPage K T) → Prop
  | insert {ps qs : List (LeafPage K T)} {c : IndexOpCtx} {key : K} {tid : T} {p : LeafPage K T}
      (own : c.xid = xid) (leaf : ps.find? (fun p => !p.passed (indexPos key tid)) = some p)
      (put : insertItem LeafHeader.noteInsert IndexEntry.pos (.new xid key tid c.urp) ps = some qs) :
      IndexStep xid ok ps (some (c.insertRecord p.header.blkno key tid)) qs
  | delete {pre post : List (LeafPage K T)} {p : LeafPage K T} {l₁ l₂ : List (IndexEntry K T)}
      {e : IndexEntry K T} {c : IndexOpCtx} (own : c.xid = xid) (items : p.items = l₁ ++ e :: l₂)
      (live : ok e) :
      IndexStep xid ok (pre ++ p :: post) (some (c.deleteRecord p.header.blkno e))
        (pre ++ { p with
          header := p.header.noteDelete xid
          items := l₁ ++ e.markDeleted xid c.urp :: l₂ } :: post)
  | split {pre post : List (LeafPage K T)} {p p₁ p₂ : LeafPage K T} {m : IndexPos K T}
      (split : SplitAt IndexEntry.pos m p p₁ p₂)
      (left : ∀ q ∈ pre, q.ignored = false → ∀ b, q.bound = some b → b ≤ m) :
      IndexStep xid ok (pre ++ p :: post) none (pre ++ p₁ :: p₂ :: post)

/-- The records of a run, newest first; undo pointers grow. -/
inductive IndexRun (xid : Nat) (ok : IndexEntry K T → Prop) (start : List (LeafPage K T)) :
    List (IndexRecord K T) → List (LeafPage K T) → Prop
  | start : IndexRun xid ok start [] start
  | step {us : List (IndexRecord K T)} {ps qs : List (LeafPage K T)} {u : Option (IndexRecord K T)}
      (run : IndexRun xid ok start us ps) (step : IndexStep xid ok ps u qs)
      (newer : ∀ w ∈ u, ∀ v ∈ us, v.uurUrp < w.uurUrp) : IndexRun xid ok start (u.toList ++ us) qs

def insertedKeys (us : List (IndexRecord K T)) : List (K × T) :=
  us.filterMap fun u => match u.body with
    | .insert key tid => some (key, tid)
    | .delete _ _ => none

/-- The entries from before are as they were, and what the transaction inserted is dead. -/
def IndexRolledBack (start ps : List (LeafPage K T)) (inserted : List (K × T)) : Prop :=
  ∃ mine, (chainItems ps).Perm (chainItems start ++ mine) ∧
    (mine.map fun e => (e.key, e.tid)).Perm inserted ∧ ∀ e ∈ mine, e.lp = .dead

/-- The record can be undone now: no later change of its entry is still to be undone, and no other
entry that its search runs over is one it would act on or stop at. -/
structure UndoClear (ps : List (LeafPage K T)) (u : IndexRecord K T) (rest : List (IndexRecord K T)) :
    Prop where
  newest : ∀ v ∈ rest, v.uurPrevxid = u.uurXid → v.uurTpprevurp ≠ u.uurUrp
  alone : ∀ e ∈ range IndexEntry.pos u.body.pos ps, undoAt u e ≠ .pass → e.urec = u.uurUrp

def AllClear (ps : List (LeafPage K T)) : List (IndexRecord K T) → Prop
  | [] => True
  | u :: us => UndoClear ps u us ∧ AllClear (executeUndoXbtree ps u) us

/-- The histories of all entries, against the chain and the records still to be undone. -/
structure Accounts (xid : Nat) (start ps : List (LeafPage K T)) (us : List (IndexRecord K T))
    (inserted : List (K × T)) (stories : List (Story K T)) : Prop where
  ordered : Ordered IndexEntry.pos ps
  current : (chainItems ps).Perm (stories.map (Story.current xid))
  pending : us.Perm (stories.flatMap Story.pending)
  valid : ∀ s ∈ stories, s.Valid xid
  before : (stories.filterMap Story.origin).Perm (chainItems start)
  inserted : (stories.filterMap Story.insertedKey).Perm inserted
  nodup : (us.map UnpackedUndoRecord.uurUrp).Nodup

namespace Accounts

variable {xid : Nat} {start ps qs : List (LeafPage K T)} {us : List (IndexRecord K T)}
  {ins : List (K × T)} {stories s₁ s₂ : List (Story K T)} {s : Story K T} {u : IndexRecord K T}

theorem initial (hord : Ordered IndexEntry.pos start)
    (hnew : ∀ e ∈ chainItems start, e.modifiedXid ≠ xid) :
    Accounts xid start start [] [] ((chainItems start).map Story.untouched) where
  ordered := hord
  current := by simp [Function.comp_def, Story.current]
  pending := by simp [flatMap_map, Story.pending]
  valid := by
    intro s hs
    obtain ⟨e, he, rfl⟩ := mem_map.mp hs
    exact hnew e he
  before := by simp [filterMap_map, Function.comp_def, Story.origin]
  inserted := by simp [filterMap_map, Function.comp_def, Story.insertedKey]
  nodup := nodup_nil

section

variable (h : Accounts xid start ps us ins (s₁ ++ s :: s₂))

include h

/-- Only one entry carries the pointer of a pending record. -/
theorem countP_urec (hxid : xid ≠ invalidXid)
    (hu : u ∈ s.pending) (hs : (s.current xid).modifiedXid = xid)
    (hurec : (s.current xid).urec = u.uurUrp) :
    (chainItems ps).countP (IndexEntry.leftBy xid u.uurUrp) = 1 := by
  have hnodup : ((s₁ ++ s :: s₂).flatMap fun s => s.pending.map UnpackedUndoRecord.uurUrp).Nodup := by
    rw [← map_flatMap]
    exact (h.pending.map _).nodup_iff.mp h.nodup
  have hother : ∀ s' ∈ s₁ ++ s₂, ¬ ((s'.current xid).modifiedXid = xid ∧
      (s'.current xid).urec = u.uurUrp) := by
    rintro s' hs' ⟨hx, hur⟩
    have hmem := Story.urec_mem_pending hxid
      (h.valid s' (by simp only [mem_append, mem_cons] at hs' ⊢; tauto)) hx
    rw [hur] at hmem
    have hself : u.uurUrp ∈ s.pending.map UnpackedUndoRecord.uurUrp := mem_map_of_mem hu
    have hperm : ((s₁ ++ s :: s₂).flatMap fun s => s.pending.map UnpackedUndoRecord.uurUrp).Perm
        (s.pending.map UnpackedUndoRecord.uurUrp ++
          (s₁ ++ s₂).flatMap fun s => s.pending.map UnpackedUndoRecord.uurUrp) :=
      List.Perm.flatMap_right _ perm_middle
    exact (nodup_append.mp (hperm.nodup_iff.mp hnodup)).2.2 _ hself _
      (mem_flatMap.mpr ⟨s', hs', hmem⟩) rfl
  rw [h.current.countP_eq, (perm_middle.map _).countP_eq, map_cons, countP_cons]
  have hzero : ((s₁ ++ s₂).map (Story.current xid)).countP (IndexEntry.leftBy xid u.uurUrp) = 0 := by
    rw [countP_eq_zero]
    intro e he
    obtain ⟨s', hs', rfl⟩ := mem_map.mp he
    simpa [IndexEntry.leftBy] using hother s' hs'
  rw [hzero]
  simp [IndexEntry.leftBy, hs, hurec]

/-- One entry changes and takes a record on or gives one up. -/
theorem replace {us' : List (IndexRecord K T)}
    (s' : Story K T)
    (hch : ReplacedOnce (s.current xid) (s'.current xid) (chainItems ps) (chainItems qs))
    (hord : Ordered IndexEntry.pos qs) (hv : s'.Valid xid) (horigin : s'.origin = s.origin)
    (hins : s'.insertedKey = s.insertedKey)
    (hpend : us'.Perm (s'.pending ++ (s₁ ++ s₂).flatMap Story.pending))
    (hnodup : (us'.map UnpackedUndoRecord.uurUrp).Nodup) :
    Accounts xid start qs us' ins (s₁ ++ s' :: s₂) where
  ordered := hord
  current := by
    have hcur := h.current
    rw [map_append, map_cons] at hcur ⊢
    exact hch.perm hcur
  pending := hpend.trans (List.Perm.flatMap_right _ perm_middle.symm)
  valid := by
    intro x hx
    rcases mem_append.mp hx with hx | hx
    · exact h.valid x (mem_append_left _ hx)
    · rcases mem_cons.mp hx with rfl | hx
      · exact hv
      · exact h.valid x (mem_append_right _ (mem_cons_of_mem _ hx))
  before := by
    have hb := h.before
    rw [filterMap_append, filterMap_cons] at hb ⊢
    rw [horigin]
    exact hb
  inserted := by
    have hi := h.inserted
    rw [filterMap_append, filterMap_cons] at hi ⊢
    rw [hins]
    exact hi
  nodup := hnodup

theorem pending_middle :
    us.Perm (s.pending ++ (s₁ ++ s₂).flatMap Story.pending) :=
  h.pending.trans (List.Perm.flatMap_right _ perm_middle)

end

theorem insert {key : K} {tid : T} (h : Accounts xid start ps us ins stories)
    (hput : insertItem LeafHeader.noteInsert IndexEntry.pos (.new xid key tid u.uurUrp) ps = some qs)
    (hu : Story.Inserts xid u key tid) (hnodup : ((u :: us).map UnpackedUndoRecord.uurUrp).Nodup) :
    Accounts xid start qs (u :: us) ((key, tid) :: ins) (.inserted key tid u :: stories) where
  ordered := h.ordered.insertItem hput
  current := (insertItem_perm hput).trans (h.current.cons _)
  pending := h.pending.cons u
  valid := by
    intro x hx
    rcases mem_cons.mp hx with rfl | hx
    · exact hu
    · exact h.valid x hx
  before := h.before
  inserted := h.inserted.cons (key, tid)
  nodup := hnodup

theorem delete {e : IndexEntry K T} (h : Accounts xid start ps us ins stories)
    (he : e ∈ chainItems ps) (hlp : e.lp = .normal)
    (hch : ReplacedOnce e (e.markDeleted xid u.uurUrp) (chainItems ps) (chainItems qs))
    (hord : Ordered IndexEntry.pos qs) (hu : Story.Deletes xid u e)
    (hnodup : ((u :: us).map UnpackedUndoRecord.uurUrp).Nodup) :
    ∃ stories', Accounts xid start qs (u :: us) ins stories' := by
  obtain ⟨s, hs, rfl⟩ := mem_map.mp (h.current.mem_iff.mp he)
  obtain ⟨s₁, s₂, rfl⟩ := append_of_mem hs
  have hpend := h.pending_middle.cons u
  cases s with
  | untouched e =>
    exact ⟨_, h.replace (.deleted e u) hch hord ⟨h.valid _ hs, hu⟩ rfl rfl hpend hnodup⟩
  | inserted key tid w =>
    exact ⟨_, h.replace (.insertedDeleted key tid w u) hch hord ⟨h.valid _ hs, hu⟩ rfl rfl hpend
      hnodup⟩
  | deleted e w => cases hlp
  | insertedDeleted key tid w v => cases hlp
  | gone key tid => cases hlp

end Accounts

section Run

variable {xid : Nat} {start ps qs : List (LeafPage K T)} {us : List (IndexRecord K T)}
  {ins : List (K × T)} {stories : List (Story K T)} {u : IndexRecord K T}

/-- A run that deletes only normal entries keeps the accounts. -/
theorem IndexRun.accounts (hord : Ordered IndexEntry.pos start)
    (hnew : ∀ e ∈ chainItems start, e.modifiedXid ≠ xid)
    (hrun : IndexRun xid (fun e => e.lp = .normal) start us ps) :
    ∃ stories, Accounts xid start ps us (insertedKeys us) stories := by
  induction hrun with
  | start => exact ⟨_, Accounts.initial hord hnew⟩
  | step run hstep hnewer ih =>
    obtain ⟨stories, h⟩ := ih
    cases hstep with
    | insert own leaf put =>
      have hnodup := nodup_cons_of_newer h.nodup (hnewer _ rfl)
      exact ⟨_, h.insert put ⟨own, rfl⟩ hnodup⟩
    | @delete pre post p l₁ l₂ e c own items live =>
      have hnodup := nodup_cons_of_newer h.nodup (hnewer _ rfl)
      have he : e ∈ chainItems (pre ++ p :: post) := by simp [chainItems, items]
      refine h.delete he live ⟨chainItems pre ++ l₁, l₂ ++ chainItems post, ?_, ?_⟩ ?_
        ⟨own, rfl, rfl, rfl, live⟩ hnodup
      · simp [chainItems, items]
      · simp [chainItems]
      · apply h.ordered.of_shape
        simp [ChainPage.shape, items, IndexEntry.markDeleted, IndexEntry.pos]
    | split hsplit left =>
      refine ⟨stories, ?_⟩
      exact { h with
        ordered := h.ordered.split hsplit left
        current := (chainItems_split hsplit).symm ▸ h.current }

/-- A record with no later change still to be undone is the newest of its entry. -/
theorem Accounts.newest (h : Accounts xid start ps (u :: us) ins stories)
    (hnewest : ∀ v ∈ us, v.uurPrevxid = u.uurXid → v.uurTpprevurp ≠ u.uurUrp) {s : Story K T}
    (hs : s ∈ stories) (hu : u ∈ s.pending) : ∃ rest, s.pending = u :: rest := by
  have hvalid := h.valid s hs
  cases s with
  | untouched e => cases hu
  | deleted e w => exact ⟨[], by rw [mem_singleton.mp hu]; rfl⟩
  | inserted key tid w => exact ⟨[], by rw [mem_singleton.mp hu]; rfl⟩
  | gone key tid => cases hu
  | insertedDeleted key tid w v =>
    obtain ⟨⟨hown, hbody⟩, -, hbody', hprev, htp, -⟩ := hvalid
    rcases mem_cons.mp hu with rfl | hw
    · exact ⟨[w], rfl⟩
    · exfalso
      cases mem_singleton.mp hw
      have hv : v ∈ u :: us :=
        h.pending.mem_iff.mpr (mem_flatMap.mpr ⟨_, hs, mem_cons_self ..⟩)
      rcases mem_cons.mp hv with rfl | hv
      · rw [hbody] at hbody'
        cases hbody'
      · exact hnewest v hv (hprev.trans hown.symm) htp

/-- Where only the record's own entry is in its way, undo acts on that entry once. -/
theorem actsOnce_of_alone {e b : IndexEntry K T} (hput : undoAt u e = .put b)
    (he : e ∈ range IndexEntry.pos u.body.pos ps)
    (halone : ∀ x ∈ range IndexEntry.pos u.body.pos ps, undoAt u x ≠ .pass → x.urec = u.uurUrp)
    (hcount : (chainItems ps).countP (IndexEntry.leftBy u.uurXid u.uurUrp) = 1) :
    ActsOnce (undoAt u) e b (range IndexEntry.pos u.body.pos ps) := by
  have howned : ∀ x ∈ range IndexEntry.pos u.body.pos ps, undoAt u x ≠ .pass →
      x.leftBy u.uurXid u.uurUrp = true :=
    fun x hx hne => decide_eq_true ⟨undoAt_ne_pass hne, halone x hx hne⟩
  have hown := howned e he (by rw [hput]; nofun)
  obtain ⟨l₁, l₂, heq⟩ := append_of_mem he
  have hle : (range IndexEntry.pos u.body.pos ps).countP (IndexEntry.leftBy u.uurXid u.uurUrp) ≤ 1 :=
    hcount ▸ (range_sublist IndexEntry.pos u.body.pos ps).countP_le
  rw [heq, countP_append, countP_cons_of_pos hown] at hle
  have hpass : ∀ x ∈ l₁ ++ l₂, undoAt u x = .pass := by
    intro x hx
    by_contra hne
    have hin : x ∈ range IndexEntry.pos u.body.pos ps := by
      rw [heq]
      simp only [mem_append, mem_cons] at hx ⊢
      tauto
    have hpos : 0 < (l₁ ++ l₂).countP (IndexEntry.leftBy u.uurXid u.uurUrp) :=
      countP_pos_iff.mpr ⟨x, hx, howned x hin hne⟩
    rw [countP_append] at hpos
    omega
  exact ⟨l₁, l₂, heq, hput, fun x hx => hpass x (mem_append_left _ hx),
    fun x hx => hpass x (mem_append_right _ hx)⟩

/-- Undoing a record that is clear undoes the newest record of one entry. -/
theorem Accounts.undo (h : Accounts xid start ps (u :: us) ins stories) (hxid : xid ≠ invalidXid)
    (hclear : UndoClear ps u us) :
    ∃ stories', Accounts xid start (executeUndoXbtree ps u) us ins stories' := by
  have hu : u ∈ stories.flatMap Story.pending := h.pending.mem_iff.mp (mem_cons_self ..)
  obtain ⟨s, hs, hmem⟩ := mem_flatMap.mp hu
  have hvalid := h.valid s hs
  obtain ⟨rest, hpend⟩ := h.newest hclear.newest hs hmem
  obtain ⟨hput, hrest, hpos, hmod, hurec⟩ := Story.undoAt_current hvalid hpend
  obtain ⟨s₁, s₂, rfl⟩ := append_of_mem hs
  have hin : s.current xid ∈ range IndexEntry.pos u.body.pos ps := by
    apply h.ordered.mem_range _ hpos
    exact h.current.mem_iff.mpr (mem_map_of_mem hs)
  have honce : ActsOnce (undoAt u) (s.current xid) (s.undone.current xid)
      (range IndexEntry.pos u.body.pos ps) := by
    apply actsOnce_of_alone hput hin hclear.alone
    rw [← undoAt_ne_pass (by rw [hput]; nofun), hmod]
    exact h.countP_urec hxid hmem hmod hurec
  refine ⟨_, h.replace s.undone (visit_once honce) ?_ (Story.undone_valid hvalid)
    Story.undone_origin Story.undone_insertedKey ?_ ?_⟩
  · exact h.ordered.of_shape (visit_shape (fun _ _ => undoAt_put_pos) _ ps)
  · have hperm := h.pending_middle
    rw [hpend, cons_append] at hperm
    rw [hrest]
    exact hperm.cons_inv
  · exact (nodup_cons.mp h.nodup).2

/-- A record that is clear does not make the rollback wait for another undo log. -/
theorem undoResult_of_clear (hclear : UndoClear ps u us) : undoResult ps u = .rok := by
  have hnone : (range IndexEntry.pos u.body.pos ps).find?
      (fun e => decide (undoAt u e = .stop)) = none := by
    rw [find?_eq_none]
    intro e he hstop
    have hs := of_decide_eq_true hstop
    have hurec := hclear.alone e he (by rw [hs]; nofun)
    cases hb : u.body with
    | insert key tid =>
      simp only [undoAt, hb, undoInsertAt] at hs
      split_ifs at hs with _ _ _ hne
      exact hne hurec
    | delete key tid =>
      simp only [undoAt, hb, undoDeleteAt] at hs
      split_ifs at hs
  rw [undoResult, hnone]

theorem Accounts.undoAll (h : Accounts xid start ps us ins stories) (hxid : xid ≠ invalidXid)
    (hclear : AllClear ps us) :
    (∃ stories', Accounts xid start (executeXbtreeUndoactions ps us).1 [] ins stories') ∧
      (executeXbtreeUndoactions ps us).2 = .rok := by
  induction us generalizing ps stories with
  | nil => exact ⟨⟨stories, h⟩, rfl⟩
  | cons u us ih =>
    obtain ⟨hfirst, hrest⟩ := hclear
    obtain ⟨stories', h'⟩ := h.undo hxid hfirst
    obtain ⟨hend, hres⟩ := ih h' hrest
    refine ⟨hend, ?_⟩
    simp only [executeXbtreeUndoactions, undoResult_of_clear hfirst]
    exact hres

theorem Accounts.rolledBack (h : Accounts xid start ps [] ins stories) :
    IndexRolledBack start ps ins := by
  have hnone : ∀ s ∈ stories, s.pending = [] := by
    have hnil := nil_perm.mp h.pending
    exact fun s hs => flatMap_eq_nil_iff.mp hnil s hs
  refine ⟨_, (h.current.trans (settled_perm hnone)).trans (h.before.append_right _), ?_, ?_⟩
  · rw [map_map]
    simpa [Function.comp_def, Story.current] using h.inserted
  · intro e he
    obtain ⟨k, -, rfl⟩ := mem_map.mp he
    rfl

theorem Accounts.sort (h : Accounts xid start ps us ins stories) :
    Accounts xid start ps (undoOrder us) ins stories := by
  have hperm : (undoOrder us).Perm us := perm_insertionSort _ us
  exact { h with
    pending := hperm.trans h.pending
    nodup := (hperm.map _).nodup_iff.mpr h.nodup }

/-- The rollback of a transaction that deleted only normal entries is exact, provided that each
record is clear when its turn comes. -/
theorem index_rollback_exact (hord : Ordered IndexEntry.pos start) (hxid : xid ≠ invalidXid)
    (hnew : ∀ e ∈ chainItems start, e.modifiedXid ≠ xid)
    (hrun : IndexRun xid (fun e => e.lp = .normal) start us ps)
    (hclear : AllClear ps (undoOrder us)) :
    IndexRolledBack start (executeXbtreeUndoactions ps (undoOrder us)).1 (insertedKeys us) ∧
      (executeXbtreeUndoactions ps (undoOrder us)).2 = .rok := by
  obtain ⟨stories, h⟩ := hrun.accounts hord hnew
  obtain ⟨⟨stories', hend⟩, hres⟩ := h.sort.undoAll hxid hclear
  exact ⟨hend.rolledBack, hres⟩

end Run

section KeyChange

/-- A leaf page with the given entries, the last of its chain. -/
def onlyLeaf (active : Int) (lastDelete : Nat) (items : List (IndexEntry Nat Nat)) :
    List (LeafPage Nat Nat) :=
  [⟨⟨1, active, lastDelete⟩, false, none, items⟩]

def seventhOp (urp : Nat) : IndexOpCtx := ⟨7, 0, 16385, 16385, 1663, none, urp⟩

def keyTwo : IndexEntry Nat Nat := ⟨2, 1, .normal, true, 5, 90⟩

/-- The leaf page after transaction 7 has changed the key of the row from 2 to 1. -/
def afterTwoToOne : List (LeafPage Nat Nat) :=
  onlyLeaf 1 7 [.new 7 1 1 101, keyTwo.markDeleted 7 100]

def twoToOne : List (IndexRecord Nat Nat) :=
  [(seventhOp 101).insertRecord 1 1 1, (seventhOp 100).deleteRecord 1 keyTwo]

/-- The leaf page after transaction 7 has changed the key from 1 to 3 as well. -/
def afterOneToThree : List (LeafPage Nat Nat) :=
  onlyLeaf 1 7 [(IndexEntry.new 7 1 1 101).markDeleted 7 102, keyTwo.markDeleted 7 100,
    .new 7 3 1 103]

def oneToThree : List (IndexRecord Nat Nat) :=
  [(seventhOp 103).insertRecord 1 3 1, (seventhOp 102).deleteRecord 1 (.new 7 1 1 101)]

theorem onlyLeaf_delete {active : Int} {lastDelete urp : Nat} {e : IndexEntry Nat Nat}
    (l₁ l₂ : List (IndexEntry Nat Nat)) (live : e.lp = .normal) :
    IndexStep 7 (fun e => e.lp = .normal) (onlyLeaf active lastDelete (l₁ ++ e :: l₂))
      (some ((seventhOp urp).deleteRecord 1 e))
      (onlyLeaf (active - 1) (if lastDelete < 7 then 7 else lastDelete)
        (l₁ ++ e.markDeleted 7 urp :: l₂)) :=
  @IndexStep.delete _ _ _ _ 7 _ [] [] ⟨⟨1, active, lastDelete⟩, false, none, l₁ ++ e :: l₂⟩ l₁ l₂ e
    (seventhOp urp) rfl rfl live

theorem onlyLeaf_insert {active : Int} {lastDelete urp key : Nat} {items : List (IndexEntry Nat Nat)}
    {qs : List (LeafPage Nat Nat)}
    (put : insertItem LeafHeader.noteInsert IndexEntry.pos (.new 7 key 1 urp)
      (onlyLeaf active lastDelete items) = some qs) :
    IndexStep 7 (fun e => e.lp = .normal) (onlyLeaf active lastDelete items)
      (some ((seventhOp urp).insertRecord 1 key 1)) qs :=
  @IndexStep.insert _ _ _ _ 7 _ _ qs (seventhOp urp) key 1
    ⟨⟨1, active, lastDelete⟩, false, none, items⟩ rfl rfl put

theorem twoToOne_run :
    IndexRun 7 (fun e => e.lp = .normal) (onlyLeaf 1 0 [keyTwo]) twoToOne afterTwoToOne := by
  have hdelete := @onlyLeaf_delete 1 0 100 keyTwo [] [] rfl
  have hinsert := @onlyLeaf_insert 0 7 101 1 [keyTwo.markDeleted 7 100] afterTwoToOne rfl
  exact .step (.step .start hdelete nofun) hinsert (by simp [seventhOp])

/-- Changing the key from 2 to 1 is rolled back. -/
theorem index_rollback_of_key_change :
    IndexRolledBack (onlyLeaf 1 0 [keyTwo])
        (executeXbtreeUndoactions afterTwoToOne (undoOrder twoToOne)).1 [(1, 1)] ∧
      (executeXbtreeUndoactions afterTwoToOne (undoOrder twoToOne)).2 = .rok := by
  refine index_rollback_exact ?_ (by decide) (by decide) twoToOne_run ?_
  · exact ⟨by simp [onlyLeaf], by simp [onlyLeaf], by simp [onlyLeaf], List.pairwise_singleton _ _⟩
  · have horder : undoOrder twoToOne = twoToOne := by decide
    rw [horder]
    exact ⟨⟨by decide, by decide⟩, ⟨nofun, by decide⟩, trivial⟩

/-- Changing the key from 2 to 1 and then to 3 is not: the undo of the second delete also revives
the entry of key 2, as if it were the one of key 1, and the undo of the first insert then marks it
dead. -/
theorem index_rollback_kills_old_entry :
    ∃ us ps, IndexRun 7 (fun e => e.lp = .normal) (onlyLeaf 1 0 [keyTwo]) us ps ∧
      (chainItems (executeXbtreeUndoactions ps (undoOrder us)).1).map (fun e => (e.key, e.lp)) =
        [(1, .dead), (2, .dead), (3, .dead)] ∧
      ¬ IndexRolledBack (onlyLeaf 1 0 [keyTwo]) (executeXbtreeUndoactions ps (undoOrder us)).1
        (insertedKeys us) := by
  have hdelete := @onlyLeaf_delete 1 7 102 (.new 7 1 1 101) [] [keyTwo.markDeleted 7 100] rfl
  have hinsert := @onlyLeaf_insert 0 7 103 3
    [(IndexEntry.new 7 1 1 101).markDeleted 7 102, keyTwo.markDeleted 7 100] afterOneToThree rfl
  refine ⟨oneToThree ++ twoToOne, afterOneToThree, ?_, by decide, ?_⟩
  · exact .step (.step twoToOne_run hdelete (by simp [twoToOne, seventhOp])) hinsert
      (by simp [twoToOne, seventhOp])
  · rintro ⟨mine, hperm, -⟩
    have hin : keyTwo ∈ chainItems (executeXbtreeUndoactions afterOneToThree
        (undoOrder (oneToThree ++ twoToOne))).1 :=
      hperm.mem_iff.mpr (List.mem_append_left mine (by decide))
    exact absurd hin (by decide)

end KeyChange

end XStore
