import XStore.Heap.FreeOffsets

/-!
# `xheap_multi_insert` over all its rounds

A round takes a page with space for the first of its tuples, finds the ranges of free offsets in
advance, and fills them as long as the tuples fit.  What it finds in advance may be more than it
fills, since the ranges are found from the sizes without padding and the last one is left open; the
ends of the ranges are then set to the last offset used.
-/
namespace XStore

open List

def KeepsUsed (p q : XPage) : Prop :=
  ∀ off, 1 ≤ off → (p.row off).rp.isUsed = true → q.row off = p.row off

structure Stored (p : XPage) (x : Nat × XHeapDiskTuple) : Prop where
  off_pos : 1 ≤ x.1
  isNormal : (p.row x.1).rp.isNormal = true
  tup_eq : (p.row x.1).tup = x.2

/-- The next tuple fits neither here nor at the start of a later range. -/
def Stuck (save first : Nat) (p : XPage) (rest : List XHeapDiskTuple) : Prop :=
  ∀ t ∈ rest.head?, ∀ off, off ≠ first → fitsPage p save first off t = false

section Fill

variable {c : OpCtx} {save first : Nat} {p q r : XPage} {t : XHeapDiskTuple} {off : Nat}
  {ranges : List (OffsetRange × Nat)}
  {s : MultiInsertState}

theorem KeepsUsed.refl (p : XPage) : KeepsUsed p p := fun _ _ _ => rfl

theorem KeepsUsed.trans (hpq : KeepsUsed p q) (hqr : KeepsUsed q r) : KeepsUsed p r := by
  intro off hoff hused
  have heq := hpq off hoff hused
  rw [hqr off hoff (heq.symm ▸ hused), heq]

theorem Stored.mono {x : Nat × XHeapDiskTuple} (h : Stored p x) (hpq : KeepsUsed p q) : Stored q x := by
  have heq := hpq x.1 h.off_pos (RowPtr.isUsed_of_isNormal h.isNormal)
  exact ⟨h.off_pos, heq.symm ▸ h.isNormal, heq.symm ▸ h.tup_eq⟩

theorem putNewRow_stores (h : putNewRow p t = .ok (off, q)) : KeepsUsed p q ∧ Stored q (off, t) := by
  obtain ⟨rfl, -, offset, -, -, hch⟩ := putNewRow_spec h
  refine ⟨fun o ho hused => hch.elsewhere o ho ?_, hch.off_pos, ?_, ?_⟩
  · rintro rfl
    rw [findNextFreeSlot_unused] at hused
    cases hused
  · rw [hch.here]
    rfl
  · rw [hch.here]

theorem stuck_of_not_fits {rest : List XHeapDiskTuple} (h : fitsPage p save first off t = false) :
    Stuck save first p (t :: rest) := by
  intro t' ht' o ho
  cases ht'
  simp only [fitsPage, decide_eq_false_iff_not, if_neg ho] at h ⊢
  split at h <;> omega

/-- What filling a range of `n` offsets from `off` on does with the first `k` tuples. -/
structure RangeFilled (c : OpCtx) (save first urp off n : Nat) (later : List Nat)
    (s : MultiInsertState) (k : Nat) (s' : MultiInsertState) : Prop where
  count_le : k ≤ n
  count_le_tuples : k ≤ s.rest.length
  progress : 0 < n → ∀ t ∈ s.rest.head?, fitsPage s.page save first off t = true → 0 < k
  rest : s'.rest = s.rest.drop k
  done : s'.done = s.done ++ (List.range' off k).zip ((s.rest.take k).map (rangeTuple c urp))
  stored : ∀ x ∈ (List.range' off k).zip ((s.rest.take k).map (rangeTuple c urp)), Stored s'.page x
  kept : KeepsUsed s.page s'.page
  insertable : s'.page.Insertable
  next : k = n ∧ Serves s'.page later ∨ Stuck save first s'.page s'.rest

theorem RangeFilled.none {urp n : Nat} {later : List Nat}
    (hp : s.page.Insertable) (hnext : 0 = n ∧ Serves s.page later ∨ Stuck save first s.page s.rest)
    (hnot : 0 < n → ∀ t ∈ s.rest.head?, fitsPage s.page save first off t = false) :
    RangeFilled c save first urp off n later s 0 s := by
  refine ⟨Nat.zero_le _, Nat.zero_le _, ?_, rfl, by simp, by simp, KeepsUsed.refl _, hp, hnext⟩
  intro hn t ht hfits
  rw [hnot hn t ht] at hfits
  cases hfits

/-- A tuple that fits goes to the offset of the counter. -/
theorem fillRange_spec (endOffset urp : Nat) (later : List Nat) (tuples : List XHeapDiskTuple)
    (off : Nat) (p : XPage) (done : List (Nat × XHeapDiskTuple)) (hp : p.Insertable)
    (hserves : Serves p (List.range' off (endOffset + 1 - off) ++ later)) :
    ∃ k s', fillRange c save first endOffset urp tuples off p done = .ok (off + k, s') ∧
      RangeFilled c save first urp off (endOffset + 1 - off) later ⟨p, tuples, done⟩ k s' := by
  induction tuples generalizing off p done with
  | nil => exact ⟨0, _, rfl, .none hp (.inr fun t ht => by cases ht) fun _ t ht => by cases ht⟩
  | cons newtup rest ih =>
    by_cases hin : off ≤ endOffset
    · by_cases hfits : fitsPage p save first off newtup = true
      · have hsize : (rangeTuple c urp newtup).size ≤ p.freeSpace := by
          change newtup.size ≤ p.freeSpace
          have hle := of_decide_eq_true hfits
          omega
        obtain ⟨q, hput, hq⟩ := putNewRow_isOk hp hsize
        have hn : endOffset + 1 - off = endOffset + 1 - (off + 1) + 1 := by omega
        rw [hn, List.range'_succ, cons_append] at hserves
        obtain ⟨hslot, hnext⟩ := hserves
        rw [hslot] at hput
        obtain ⟨hkeep, hstored⟩ := putNewRow_stores hput
        obtain ⟨k, s', hrun, h⟩ := ih (off + 1) q (done ++ [(off, rangeTuple c urp newtup)]) hq
          (hnext _ _ _ hput)
        have hzip : (List.range' off (k + 1)).zip (((newtup :: rest).take (k + 1)).map (rangeTuple c urp)) =
            (off, rangeTuple c urp newtup) ::
              (List.range' (off + 1) k).zip ((rest.take k).map (rangeTuple c urp)) := by
          rw [List.range'_succ, take_succ_cons, map_cons, zip_cons_cons]
        refine ⟨k + 1, s', ?_, ?_, ?_, fun _ _ _ _ => Nat.succ_pos k, ?_, ?_, ?_,
          hkeep.trans h.kept, h.insertable, ?_⟩
        · have hoff : off + (k + 1) = off + 1 + k := by omega
          rw [fillRange, if_pos ⟨hin, hfits⟩, hput, hoff]
          exact hrun
        · have := h.count_le
          omega
        · exact Nat.succ_le_succ h.count_le_tuples
        · rw [h.rest]
          rfl
        · rw [h.done, hzip, append_assoc]
          rfl
        · rw [hzip]
          intro x hx
          rcases mem_cons.mp hx with rfl | hmem
          · exact hstored.mono h.kept
          · exact h.stored x hmem
        · rcases h.next with ⟨hk, hs⟩ | hstuck
          · exact .inl ⟨by omega, hs⟩
          · exact .inr hstuck
      · have hnot : fitsPage p save first off newtup = false := by simpa using hfits
        refine ⟨0, _, ?_, .none hp (.inr (stuck_of_not_fits hnot)) fun _ t ht => ?_⟩
        · rw [fillRange, if_neg (fun h => hfits h.2)]
          rfl
        · cases ht
          exact hnot
    · have hn : endOffset + 1 - off = 0 := by omega
      rw [hn] at hserves ⊢
      refine ⟨0, _, ?_, .none hp (.inl ⟨rfl, hserves⟩) fun hpos => absurd hpos (Nat.lt_irrefl 0)⟩
      rw [fillRange, if_neg (fun h => hin h.1)]
      rfl

def OffsetRange.emptied (r : OffsetRange) : OffsetRange := ⟨r.startOffset, r.startOffset - 1⟩

theorem offsets_filled {start k : Nat} (h : 1 ≤ start) :
    OffsetRange.offsets ⟨start, start + k - 1⟩ = List.range' start k := by
  have hk : start + k - 1 + 1 - start = k := by omega
  simp only [OffsetRange.offsets, hk]

/-- When the next tuple does not fit, the later ranges get nothing. -/
theorem fillRanges_of_stuck
    (hstuck : Stuck save first s.page s.rest) (hstarts : ∀ x ∈ ranges, x.1.startOffset ≠ first) :
    fillRanges c save first ranges s = .ok (ranges.map fun x => x.1.emptied, s) := by
  induction ranges with
  | nil => rfl
  | cons x ranges ih =>
    obtain ⟨range, urp⟩ := x
    have hrest := ih fun y hy => hstarts y (mem_cons_of_mem _ hy)
    have hfill : fillRange c save first range.endOffset urp s.rest range.startOffset s.page s.done =
        .ok (range.startOffset, s) := by
      obtain ⟨page, rest, done⟩ := s
      cases rest with
      | nil => rfl
      | cons t rest =>
        have hnot := hstuck t rfl range.startOffset (hstarts _ mem_cons_self)
        rw [fillRange, if_neg (fun h => by rw [hnot] at h; cases h.2)]
    rw [fillRanges, hfill]
    change (fillRanges c save first ranges s).map _ = _
    rw [hrest]
    rfl

/-- What a round does: the tuples `new` are put at the offsets of the ranges, from the first on. -/
structure RoundFilled (c : OpCtx) (ranges : List (OffsetRange × Nat)) (s : MultiInsertState)
    (filled : List OffsetRange) (new : List (Nat × XHeapDiskTuple)) (s' : MultiInsertState) :
    Prop where
  count_le : new.length ≤ s.rest.length
  rest : s'.rest = s.rest.drop new.length
  done : s'.done = s.done ++ new
  tuples : List.Forall₂ (fun x t => ∃ urp, x.2 = rangeTuple c urp t) new (s.rest.take new.length)
  recorded : new.map Prod.fst = rangesOffsets filled
  initial : new.map Prod.fst <+: rangesOffsets (ranges.map Prod.fst)
  undo : ∀ x ∈ new, ∃ y ∈ filled.zip (ranges.map Prod.snd), x.1 ∈ y.1.offsets ∧ x.2.urec = y.2
  stored : ∀ x ∈ new, Stored s'.page x
  kept : KeepsUsed s.page s'.page
  insertable : s'.page.Insertable

theorem forall₂_zip_rangeTuple (urp : Nat) (offs : List Nat) (ts : List XHeapDiskTuple)
    (h : offs.length = ts.length) :
    List.Forall₂ (fun x t => ∃ urp, x.2 = rangeTuple c urp t)
      (offs.zip (ts.map (rangeTuple c urp))) ts := by
  induction ts generalizing offs with
  | nil => simp
  | cons t ts ih =>
    cases offs with
    | nil => cases h
    | cons o offs =>
      rw [map_cons, zip_cons_cons, List.forall₂_cons]
      exact ⟨⟨urp, rfl⟩, ih offs (Nat.succ.inj h)⟩

theorem RoundFilled.of_stuck
    (hp : s.page.Insertable) (hpos : ∀ x ∈ ranges, 1 ≤ x.1.startOffset) :
    RoundFilled c ranges s (ranges.map fun x => x.1.emptied) [] s := by
  refine ⟨Nat.zero_le _, rfl, by simp, by simp, ?_, nil_prefix, by simp, by simp,
    KeepsUsed.refl _, hp⟩
  symm
  rw [map_nil, rangesOffsets, flatMap_eq_nil_iff]
  intro r hr
  obtain ⟨x, hx, rfl⟩ := mem_map.mp hr
  exact offsets_filled (hpos x hx) (k := 0)

/-- A filled range and what is filled after it: nothing, if the range was not filled to its end. -/
theorem RoundFilled.cons {range : OffsetRange} {urp k : Nat} {ranges : List (OffsetRange × Nat)}
    {s s₁ s' : MultiInsertState} {filled : List OffsetRange} {new : List (Nat × XHeapDiskTuple)}
    {later : List Nat} (hstart : 1 ≤ range.startOffset)
    (h : RangeFilled c save first urp range.startOffset (range.endOffset + 1 - range.startOffset)
      later s k s₁)
    (h' : RoundFilled c ranges s₁ filled new s')
    (hmore : k = range.endOffset + 1 - range.startOffset ∨ new = []) :
    RoundFilled c ((range, urp) :: ranges) s (⟨range.startOffset, range.startOffset + k - 1⟩ :: filled)
      ((List.range' range.startOffset k).zip ((s.rest.take k).map (rangeTuple c urp)) ++ new) s' := by
  have hcount := h.count_le_tuples
  have hle : k ≤ range.endOffset + 1 - range.startOffset := h.count_le
  have hlen : ((List.range' range.startOffset k).zip
      ((s.rest.take k).map (rangeTuple c urp))).length = k := by
    simp only [length_zip, length_range', length_map, length_take]
    omega
  have hfst : ((List.range' range.startOffset k).zip
      ((s.rest.take k).map (rangeTuple c urp))).map Prod.fst = List.range' range.startOffset k := by
    apply map_fst_zip
    simp only [length_range', length_map, length_take]
    omega
  have hcount' := h'.count_le
  rw [h.rest, length_drop] at hcount'
  refine ⟨?_, ?_, ?_, ?_, ?_, ?_, ?_, ?_, h.kept.trans h'.kept, h'.insertable⟩
  · rw [length_append, hlen]
    omega
  · rw [h'.rest, h.rest, drop_drop, length_append, hlen]
  · rw [h'.done, h.done, append_assoc]
  · have htake : s.rest.take (k + new.length) = s.rest.take k ++ s₁.rest.take new.length := by
      rw [take_add, h.rest]
    rw [length_append, hlen, htake]
    refine rel_append (forall₂_zip_rangeTuple urp _ _ ?_) h'.tuples
    rw [length_range', length_take]
    omega
  · rw [map_append, hfst, h'.recorded, rangesOffsets_cons, offsets_filled hstart]
  · have hoffs : range.offsets = List.range' range.startOffset k ++
        List.range' (range.startOffset + k) (range.endOffset + 1 - range.startOffset - k) := by
      rw [OffsetRange.offsets, List.range'_append_1]
      congr 1
      omega
    rw [map_append, hfst, map_cons, rangesOffsets_cons]
    rcases hmore with hk | rfl
    · have hnone : range.endOffset + 1 - range.startOffset - k = 0 := by omega
      rw [hoffs, hnone, List.range'_zero, append_nil]
      exact (prefix_append_right_inj _).mpr h'.initial
    · rw [map_nil, append_nil, hoffs, append_assoc]
      exact prefix_append _ _
  · intro x hx
    rw [map_cons, zip_cons_cons]
    rcases mem_append.mp hx with hmem | hmem
    · obtain ⟨hx₁, hx₂⟩ := of_mem_zip hmem
      obtain ⟨t, -, heq⟩ := mem_map.mp hx₂
      refine ⟨_, mem_cons_self, ?_, heq ▸ rfl⟩
      rw [offsets_filled hstart]
      exact hx₁
    · obtain ⟨y, hy, hxy⟩ := h'.undo x hmem
      exact ⟨y, mem_cons_of_mem _ hy, hxy⟩
  · intro x hx
    rcases mem_append.mp hx with hmem | hmem
    · exact (h.stored x hmem).mono h'.kept
    · exact h'.stored x hmem

theorem fillRanges_spec {ranges : List (OffsetRange × Nat)} {s : MultiInsertState}
    (hp : s.page.Insertable) (hserves : Serves s.page (rangesOffsets (ranges.map Prod.fst)))
    (hpos : ∀ x ∈ ranges, 1 ≤ x.1.startOffset)
    (hstarts : ∀ x ∈ ranges.tail, x.1.startOffset ≠ first) :
    ∃ filled new s', fillRanges c save first ranges s = .ok (filled, s') ∧
      RoundFilled c ranges s filled new s' ∧
      (new.map Prod.fst = rangesOffsets (ranges.map Prod.fst) ∨ Stuck save first s'.page s'.rest) ∧
      (∀ r ∈ ranges.head?, r.1.startOffset ≤ r.1.endOffset → ∀ t ∈ s.rest.head?,
        fitsPage s.page save first r.1.startOffset t = true → new ≠ []) := by
  induction ranges generalizing s with
  | nil =>
    refine ⟨[], [], s, rfl, .of_stuck hp hpos, .inl rfl, fun r hr => ?_⟩
    cases hr
  | cons x ranges ih =>
    obtain ⟨range, urp⟩ := x
    have hstart : 1 ≤ range.startOffset := hpos _ mem_cons_self
    have hpos' : ∀ x ∈ ranges, 1 ≤ x.1.startOffset := fun x hx => hpos x (mem_cons_of_mem _ hx)
    rw [map_cons, rangesOffsets_cons] at hserves
    obtain ⟨k, s₁, hrun, h⟩ := @fillRange_spec c save first range.endOffset urp
      (rangesOffsets (ranges.map Prod.fst)) s.rest range.startOffset s.page s.done hp hserves
    have hrest : ∃ filled new s', fillRanges c save first ranges s₁ = .ok (filled, s') ∧
        RoundFilled c ranges s₁ filled new s' ∧
        (k = range.endOffset + 1 - range.startOffset ∨ new = []) ∧
        (k = range.endOffset + 1 - range.startOffset ∧
          new.map Prod.fst = rangesOffsets (ranges.map Prod.fst) ∨ Stuck save first s'.page s'.rest) := by
      rcases h.next with ⟨hk, hnext⟩ | hstuck
      · obtain ⟨filled, new, s', hfill, h', hall, -⟩ := ih h.insertable hnext hpos'
          (fun x hx => hstarts x (mem_of_mem_tail hx))
        exact ⟨filled, new, s', hfill, h', .inl hk, hall.imp_left fun hall => ⟨hk, hall⟩⟩
      · exact ⟨_, [], s₁, fillRanges_of_stuck hstuck hstarts, .of_stuck h.insertable hpos', .inr rfl, .inr hstuck⟩
    obtain ⟨filled, new, s', hfill, h', hmore, hall⟩ := hrest
    refine ⟨_, _, s', ?_, RoundFilled.cons hstart h h' hmore, hall.imp_left ?_, ?_⟩
    · rw [fillRanges, hrun]
      change (fillRanges c save first ranges s₁).map _ = _
      rw [hfill]
      rfl
    · rintro ⟨hk, hnew⟩
      have hcount : k ≤ s.rest.length := h.count_le_tuples
      rw [map_append, map_fst_zip (by simp only [length_range', length_map, length_take]; omega), hnew,
        map_cons, rangesOffsets_cons, hk]
      rfl
    · rintro r hr hle t ht hfits hnil
      cases hr
      have hk := h.progress (by dsimp only at hle; omega) t ht hfits
      have hlen := congrArg List.length hnil
      have hcount : k ≤ s.rest.length := h.count_le_tuples
      simp only [length_append, length_zip, length_range', length_map,
        length_take, length_nil] at hlen
      omega

end Fill

/-- `relation_get_buffer_for_xtuple`: the first of the pages it looks at that has space for the tuple
and the space to be saved, or else a new page. Without a fill factor it saves nothing, where the loop over
the tuples of a page saves eight percent of it. -/
def relationGetBufferForXtuple (save : Nat) (candidates : List XPage) (t : XHeapDiskTuple) :
    Except Panic XPage :=
  if maxXHeapTupleSize < shortAlign t.size then
    .error (.rowTooBig (shortAlign t.size) maxXHeapTupleSize)
  else .ok ((candidates.find? fun p => decide (shortAlign t.size + save ≤ p.freeSpace)).getD XPage.init)

structure Round where
  /-- The page as the round gets it. -/
  page : XPage
  /-- The ranges found in advance. -/
  ranges : List OffsetRange
  urpvec : List Nat
  /-- The ranges as they are written to the undo records. -/
  filled : List OffsetRange
  state : MultiInsertState

/-- What happens outside of `xheap_multi_insert` between its rounds: the pages it is offered, and
the undo record pointers it gets. -/
structure MultiInsertEnv where
  candidates : List Round → List XPage
  urp : List Round → Nat → Nat

/-- One pass through the loop of `xheap_multi_insert`, on the page it got. -/
def multiInsertRound (c : OpCtx) (save : Nat) (urp : Nat → Nat) (p : XPage)
    (tuples : List XHeapDiskTuple) : Except Panic Round :=
  (getUsableOffsetRanges p save tuples).bind fun ranges =>
    let urpvec := (List.range ranges.length).map urp
    (fillRanges c save (ranges.head?.elim 0 (·.startOffset)) (ranges.zip urpvec)
      ⟨p, tuples, []⟩).map fun (filled, s) => ⟨p, ranges, urpvec, filled, s⟩

/-- `xheap_multi_insert`, with the rounds it takes; `none` when the fuel runs out. -/
def xheapMultiInsert (c : OpCtx) (targetSave save : Nat) (env : MultiInsertEnv) :
    Nat → List Round → List XHeapDiskTuple → Except Panic (Option (List Round))
  | 0, _, _ => .ok none
  | _ + 1, rounds, [] => .ok (some rounds)
  | fuel + 1, rounds, t :: ts =>
    (relationGetBufferForXtuple targetSave (env.candidates rounds) t).bind fun p =>
      (multiInsertRound c save (env.urp rounds) p (t :: ts)).bind fun r =>
        xheapMultiInsert c targetSave save env fuel (rounds ++ [r]) r.state.rest

structure Round.Placed (save : Nat) (r : Round) : Prop where
  /-- The ranges found in advance do not meet. -/
  disjoint : r.ranges.Pairwise fun a b => ∀ off ∈ a.offsets, off ∉ b.offsets
  /-- They name only offsets that were free. -/
  free : ∀ off ∈ rangesOffsets r.ranges, (r.page.row off).rp.isUsed = false
  /-- The tuples go to these offsets in order, from the first on. -/
  initial : r.state.done.map Prod.fst <+: rangesOffsets r.ranges
  starts : r.filled.map (·.startOffset) = r.ranges.map (·.startOffset)
  /-- The ranges of the undo records are exactly the offsets used. -/
  recorded : r.state.done.map Prod.fst = rangesOffsets r.filled
  /-- A tuple points to the undo record of the range it is in. -/
  undo : ∀ x ∈ r.state.done, ∃ y ∈ r.filled.zip r.urpvec, x.1 ∈ y.1.offsets ∧ x.2.urec = y.2
  stored : ∀ x ∈ r.state.done, Stored r.state.page x
  kept : KeepsUsed r.page r.state.page
  progress : r.state.done ≠ []
  /-- It stops where the ranges are full or the next tuple does not fit with the space to be saved. -/
  asMany : r.state.done.map Prod.fst = rangesOffsets r.ranges ∨
    ∀ t ∈ r.state.rest.head?, r.state.page.freeSpace < t.size + save

section Rounds

variable {c : OpCtx} {targetSave save : Nat} {p : XPage} {t : XHeapDiskTuple} {ts : List XHeapDiskTuple}
  {ranges : List OffsetRange} {r : OffsetRange}

theorem relationGetBufferForXtuple_spec {candidates : List XPage}
    (hpages : ∀ p ∈ candidates, p.Insertable) (ht : shortAlign t.size ≤ maxXHeapTupleSize) :
    ∃ p, relationGetBufferForXtuple targetSave candidates t = .ok p ∧ p.Insertable ∧ t.size ≤ p.freeSpace := by
  have hle := le_shortAlign t.size
  rw [relationGetBufferForXtuple, if_neg (by omega)]
  refine ⟨_, rfl, ?_⟩
  cases hfind : candidates.find? fun p => decide (shortAlign t.size + targetSave ≤ p.freeSpace) with
  | none =>
    have hspace : maxXHeapTupleSize ≤ XPage.init.freeSpace := by decide
    exact ⟨XPage.init_insertable, by dsimp only [Option.getD_none]; omega⟩
  | some p =>
    have hfit := find?_some hfind
    simp only [decide_eq_true_eq] at hfit
    exact ⟨hpages p (mem_of_find?_eq_some hfind), by dsimp only [Option.getD_some]; omega⟩

theorem nodup_offsets (p : XPage) (m : Nat) :
    (p.freeLines ++ List.range' (p.maxOffset + 1) m).Nodup := by
  refine nodup_append.mpr ⟨freeLines_nodup, nodup_range', ?_⟩
  intro a ha b hb
  obtain ⟨-, -, hle, -⟩ := mem_freeLines ha
  rw [mem_range'_1] at hb
  omega

theorem InAdvance.nodup (h : InAdvance p ranges) :
    (rangesOffsets ranges).Nodup := by
  obtain ⟨m, hm⟩ := h.initial
  exact (nodup_offsets p m).sublist hm.sublist

theorem InAdvance.mem (h : InAdvance p ranges) {off : Nat}
    (hoff : off ∈ rangesOffsets ranges) : 1 ≤ off ∧ (p.row off).rp.isUsed = false := by
  obtain ⟨m, hm⟩ := h.initial
  rcases mem_append.mp (hm.subset hoff) with hfree | hbehind
  · obtain ⟨-, hpos, -, hline⟩ := mem_freeLines hfree
    rw [XPage.isFreeLine, Bool.and_eq_true, Bool.not_eq_true'] at hline
    exact ⟨hpos, hline.1⟩
  · rw [mem_range'_1] at hbehind
    rw [p.row_of_length_lt off (by unfold XPage.maxOffset at hbehind; omega)]
    exact ⟨by omega, rfl⟩

theorem start_mem_offsets (h : r.startOffset ≤ r.endOffset) :
    r.startOffset ∈ r.offsets := by
  rw [OffsetRange.offsets, mem_range'_1]
  omega

theorem InAdvance.disjoint (h : InAdvance p ranges) :
    ranges.Pairwise fun a b => ∀ off ∈ a.offsets, off ∉ b.offsets := by
  have hpair := (nodup_flatMap.mp h.nodup).2
  exact hpair.imp fun hdisj off ha hb => hdisj ha hb

theorem InAdvance.start_pos (h : InAdvance p ranges)
    (hr : r ∈ ranges) : 1 ≤ r.startOffset :=
  (h.mem (mem_flatMap.mpr ⟨r, hr, start_mem_offsets (h.nonempty r hr)⟩)).1

theorem multiInsertRound_spec (hp : p.Insertable) (hfit : t.size ≤ p.freeSpace) (urp : Nat → Nat) :
    ∃ r, multiInsertRound c save urp p (t :: ts) = .ok r ∧ r.Placed save ∧
      r.state.done.length ≤ (t :: ts).length ∧
      r.state.rest = (t :: ts).drop r.state.done.length ∧
      List.Forall₂ (fun x t => ∃ urp, x.2 = rangeTuple c urp t) r.state.done
        ((t :: ts).take r.state.done.length) := by
  obtain ⟨ranges, hranges⟩ := @getUsableOffsetRanges_isOk p save t ts hp hfit
  have hadv := getUsableOffsetRanges_spec hranges
  obtain ⟨first, later, hcons⟩ := exists_cons_of_ne_nil hadv.ne_nil
  have hlen : ranges.length ≤ ((List.range ranges.length).map urp).length := by simp
  have hfst : (ranges.zip ((List.range ranges.length).map urp)).map Prod.fst = ranges :=
    map_fst_zip hlen
  have hsnd : (ranges.zip ((List.range ranges.length).map urp)).map Prod.snd =
      (List.range ranges.length).map urp := map_snd_zip (by simp)
  have hmem : ∀ x ∈ ranges.zip ((List.range ranges.length).map urp), x.1 ∈ ranges :=
    fun x hx => (of_mem_zip hx).1
  obtain ⟨m, hm⟩ := hadv.initial
  obtain ⟨filled, new, s', hfill, h, hall, hprogress⟩ := @fillRanges_spec c save first.startOffset
    (ranges.zip ((List.range ranges.length).map urp)) ⟨p, t :: ts, []⟩ hp
    (by rw [hfst]; exact serves_of_prefix hm) (fun x hx => hadv.start_pos (hmem x hx)) (by
      intro x hx heq
      -- a later range begins behind the first one
      rw [hcons, length_cons, range_succ_eq_map, map_cons, zip_cons_cons,
        tail_cons] at hx
      have hdisj := hadv.disjoint
      rw [hcons, pairwise_cons] at hdisj
      have hfirst := start_mem_offsets (hadv.nonempty first (by rw [hcons]; exact mem_cons_self))
      have hx' := (of_mem_zip hx).1
      have hstart := start_mem_offsets (hadv.nonempty x.1 (by rw [hcons]; exact mem_cons_of_mem _ hx'))
      rw [heq] at hstart
      exact hdisj.1 x.1 hx' _ hfirst hstart)
  have hdone : s'.done = new := by simpa using h.done
  refine ⟨⟨p, ranges, (List.range ranges.length).map urp, filled, s'⟩, ?_, ?_, ?_, ?_, ?_⟩
  · rw [multiInsertRound, hranges]
    have hhead : ranges.head?.elim 0 (·.startOffset) = first.startOffset := by rw [hcons]; rfl
    change (fillRanges c save (ranges.head?.elim 0 (·.startOffset)) _ _).map _ = _
    rw [hhead, hfill]
    rfl
  · have hstarts := fillRanges_starts hfill
    have hkept := h.kept
    have hundo := h.undo
    rw [hsnd] at hundo
    refine ⟨hadv.disjoint, fun off hoff => (hadv.mem hoff).2, ?_, ?_, ?_, ?_, ?_, hkept, ?_, ?_⟩
    · have hinit := h.initial
      rw [hfst] at hinit
      simpa [hdone] using hinit
    · have hzip : (ranges.zip ((List.range ranges.length).map urp)).map (·.1.startOffset) =
          ranges.map (·.startOffset) := by
        conv_rhs => rw [← hfst]
        rw [map_map]
        rfl
      exact hstarts.trans hzip
    · simpa [hdone] using h.recorded
    · simpa [hdone] using hundo
    · simpa [hdone] using h.stored
    · dsimp only
      rw [hdone]
      refine hprogress (first, urp 0) ?_ (hadv.nonempty first (by rw [hcons]; exact mem_cons_self))
        t rfl ?_
      · rw [hcons, length_cons, range_succ_eq_map, map_cons, zip_cons_cons]
        rfl
      · simp only [fitsPage, if_true, Nat.add_zero]
        exact decide_eq_true hfit
    · rw [hfst] at hall
      refine (hall.imp_left fun hnew => ?_).imp_right fun hstuck t' ht' => ?_
      · simpa [hdone] using hnew
      · have hnot := hstuck t' ht' (first.startOffset + 1) (Nat.succ_ne_self _)
        rw [fitsPage, if_neg (Nat.succ_ne_self _)] at hnot
        simpa using hnot
  · rw [hdone]
    exact h.count_le
  · rw [hdone]
    exact h.rest
  · rw [hdone]
    exact h.tuples

/-- The rounds from `rounds` on put what is left of the list. -/
theorem xheapMultiInsert_spec {env : MultiInsertEnv}
    (hpages : ∀ rounds, ∀ p ∈ env.candidates rounds, p.Insertable) (tuples : List XHeapDiskTuple)
    (hsizes : ∀ t ∈ tuples, shortAlign t.size ≤ maxXHeapTupleSize) (fuel : Nat)
    (hfuel : tuples.length < fuel) (rounds : List Round) :
    ∃ more, xheapMultiInsert c targetSave save env fuel rounds tuples = .ok (some (rounds ++ more)) ∧
      (∀ r ∈ more, r.Placed save) ∧
      List.Forall₂ (fun x t => ∃ urp, x.2 = rangeTuple c urp t) (more.flatMap (·.state.done)) tuples := by
  induction fuel generalizing rounds tuples with
  | zero => exact absurd hfuel (Nat.not_lt_zero _)
  | succ fuel ih =>
    cases tuples with
    | nil => exact ⟨[], by simp [xheapMultiInsert], by simp, by simp⟩
    | cons t ts =>
      obtain ⟨p, hget, hp, hfit⟩ := @relationGetBufferForXtuple_spec targetSave t _ (hpages rounds)
        (hsizes t mem_cons_self)
      obtain ⟨r, hround, hplaced, hcount, hrest, htuples⟩ :=
        @multiInsertRound_spec c save p t ts hp hfit (env.urp rounds)
      have hpos : 0 < r.state.done.length := length_pos_iff.mpr hplaced.progress
      obtain ⟨more, hmore, hall, hlater⟩ := ih ((t :: ts).drop r.state.done.length)
        (fun t' ht' => hsizes t' (mem_of_mem_drop ht'))
        (by rw [length_drop]; simp only [length_cons] at hfuel hcount ⊢; omega)
        (rounds ++ [r])
      refine ⟨r :: more, ?_, ?_, ?_⟩
      · rw [xheapMultiInsert, hget]
        change (multiInsertRound c save (env.urp rounds) p (t :: ts)).bind _ = _
        rw [hround]
        change xheapMultiInsert c targetSave save env fuel (rounds ++ [r]) r.state.rest = _
        rw [hrest, hmore, append_assoc]
        rfl
      · intro r' hr'
        rcases mem_cons.mp hr' with rfl | hmem
        · exact hplaced
        · exact hall r' hmem
      · rw [flatMap_cons]
        have hsplit := rel_append htuples hlater
        dsimp only at hsplit
        rwa [take_append_drop] at hsplit

end Rounds

/-- Every round fills its ranges in order from the first offset on with as many tuples as fit, writes exactly
the offsets it used to its undo records and puts at least one tuple; all rounds together put each tuple of the
list once. -/
theorem multi_insert_places_every_tuple (c : OpCtx) (targetSave save : Nat) (env : MultiInsertEnv)
    (hpages : ∀ rounds, ∀ p ∈ env.candidates rounds, p.Insertable) (tuples : List XHeapDiskTuple)
    (hsizes : ∀ t ∈ tuples, shortAlign t.size ≤ maxXHeapTupleSize) :
    ∃ rounds, xheapMultiInsert c targetSave save env (tuples.length + 1) [] tuples = .ok (some rounds) ∧
      (∀ r ∈ rounds, r.Placed save) ∧
      List.Forall₂ (fun x t => ∃ urp, x.2 = rangeTuple c urp t) (rounds.flatMap (·.state.done))
        tuples := by
  obtain ⟨rounds, hrun, hplaced, htuples⟩ :=
    @xheapMultiInsert_spec c targetSave save env hpages tuples hsizes _ (Nat.lt_succ_self _) []
  exact ⟨rounds, hrun, hplaced, htuples⟩

def thirtyByteTuple : XHeapDiskTuple := ⟨0, 0, 0, 0#16, 1#16, 29, [7]⟩

/-- Three tuples in a table without a fill factor, put on new pages. -/
theorem multi_insert_three : ∃ rounds,
    xheapMultiInsert (seventh 100) 0 655 ⟨fun _ => [], fun _ i => 100 + i⟩ 4 []
      [thirtyByteTuple, thirtyByteTuple, thirtyByteTuple] = .ok (some rounds) ∧
    (∀ r ∈ rounds, r.Placed 655) ∧
    List.Forall₂ (fun x t => ∃ urp, x.2 = rangeTuple (seventh 100) urp t)
      (rounds.flatMap (·.state.done)) [thirtyByteTuple, thirtyByteTuple, thirtyByteTuple] := by
  refine multi_insert_places_every_tuple (seventh 100) 0 655 ⟨fun _ => [], fun _ i => 100 + i⟩ ?_
    [thirtyByteTuple, thirtyByteTuple, thirtyByteTuple] ?_
  · intro rounds p hp
    cases hp
  · intro t ht
    simp only [List.mem_cons, List.not_mem_nil, or_false, or_self] at ht
    rw [ht]
    decide

/-- One tuple for an empty page: the range found in advance has an offset that stays free. -/
theorem open_range_is_not_filled : ∃ r,
    multiInsertRound (seventh 100) 0 (fun _ => 100) XPage.init [thirtyByteTuple] = .ok r ∧
      rangesOffsets r.ranges = [1, 2] ∧ r.state.done.map Prod.fst = [1] := by
  exact ⟨_, rfl, by decide, by decide⟩

end XStore
