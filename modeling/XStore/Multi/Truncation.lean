import XStore.Multi.Storage

/-!
# Truncation of the multixact areas

`TruncateXMultiXact` removes the segment files that lie before the oldest multixact still of interest.  It
holds `XMultiXactTruncationLock` while it works, and has to give it back on every way out.
-/
namespace XStore

def XMultiXactState.startOffset (s : XMultiXactState) : Nat := if s.nextOffset = 0 then 1 else s.nextOffset

/-- The directory of an area, with every written page in its file. -/
structure Xlru where
  /-- the segment numbers of the files, in the order of the directory -/
  segments : List Nat
  /-- the length of a file in pages -/
  filePages : Nat → Nat
  latestPageNumber : Nat

def xlruPagesPerSegment : Nat := 2048

def xlruMayDeleteSegment (segpage cutoffPage : Nat) : Bool :=
  segpage < cutoffPage && segpage + xlruPagesPerSegment - 1 < cutoffPage

namespace Xlru

variable (ctl : Xlru)

/-- `XlruDoesPhysicalPageExist` -/
def doesPhysicalPageExist (pageno : Nat) : Bool :=
  ctl.segments.contains (pageno / xlruPagesPerSegment) &&
    pageno % xlruPagesPerSegment + 1 ≤ ctl.filePages (pageno / xlruPagesPerSegment)

/-- `XlruTruncate`, which leaves the files when the cutoff lies behind the last page. -/
def truncate (cutoffPage : Nat) : Xlru :=
  if ctl.latestPageNumber < cutoffPage then ctl
  else { ctl with
    segments := ctl.segments.filter fun segno =>
      !xlruMayDeleteSegment (segno * xlruPagesPerSegment) cutoffPage }

/-- `XlruScanDirCbFindEarliest` over the directory; nothing stands for the page -1. -/
def earliestExistingPage : Option Nat :=
  ctl.segments.foldl (fun earliest segno =>
    match earliest with
    | none => some (segno * xlruPagesPerSegment)
    | some page =>
      if segno * xlruPagesPerSegment < page then some (segno * xlruPagesPerSegment) else some page) none

variable {ctl}

theorem mem_truncate {pageno cutoffPage : Nat} (h : cutoffPage ≤ pageno)
    (hmem : pageno / xlruPagesPerSegment ∈ ctl.segments) :
    pageno / xlruPagesPerSegment ∈ (ctl.truncate cutoffPage).segments := by
  rw [truncate]
  split_ifs
  · exact hmem
  · refine List.mem_filter.mpr ⟨hmem, ?_⟩
    have hlast : ¬ pageno / xlruPagesPerSegment * xlruPagesPerSegment + xlruPagesPerSegment - 1 < cutoffPage := by
      have := Nat.div_add_mod pageno xlruPagesPerSegment
      have := Nat.mod_lt pageno (show 0 < xlruPagesPerSegment by decide)
      rw [Nat.mul_comm]
      omega
    simp [xlruMayDeleteSegment, hlast]

end Xlru

structure MultiDirectory where
  store : MultiStore
  offsetCtl : Xlru
  memberCtl : Xlru
  /-- `XMultiXactTruncationLock` is held. -/
  truncationLock : Bool

/-- The areas hold the multixacts `n`, `n + 1`, …, whose members stand one after the other from offset
`k` on, and the counters stand behind them; the offsets have not wrapped. -/
structure MultiStore.Holds (st : MultiStore) (n k : Nat) (stored : List (List (Nat × Nat))) : Prop where
  id_pos : 0 < n
  offset_pos : 0 < k
  next : st.shared.validNext = n + stored.length
  next_offset : st.shared.startOffset = k + stored.flatten.length
  offsets : ∀ i < stored.length,
    st.offsets.readOffset (n + i) = k + (stored.take i).flatten.length
  members : ∀ j (hj : j < stored.flatten.length),
    st.members.readMember (k + j) = stored.flatten[j]

section Holds

variable {n k : Nat} {stored : List (List (Nat × Nat))}

theorem memberEnd_eq (hk : 0 < k) (h : k + stored.flatten.length < 2 ^ 64) :
    memberEnd k stored = k + stored.flatten.length := by
  rcases @memberEnd_le k stored (by omega) with hall | ⟨hall, m, hm, hkm, hlt⟩
  · exact hall
  · omega

theorem memberStart_eq {v : Nat} (hv : 0 < v) (h : v < 2 ^ 64) : memberStart v = v := by
  rw [memberStart, if_neg (by omega)]

theorem flatten_getElem {i j : Nat} (hi : i < stored.length) (hj : j < stored[i].length) :
    stored.flatten[(stored.take i).flatten.length + j]? = some stored[i][j] := by
  have hsplit : stored.flatten = (stored.take i).flatten ++ (stored.drop i).flatten := by
    rw [← List.flatten_append, List.take_append_drop]
  rw [hsplit, List.getElem?_append_right (by omega), Nat.add_sub_cancel_left,
    List.drop_eq_getElem_cons hi, List.flatten_cons, List.getElem?_append_left hj,
    List.getElem?_eq_getElem hj]

theorem exists_flatten_place {j : Nat} (hj : j < stored.flatten.length) :
    ∃ i, ∃ hi : i < stored.length, ∃ j' < stored[i].length, j = (stored.take i).flatten.length + j' := by
  induction stored generalizing j with
  | nil => cases hj
  | cons rs rest ih =>
    rw [List.flatten_cons, List.length_append] at hj
    by_cases hfirst : j < rs.length
    · exact ⟨0, Nat.succ_pos _, j, hfirst, (Nat.zero_add j).symm⟩
    · obtain ⟨i, hi, j', hj', hplace⟩ := ih (j := j - rs.length) (by omega)
      refine ⟨i + 1, Nat.succ_lt_succ hi, j', hj', ?_⟩
      rw [List.take_succ_cons, List.flatten_cons, List.length_append]
      omega

theorem flatten_take_le (i : Nat) : (stored.take i).flatten.length ≤ stored.flatten.length := by
  conv_rhs => rw [← List.take_append_drop i stored, List.flatten_append, List.length_append]
  omega

theorem MultiStore.HoldsAround.holds {st : MultiStore} (h : st.HoldsAround n k stored) (hk : 0 < k)
    (hroom : k + stored.flatten.length < 2 ^ 64) : st.Holds n k stored := by
  have hstart : ∀ i, memberStart (memberEnd k (stored.take i)) = k + (stored.take i).flatten.length := by
    intro i
    have hle := @flatten_take_le stored i
    rw [memberEnd_eq hk (by omega), memberStart_eq (by omega) (by omega)]
  refine ⟨h.id_pos, hk, h.next, ?_, ?_, ?_⟩
  · rw [XMultiXactState.startOffset, h.next_offset, memberEnd_eq hk hroom, Nat.mod_eq_of_lt hroom,
      if_neg (by omega)]
  · intro i hi
    have hle := @flatten_take_le stored i
    rw [h.offsets i hi, hstart, Nat.mod_eq_of_lt (by omega)]
  · intro j hj
    obtain ⟨i, hi, j', hj', rfl⟩ := exists_flatten_place hj
    have hread := h.members i hi j' hj'
    have hflat := flatten_getElem hi hj'
    rw [List.getElem?_eq_getElem hj, Option.some.injEq] at hflat
    rw [hflat, ← hread, hstart, Nat.add_assoc, Nat.mod_eq_of_lt (by omega)]

end Holds

namespace MultiDirectory

variable (maxOldestSlot : Nat) (d : MultiDirectory)

def oldestXMulti : Nat := d.store.shared.getOldest maxOldestSlot

/-- The first multixact of the earliest segment, in 64 bits. -/
def earliest : Nat :=
  match d.offsetCtl.earliestExistingPage with
  | none => 2 ^ 64 - xmultixactOffsetsPerPage
  | some page => page * xmultixactOffsetsPerPage % 2 ^ 64

def findXmultixactStart (multi : Nat) : Option Nat :=
  if d.offsetCtl.doesPhysicalPageExist (offsetPage multi) then some (d.store.offsets.readOffset multi)
  else none

/-- `PerformXMembersTruncation`, then `PerformXOffsetsTruncation`, which steps back one multixact -/
def performTruncation (newOldestXMulti newOldestOffset : Nat) : MultiDirectory :=
  { d with
    memberCtl := d.memberCtl.truncate (memberPage newOldestOffset)
    offsetCtl := d.offsetCtl.truncate (offsetPage (newOldestXMulti - 1)) }

def release : MultiDirectory := { d with truncationLock := false }

/-- `TruncateXMultiXact`; nothing is returned when it waits for the lock that is never given back. -/
def truncateXMultiXact : Option MultiDirectory :=
  let newOldestXMulti := d.oldestXMulti maxOldestSlot
  if newOldestXMulti ≤ firstXMultiXactId then some d
  else if d.truncationLock then none
  else
    let d := { d with truncationLock := true }
    if newOldestXMulti < d.earliest then some d.release
    else if newOldestXMulti = d.store.shared.nextXMXact then
      -- there are no multixacts; this return keeps the lock
      if d.store.shared.nextOffset % membersPerPage = 0 then some d
      else some (d.performTruncation newOldestXMulti d.store.shared.nextOffset).release
    else match d.findXmultixactStart newOldestXMulti with
      | none => some d.release
      | some newOldestOffset => some (d.performTruncation newOldestXMulti newOldestOffset).release

def offsetSegment (multi : Nat) : Nat := offsetPage multi / xlruPagesPerSegment

def memberSegment (offset : Nat) : Nat := memberPage offset / xlruPagesPerSegment

/-- Every file with the offset or with members of a multixact not older than the oldest is still there. -/
def KeepsNeeded (d' : MultiDirectory) : Prop :=
  ∀ multi, d.oldestXMulti maxOldestSlot ≤ multi → multi < d.store.shared.nextXMXact →
    (offsetSegment multi ∈ d.offsetCtl.segments → offsetSegment multi ∈ d'.offsetCtl.segments) ∧
      ∀ offset, d.store.offsets.readOffset multi ≤ offset →
        memberSegment offset ∈ d.memberCtl.segments → memberSegment offset ∈ d'.memberCtl.segments

/-- The call returns without the lock and with all that is needed, and so does the next one. -/
def TruncatesTwice : Prop :=
  ∃ d₁ d₂, d.truncateXMultiXact maxOldestSlot = some d₁ ∧ d₁.truncateXMultiXact maxOldestSlot = some d₂ ∧
    (d₁.truncationLock = false ∧ d.KeepsNeeded maxOldestSlot d₁) ∧
    d₂.truncationLock = false ∧ d₁.KeepsNeeded maxOldestSlot d₂

/-- No multixact is needed any more, and the next member begins a page. -/
def EndsAtPage : Prop :=
  firstXMultiXactId < d.oldestXMulti maxOldestSlot ∧ d.earliest ≤ d.oldestXMulti maxOldestSlot ∧
    d.oldestXMulti maxOldestSlot = d.store.shared.nextXMXact ∧
    d.store.shared.nextOffset % membersPerPage = 0

variable {maxOldestSlot} {d} {n k : Nat} {stored : List (List (Nat × Nat))}

theorem keepsNeeded_performTruncation {start : Nat}
    (h : ∀ multi, d.oldestXMulti maxOldestSlot ≤ multi → multi < d.store.shared.nextXMXact →
      start ≤ d.store.offsets.readOffset multi) :
    d.KeepsNeeded maxOldestSlot (d.performTruncation (d.oldestXMulti maxOldestSlot) start).release := by
  intro multi hold hnext
  refine ⟨Xlru.mem_truncate ?_, fun offset hoffset => Xlru.mem_truncate ?_⟩
  · exact Nat.div_le_div_right (by omega)
  · exact Nat.div_le_div_right ((h multi hold hnext).trans hoffset)

theorem readOffset_le (h : d.store.Holds n k stored) {multi multi' : Nat} (hn : n ≤ multi)
    (hle : multi ≤ multi') (hnext : multi' < d.store.shared.nextXMXact) :
    d.store.offsets.readOffset multi ≤ d.store.offsets.readOffset multi' := by
  have hlt := lt_of_lt_of_le hnext (XMultiXactState.le_validNext (s := d.store.shared))
  rw [h.next] at hlt
  obtain ⟨i, rfl⟩ := Nat.exists_eq_add_of_le hn
  obtain ⟨j, rfl⟩ := Nat.exists_eq_add_of_le (hn.trans hle)
  rw [h.offsets i (by omega), h.offsets j (by omega)]
  have hpre : stored.take i <+: stored.take j := List.take_prefix_take_left (by omega)
  obtain ⟨rest, hrest⟩ := hpre
  rw [← hrest, List.flatten_append, List.length_append]
  omega

/-- Away from that case a call that finds the lock free gives it back. -/
theorem truncate_ok (hfree : d.truncationLock = false) (h : d.store.Holds n k stored)
    (hold : n ≤ d.oldestXMulti maxOldestSlot) (hend : ¬ d.EndsAtPage maxOldestSlot) :
    ∃ d', d.truncateXMultiXact maxOldestSlot = some d' ∧ d'.truncationLock = false ∧
      d.KeepsNeeded maxOldestSlot d' ∧ d'.store = d.store ∧
      (d' = d ∨ ¬ (d.store.shared.nextOffset % membersPerPage = 0 ∧
        d.oldestXMulti maxOldestSlot = d.store.shared.nextXMXact)) := by
  have hself : d.KeepsNeeded maxOldestSlot d := fun multi _ _ => ⟨id, fun _ _ => id⟩
  have hrelease : (MultiDirectory.release { d with truncationLock := true }) = d := by
    rw [release, ← hfree]
  have hstart_locked (multi : Nat) : findXmultixactStart { d with truncationLock := true } multi =
      d.findXmultixactStart multi := rfl
  rw [truncateXMultiXact]
  simp only [hfree, Bool.false_eq_true, if_false]
  split_ifs with hfirst hearly hnext hpage
  · exact ⟨d, rfl, hfree, hself, rfl, .inl rfl⟩
  · exact ⟨d, congrArg some hrelease, hfree, hself, rfl, .inl rfl⟩
  · exact absurd ⟨not_le.mp hfirst, not_lt.mp hearly, hnext, hpage⟩ hend
  · refine ⟨_, rfl, rfl, keepsNeeded_performTruncation ?_, rfl, .inr fun hboth => hpage hboth.1⟩
    intro multi hmulti hlt
    exact absurd hlt (not_lt.mpr (hnext ▸ hmulti))
  · cases hstart : d.findXmultixactStart (d.oldestXMulti maxOldestSlot) with
    | none => exact ⟨d, (by rw [hstart_locked, hstart]; exact congrArg some hrelease), hfree, hself, rfl, .inl rfl⟩
    | some start =>
      have hread := (Option.ite_none_right_eq_some.mp hstart).2
      refine ⟨(d.performTruncation (d.oldestXMulti maxOldestSlot) start).release,
        (by rw [hstart_locked, hstart]; rfl), rfl, keepsNeeded_performTruncation ?_, rfl,
        .inr fun hboth => hnext hboth.2⟩
      intro multi hmulti hlt
      rw [← Option.some.inj hread]
      exact readOffset_le h hold hmulti hlt

/-- The calls give the lock back and keep what is needed exactly when they do not find all members gone at
the end of a page. -/
theorem truncatesTwice_iff (maxOldestSlot : Nat) (d : MultiDirectory) (hfree : d.truncationLock = false)
    (h : d.store.Holds n k stored) (hold : n ≤ d.oldestXMulti maxOldestSlot) :
    d.TruncatesTwice maxOldestSlot ↔ ¬ d.EndsAtPage maxOldestSlot := by
  constructor
  · rintro ⟨d₁, d₂, h₁, -, ⟨hlock, -⟩, -⟩ ⟨hfirst, hearly, hnext, hpage⟩
    rw [truncateXMultiXact] at h₁
    simp only [hfree, Bool.false_eq_true, if_false] at h₁
    have hearly' : ¬ d.oldestXMulti maxOldestSlot < earliest { d with truncationLock := true } :=
      not_lt.mpr hearly
    rw [if_neg (not_le.mpr hfirst), if_neg hearly', if_pos hnext, if_pos hpage] at h₁
    obtain rfl := Option.some.inj h₁
    cases hlock
  · intro hend
    obtain ⟨d₁, h₁, hlock, hkeeps, hstore, hagain⟩ := truncate_ok hfree h hold hend
    have holdest : d₁.oldestXMulti maxOldestSlot = d.oldestXMulti maxOldestSlot := by
      rw [oldestXMulti, oldestXMulti, hstore]
    have hend₁ : ¬ d₁.EndsAtPage maxOldestSlot := by
      rcases hagain with rfl | hagain
      · exact hend
      · rintro ⟨-, -, hnext, hpage⟩
        rw [hstore] at hnext hpage
        exact hagain ⟨hpage, holdest ▸ hnext⟩
    obtain ⟨d₂, h₂, hlock₂, hkeeps₂, -⟩ := truncate_ok hlock (hstore ▸ h) (holdest ▸ hold) hend₁
    exact ⟨d₁, d₂, h₁, h₂, ⟨hlock, hkeeps⟩, hlock₂, hkeeps₂⟩

/-- One multixact was stored and is no longer needed; its members end `endOffset` slots into the area. -/
def oneStored (endOffset : Nat) : MultiDirectory where
  store := ⟨⟨2, endOffset, fun _ => 0⟩, fun _ => (fun _ => 0), fun _ => fun _ => 0⟩
  offsetCtl := ⟨[0], fun _ => 1, 0⟩
  memberCtl := ⟨[0], fun _ => 1, 0⟩
  truncationLock := false

/-- The multixacts 1023 and 1024 have been created, and a backend still takes the second for live. -/
def twoStored : MultiDirectory where
  store :=
    (MultiStore.createAll ⟨⟨1023, 905, fun p => if p = 1 then 1024 else 0⟩, fun _ _ => 7, fun _ _ => 9⟩
      acrossWrap).2
  offsetCtl := ⟨[0], fun _ => 2, 1⟩
  memberCtl := ⟨[0], fun _ => 2, 1⟩
  truncationLock := false

theorem truncatesTwice_inside_page :
    twoStored.oldestXMulti 1 = 1024 ∧ twoStored.store.shared.nextXMXact = 1025 ∧
      ¬ twoStored.EndsAtPage 1 ∧ twoStored.TruncatesTwice 1 := by
  have hend : ¬ twoStored.EndsAtPage 1 := by
    rintro ⟨-, -, hlast, -⟩
    exact absurd hlast (by decide)
  have holds : twoStored.store.HoldsAround 1023 905 (acrossWrap.map NewMembers.raw) :=
    ((MultiStore.HoldsAround.start _ (by decide)).createAll (by decide) (by decide)).2
  exact ⟨by decide, by decide, hend,
    (truncatesTwice_iff 1 twoStored rfl (holds.holds (by decide) (by decide)) (by decide)).mpr hend⟩

/-- At the end of a page the first call keeps the lock, and the second waits for it. -/
theorem truncation_lock_kept :
    ∃ d, (oneStored membersPerPage).truncateXMultiXact 1 = some d ∧ d.truncationLock = true ∧
      d.truncateXMultiXact 1 = none :=
  ⟨{ oneStored membersPerPage with truncationLock := true }, rfl, rfl, rfl⟩

end MultiDirectory

end XStore
