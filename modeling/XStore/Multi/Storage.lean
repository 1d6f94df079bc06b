import Mathlib.Data.List.Forall2
import Mathlib.Data.List.Induction
import XStore.Multi.Horizon
import XStore.Multi.MemberArea

/-!
# Storing and reading multixacts

A new multixact gets an entry in the offsets area and its members in the members area. A lookup takes
its length from the entry of the next multixact or, for the newest one, from the counter.
-/
namespace XStore

open List

inductive XMultiXactStatus where
  | forKeyShare
  | forShare
  | forNoKeyUpdate
  | forUpdate
  | noKeyUpdate
  | update
deriving DecidableEq

def XMultiXactStatus.code : XMultiXactStatus → Nat
  | .forKeyShare => 0
  | .forShare => 1
  | .forNoKeyUpdate => 2
  | .forUpdate => 3
  | .noKeyUpdate => 4
  | .update => 5

theorem XMultiXactStatus.code_lt (status : XMultiXactStatus) : status.code < 256 := by
  cases status <;> decide

structure XMultiXactMember where
  xid : Nat
  status : XMultiXactStatus
  xid_lt : xid < 2 ^ 64
  valid : xid % 2 ^ 32 ≠ 0

def XMultiXactMember.raw (m : XMultiXactMember) : Nat × Nat := (m.xid, m.status.code)

/-- The members of a new multixact; their number is an `int`, also with slot zero of the area. -/
structure NewMembers where
  members : List XMultiXactMember
  pos : 0 < members.length
  lt : members.length + 1 < 2 ^ 31

def NewMembers.raw (ms : NewMembers) : List (Nat × Nat) := ms.members.map XMultiXactMember.raw

@[simp] theorem NewMembers.raw_length (ms : NewMembers) : ms.raw.length = ms.members.length :=
  length_map _

structure MultiStore where
  shared : XMultiXactState
  offsets : PageArea
  members : PageArea

def extendXMultiXactOffset (area : PageArea) (multi : Nat) : PageArea :=
  if offsetEntry multi ≠ 0 ∧ multi ≠ firstXMultiXactId then area
  else area.zeroPage (offsetPage multi)

def extendXMultiXactMember (area : PageArea) (offset nmembers : Nat) : PageArea :=
  if nmembers = 0 then area
  else
    -- only at the first entry of a page
    let area := if flagsOffset offset = 0 ∧ memberInGroup offset * 8 = 0 then
      area.zeroPage (memberPage offset) else area
    let difference := membersPerPage - offset % membersPerPage
    extendXMultiXactMember area ((offset + difference) % 2 ^ 64) (nmembers - difference)
termination_by nmembers
decreasing_by
  have := Nat.mod_lt offset (show 0 < membersPerPage by decide)
  omega

/-- The member loop of `RecordNewXMultiXact`. -/
def recordMembers (area : PageArea) (offset : Nat) : List XMultiXactMember → PageArea
  | [] => area
  | m :: ms =>
    recordMembers (area.writeMember offset m.xid m.status.code) ((offset + 1) % 2 ^ 64) ms

namespace MultiStore

variable (st : MultiStore)

def recordNewXMultiXact (multi offset : Nat) (members : List XMultiXactMember) : MultiStore :=
  { st with
    offsets := st.offsets.writeOffset multi offset
    members := recordMembers st.members offset members }

/-- `CreateXMultiXactId` for a set of members that is not in the local cache: `GetNewXMultiXactId` with
the pages it makes room on, then `RecordNewXMultiXact`. -/
def createXMultiXactId (ms : NewMembers) : Nat × MultiStore :=
  let nmembers := if st.shared.nextOffset = 0 then ms.members.length + 1 else ms.members.length
  let (multi, offset, shared) := st.shared.getNewXMultiXactId ms.members.length
  (multi, MultiStore.recordNewXMultiXact
    { shared := shared
      offsets := extendXMultiXactOffset st.offsets multi
      members := extendXMultiXactMember st.members st.shared.nextOffset nmembers }
    multi offset ms.members)

def createAll : MultiStore → List NewMembers → List Nat × MultiStore
  | st, [] => ([], st)
  | st, ms :: rest =>
    let (multi, st) := st.createXMultiXactId ms
    let (multis, st) := createAll st rest
    (multi :: multis, st)

end MultiStore

/-- An `int` that is assigned the difference of two offsets, as a number of rounds. -/
def intLength (upper lower : Nat) : Nat :=
  let d := (upper + 2 ^ 64 - lower) % 2 ^ 32
  if d < 2 ^ 31 then d else 0

/-- Entries with an invalid transaction id are passed over. -/
def readMembers (area : PageArea) (offset : Nat) : Nat → List (Nat × Nat)
  | 0 => []
  | n + 1 =>
    let m := area.readMember offset
    let rest := readMembers area ((offset + 1) % 2 ^ 64) n
    if m.1 % 2 ^ 32 = 0 then rest else m :: rest

inductive MembersLookup where
  | tooOld
  | notCreated
  /-- The next multixact has no entry yet, and the lookup waits. -/
  | beingFilled
  | found (members : List (Nat × Nat))

/-- `GetXMultiXactIdMembers` for an id that is not in the local cache. -/
def MultiStore.getXMultiXactIdMembers (st : MultiStore) (oldestMXact multi : Nat) : MembersLookup :=
  if multi < oldestMXact then .tooOld
  else if ¬ multi < st.shared.nextXMXact then .notCreated
  else
    let offset := st.offsets.readOffset multi
    let tmpMXact := (multi + 1) % 2 ^ 64
    if st.shared.nextXMXact = tmpMXact then
      .found (readMembers st.members offset (intLength st.shared.nextOffset offset))
    else
      let tmpMXact := if tmpMXact < firstXMultiXactId then firstXMultiXactId else tmpMXact
      let nextMXOffset := st.offsets.readOffset tmpMXact
      if nextMXOffset = 0 then .beingFilled
      else .found (readMembers st.members offset (intLength nextMXOffset offset))

section Frames

variable {area : PageArea} {offset nmembers o multi multi' : Nat} {ms : List XMultiXactMember}

theorem readOffset_extend (h : multi' < multi) (hpos : 0 < multi') :
    (extendXMultiXactOffset area multi).readOffset multi' = area.readOffset multi' := by
  unfold extendXMultiXactOffset
  split_ifs with hc
  · rfl
  · apply PageArea.readOffset_zeroPage_of_ne
    simp only [offsetEntry, offsetPage, xmultixactOffsetsPerPage, firstXMultiXactId] at hc ⊢
    omega

/-- Room is made on pages that start at the new members or behind them, also behind the wrap of the
offsets. -/
theorem readMember_extend (ho : o < 2 ^ 64) (hoff : offset < 2 ^ 64)
    (h : nmembers + membersPerPage ≤ (o + 2 ^ 64 - offset) % 2 ^ 64) :
    (extendXMultiXactMember area offset nmembers).readMember o = area.readMember o := by
  induction nmembers using Nat.strong_induction_on generalizing area offset with
  | _ nmembers ih =>
    have hmod := Nat.mod_lt offset (show 0 < membersPerPage by decide)
    by_cases h0 : nmembers = 0
    · rw [extendXMultiXactMember, if_pos h0]
    · have hzero : (if flagsOffset offset = 0 ∧ memberInGroup offset * 8 = 0 then
          area.zeroPage (memberPage offset) else area).readMember o = area.readMember o := by
        split_ifs with hfirst
        · apply PageArea.readMember_zeroPage_of_ne
          simp only [flagsOffset, memberInGroup, memberPage, membersPerPage, groupsPerPage,
            memberGroupSize, membersPerGroup] at hfirst h ⊢
          omega
        · rfl
      rw [extendXMultiXactMember, if_neg h0]
      dsimp only
      by_cases hlast : nmembers ≤ membersPerPage - offset % membersPerPage
      · rw [Nat.sub_eq_zero_of_le hlast, extendXMultiXactMember, if_pos rfl, hzero]
      · rw [ih _ (by omega) (Nat.mod_lt _ (by decide)) (by omega), hzero]

/-- With the first entry of the area its page is zeroed. -/
theorem readMember_extend_zero (hpos : 0 < nmembers) (h : nmembers + membersPerPage ≤ 2 ^ 64) :
    ((extendXMultiXactMember area 0 nmembers).readMember 0).1 = 0 := by
  rw [extendXMultiXactMember, if_neg (by omega), if_pos (by decide)]
  dsimp only
  have hsecond : (0 + (membersPerPage - 0 % membersPerPage)) % 2 ^ 64 = membersPerPage := by decide
  rw [hsecond, readMember_extend (by decide) (by decide) (by
    simp only [membersPerPage, groupsPerPage, memberGroupSize, membersPerGroup] at h ⊢
    omega)]
  rfl

/-- The members of a multixact stand at `v`, `v + 1`, … modulo the width of an offset. -/
theorem readMember_recordMembers_of_ne {v : Nat} (h : ∀ j < ms.length, o ≠ (v + j) % 2 ^ 64) :
    (recordMembers area (v % 2 ^ 64) ms).readMember o = area.readMember o := by
  induction ms generalizing area v with
  | nil => rfl
  | cons m ms ih =>
    rw [recordMembers, Nat.mod_add_mod, ih]
    · exact PageArea.readMember_writeMember_of_ne m.status.code_lt (h 0 (by simp))
    · intro j hj
      rw [Nat.add_assoc, Nat.add_comm 1 j]
      exact h (j + 1) (by simpa using hj)

theorem readMember_recordMembers {v : Nat} (hlen : ms.length ≤ 2 ^ 64) {j : Nat} (hj : j < ms.length) :
    (recordMembers area (v % 2 ^ 64) ms).readMember ((v + j) % 2 ^ 64) = ms[j].raw := by
  induction ms generalizing area v j with
  | nil => cases hj
  | cons m ms ih =>
    rw [length_cons] at hlen hj
    rw [recordMembers, Nat.mod_add_mod]
    cases j with
    | zero =>
      rw [readMember_recordMembers_of_ne fun j hj => by omega]
      exact PageArea.readMember_writeMember m.xid_lt m.status.code_lt
    | succ j =>
      rw [show v + (j + 1) = v + 1 + j by omega]
      exact ih (by omega) (by omega)

/-- A stretch of the members area that holds valid members is read back as it is, and unused slots
behind it are passed over. -/
theorem readMembers_eq {v gap : Nat} {rs : List (Nat × Nat)} (hvalid : ∀ r ∈ rs, r.1 % 2 ^ 32 ≠ 0)
    (hread : ∀ j (hj : j < rs.length), area.readMember ((v + j) % 2 ^ 64) = rs[j])
    (hgap : ∀ j < gap, (area.readMember ((v + rs.length + j) % 2 ^ 64)).1 % 2 ^ 32 = 0) :
    readMembers area (v % 2 ^ 64) (rs.length + gap) = rs := by
  induction rs generalizing v with
  | nil =>
    rw [length_nil, Nat.zero_add]
    induction gap generalizing v with
    | zero => rfl
    | succ gap ih =>
      rw [readMembers, Nat.mod_add_mod, ih (by simp), if_pos (by simpa using hgap 0 (by omega))]
      intro j hj
      have := hgap (j + 1) (by omega)
      rwa [length_nil, Nat.add_zero, Nat.add_comm j 1, ← Nat.add_assoc] at this
  | cons r rs ih =>
    have hfirst : area.readMember (v % 2 ^ 64) = r := hread 0 (by simp)
    rw [length_cons, Nat.add_right_comm, readMembers, Nat.mod_add_mod, hfirst, ih,
      if_neg (hvalid r (mem_cons_self ..))]
    · exact fun r hr => hvalid r (mem_cons_of_mem _ hr)
    · intro j hj
      rw [Nat.add_assoc, Nat.add_comm 1 j]
      exact hread (j + 1) (by simpa using hj)
    · intro j hj
      have := hgap j hj
      rwa [length_cons, Nat.add_comm rs.length 1, ← Nat.add_assoc] at this

end Frames

theorem XMultiXactState.validNext_eq {s : XMultiXactState} {n : Nat} (h : s.nextXMXact = n) (hn : 0 < n) :
    s.validNext = n := by
  rw [validNext, firstXMultiXactId, if_neg (by omega), h]

theorem XMultiXactState.nextXMXact_eq_of_lt {s : XMultiXactState} (h : 1 < s.validNext) :
    s.nextXMXact = s.validNext := by
  unfold validNext firstXMultiXactId at h ⊢
  split_ifs at h ⊢ <;> omega

/-- Where the members of the next multixact start. Positions are counted on through the wrap of the
offsets; slot zero of the area stays unused where it would be the first one. -/
def memberStart (v : Nat) : Nat := if v % 2 ^ 64 = 0 then v + 1 else v

/-- The position behind multixacts that are stored from `k` on. -/
def memberEnd (k : Nat) (stored : List (List (Nat × Nat))) : Nat :=
  stored.foldl (fun v rs => memberStart v + rs.length) k

theorem le_memberStart (v : Nat) : v ≤ memberStart v := by
  unfold memberStart
  split_ifs <;> omega

theorem memberStart_mod_pos (v : Nat) : 0 < memberStart v % 2 ^ 64 := by
  unfold memberStart
  split_ifs <;> omega

section Positions

variable {k : Nat} {stored : List (List (Nat × Nat))}

theorem memberEnd_append (stored' : List (List (Nat × Nat))) :
    memberEnd k (stored ++ stored') = memberEnd (memberEnd k stored) stored' :=
  foldl_append

theorem le_memberEnd (k : Nat) (stored : List (List (Nat × Nat))) : k ≤ memberEnd k stored := by
  induction stored generalizing k with
  | nil => exact Nat.le_refl k
  | cons rs rest ih =>
    exact (le_memberStart k).trans ((Nat.le_add_right ..).trans (ih (memberStart k + rs.length)))

/-- The members of the multixact at place `i` are the stretch between its start and the next end. -/
theorem memberEnd_take_succ {i : Nat} (hi : i < stored.length) :
    memberEnd k (stored.take (i + 1)) = memberStart (memberEnd k (stored.take i)) + stored[i].length := by
  rw [take_succ_eq_append_getElem hi, memberEnd_append]
  rfl

theorem memberEnd_take_le (i : Nat) : memberEnd k (stored.take i) ≤ memberEnd k stored := by
  conv_rhs => rw [← take_append_drop i stored, memberEnd_append]
  exact le_memberEnd _ _

/-- Slot zero is passed over at most once in less than a turn of the offsets. -/
theorem memberEnd_le (h : stored.flatten.length + 1 < 2 ^ 64) :
    memberEnd k stored = k + stored.flatten.length ∨
      memberEnd k stored = k + stored.flatten.length + 1 ∧
        ∃ m, m % 2 ^ 64 = 0 ∧ k ≤ m ∧ m < memberEnd k stored := by
  induction stored using reverseRecOn with
  | nil => exact .inl rfl
  | append_singleton stored rs ih =>
    rw [flatten_append, length_append, flatten_singleton] at h
    rw [memberEnd_append, flatten_append, length_append, flatten_singleton]
    have hle := le_memberEnd k stored
    simp only [memberEnd, foldl_cons, foldl_nil] at ih hle ⊢
    generalize stored.foldl (fun v rs => memberStart v + rs.length) k = v at ih hle ⊢
    unfold memberStart
    rcases ih (by omega) with ih | ⟨ih, m, hm, hkm, hmv⟩
    · split_ifs with hv
      · exact .inr ⟨by omega, v, hv, hle, by omega⟩
      · exact .inl (by omega)
    · rw [if_neg (by omega)]
      exact .inr ⟨by omega, m, hm, hkm, by omega⟩

end Positions

/-- The areas hold the multixacts `n`, `n + 1`, …, whose members stand one after the other from position
`k` on, and the counters stand behind them. -/
structure MultiStore.HoldsAround (st : MultiStore) (n k : Nat) (stored : List (List (Nat × Nat))) : Prop where
  id_pos : 0 < n
  next : st.shared.validNext = n + stored.length
  next_offset : st.shared.nextOffset = memberEnd k stored % 2 ^ 64
  offsets : ∀ i < stored.length,
    st.offsets.readOffset (n + i) = memberStart (memberEnd k (stored.take i)) % 2 ^ 64
  members : ∀ i (hi : i < stored.length), ∀ j (hj : j < stored[i].length),
    st.members.readMember ((memberStart (memberEnd k (stored.take i)) + j) % 2 ^ 64) = stored[i][j]
  unused : ∀ i < stored.length, memberEnd k (stored.take i) % 2 ^ 64 = 0 →
    (st.members.readMember 0).1 = 0

section Run

variable {st : MultiStore} {n k : Nat} {stored : List (List (Nat × Nat))}

/-- `GetNewXMultiXactId` in terms of positions. -/
theorem MultiStore.HoldsAround.newOffset (h : st.HoldsAround n k stored) (ms : NewMembers) :
    (st.shared.getNewXMultiXactId ms.members.length).2.1 = memberStart (memberEnd k stored) % 2 ^ 64 ∧
      st.shared.nextOffset + (if st.shared.nextOffset = 0 then ms.members.length + 1 else ms.members.length) =
        memberEnd k stored % 2 ^ 64 + (memberStart (memberEnd k stored) - memberEnd k stored) +
          ms.members.length := by
  rw [XMultiXactState.getNewXMultiXactId, h.next_offset]
  dsimp only
  unfold memberStart
  constructor
  · split_ifs <;> omega
  · split_ifs <;> omega

/-- What stands between `k` and the counter is not touched by a creation. -/
theorem MultiStore.HoldsAround.kept (h : st.HoldsAround n k stored) (ms : NewMembers) {u : Nat} (hk : k ≤ u)
    (hu : u < memberEnd k stored)
    (hroom : memberStart (memberEnd k stored) + ms.members.length + membersPerPage ≤ k + 2 ^ 64) :
    (st.createXMultiXactId ms).2.members.readMember (u % 2 ^ 64) = st.members.readMember (u % 2 ^ 64) := by
  obtain ⟨hoffset, hsize⟩ := h.newOffset ms
  have hle := le_memberStart (memberEnd k stored)
  have hlt := ms.lt
  show (recordMembers (extendXMultiXactMember st.members st.shared.nextOffset _)
    (st.shared.getNewXMultiXactId ms.members.length).2.1 ms.members).readMember _ = _
  rw [hoffset, readMember_recordMembers_of_ne fun j hj => by omega, readMember_extend (by omega)]
  · rw [h.next_offset]
    exact Nat.mod_lt _ (by decide)
  · rw [h.next_offset] at hsize ⊢
    omega

theorem MultiStore.HoldsAround.create (h : st.HoldsAround n k stored) (ms : NewMembers)
    (hid : n + stored.length + 1 < 2 ^ 64)
    (hroom : memberStart (memberEnd k stored) + ms.members.length + membersPerPage ≤ k + 2 ^ 64) :
    (st.createXMultiXactId ms).1 = n + stored.length ∧
      (st.createXMultiXactId ms).2.HoldsAround n k (stored ++ [ms.raw]) := by
  obtain ⟨hoffset, hsize⟩ := h.newOffset ms
  have hstart := le_memberStart (memberEnd k stored)
  have hlt := ms.lt
  have hkept := fun {u} => h.kept ms (u := u)
  -- a place of the list is an old one or the new one
  have hplace : ∀ i < (stored ++ [ms.raw]).length, i < stored.length ∨ i = stored.length := by
    intro i hi
    rw [length_append, length_singleton] at hi
    omega
  have hinside : ∀ i (hi : i < stored.length), k ≤ memberEnd k (stored.take i) ∧
      memberStart (memberEnd k (stored.take i)) + stored[i].length ≤ memberEnd k stored := by
    intro i hi
    rw [← memberEnd_take_succ hi]
    exact ⟨le_memberEnd _ _, memberEnd_take_le _⟩
  refine ⟨h.next, h.id_pos, ?_, ?_, ?_, ?_, ?_⟩
  · rw [length_append, length_singleton, ← Nat.add_assoc]
    refine XMultiXactState.validNext_eq ?_ (by omega)
    show (st.shared.validNext + 1) % 2 ^ 64 = _
    rw [h.next, Nat.mod_eq_of_lt hid]
  · rw [memberEnd_append]
    show (st.shared.nextOffset + _) % 2 ^ 64 = (memberStart (memberEnd k stored) + ms.raw.length) % 2 ^ 64
    rw [hsize, NewMembers.raw_length]
    omega
  · intro i hi
    show ((extendXMultiXactOffset st.offsets st.shared.validNext).writeOffset st.shared.validNext
      (st.shared.getNewXMultiXactId ms.members.length).2.1).readOffset (n + i) = _
    rw [h.next, hoffset]
    rcases hplace i hi with hi | rfl
    · have hpos := h.id_pos
      rw [PageArea.readOffset_writeOffset_of_ne (by omega), readOffset_extend (by omega) (by omega),
        h.offsets i hi, take_append_of_le_length hi.le]
    · rw [PageArea.readOffset_writeOffset (Nat.mod_lt _ (by decide)), take_left']
      rfl
  · intro i hi j hj
    rcases hplace i hi with hi | rfl
    · rw [getElem_append_left hi] at hj
      obtain ⟨hk, hend⟩ := hinside i hi
      have hle := le_memberStart (memberEnd k (stored.take i))
      simp only [take_append_of_le_length hi.le, getElem_append_left hi]
      rw [hkept (by omega) (by omega) hroom, h.members i hi j hj]
    · simp only [take_left', getElem_append_right (Nat.le_refl _), Nat.sub_self, getElem_singleton,
        NewMembers.raw_length] at hj ⊢
      show (recordMembers (extendXMultiXactMember st.members st.shared.nextOffset _)
        (st.shared.getNewXMultiXactId ms.members.length).2.1 ms.members).readMember _ = _
      rw [hoffset, readMember_recordMembers (by omega) hj]
      simp [NewMembers.raw]
  · intro i hi hzero
    rcases hplace i hi with hi | rfl
    · rw [take_append_of_le_length hi.le] at hzero
      obtain ⟨hk, hend⟩ := hinside i hi
      have hne : memberEnd k (stored.take i) < memberStart (memberEnd k (stored.take i)) := by
        rw [memberStart, if_pos hzero]
        omega
      have hold := hkept hk (by omega) hroom
      rw [hzero] at hold
      rw [hold, h.unused i hi hzero]
    · rw [take_left' rfl] at hzero
      rw [h.next_offset, hzero] at hsize
      have hone : memberStart (memberEnd k stored) = memberEnd k stored + 1 := if_pos hzero
      show ((recordMembers (extendXMultiXactMember st.members st.shared.nextOffset _)
        (st.shared.getNewXMultiXactId ms.members.length).2.1 ms.members).readMember 0).1 = 0
      rw [hoffset, readMember_recordMembers_of_ne fun j hj => by omega, h.next_offset, hzero, if_pos rfl,
        readMember_extend_zero (by omega) (by
          have : membersPerPage = 908 := rfl
          omega)]

theorem intLength_add {v len : Nat} (h : len < 2 ^ 31) :
    intLength ((v + len) % 2 ^ 64) (v % 2 ^ 64) = len := by
  have hd : ((v + len) % 2 ^ 64 + 2 ^ 64 - v % 2 ^ 64) % 2 ^ 32 = len := by omega
  rw [intLength, hd, if_pos h]

theorem MultiStore.HoldsAround.lookup (h : st.HoldsAround n k stored) (hid : n + stored.length < 2 ^ 64)
    (hlen : ∀ rs ∈ stored, rs.length + 1 < 2 ^ 31)
    (hvalid : ∀ rs ∈ stored, ∀ r ∈ rs, r.1 % 2 ^ 32 ≠ 0) {i oldest : Nat} (hi : i < stored.length)
    (hold : oldest ≤ n + i) : st.getXMultiXactIdMembers oldest (n + i) = .found stored[i] := by
  have hmem : stored[i] ∈ stored := getElem_mem hi
  have hpos := h.id_pos
  have hlt := hlen _ hmem
  have hnext : st.shared.nextXMXact = n + stored.length := by
    rw [XMultiXactState.nextXMXact_eq_of_lt (by rw [h.next]; omega), h.next]
  -- the length is the one of this multixact, or one more where slot zero follows unused
  have hread : ∀ gap, gap ≤ 1 → (0 < gap → memberEnd k (stored.take (i + 1)) % 2 ^ 64 = 0 ∧
      (st.members.readMember 0).1 = 0) →
      readMembers st.members (memberStart (memberEnd k (stored.take i)) % 2 ^ 64)
        (intLength ((memberEnd k (stored.take (i + 1)) + gap) % 2 ^ 64)
          (memberStart (memberEnd k (stored.take i)) % 2 ^ 64)) = stored[i] := by
    intro gap hgap hzero
    rw [memberEnd_take_succ hi] at hzero ⊢
    rw [Nat.add_assoc, intLength_add (by omega)]
    refine readMembers_eq (hvalid _ hmem) (h.members i hi) fun j hj => ?_
    obtain ⟨hend, hunused⟩ := hzero (by omega)
    obtain rfl : j = 0 := by omega
    rw [Nat.add_zero, hend, hunused, Nat.zero_mod]
  rw [getXMultiXactIdMembers, if_neg (by omega), if_neg (by omega)]
  dsimp only
  rw [h.offsets i hi, Nat.mod_eq_of_lt (by omega), hnext, h.next_offset]
  by_cases hlast : i + 1 = stored.length
  · have hall := hread 0 (by omega) (fun hfalse => by omega)
    rw [hlast, take_length, Nat.add_zero] at hall
    rw [if_pos (by omega), hall]
  · have hfirst : ¬ n + i + 1 < firstXMultiXactId := by unfold firstXMultiXactId; omega
    have hentry := memberStart_mod_pos (memberEnd k (stored.take (i + 1)))
    rw [if_neg (by omega), if_neg hfirst, Nat.add_assoc n i 1, h.offsets (i + 1) (by omega),
      if_neg (by omega)]
    by_cases hzero : memberEnd k (stored.take (i + 1)) % 2 ^ 64 = 0
    · have hone : memberStart (memberEnd k (stored.take (i + 1))) = memberEnd k (stored.take (i + 1)) + 1 :=
        if_pos hzero
      rw [hone, hread 1 (by omega) fun _ => ⟨hzero, h.unused (i + 1) (by omega) hzero⟩]
    · have hsame : memberStart (memberEnd k (stored.take (i + 1))) = memberEnd k (stored.take (i + 1)) + 0 :=
        if_neg hzero
      rw [hsame, hread 0 (by omega) fun hfalse => by omega]

theorem MultiStore.HoldsAround.createAll {lists : List NewMembers} (h : st.HoldsAround n k stored)
    (hid : n + stored.length + lists.length < 2 ^ 64)
    (hroom : memberEnd k (stored ++ lists.map NewMembers.raw) + membersPerPage ≤ k + 2 ^ 64) :
    (st.createAll lists).1 = (List.range' (n + stored.length) lists.length) ∧
      (st.createAll lists).2.HoldsAround n k (stored ++ lists.map NewMembers.raw) := by
  induction lists generalizing st stored with
  | nil => exact ⟨rfl, by simpa [MultiStore.createAll] using h⟩
  | cons ms rest ih =>
    rw [map_cons, ← singleton_append, ← append_assoc] at hroom
    have hfirst := hroom
    rw [memberEnd_append] at hfirst
    have hle := le_memberEnd (memberEnd k (stored ++ [ms.raw])) (rest.map NewMembers.raw)
    have hend : memberEnd k (stored ++ [ms.raw]) =
        memberStart (memberEnd k stored) + ms.members.length := by
      rw [memberEnd_append, ← NewMembers.raw_length]
      rfl
    rw [length_cons] at hid
    obtain ⟨hmulti, hstep⟩ := h.create ms (by omega) (by omega)
    have hlen : (stored ++ [ms.raw]).length = stored.length + 1 := by simp
    obtain ⟨hmultis, hrest⟩ := ih hstep (by omega) hroom
    refine ⟨?_, by simpa [MultiStore.createAll] using hrest⟩
    rw [MultiStore.createAll]
    simp only [length_cons, List.range'_succ]
    rw [hmulti, hmultis, hlen, Nat.add_assoc]

theorem MultiStore.HoldsAround.start (st : MultiStore) (h : st.shared.nextOffset < 2 ^ 64) :
    st.HoldsAround st.shared.validNext st.shared.nextOffset [] where
  id_pos := by
    unfold XMultiXactState.validNext firstXMultiXactId
    split_ifs <;> omega
  next := rfl
  next_offset := (Nat.mod_eq_of_lt h).symm
  offsets := fun i hi => absurd hi (Nat.not_lt_zero i)
  members := fun i hi => absurd hi (Nat.not_lt_zero i)
  unused := fun i hi => absurd hi (Nat.not_lt_zero i)

end Run

/-- The ids do not run out, and the members do not come round to the page of the first one. The next
offset is any 64-bit number, and may wrap. -/
def MultiStore.HasRoom (st : MultiStore) (lists : List NewMembers) : Prop :=
  st.shared.validNext + lists.length < 2 ^ 64 ∧ st.shared.nextOffset < 2 ^ 64 ∧
    (lists.map NewMembers.raw).flatten.length + 1 + membersPerPage ≤ 2 ^ 64

/-- After a sequence of creations from any counters and any page contents, every lookup of an id that
is not below the oldest visible one returns the members it was created with, in their order. -/
theorem multixact_members_round_trip (st : MultiStore) (lists : List NewMembers)
    (hroom : st.HasRoom lists) :
    List.Forall₂ (fun multi (ms : NewMembers) => ∀ oldest ≤ multi,
      (st.createAll lists).2.getXMultiXactIdMembers oldest multi = .found ms.raw)
      (st.createAll lists).1 lists := by
  obtain ⟨hids, hcounter, htotal⟩ := hroom
  have hend : memberEnd st.shared.nextOffset (lists.map NewMembers.raw) + membersPerPage ≤
      st.shared.nextOffset + 2 ^ 64 := by
    have hpage : membersPerPage = 908 := rfl
    rcases @memberEnd_le st.shared.nextOffset (lists.map NewMembers.raw) (by omega) with
      hall | ⟨hall, -⟩
    · omega
    · omega
  obtain ⟨hmultis, hholds⟩ : (st.createAll lists).1 = _ ∧ (st.createAll lists).2.HoldsAround _ _ _ :=
    (MultiStore.HoldsAround.start st hcounter).createAll (by simpa using hids) (by simpa using hend)
  rw [hmultis, List.forall₂_iff_get]
  refine ⟨by simp, fun i hi hi' oldest hold => ?_⟩
  simp only [List.get_eq_getElem, List.getElem_range', List.length_nil, Nat.add_zero,
    Nat.one_mul] at hold ⊢
  rw [hholds.lookup (by simpa using hids) ?_ ?_ (by simpa using hi') hold]
  · simp
  · simp only [List.nil_append, List.mem_map]
    rintro rs ⟨ms, -, rfl⟩
    simpa using ms.lt
  · simp only [List.nil_append, List.mem_map]
    rintro rs ⟨ms, -, rfl⟩ r hr
    obtain ⟨m, -, rfl⟩ := List.mem_map.mp hr
    exact m.valid

def sharedBy (xid : Nat) (h : xid < 2 ^ 32 ∧ xid ≠ 0) : XMultiXactMember :=
  ⟨xid, .forShare, by omega, by omega⟩

/-- Two multixacts, the first of which ends with the last offset. -/
def acrossWrap : List NewMembers :=
  [⟨[sharedBy 10 (by decide), sharedBy 11 (by decide)], by decide, by decide⟩,
    ⟨[sharedBy 11 (by decide), sharedBy 12 (by decide)], by decide, by decide⟩]

theorem multixact_members_round_trip_across_wrap :
    let st : MultiStore := ⟨⟨1023, 2 ^ 64 - 2, fun _ => 0⟩, fun _ _ => 7, fun _ _ => 9⟩
    st.HasRoom acrossWrap ∧
    List.Forall₂ (fun multi (ms : NewMembers) => ∀ oldest ≤ multi,
      (st.createAll acrossWrap).2.getXMultiXactIdMembers oldest multi = .found ms.raw)
      (st.createAll acrossWrap).1 acrossWrap := by
  intro st
  have hroom : st.HasRoom acrossWrap := by
    unfold MultiStore.HasRoom
    decide
  exact ⟨hroom, multixact_members_round_trip st acrossWrap hroom⟩

/-- The last 64-bit id: the counter starts again at zero, and the lookup of the new multixact takes it
for one that does not exist. -/
theorem last_multixact_not_found :
    let st : MultiStore := ⟨⟨2 ^ 64 - 1, 1, fun _ => 0⟩, fun _ _ => 0, fun _ _ => 0⟩
    let created := st.createXMultiXactId ⟨[sharedBy 10 (by decide)], by decide, by decide⟩
    created.1 = 2 ^ 64 - 1 ∧ created.2.getXMultiXactIdMembers 1 created.1 = .notCreated := by
  constructor
  · rfl
  · rfl

end XStore
