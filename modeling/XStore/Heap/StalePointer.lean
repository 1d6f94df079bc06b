import XStore.Bytes.Traced
import XStore.Heap.HeaderBytes
import XStore.Heap.PageChange
import XStore.Heap.RowLock

/-!
# The old row of a non-in-place update across the unlocked window

`xheap_update` takes the address and the length of the old row while it holds the page, lets the
page go to find room for the new row, and after it has the page again goes on with the address and
the length it took.  Other backends may have changed the page in between.
-/
namespace XStore

inductive WindowAct where
  /-- `xpage_add_item` into line `i`. -/
  | addItem (i : Nat) (tuple : List UInt8)
  /-- Bytes of the row of line `i` and its length are overwritten in place. -/
  | rewriteRow (i len : Nat) (tuple : List UInt8)
  /-- A rollback takes an inserted row out. -/
  | freeRow (i : Nat)
  | prune (prstate : XPruneState) (targetOffnum spaceRequired : Nat)

namespace WindowAct

def apply (p : PageImage) : WindowAct → Except Panic PageImage
  | addItem i tuple => .ok (p.addItem i tuple)
  | rewriteRow i len tuple => .ok (p.rewriteRow i len tuple)
  | freeRow i => .ok (p.setLine i RowPtr.unused)
  | prune prstate t s => xheapPagePrune p prstate t s

/-- What the code of the other backends has checked: there is room for a new row, a row that is
overwritten stays in its space and the locked row at `off` keeps its length, and pruning cuts rows
to the length of their tuple, is given a target that is in use and asks for less room than a page
has. -/
def Allowed (off : Nat) (p : PageImage) : WindowAct → Prop
  | addItem i tuple =>
    (p.line i).isUsed = false ∧ i ≤ p.rps.length ∧ sizeOfXHeapDiskTupleData ≤ tuple.length ∧
      p.pdLower + (if i = p.rps.length then 4 else 0) + shortAlign tuple.length ≤ p.pdUpper
  | rewriteRow i len tuple =>
    (p.line i).isUsed = true ∧ (i + 1 = off → len = (p.line i).len) ∧
      sizeOfXHeapDiskTupleData ≤ len ∧ tuple.length ≤ len ∧
      (p.line i).offset + shortAlign len ≤ p.pdSpecial ∧
      ∀ j, j ≠ i → (p.line j).isUsed = true →
        (p.line i).offset + shortAlign len ≤ (p.line j).offset ∨
          (p.line j).offset + shortAlign (p.line j).len ≤ (p.line i).offset
  | freeRow _ => True
  | prune prstate t s =>
    PageImage.FixedSound p prstate.nowfixed ∧ s ≤ blcksz ∧
      ∀ q, xheapPagePruneExecute p prstate = .ok q →
        t = invalidOffsetNumber ∨ 1 ≤ t ∧ (q.line (t - 1)).isUsed = true

/-- The act leaves the row at `off` where it is, as long as it is.  Only pruning may do otherwise:
then the rows that survive must fill the space from the row up to the special space. -/
def LeavesInPlace (off : Nat) (p : PageImage) : WindowAct → Prop
  | prune prstate t s => ∀ q, xheapPagePruneExecute p prstate = .ok q →
      (q.rp off).len = (p.rp off).len ∧ q.repairedOffset t s (off - 1) = (p.rp off).offset
  | _ => True

end WindowAct

/-- The changes of other backends while the page is unlocked; the row at `off` stays normal. -/
inductive Window (off : Nat) : PageImage → List WindowAct → PageImage → Prop
  | done (p : PageImage) : Window off p [] p
  | step {p q r : PageImage} {act : WindowAct} {acts : List WindowAct} :
      act.Allowed off p → act.apply p = .ok q → (q.rp off).isNormal = true → Window off q acts r →
      Window off p (act :: acts) r

def Undisturbed (off : Nat) : PageImage → List WindowAct → Prop
  | _, [] => True
  | p, act :: acts => act.LeavesInPlace off p ∧ ∀ q, act.apply p = .ok q → Undisturbed off q acts

def readFlag (a : Nat) : MemoryM Flag := do
  let bs ← loadAt (a + offFlag) 2
  return BitVec.ofNat 16 (leNat bs)

def writeFlag (a : Nat) (f : Flag) : MemoryM Unit := storeAt (a + offFlag) (leBytes 2 f.toNat)

def readLockerXid (a : Nat) : MemoryM Nat := do
  let bs ← loadAt (a + offLockerXid) 8
  return leNat bs

def writeLockerXid (a xid : Nat) : MemoryM Unit := storeAt (a + offLockerXid) (leBytes 8 xid)

def readTHoff (a : Nat) : MemoryM Nat := do
  let bs ← loadAt (a + offTHoff) 1
  return leNat bs

/-- What `xheap_update` reads through its pointer to the old row. -/
structure OldTupleReads where
  undoFlag : Flag
  undotup : List UInt8
  walFlag : Flag
  logold : List UInt8
  deriving DecidableEq

/-- `XHeapTupleHeaderClearAllLocker`, or `xheap_keep_subtxn_lock` inside a subtransaction. -/
def clearOldLockers (subxact : Option LockerEnv) (a : Nat) : MemoryM Unit := do
  let flag ← readFlag a
  match subxact with
  | none =>
    writeFlag a (flag &&& ~~~xheapLockStatusMask)
    writeLockerXid a invalidXid
  | some e =>
    let locker ← readLockerXid a
    writeFlag a (xheapKeepSubtxnLock e flag locker).1
    match (xheapKeepSubtxnLock e flag locker).2 with
    | none => return ()
    | some xid => writeLockerXid a xid

/-- `xheap_extract_replica_identity` -/
def extractReplicaIdentity (c : OpCtx) (a n : Nat) : MemoryM (List UInt8) :=
  if c.isLogicallyLogged then loadAt a n else return []

/-- What is read of the old row at `a` of length `n` for the undo record and the WAL. -/
def readOldTuple (c : OpCtx) (a n : Nat) : MemoryM (Flag × List UInt8) := do
  let _ ← extractReplicaIdentity c a n
  let _ ← readTHoff a
  -- the data header of the undo record
  let undoFlag ← readFlag a
  let undotup ← loadAt a n
  return (undoFlag, undotup)

def markOldTuple (c : OpCtx) (subxact : Option LockerEnv) (a : Nat) : MemoryM Unit := do
  storeAt (a + offUrec) (leBytes 8 c.urecptr)
  let infomask ← readFlag a
  writeFlag a (infomask &&& ~~~xheapLockStatusMask)
  writeFlag a infomask
  clearOldLockers subxact a
  let flag ← readFlag a
  writeFlag a (flag &&& ~~~xheapVisStatusUnlockMask)
  let flag ← readFlag a
  writeFlag a (flag ||| xheapUpdated)
  storeAt (a + offModifiedXid) (leBytes 8 c.fxid)

/-- The columns, read to leave out of the WAL what the new row on the same page shares with them. -/
def readOldColumns (sameBuffer : Bool) (a n : Nat) : MemoryM (List UInt8) :=
  if sameBuffer then do
    let hoff ← readTHoff a
    loadAt (a + hoff) (n - hoff)
  else return []

/-- The part of `xheap_update` in its critical section. -/
def finishOldTuple (c : OpCtx) (subxact : Option LockerEnv) (sameBuffer : Bool) (a n : Nat)
    (undo : Flag × List UInt8) : MemoryM OldTupleReads := do
  markOldTuple c subxact a
  let walFlag ← readFlag a
  let logold ← readOldColumns sameBuffer a n
  return ⟨undo.1, undo.2, walFlag, logold⟩

/-- The accesses of `xheap_update` to the old row at `a` of length `n`, from the moment it has the
page again. -/
def updateOldTuple (c : OpCtx) (subxact : Option LockerEnv) (sameBuffer : Bool) (a n : Nat) :
    MemoryM OldTupleReads :=
  readOldTuple c a n >>= finishOldTuple c subxact sameBuffer a n

/-- Everything that was read or written belongs to the row at `off`, and no other row changed. -/
structure StaysInRow (p : PageImage) (off : Nat) (s : TracedMemory) : Prop where
  accesses : ∀ x ∈ s.trace, x.Inside (p.rp off).offset ((p.rp off).offset + (p.rp off).len)
  others : ∀ j, j + 1 ≠ off → (p.line j).isUsed = true → ∀ i < (p.line j).len,
    s.bytes ((p.line j).offset + i) = p.bytes ((p.line j).offset + i)

section Program

variable {a n : Nat} (h : sizeOfXHeapDiskTupleData ≤ n)

include h

theorem within_readFlag : Within a (a + n) (readFlag a) := by
  simp only [sizeOfXHeapDiskTupleData] at h
  refine Within.bind (Within.loadAt fun i hi => ?_) fun _ => Within.pure _
  simp only [offFlag]
  omega

theorem within_writeFlag (f : Flag) : Within a (a + n) (writeFlag a f) := by
  simp only [sizeOfXHeapDiskTupleData] at h
  apply Within.storeAt
  · omega
  · simp only [leBytes_length, offFlag]
    omega

theorem within_readLockerXid : Within a (a + n) (readLockerXid a) := by
  simp only [sizeOfXHeapDiskTupleData] at h
  refine Within.bind (Within.loadAt fun i hi => ?_) fun _ => Within.pure _
  simp only [offLockerXid]
  omega

theorem within_writeLockerXid (xid : Nat) : Within a (a + n) (writeLockerXid a xid) := by
  simp only [sizeOfXHeapDiskTupleData] at h
  apply Within.storeAt
  · omega
  · simp only [leBytes_length, offLockerXid]
    omega

theorem within_readTHoff : Within a (a + n) (readTHoff a) := by
  simp only [sizeOfXHeapDiskTupleData] at h
  refine Within.bind (Within.loadAt fun i hi => ?_) fun _ => Within.pure _
  simp only [offTHoff]
  omega

theorem within_clearOldLockers (subxact : Option LockerEnv) :
    Within a (a + n) (clearOldLockers subxact a) := by
  refine Within.bind (within_readFlag h) fun flag => ?_
  cases subxact with
  | none => exact Within.bind (within_writeFlag h _) fun _ => within_writeLockerXid h _
  | some e =>
    refine Within.bind (within_readLockerXid h) fun locker => ?_
    refine Within.bind (within_writeFlag h _) fun _ => ?_
    cases (xheapKeepSubtxnLock e flag locker).2 with
    | none => exact Within.pure _
    | some xid => exact within_writeLockerXid h xid

theorem within_readOldTuple (c : OpCtx) : Within a (a + n) (readOldTuple c a n) := by
  have hload : Within a (a + n) (loadAt a n) := Within.loadAt fun i hi => by omega
  refine Within.bind (Within.ite hload (Within.pure _)) fun _ => ?_
  refine Within.bind (within_readTHoff h) fun _ => ?_
  refine Within.bind (within_readFlag h) fun _ => ?_
  exact Within.bind hload fun _ => Within.pure _

theorem within_markOldTuple (c : OpCtx) (subxact : Option LockerEnv) :
    Within a (a + n) (markOldTuple c subxact a) := by
  have hsize := h
  simp only [sizeOfXHeapDiskTupleData] at hsize
  refine Within.bind (Within.storeAt (by omega) ?_) fun _ => ?_
  · simp only [leBytes_length, offUrec]
    omega
  refine Within.bind (within_readFlag h) fun _ => ?_
  refine Within.bind (within_writeFlag h _) fun _ => ?_
  refine Within.bind (within_writeFlag h _) fun _ => ?_
  refine Within.bind (within_clearOldLockers h subxact) fun _ => ?_
  refine Within.bind (within_readFlag h) fun _ => ?_
  refine Within.bind (within_writeFlag h _) fun _ => ?_
  refine Within.bind (within_readFlag h) fun _ => ?_
  refine Within.bind (within_writeFlag h _) fun _ => ?_
  apply Within.storeAt
  · omega
  · simp only [leBytes_length, offModifiedXid]
    omega

theorem within_readOldColumns (sameBuffer : Bool) :
    Within a (a + n) (readOldColumns sameBuffer a n) := by
  refine Within.ite ?_ (Within.pure _)
  exact Within.bind (within_readTHoff h) fun hoff => Within.loadAt fun i hi => by omega

theorem within_finishOldTuple (c : OpCtx) (subxact : Option LockerEnv) (sameBuffer : Bool)
    (undo : Flag × List UInt8) :
    Within a (a + n) (finishOldTuple c subxact sameBuffer a n undo) := by
  refine Within.bind (within_markOldTuple h c subxact) fun _ => ?_
  refine Within.bind (within_readFlag h) fun _ => ?_
  exact Within.bind (within_readOldColumns h sameBuffer) fun _ => Within.pure _

/-- With the header of the row in it, the update touches nothing outside `[a, a + n)`. -/
theorem within_updateOldTuple (c : OpCtx) (subxact : Option LockerEnv) (sameBuffer : Bool) :
    Within a (a + n) (updateOldTuple c subxact sameBuffer a n) :=
  Within.bind (within_readOldTuple h c) fun undo => within_finishOldTuple h c subxact sameBuffer undo

theorem undotup_mem_trace (c : OpCtx) (subxact : Option LockerEnv) (sameBuffer : Bool)
    (s : TracedMemory) :
    ⟨false, a, n⟩ ∈ ((updateOldTuple c subxact sameBuffer a n).run s).2.trace := by
  have hmem : ⟨false, a, n⟩ ∈ ((readOldTuple c a n).run s).2.trace :=
    List.mem_append_right _ (List.mem_singleton.mpr rfl)
  exact (within_finishOldTuple h c subxact sameBuffer _).trace_subset _ hmem

end Program

section Acts

open PageImage

variable {off : Nat} {p q : PageImage}

/-- What one act of another backend does to the row at `off`. -/
theorem act_spec {act : WindowAct} (hoff : 1 ≤ off) (h : p.Sound) (hn : (p.rp off).isNormal = true)
    (ha : act.Allowed off p) (hq : act.apply p = .ok q) (hn' : (q.rp off).isNormal = true) :
    q.Sound ∧ (q.rp off).len ≤ (p.rp off).len ∧
      (act.LeavesInPlace off p → q.rp off = p.rp off) := by
  have hused : (p.line (off - 1)).isUsed = true := RowPtr.isUsed_of_isNormal hn
  have hused' : (q.line (off - 1)).isUsed = true := RowPtr.isUsed_of_isNormal hn'
  cases act with
  | addItem i tuple =>
    cases hq
    have hne : off - 1 ≠ i := by
      rintro rfl
      rw [ha.1] at hused
      cases hused
    have hsame : (p.addItem i tuple).rp off = p.rp off := by
      rw [rp, line_addItem ha.2.1, if_neg hne]
      rfl
    exact ⟨(grown_addItem ha.2.1 ha.2.2.2).sound h ha.2.2.1, hsame ▸ le_rfl, fun _ => hsame⟩
  | rewriteRow i len tuple =>
    cases hq
    have hsame : (p.rewriteRow i len tuple).rp off = p.rp off := by
      by_cases hi : off - 1 = i
      · subst hi
        have hlen := ha.2.1 (by omega)
        refine (p.line_setLine_self _ (lt_of_isUsed hused)).trans ?_
        rw [hlen]
        rfl
      · exact p.line_setLine_of_ne _ hi
    obtain ⟨hi, -, hsize, -, hroom, hapart⟩ := ha
    exact ⟨sound_rewriteRow h tuple hi hsize hroom hapart, hsame ▸ le_rfl, fun _ => hsame⟩
  | freeRow i =>
    cases hq
    have hcut : Cut p (p.setLine i RowPtr.unused) :=
      Cut.setLine h fun hu => absurd hu (by decide)
    have hsame : (p.setLine i RowPtr.unused).rp off = p.rp off := by
      by_cases hi : off - 1 = i
      · subst hi
        rw [p.line_setLine_self _ (lt_of_isUsed hused)] at hused'
        cases hused'
      · exact p.line_setLine_of_ne _ hi
    exact ⟨hcut.sound h, hsame ▸ le_rfl, fun _ => hsame⟩
  | prune prstate t s =>
    obtain ⟨q₀, hq₀, hrep⟩ := bind_ok hq
    obtain ⟨⟨r, pruned⟩, hr, rfl⟩ := map_ok hrep
    have hcut := pruneExecute_cut h ha.1 hq₀
    have hspec := repaire_spec (hcut.sound h) ((hcut.sound h).roomFits ha.2.1) hr
    have hused₀ : (q₀.line (off - 1)).isUsed = true := by
      by_contra hn₀
      rw [hspec.unused _ (by simpa using hn₀)] at hused'
      cases hused'
    have hline := hspec.line _ hused₀
    obtain ⟨-, hline₀, -, hle⟩ := hcut.line _ hused₀
    refine ⟨hspec.sound, ?_, ?_⟩
    · rw [rp, hline]
      exact hle
    · intro hstay
      obtain ⟨hlen, hoffset⟩ := hstay q₀ hq₀
      rw [rp, hline, hoffset, hline₀]
      simp only [rp] at hlen ⊢
      rw [hlen]

/-- What the window does to the row at `off`, whatever the other backends do. -/
theorem window_spec {acts : List WindowAct} (hoff : 1 ≤ off) (hw : Window off p acts q) (h : p.Sound)
    (hn : (p.rp off).isNormal = true) :
    q.Sound ∧ (q.rp off).isNormal = true ∧ (q.rp off).len ≤ (p.rp off).len ∧
      (Undisturbed off p acts → q.rp off = p.rp off) := by
  induction hw with
  | done p => exact ⟨h, hn, le_rfl, fun _ => rfl⟩
  | step ha hq hn' _ ih =>
    obtain ⟨hs, hle, hstay⟩ := act_spec hoff h hn ha hq hn'
    obtain ⟨hs', hn'', hle', hstay'⟩ := ih hs hn'
    refine ⟨hs', hn'', hle'.trans hle, ?_⟩
    rintro ⟨hact, hrest⟩
    exact (hstay' (hrest _ hq)).trans (hstay hact)

end Acts

/-- The update stays in its row if the row pointer still is what it was. -/
theorem staysInRow_of_rp_eq {off : Nat} {p q : PageImage} (hoff : 1 ≤ off) (hq : q.Sound)
    (hn : (q.rp off).isNormal = true) (heq : q.rp off = p.rp off) (c : OpCtx)
    (subxact : Option LockerEnv) (sameBuffer : Bool) :
    StaysInRow q off ((updateOldTuple c subxact sameBuffer (p.rp off).offset (p.rp off).len).run
      ⟨q.bytes, []⟩).2 := by
  have hused : (q.line (off - 1)).isUsed = true := RowPtr.isUsed_of_isNormal hn
  have hsize : sizeOfXHeapDiskTupleData ≤ (q.rp off).len := hq.header _ hused
  rw [← heq]
  obtain ⟨⟨t, ht, hin⟩, hout⟩ := within_updateOldTuple hsize c subxact sameBuffer ⟨q.bytes, []⟩
  refine ⟨?_, ?_⟩
  · intro x hx
    rw [ht, List.nil_append] at hx
    exact hin x hx
  · intro j hj hused' i hi
    apply hout
    have hal := le_shortAlign (q.line j).len
    have hal' := le_shortAlign (q.rp off).len
    rcases hq.apart j (off - 1) (by omega) hused' hused with hap | hap
    · left
      simp only [PageImage.rp] at hal' ⊢
      omega
    · right
      simp only [PageImage.rp] at hal' ⊢
      omega

/-- The stale copy of the row reaches past a row that is elsewhere or shorter. -/
theorem rp_eq_of_staysInRow {off : Nat} {p q : PageImage} (hp : p.Sound)
    (hn : (p.rp off).isNormal = true) (hn' : (q.rp off).isNormal = true)
    (hle : (q.rp off).len ≤ (p.rp off).len) (c : OpCtx) (subxact : Option LockerEnv)
    (sameBuffer : Bool)
    (h : StaysInRow q off
      ((updateOldTuple c subxact sameBuffer (p.rp off).offset (p.rp off).len).run ⟨q.bytes, []⟩).2) :
    q.rp off = p.rp off := by
  have hsize : sizeOfXHeapDiskTupleData ≤ (p.rp off).len :=
    hp.header _ (RowPtr.isUsed_of_isNormal hn)
  have hcopy := h.accesses _ (undotup_mem_trace hsize c subxact sameBuffer ⟨q.bytes, []⟩)
  simp only [sizeOfXHeapDiskTupleData] at hsize
  have hfirst := hcopy 0 (by dsimp only; omega)
  have hlast := hcopy ((p.rp off).len - 1) (by dsimp only; omega)
  dsimp only at hfirst hlast
  have hflags : (q.rp off).flags = (p.rp off).flags := by
    rw [eq_of_beq hn, eq_of_beq hn']
  cases hq : q.rp off with
  | mk o f l =>
    cases hp' : p.rp off with
    | mk o' f' l' =>
      rw [hq, hp'] at hfirst hlast hle hflags
      dsimp only at hfirst hlast hle hflags
      obtain rfl : o = o' := by omega
      obtain rfl : l = l' := by omega
      rw [hflags]

/-- After any window the update stays in its row exactly when the row is where it was, as long as
it was; and it is so when no act of the window disturbs it. -/
theorem updateOldTuple_stays_in_row_iff {off : Nat} {p q : PageImage} {acts : List WindowAct}
    (hoff : 1 ≤ off) (hp : p.Sound) (hn : (p.rp off).isNormal = true) (hw : Window off p acts q)
    (c : OpCtx) (subxact : Option LockerEnv) (sameBuffer : Bool) :
    (StaysInRow q off ((updateOldTuple c subxact sameBuffer (p.rp off).offset (p.rp off).len).run
        ⟨q.bytes, []⟩).2 ↔ q.rp off = p.rp off) ∧
      (Undisturbed off p acts → StaysInRow q off
        ((updateOldTuple c subxact sameBuffer (p.rp off).offset (p.rp off).len).run
          ⟨q.bytes, []⟩).2) := by
  obtain ⟨hq, hn', hle, hstay⟩ := window_spec hoff hw hp hn
  have hof : q.rp off = p.rp off → StaysInRow q off
      ((updateOldTuple c subxact sameBuffer (p.rp off).offset (p.rp off).len).run ⟨q.bytes, []⟩).2 :=
    fun heq => staysInRow_of_rp_eq hoff hq hn' heq c subxact sameBuffer
  refine ⟨⟨?_, hof⟩, fun hu => hof (hstay hu)⟩
  exact rp_eq_of_staysInRow hp hn hn' hle c subxact sameBuffer

/-- Three rows of thirty bytes, the first at the end of the page. -/
def threeRowImage : PageImage where
  bytes := fun _ => 0
  rps := [⟨8162, .normal, 30⟩, ⟨8132, .normal, 30⟩, ⟨8102, .normal, 30⟩]
  pdFlags := 0#16
  pdUpper := 8102
  pdSpecial := blcksz

theorem line_threeRowImage_cases {i : Nat} (h : (threeRowImage.line i).isUsed = true) :
    i = 0 ∨ i = 1 ∨ i = 2 := by
  have := PageImage.lt_of_isUsed h
  have hlen : threeRowImage.rps.length = 3 := rfl
  omega

theorem threeRowImage_sound : threeRowImage.Sound := by
  refine ⟨by decide, by decide, by decide, by decide, ?_, ?_, ?_⟩
  · intro i hi
    rcases line_threeRowImage_cases hi with rfl | rfl | rfl <;> decide
  · intro i hi
    rcases line_threeRowImage_cases hi with rfl | rfl | rfl <;> decide
  · intro i j hij hi hj
    rcases line_threeRowImage_cases hi with rfl | rfl | rfl <;>
      rcases line_threeRowImage_cases hj with rfl | rfl | rfl <;> first | decide | exact absurd rfl hij

/-- The page after another backend has added a row below the others. -/
def threeRowImageGrown : PageImage := threeRowImage.addItem 3 (List.replicate 29 0)

theorem updateOldTuple_stays_beside_insert :
    StaysInRow threeRowImageGrown 2
      ((updateOldTuple (seventh 100) none true 8132 30).run ⟨threeRowImageGrown.bytes, []⟩).2 := by
  have hadd : (WindowAct.addItem 3 (List.replicate 29 0)).Allowed 2 threeRowImage :=
    ⟨by decide, by decide, by decide, by decide⟩
  have hw : Window 2 threeRowImage [.addItem 3 (List.replicate 29 0)] threeRowImageGrown :=
    .step hadd rfl (by decide) (.done _)
  exact (updateOldTuple_stays_in_row_iff (by decide) threeRowImage_sound (by decide) hw
    (seventh 100) none true).2 ⟨trivial, fun _ _ => trivial⟩

/-- The page after a prune that frees the first row: the old row has moved to its place, and the
third row to the place of the old row. -/
def threeRowImagePruned : PageImage :=
  match xheapPagePrune threeRowImage ⟨[1], []⟩ invalidOffsetNumber 0 with
  | .ok p => p
  | .error _ => threeRowImage

/-- The update then writes its transaction id into the third row. -/
theorem updateOldTuple_hits_other_row :
    Window 2 threeRowImage [.prune ⟨[1], []⟩ invalidOffsetNumber 0] threeRowImagePruned ∧
      (threeRowImagePruned.line 2).isUsed = true ∧
      ((updateOldTuple (seventh 100) none false (threeRowImage.rp 2).offset (threeRowImage.rp 2).len).run
        ⟨threeRowImagePruned.bytes, []⟩).2.bytes (threeRowImagePruned.line 2).offset ≠
          threeRowImagePruned.bytes (threeRowImagePruned.line 2).offset := by
  refine ⟨.step ⟨⟨.nil, ?_, ?_⟩, by decide, fun _ _ => .inl rfl⟩ rfl (by decide) (.done _), by decide, by decide⟩
  · intro f hf
    cases hf
  · intro f hf
    cases hf

end XStore
