import XStore.Index.SplitPages

/-!
# The items after a leaf split

Both pages are built item by item, so the bytes of a page are those of its items from the last one to
the first.  The loop puts the items left of the split point on the left page and the others on the
right one, with the new item in its place.
-/
namespace XStore

open Option List

section Tuple

variable {tup more : List UInt8} {n : Nat}

theorem tInfo_append (h : 8 ≤ tup.length) : tInfo (tup ++ more) = tInfo tup := by
  unfold tInfo
  rw [drop_append_of_le_length (by omega), take_append_of_le_length (by simp; omega)]

theorem tInfo_take (h : 8 ≤ n) : tInfo (tup.take n) = tInfo tup := by
  unfold tInfo
  rw [drop_take, take_take]
  congr 2
  omega

theorem indexTupleSize_append (h : 8 ≤ tup.length) :
    indexTupleSize (tup ++ more) = indexTupleSize tup := by
  rw [indexTupleSize, tInfo_append h, indexTupleSize]

theorem xbtreeTupleIsPivot_append (h : 8 ≤ tup.length) :
    xbtreeTupleIsPivot (tup ++ more) = xbtreeTupleIsPivot tup := by
  rw [xbtreeTupleIsPivot, tInfo_append h, xbtreeTupleIsPivot]

theorem leNat_lt (bs : List UInt8) : leNat bs < 256 ^ bs.length := by
  induction bs with
  | nil => simp [leNat]
  | cons b bs ih =>
    have hb := b.toNat_lt
    simp only [leNat, length_cons, Nat.pow_succ]
    omega

theorem tInfo_lt (tup : List UInt8) : tInfo tup < 2 ^ 16 := by
  have hlt := leNat_lt ((tup.drop 6).take 2)
  have hlen : ((tup.drop 6).take 2).length ≤ 2 := length_take_le ..
  exact lt_of_lt_of_le hlt (Nat.pow_le_pow_right (by decide) hlen)

variable (h : 8 ≤ tup.length)

include h

theorem indexTupleSetSize_length : (indexTupleSetSize tup n).length = tup.length := by
  simp [indexTupleSetSize]
  omega

theorem tInfo_setSize (hn : n < 2 ^ 13) :
    tInfo (indexTupleSetSize tup n) = tInfo tup / 2 ^ 13 * 2 ^ 13 + n := by
  have hor : (tInfo tup >>> 13) <<< 13 ||| n = tInfo tup / 2 ^ 13 * 2 ^ 13 + n := by
    rw [← Nat.shiftLeft_add_eq_or_of_lt hn, Nat.shiftRight_eq_div_pow, Nat.shiftLeft_eq]
  have hlt : tInfo tup / 2 ^ 13 * 2 ^ 13 + n < 256 ^ 2 := by
    have := tInfo_lt tup
    omega
  have hsix : (tup.take 6).length = 6 := by simp; omega
  unfold tInfo
  rw [indexTupleSetSize, hor, append_assoc, drop_append_of_le_length (by omega),
    drop_eq_nil_of_le (by omega), nil_append,
    take_append_of_le_length (by simp), take_of_length_le (by simp)]
  exact leNat_leBytes hlt

theorem indexTupleSize_setSize (hn : n < 2 ^ 13) :
    indexTupleSize (indexTupleSetSize tup n) = n := by
  rw [indexTupleSize, tInfo_setSize h hn]
  omega

theorem xbtreeTupleIsPivot_setSize (hn : n < 2 ^ 13) :
    xbtreeTupleIsPivot (indexTupleSetSize tup n) = xbtreeTupleIsPivot tup := by
  rw [xbtreeTupleIsPivot, tInfo_setSize h hn, xbtreeTupleIsPivot]
  congr 2
  omega

end Tuple

/-- A tuple on a leaf page with the transaction id and the undo pointer behind it. -/
structure LeafTuple (tup : List UInt8) : Prop where
  isPivot : xbtreeTupleIsPivot tup = false
  size : 8 ≤ indexTupleSize tup
  length : tup.length = align8 (indexTupleSize tup) + txnInfoSize

structure PivotTuple (tup : List UInt8) : Prop where
  isPivot : xbtreeTupleIsPivot tup = true
  size : 8 ≤ indexTupleSize tup
  length : tup.length = align8 (indexTupleSize tup)

/-- The page has these items, from the end of the page down. -/
structure Built (special : Nat) (p : IndexPage) (its : List (IndexLp × List UInt8)) : Prop where
  special : p.special = special
  sound : p.Sound
  items : p.items = its
  area : p.area = (its.map Prod.snd).reverse.flatten

theorem modify_concat {α : Type*} (l : List α) (x : α) (f : α → α) :
    (l ++ [x]).modify l.length f = l ++ [f x] := by
  induction l with
  | nil => rfl
  | cons a l ih => simp [modify_succ_cons, ih]

section Built

variable {special : Nat} {p q : IndexPage} {its : List (IndexLp × List UInt8)} {itup : List UInt8}
  {itemsize : Nat}
  {tup : List UInt8}

theorem Built.slots_length (h : Built special p its) : p.slots.length = its.length := by
  rw [← h.items, ItemPage.items_length]

theorem Built.addItem (h : Built special p its) {size : Nat}
    (hmod : size % 8 = 0) (hsize : size ≤ tup.length)
    (hadd : pageAddItem p tup size (its.length + 1) = some q) :
    Built special q (its ++ [(.normal, tup.take size)]) := by
  rw [pageAddItem, Nat.add_sub_cancel] at hadd
  obtain ⟨-, -, hq⟩ := ItemPage.addItem_eq_some hadd
  refine ⟨?_, ItemPage.addItem_sound h.sound hsize hadd, ?_, ?_⟩
  · rw [hq]
    exact h.special
  · rw [ItemPage.addItem_items h.sound hsize hadd, h.items, insertIdx_length_self]
  · rw [hq]
    simp [align8_of_mod hmod, h.area]

theorem Built.setState (h : Built special p (its ++ [(.normal, tup)]))
    (state : IndexLp) :
    Built special (p.setState its.length state) (its ++ [(state, tup)]) where
  special := h.special
  sound := h.sound.setState _ _
  items := by rw [ItemPage.items_setState, h.items, modify_concat]
  area := by
    change p.area = _
    rw [h.area]
    simp

theorem Built.addOld (h : Built special p its) {it : IndexLp × List UInt8}
    (hmod : it.2.length % 8 = 0) (hadd : xbtPgaddtupOld p it.2 (its.length + 1) it.1 = some q) :
    Built special q (its ++ [it]) := by
  obtain ⟨q', hq', rfl⟩ := map_eq_some_iff.mp hadd
  have hbuilt := h.addItem hmod le_rfl hq'
  rw [take_length] at hbuilt
  exact hbuilt.setState it.1

/-- The new item with what `_xbt_pgaddtup` puts behind it. -/
def newIndexTuple (itemsize : Nat) (itup : List UInt8) (xid urec : Nat) : List UInt8 :=
  (indexTupleSetSize itup (itemsize - txnInfoSize)).take (itemsize - txnInfoSize) ++
    (leBytes 8 xid ++ leBytes 8 urec)

theorem newIndexTuple_length (hitup : 8 ≤ itup.length)
    (hsize : txnInfoSize ≤ itemsize) (hlen : itemsize - txnInfoSize ≤ itup.length) (xid urec : Nat) :
    (newIndexTuple itemsize itup xid urec).length = itemsize := by
  simp only [newIndexTuple, length_append, length_take, indexTupleSetSize_length hitup,
    leBytes_length]
  simp only [txnInfoSize] at *
  omega

theorem Built.addNew (h : Built special p its) {rightmost : Bool}
    {xid urec : Nat} (hitup : 8 ≤ itup.length) (hsize : txnInfoSize ≤ itemsize)
    (hlen : itemsize - txnInfoSize ≤ itup.length) (hmod : itemsize % 8 = 0)
    (hfirst : firstDataKey rightmost ≤ its.length + 1)
    (hadd : xbtPgaddtupNew rightmost p itemsize itup (its.length + 1) xid urec = some q) :
    Built special q (its ++ [(.normal, newIndexTuple itemsize itup xid urec)]) := by
  simp only [xbtPgaddtupNew, decide_eq_true hfirst, if_true] at hadd
  split_ifs at hadd with hroom
  obtain ⟨q', hq', rfl⟩ := map_eq_some_iff.mp hadd
  have hnew : (itemsize - txnInfoSize) % 8 = 0 := by
    simp only [txnInfoSize]
    omega
  have htrailer : p.lower + (leBytes 8 xid ++ leBytes 8 urec).length ≤ p.upper := by
    simp only [length_append, leBytes_length]
    simp only [txnInfoSize] at hroom
    omega
  have hgrown := h.sound.grow htrailer
  have htup : itemsize - txnInfoSize ≤ (indexTupleSetSize itup (itemsize - txnInfoSize)).length := by
    rw [indexTupleSetSize_length hitup]
    exact hlen
  rw [pageAddItem, Nat.add_sub_cancel, ← h.slots_length] at hq'
  have hsound := ItemPage.addItem_sound hgrown htup hq'
  have hitems := ItemPage.addItem_items hgrown htup hq'
  obtain ⟨-, -, hq⟩ := ItemPage.addItem_eq_some hq'
  have harea : q'.area = newIndexTuple itemsize itup xid urec ++ p.area := by
    rw [hq]
    simp [align8_of_mod hnew, newIndexTuple, ItemPage.grow]
  have hlength := newIndexTuple_length hitup hsize hlen xid urec
  rw [ItemPage.items_grow h.sound (by omega), h.items, h.slots_length, insertIdx_length_self]
    at hitems
  refine ⟨?_, hsound.setLowest (by simp [harea, hlength]) _ _, ?_, ?_⟩
  · change q'.special = special
    rw [hq]
    exact h.special
  · rw [ItemPage.items_setLowest, hitems, harea, Nat.add_sub_cancel, take_left' hlength]
    simp
  · change q'.area = _
    rw [harea, h.area]
    simp

end Built

namespace LeafSplit

variable (c : LeafSplit)

/-- What the page, the new item and the split point are like.  `newitemsz` counts what goes behind the
new tuple. -/
structure WellFormed : Prop where
  sound : c.page.Sound
  special_lt : c.page.special < 2 ^ 15
  data : ∀ it ∈ c.dataItems, LeafTuple it.2
  hikey : c.rightmost = false → ∃ hk, c.page.items.head? = some hk ∧ PivotTuple hk.2
  lefthikey : PivotTuple c.lefthikey
  new_pivot : xbtreeTupleIsPivot c.newitem = false
  new_length : c.newitemsz - txnInfoSize ≤ c.newitem.length
  newsz_le : 24 ≤ c.newitemsz
  newsz_mod : c.newitemsz % 8 = 0
  newsz_lt : c.newitemsz < 2 ^ 13
  xid_lt : c.xid < 2 ^ 64
  urec_lt : c.urecPtr < 2 ^ 64
  newoff_ge : firstDataKey c.rightmost ≤ c.newitemoff
  newoff_le : c.newitemoff ≤ firstDataKey c.rightmost + c.dataItems.length
  right_ge : firstDataKey c.rightmost ≤ c.firstright
  /-- All items may go left, with the new one alone on the right page. -/
  right_le : c.firstright ≤ firstDataKey c.rightmost + c.dataItems.length
  right_lt : c.newitemonleft = true → c.firstright < firstDataKey c.rightmost + c.dataItems.length
  onleft : c.newitemonleft = true → c.newitemoff ≤ c.firstright
  onright : c.newitemonleft = false → c.firstright ≤ c.newitemoff

def newEntry : IndexLp × List UInt8 := (.normal, newIndexTuple c.newitemsz c.newitem c.xid c.urecPtr)

/-- The new item, if it goes before the item at `i` on this side. -/
def newAt (side : Bool) (i : Nat) : List (IndexLp × List UInt8) :=
  if c.newitemonleft = side ∧ i = c.newitemoff then [c.newEntry] else []

/-- What the loop puts on the left page from the items at `i` on. -/
def leftOut (i : Nat) (its : List (IndexLp × List UInt8)) : List (IndexLp × List UInt8) :=
  if c.newitemonleft = true ∧ i ≤ c.newitemoff then
    (its.take (c.firstright - i)).insertIdx (c.newitemoff - i) c.newEntry
  else its.take (c.firstright - i)

/-- What the loop puts on the right page from the items at `i` on. -/
def rightOut (i : Nat) (its : List (IndexLp × List UInt8)) : List (IndexLp × List UInt8) :=
  if c.newitemonleft = false ∧ i ≤ c.newitemoff then
    (its.drop (c.firstright - i)).insertIdx (c.newitemoff - max i c.firstright) c.newEntry
  else its.drop (c.firstright - i)

variable {c}

/-- The item at `i` is on one side of the split. -/
theorem take_drop_cons {β : Type*} (n i : Nat) (it : β) (its : List β) :
    (it :: its).take (n - i) = (if i < n then [it] else []) ++ its.take (n - (i + 1)) ∧
      (it :: its).drop (n - i) = (if i < n then [] else [it]) ++ its.drop (n - (i + 1)) := by
  by_cases hi : i < n
  · have hsucc : n - i = n - (i + 1) + 1 := by omega
    rw [hsucc, if_pos hi, if_pos hi]
    exact ⟨rfl, rfl⟩
  · have hzero : n - i = 0 := by omega
    have hzero' : n - (i + 1) = 0 := by omega
    rw [if_neg hi, if_neg hi, hzero, hzero']
    exact ⟨rfl, rfl⟩

theorem leftOut_cons (hleft : c.newitemonleft = true → c.newitemoff ≤ c.firstright) (i : Nat)
    (it : IndexLp × List UInt8) (its : List (IndexLp × List UInt8)) :
    c.leftOut i (it :: its) =
      c.newAt true i ++ (if i < c.firstright then [it] else []) ++ c.leftOut (i + 1) its := by
  unfold leftOut newAt
  rw [(take_drop_cons c.firstright i it its).1]
  by_cases hon : c.newitemonleft = true
  · have hle := hleft hon
    rcases Nat.lt_trichotomy i c.newitemoff with hlt | heq | hgt
    · have hnext : i + 1 ≤ c.newitemoff := hlt
      obtain ⟨k, hk⟩ : ∃ k, c.newitemoff - i = k + 1 := ⟨c.newitemoff - (i + 1), by omega⟩
      have hk' : c.newitemoff - (i + 1) = k := by omega
      simp [hon, hlt.le, hlt.ne, hnext, hlt.trans_le hle, hk, hk']
    · subst heq
      simp [hon]
    · have hlate : ¬i ≤ c.newitemoff := by omega
      have hnext : ¬i + 1 ≤ c.newitemoff := by omega
      simp [hlate, hnext, hgt.ne']
  · simp [hon]

theorem rightOut_cons (hright : c.newitemonleft = false → c.firstright ≤ c.newitemoff) (i : Nat)
    (it : IndexLp × List UInt8) (its : List (IndexLp × List UInt8)) :
    c.rightOut i (it :: its) =
      c.newAt false i ++ (if i < c.firstright then [] else [it]) ++ c.rightOut (i + 1) its := by
  unfold rightOut newAt
  rw [(take_drop_cons c.firstright i it its).2]
  by_cases hon : c.newitemonleft = false
  · have hle := hright hon
    rcases Nat.lt_trichotomy i c.newitemoff with hlt | heq | hgt
    · have hnext : i + 1 ≤ c.newitemoff := hlt
      by_cases hi : i < c.firstright
      · have hmax : max i c.firstright = max (i + 1) c.firstright := by omega
        simp only [hon, hlt.le, hlt.ne, hnext, hi, hmax, and_self, and_false, if_true, if_false,
          nil_append]
      · obtain ⟨k, hk⟩ : ∃ k, c.newitemoff - max i c.firstright = k + 1 :=
          ⟨c.newitemoff - (i + 1), by omega⟩
        have hk' : c.newitemoff - max (i + 1) c.firstright = k := by omega
        simp [hon, hlt.le, hlt.ne, hnext, hi, hk, hk']
    · have hmax : c.newitemoff - max i c.firstright = 0 := by omega
      subst heq
      simp [hon, hmax]
    · have hlate : ¬i ≤ c.newitemoff := by omega
      have hnext : ¬i + 1 ≤ c.newitemoff := by omega
      simp [hlate, hnext, hgt.ne']
  · simp [hon]

/-- The two pages hold these items, and the next offsets are behind them. -/
structure Holds (c : LeafSplit) (s : SplitState) (L R : List (IndexLp × List UInt8)) : Prop where
  left : Built c.page.special s.left L
  right : Built c.page.special s.right R
  leftoff : s.leftoff = L.length + 1
  rightoff : s.rightoff = R.length + 1
  left_ge : 2 ≤ s.leftoff
  right_ge : firstDataKey c.rightmost ≤ s.rightoff

section Steps

variable {s s' : SplitState} {L R : List (IndexLp × List UInt8)} (hwf : c.WellFormed)
  (h : Holds c s L R) {i : Nat}

include hwf

theorem WellFormed.eight_le_newitem : 8 ≤ c.newitem.length := by
  have hlen := hwf.new_length
  have hsz := hwf.newsz_le
  simp only [txnInfoSize] at hlen
  omega

theorem WellFormed.txn_le_newitemsz : txnInfoSize ≤ c.newitemsz := by
  have hsz := hwf.newsz_le
  simp only [txnInfoSize]
  omega

include h

theorem holds_addNewLeft (hadd : c.addNewLeft s = some s') :
    Holds c s' (L ++ [c.newEntry]) R ∧ s'.newitemleftoff = L.length + 1 := by
  obtain ⟨p, hp, rfl⟩ := map_eq_some_iff.mp hadd
  have hoff := h.leftoff
  rw [hoff] at hp
  have hge : firstDataKey false ≤ L.length + 1 := hoff ▸ h.left_ge
  have hbuilt := h.left.addNew hwf.eight_le_newitem hwf.txn_le_newitemsz hwf.new_length
    hwf.newsz_mod hge hp
  exact ⟨⟨hbuilt, h.right, by simp [hoff], h.rightoff, by simp [hoff], h.right_ge⟩, hoff⟩

theorem holds_addNewRight (hadd : c.addNewRight s = some s') :
    Holds c s' L (R ++ [c.newEntry]) ∧ s'.newitemleftoff = s.newitemleftoff := by
  obtain ⟨p, hp, rfl⟩ := map_eq_some_iff.mp hadd
  have hoff := h.rightoff
  have hge := h.right_ge
  rw [hoff] at hp hge
  have hbuilt := h.right.addNew hwf.eight_le_newitem hwf.txn_le_newitemsz hwf.new_length
    hwf.newsz_mod hge hp
  exact ⟨⟨h.left, hbuilt, h.leftoff, by simp [hoff], h.left_ge, by simp [hoff]; omega⟩, rfl⟩

omit hwf in
theorem holds_addOldAt {it : IndexLp × List UInt8} (hmod : it.2.length % 8 = 0)
    (hadd : c.addOldAt i s it = some s') :
    Holds c s' (L ++ if i < c.firstright then [it] else [])
        (R ++ if i < c.firstright then [] else [it]) ∧
      s'.newitemleftoff = s.newitemleftoff := by
  unfold addOldAt at hadd
  by_cases hi : i < c.firstright
  · rw [if_pos hi] at hadd
    obtain ⟨p, hp, rfl⟩ := map_eq_some_iff.mp hadd
    have hoff := h.leftoff
    rw [hoff] at hp
    have hbuilt := h.left.addOld hmod hp
    refine ⟨?_, rfl⟩
    rw [if_pos hi, if_pos hi, append_nil]
    exact ⟨hbuilt, h.right, by simp [hoff], h.rightoff, by simp [hoff], h.right_ge⟩
  · rw [if_neg hi] at hadd
    obtain ⟨p, hp, rfl⟩ := map_eq_some_iff.mp hadd
    have hoff := h.rightoff
    have hge := h.right_ge
    rw [hoff] at hp hge
    have hbuilt := h.right.addOld hmod hp
    refine ⟨?_, rfl⟩
    rw [if_neg hi, if_neg hi, append_nil]
    exact ⟨h.left, hbuilt, h.leftoff, by simp [hoff], h.left_ge, by simp [hoff]; omega⟩

theorem holds_addNewAt (hadd : c.addNewAt i s = some s') :
    Holds c s' (L ++ c.newAt true i) (R ++ c.newAt false i) ∧
      s'.newitemleftoff =
        if c.newitemonleft = true ∧ i = c.newitemoff then L.length + 1 else s.newitemleftoff := by
  unfold addNewAt at hadd
  unfold newAt
  by_cases hi : i = c.newitemoff
  · rw [if_pos hi] at hadd
    cases hon : c.newitemonleft with
    | true =>
      rw [hon, if_pos rfl] at hadd
      simpa [hi] using holds_addNewLeft hwf h hadd
    | false =>
      rw [hon, if_neg Bool.false_ne_true] at hadd
      simpa [hi] using holds_addNewRight hwf h hadd
  · rw [if_neg hi] at hadd
    cases hadd
    simpa [hi] using h

end Steps

/-- What the loop leaves on the two pages, and where the new item is on the left one. -/
theorem loop_holds (hwf : c.WellFormed) {i : Nat} {its : List (IndexLp × List UInt8)}
    {s s' : SplitState} {L R : List (IndexLp × List UInt8)} (h : Holds c s L R)
    (hits : ∀ it ∈ its, LeafTuple it.2) (hlast : c.newitemoff ≤ i + its.length)
    (hleft : c.newitemonleft = true → c.newitemoff < i + its.length)
    (hloop : c.loop i its s = some s') :
    Holds c s' (L ++ c.leftOut i its) (R ++ c.rightOut i its) ∧
      (c.newitemonleft = true → i ≤ c.newitemoff →
        s'.newitemleftoff = L.length + 1 + (c.newitemoff - i)) ∧
      (c.newitemoff < i → s'.newitemleftoff = s.newitemleftoff) := by
  induction its generalizing i s L R with
  | nil =>
    rw [length_nil, Nat.add_zero] at hlast hleft
    have hl : c.leftOut i [] = [] := by
      have hnot : ¬(c.newitemonleft = true ∧ i ≤ c.newitemoff) := by
        rintro ⟨hon, hle⟩
        exact absurd (hleft hon) (by omega)
      rw [leftOut, if_neg hnot, take_nil]
    unfold loop at hloop
    rw [hl, append_nil]
    by_cases hi : i ≤ c.newitemoff
    · have hoff : c.newitemonleft = false := by
        by_contra hne
        have := hleft (by simpa using hne)
        omega
      have hzero : c.newitemoff - max i c.firstright = 0 := by omega
      have hr : c.rightOut i [] = [c.newEntry] := by
        rw [rightOut, if_pos ⟨hoff, hi⟩, hzero]
        simp
      rw [if_pos hi] at hloop
      rw [hr]
      obtain ⟨hholds, hkeep⟩ := holds_addNewRight hwf h hloop
      refine ⟨hholds, fun hon => ?_, fun _ => hkeep⟩
      rw [hoff] at hon
      cases hon
    · have hr : c.rightOut i [] = [] := by
        rw [rightOut, if_neg (fun hand => hi hand.2), drop_nil]
      rw [if_neg hi] at hloop
      cases hloop
      rw [hr, append_nil]
      exact ⟨h, fun _ hle => absurd hle hi, fun _ => rfl⟩
  | cons it its ih =>
    have hmod : it.2.length % 8 = 0 := by
      rw [(hits it (mem_cons_self ..)).length, txnInfoSize]
      have := align8_mod (indexTupleSize it.2)
      omega
    rw [length_cons] at hlast hleft
    obtain ⟨s₁, h₁, hrest⟩ := bind_eq_some_iff.mp hloop
    obtain ⟨s₂, h₂, hloop⟩ := bind_eq_some_iff.mp hrest
    obtain ⟨hholds₁, hoff₁⟩ := holds_addNewAt hwf h h₁
    obtain ⟨hholds₂, hoff₂⟩ := holds_addOldAt hholds₁ hmod h₂
    obtain ⟨hholds, hin, hout⟩ := ih hholds₂ (fun x hx => hits x (mem_cons_of_mem it hx))
      (by omega) (fun hon => by have := hleft hon; omega) hloop
    refine ⟨?_, fun hon hle => ?_, fun hlt => ?_⟩
    · rw [leftOut_cons hwf.onleft, rightOut_cons hwf.onright, ← append_assoc,
        ← append_assoc, ← append_assoc, ← append_assoc]
      exact hholds
    · rcases Nat.eq_or_lt_of_le hle with heq | hlt
      · rw [hout (by omega), hoff₂, hoff₁, if_pos ⟨hon, heq⟩, heq, Nat.sub_self, Nat.add_zero]
      · have hfirst := hwf.onleft hon
        rw [hin hon (by omega), newAt, if_neg (by omega), if_pos (by omega)]
        simp
        omega
    · rw [hout (by omega), hoff₂, hoff₁, if_neg (by omega)]

theorem insertIdx_append {α : Type*} (l₁ l₂ : List α) (x : α) (k : Nat) (hk : k ≤ l₁.length) :
    (l₁ ++ l₂).insertIdx k x = l₁.insertIdx k x ++ l₂ := by
  induction l₁ generalizing k with
  | nil =>
    obtain rfl : k = 0 := by simpa using hk
    simp
  | cons a l₁ ih =>
    cases k with
    | zero => simp
    | succ k => simp [ih k (by simpa using hk)]

theorem append_insertIdx {α : Type*} (l₁ l₂ : List α) (x : α) (k : Nat) :
    (l₁ ++ l₂).insertIdx (l₁.length + k) x = l₁ ++ l₂.insertIdx k x := by
  induction l₁ with
  | nil => simp
  | cons a l₁ ih => simp [Nat.succ_add, ih]

/-- Left and right together are the items of the page with the new item in its place. -/
theorem leftOut_append_rightOut (hwf : c.WellFormed) :
    c.leftOut (firstDataKey c.rightmost) c.dataItems ++
        c.rightOut (firstDataKey c.rightmost) c.dataItems =
      c.dataItems.insertIdx (c.newitemoff - firstDataKey c.rightmost) c.newEntry := by
  have hge := hwf.newoff_ge
  have hright := hwf.right_le
  have hlen : (c.dataItems.take (c.firstright - firstDataKey c.rightmost)).length =
      c.firstright - firstDataKey c.rightmost := by
    rw [length_take]
    omega
  unfold leftOut rightOut
  cases hon : c.newitemonleft with
  | true =>
    have hle := hwf.onleft hon
    rw [if_pos ⟨rfl, hge⟩, if_neg (by simp), ← insertIdx_append _ _ _ _ (by omega),
      take_append_drop]
  | false =>
    have hle := hwf.onright hon
    have hfirst := hwf.right_ge
    have hk : c.newitemoff - firstDataKey c.rightmost =
        (c.dataItems.take (c.firstright - firstDataKey c.rightmost)).length +
          (c.newitemoff - max (firstDataKey c.rightmost) c.firstright) := by
      omega
    rw [if_neg (by simp), if_pos ⟨rfl, hge⟩, hk, ← append_insertIdx, take_append_drop]

def rightHikey (c : LeafSplit) : List (IndexLp × List UInt8) :=
  if c.rightmost then [] else (c.page.items.take 1).map fun hk => (.normal, hk.2)

variable (hwf : c.WellFormed)

include hwf

theorem WellFormed.empty_built :
    Built c.page.special (.empty c.page.special) [] where
  special := rfl
  sound := by
    apply ItemPage.empty_sound
    have hfits := hwf.sound.fits
    simp only [ItemPage.lower] at hfits
    omega
  items := rfl
  area := rfl

theorem WellFormed.rightHikey_eq (hr : c.rightmost = false) :
    ∃ hk, c.page.items.head? = some hk ∧ PivotTuple hk.2 ∧ c.rightHikey = [(.normal, hk.2)] := by
  obtain ⟨hk, hhead, hpivot⟩ := hwf.hikey hr
  refine ⟨hk, hhead, hpivot, ?_⟩
  unfold rightHikey
  cases hitems : c.page.items with
  | nil => rw [hitems] at hhead; cases hhead
  | cons x xs =>
    rw [hitems] at hhead
    cases hhead
    simp [hr]

theorem WellFormed.rightHikey_length :
    c.rightHikey.length + 1 = firstDataKey c.rightmost := by
  cases hr : c.rightmost with
  | true => simp [rightHikey, hr, firstDataKey]
  | false =>
    obtain ⟨hk, -, -, heq⟩ := hwf.rightHikey_eq hr
    simp [heq, firstDataKey]

theorem initRight_built {p : IndexPage} (h : c.initRight = some p) :
    Built c.page.special p c.rightHikey := by
  unfold initRight at h
  cases hr : c.rightmost with
  | true =>
    rw [hr, if_pos rfl] at h
    cases h
    simpa [rightHikey, hr] using hwf.empty_built
  | false =>
    rw [hr, if_neg Bool.false_ne_true] at h
    obtain ⟨hk, hhead, hpivot, heq⟩ := hwf.rightHikey_eq hr
    rw [hhead] at h
    have hmod : hk.2.length % 8 = 0 := by
      rw [hpivot.length]
      exact align8_mod _
    have hbuilt := hwf.empty_built.addItem hmod le_rfl h
    rw [take_length] at hbuilt
    rw [heq]
    exact hbuilt

theorem xbtSplit_holds {s : SplitState} (h : c.xbtSplit = some s) :
    Holds c s ((.normal, c.lefthikey) :: c.leftOut (firstDataKey c.rightmost) c.dataItems)
        (c.rightHikey ++ c.rightOut (firstDataKey c.rightmost) c.dataItems) ∧
      (c.newitemonleft = true →
        s.newitemleftoff = 2 + (c.newitemoff - firstDataKey c.rightmost)) := by
  obtain ⟨left, hleft, hrest⟩ := bind_eq_some_iff.mp h
  obtain ⟨right, hright, hloop⟩ := bind_eq_some_iff.mp hrest
  have hlen := hwf.lefthikey.length
  have hbuilt := hwf.empty_built.addItem (align8_mod _) hlen.ge hleft
  rw [← hlen, take_length] at hbuilt
  have hstart : Holds c ⟨left, right, 2, firstDataKey c.rightmost, 0, 0⟩ [(.normal, c.lefthikey)]
      c.rightHikey :=
    ⟨hbuilt, initRight_built hwf hright, rfl, hwf.rightHikey_length.symm, le_rfl, le_rfl⟩
  obtain ⟨hholds, hoff, -⟩ := loop_holds hwf hstart hwf.data hwf.newoff_le
    (fun hon => lt_of_le_of_lt (hwf.onleft hon) (hwf.right_lt hon)) hloop
  exact ⟨hholds, fun hon => hoff hon hwf.newoff_ge⟩

end LeafSplit

end XStore
