import XStore.Index.SplitItems

/-!
# A leaf split replays

Replay takes the items of the right page from the logged bytes of that page, the last item first, and
their states from the logged line pointers.  It builds the left page as the split did.
-/
namespace XStore

open Option List

def weight (its : List (IndexLp × List UInt8)) : Nat :=
  ItemPage.slotSize * its.length + (its.map Prod.snd).flatten.length

theorem weight_append (xs ys : List (IndexLp × List UInt8)) :
    weight (xs ++ ys) = weight xs + weight ys := by
  simp only [weight, length_append, map_append, flatten_append, Nat.mul_add]
  omega

theorem weight_cons (it : IndexLp × List UInt8) (its : List (IndexLp × List UInt8)) :
    weight (it :: its) = ItemPage.slotSize + it.2.length + weight its := by
  simp only [weight, length_cons, map_cons, flatten_cons, length_append,
    Nat.mul_add, Nat.mul_one]
  omega

section Room

variable {special : Nat} {p : IndexPage} {its : List (IndexLp × List UInt8)}

variable (h : Built special p its)

include h

theorem Built.lower_add :
    p.lower + p.area.length = ItemPage.headerSize + weight its := by
  have harea : p.area.length = (its.map Prod.snd).flatten.length := by
    rw [h.area, length_flatten, length_flatten, map_reverse, sum_reverse]
  rw [harea, ItemPage.lower, h.slots_length, weight]
  omega

theorem Built.fits : ItemPage.headerSize + weight its ≤ special := by
  rw [← h.lower_add, ← h.special]
  exact h.sound.fits

/-- An item is added where there is room for it beside the others. -/
theorem Built.addItem_of_fits {tup : List UInt8} {size : Nat}
    (hmod : size % 8 = 0) (hsize : size ≤ tup.length)
    (hfits : ItemPage.headerSize + (weight its + (ItemPage.slotSize + size)) ≤ special) :
    ∃ q, pageAddItem p tup size (its.length + 1) = some q ∧
      Built special q (its ++ [(.normal, tup.take size)]) := by
  have hlower := h.lower_add
  have hup := h.sound.upper_add
  have hspecial := h.special
  obtain ⟨q, hq⟩ : ∃ q, pageAddItem p tup size (its.length + 1) = some q := by
    apply ItemPage.addItem_isSome
    · rw [h.slots_length]
      exact le_rfl
    · rw [align8_of_mod hmod]
      omega
  exact ⟨q, hq, h.addItem hmod hsize hq⟩

end Room

variable {tup : List UInt8}

theorem eight_le_tuple (h : LeafTuple tup ∨ PivotTuple tup) : 8 ≤ tup.length := by
  rcases h with h | h
  · rw [h.length]
    exact le_trans h.size (le_trans (le_align8 _) (Nat.le_add_right _ _))
  · rw [h.length]
    exact le_trans h.size (le_align8 _)

theorem tuple_length_mod (h : LeafTuple tup ∨ PivotTuple tup) :
    tup.length % 8 = 0 := by
  rcases h with h | h
  · have := align8_mod (indexTupleSize tup)
    rw [h.length, txnInfoSize]
    omega
  · rw [h.length]
    exact align8_mod _

theorem restored_size {tup more : List UInt8} (h : LeafTuple tup ∨ PivotTuple tup) :
    align8 (indexTupleSize (tup ++ more) +
      if xbtreeTupleIsPivot (tup ++ more) then 0 else txnInfoSize) = tup.length := by
  rw [indexTupleSize_append (eight_le_tuple h), xbtreeTupleIsPivot_append (eight_le_tuple h)]
  rcases h with h | h
  · rw [h.isPivot, h.length]
    simp only [Bool.false_eq_true, if_false, align8, txnInfoSize]
    omega
  · rw [h.isPivot, h.length]
    simp

/-- Replay takes the tuples from the bytes one by one and puts each in front of the others. -/
theorem xbtRestorePage_eq {tups : List (List UInt8)} (htups : ∀ t ∈ tups, LeafTuple t ∨ PivotTuple t)
    {p : IndexPage} (hp : p.Sound)
    (hroom : p.lower + ItemPage.slotSize * tups.length + tups.flatten.length ≤ p.upper) {fuel : Nat}
    (hfuel : tups.length < fuel) :
    ∃ q, xbtRestorePage fuel p tups.flatten = some q ∧ q.Sound ∧
      q.items = tups.reverse.map (fun t => (.normal, t)) ++ p.items := by
  induction tups generalizing p fuel with
  | nil =>
    obtain ⟨fuel, rfl⟩ : ∃ n, fuel = n + 1 := ⟨fuel - 1, by omega⟩
    exact ⟨p, rfl, hp, rfl⟩
  | cons t tups ih =>
    obtain ⟨fuel, rfl⟩ : ∃ n, fuel = n + 1 := ⟨fuel - 1, by omega⟩
    have ht := htups t (mem_cons_self ..)
    have height := eight_le_tuple ht
    have hmod := tuple_length_mod ht
    simp only [length_cons, flatten_cons, length_append, Nat.mul_add, Nat.mul_one]
      at hroom
    have hne : (t ++ tups.flatten).isEmpty = false := by
      cases t with
      | nil => simp at height
      | cons => rfl
    obtain ⟨q, hq⟩ : ∃ q, pageAddItem p (t ++ tups.flatten) t.length 1 = some q := by
      apply ItemPage.addItem_isSome (Nat.zero_le _)
      rw [align8_of_mod hmod]
      omega
    have hsize : t.length ≤ (t ++ tups.flatten).length := by simp
    have hsound := ItemPage.addItem_sound hp hsize hq
    have hitems := ItemPage.addItem_items hp hsize hq
    rw [take_left] at hitems
    obtain ⟨-, -, hqeq⟩ := ItemPage.addItem_eq_some hq
    have hlower : q.lower = p.lower + ItemPage.slotSize := by
      rw [hqeq]
      simp [ItemPage.lower, Nat.mul_add]
      omega
    have hupper : q.upper = p.upper - t.length := by
      rw [hqeq]
      simp [ItemPage.upper, align8_of_mod hmod]
      omega
    obtain ⟨r, hr, hrsound, hritems⟩ := ih (fun x hx => htups x (mem_cons_of_mem t hx)) hsound
      (by rw [hlower, hupper]; simp only [ItemPage.slotSize] at *; omega) (by simpa using hfuel)
    refine ⟨r, ?_, hrsound, ?_⟩
    · rw [flatten_cons, xbtRestorePage, hne, if_neg Bool.false_ne_true]
      simp only [restored_size ht, hq, bind_some, drop_left]
      exact hr
    · rw [hritems, hitems]
      simp

theorem IndexLp.ofCode_code (lp : IndexLp) : IndexLp.ofCode lp.code = lp := by
  cases lp <;> rfl

variable {s : Slot IndexLp}

theorem lpFlagsOf_itemIdBytes (hoff : s.off < 2 ^ 15) (hlen : s.len < 2 ^ 15) :
    lpFlagsOf (itemIdBytes s) = s.state := by
  have hcode : s.state.code < 4 := by cases s.state <;> decide
  unfold lpFlagsOf itemIdBytes
  rw [leNat_leBytes (by omega)]
  have hbits : (s.off + s.state.code * 2 ^ 15 + s.len * 2 ^ 17) / 2 ^ 15 % 4 = s.state.code := by
    omega
  rw [hbits, IndexLp.ofCode_code]

theorem itemIdBytes_length (s : Slot IndexLp) : (itemIdBytes s).length = 4 := leBytes_length ..

theorem take_drop_itemIds {slots : List (Slot IndexLp)} (more : List UInt8) {j : Nat}
    (hj : slots[j]? = some s) :
    ((slots.flatMap itemIdBytes ++ more).drop (j * 4)).take 4 = itemIdBytes s := by
  induction slots generalizing j with
  | nil => cases hj
  | cons s' slots ih =>
    rw [flatMap_cons, append_assoc]
    cases j with
    | zero =>
      obtain rfl : s' = s := Option.some.inj hj
      rw [Nat.zero_mul, drop_zero, take_left' (itemIdBytes_length s')]
    | succ j =>
      have hshift : (j + 1) * 4 = (itemIdBytes s').length + j * 4 := by
        rw [itemIdBytes_length]
        omega
      rw [hshift, drop_append]
      simp only [Nat.add_sub_cancel_left]
      rw [drop_eq_nil_of_le (Nat.le_add_right _ _), nil_append]
      exact ih hj

theorem itemIds_length (slots : List (Slot IndexLp)) :
    (slots.flatMap itemIdBytes).length = slots.length * 4 := by
  induction slots with
  | nil => rfl
  | cons s slots ih =>
    rw [flatMap_cons, length_append, itemIdBytes_length, ih, length_cons]
    omega

/-- The states of the items from index `i` on are taken from the line pointers. -/
theorem copyLpFlags_items (itemIds : List UInt8) (n i : Nat) (p : IndexPage) (j : Nat) :
    (copyLpFlags itemIds n (i + 1) p).items[j]? = p.items[j]?.map fun x =>
      if i ≤ j ∧ j < i + n then (lpFlagsOf ((itemIds.drop (j * 4)).take 4), x.2) else x := by
  induction n generalizing i p with
  | zero =>
    have hnot : ¬(i ≤ j ∧ j < i + 0) := by omega
    simp only [copyLpFlags, if_neg hnot]
    cases p.items[j]? <;> rfl
  | succ n ih =>
    rw [copyLpFlags, ih, ItemPage.items_setState, Nat.add_sub_cancel, getElem?_modify]
    cases p.items[j]? with
    | none => simp
    | some x =>
      by_cases hij : i = j
      · subst hij
        simp
      · by_cases hin : i ≤ j ∧ j < i + (n + 1)
        · have hin' : i + 1 ≤ j ∧ j < i + 1 + n := by omega
          simp [hij, hin, hin']
        · have hout : ¬(i + 1 ≤ j ∧ j < i + 1 + n) := by omega
          simp only [if_neg hij, if_neg hin, if_neg hout, map_some]
          rfl

theorem length_le_flatten {tups : List (List UInt8)} (h : ∀ t ∈ tups, 8 ≤ t.length) :
    tups.length ≤ tups.flatten.length := by
  induction tups with
  | nil => exact le_rfl
  | cons t tups ih =>
    have ht := h t (mem_cons_self ..)
    have hrest := ih fun x hx => h x (mem_cons_of_mem t hx)
    simp only [length_cons, flatten_cons, length_append]
    omega

section Right

variable {special : Nat} {p : IndexPage} {its : List (IndexLp × List UInt8)}

/-- The area of a page gives back its items, but for their states. -/
theorem Built.restore (h : Built special p its) (htups : ∀ it ∈ its, LeafTuple it.2 ∨ PivotTuple it.2) :
    ∃ q, xbtRestorePage (p.area.length + 1) (.empty special) p.area = some q ∧
      q.items = its.map fun it => (.normal, it.2) := by
  have hfits := h.fits
  have htups' : ∀ t ∈ (its.map Prod.snd).reverse, LeafTuple t ∨ PivotTuple t := by
    intro t ht
    obtain ⟨it, hit, rfl⟩ := mem_map.mp (mem_reverse.mp ht)
    exact htups it hit
  have hlen : ((its.map Prod.snd).reverse.flatten).length = (its.map Prod.snd).flatten.length := by
    rw [length_flatten, length_flatten, map_reverse, sum_reverse]
  have hempty : (ItemPage.empty special : IndexPage).Sound :=
    ItemPage.empty_sound (le_trans (Nat.le_add_right _ _) hfits)
  obtain ⟨q, hq, -, hitems⟩ := @xbtRestorePage_eq _ htups' _ hempty
    (by
      rw [hlen, length_reverse, length_map]
      simp only [weight, ItemPage.empty, ItemPage.lower, ItemPage.upper, length_nil] at hfits ⊢
      omega)
    (p.area.length + 1)
    (by
      have hle := length_le_flatten fun t ht => eight_le_tuple (htups' t ht)
      rw [h.area]
      omega)
  refine ⟨q, by rwa [h.area] at hq ⊢, ?_⟩
  rw [hitems]
  simp

/-- Replay of the right page gives it the items of the page that was logged. -/
theorem Built.redoRight (h : Built special p its) (hspecial : special < 2 ^ 15)
    (htups : ∀ it ∈ its, LeafTuple it.2 ∨ PivotTuple it.2) {w : XlXbtreeSplit}
    (hcount : w.rightitemcount = p.slots.length)
    (hdata : w.rightData = p.slots.flatMap itemIdBytes ++ p.area)
    (hhikey : ∀ j, j + 1 < firstDataKey w.ropaqueRightmost → ∀ it, its[j]? = some it → it.1 = .normal) :
    ∃ q, redoRightPage w special = some q ∧ q.items = its := by
  obtain ⟨q, hq, hitems⟩ := h.restore htups
  have harea : w.rightData.drop (w.rightitemcount * 4) = p.area := by
    rw [hdata, hcount, drop_left' (itemIds_length p.slots)]
  have hslots : q.slots.length = its.length := by
    rw [← ItemPage.items_length, hitems, length_map]
  obtain ⟨k, hk⟩ : ∃ k, firstDataKey w.ropaqueRightmost = k + 1 := by
    cases w.ropaqueRightmost
    · exact ⟨1, rfl⟩
    · exact ⟨0, rfl⟩
  refine ⟨_, by rw [redoRightPage, harea, hq]; rfl, ?_⟩
  apply ext_getElem?
  intro j
  rw [hk, copyLpFlags_items, hitems, getElem?_map, hslots]
  cases hj : its[j]? with
  | none => rfl
  | some it =>
    have hlt : j < its.length := (List.getElem?_eq_some_iff.mp hj).1
    simp only [map_some]
    by_cases hkj : k ≤ j
    · have hin : k ≤ j ∧ j < k + (its.length + 1 - (k + 1)) := by omega
      rw [← h.items, ItemPage.items, getElem?_map] at hj
      obtain ⟨s, hs, rfl⟩ := map_eq_some_iff.mp hj
      have hinside := h.sound.inside s (mem_of_getElem? hs)
      have hsp := h.special
      rw [if_pos hin, hdata, take_drop_itemIds p.area hs,
        lpFlagsOf_itemIdBytes (by omega) (by omega)]
    · have hout : ¬(k ≤ j ∧ j < k + (its.length + 1 - (k + 1))) := by omega
      have hnormal := hhikey j (by omega) it hj
      rw [if_neg hout, ← hnormal]

end Right

section Left

variable (w : XlXbtreeSplit) (new : List UInt8)

/-- The new item, if replay puts it before the item at `off`. -/
def redoNewAt (off : Nat) : List (IndexLp × List UInt8) :=
  if w.newitemonleft = true ∧ off = w.newitemoff then [(.normal, new)] else []

/-- What replay puts on the left page from the items at `off` on. -/
def redoOut (off : Nat) (its : List (IndexLp × List UInt8)) : List (IndexLp × List UInt8) :=
  if w.newitemonleft = true ∧ off ≤ w.newitemoff then its.insertIdx (w.newitemoff - off) (.normal, new)
  else its

variable {w new}

theorem redoOut_cons (off : Nat) (it : IndexLp × List UInt8) (its : List (IndexLp × List UInt8)) :
    redoOut w new off (it :: its) = redoNewAt w new off ++ it :: redoOut w new (off + 1) its := by
  unfold redoOut redoNewAt
  by_cases hon : w.newitemonleft = true
  · rcases Nat.lt_trichotomy off w.newitemoff with hlt | heq | hgt
    · have hnext : off + 1 ≤ w.newitemoff := hlt
      obtain ⟨k, hk⟩ : ∃ k, w.newitemoff - off = k + 1 := ⟨w.newitemoff - (off + 1), by omega⟩
      have hk' : w.newitemoff - (off + 1) = k := by omega
      simp [hon, hlt.le, hlt.ne, hnext, hk, hk']
    · subst heq
      simp [hon]
    · have hlate : ¬off ≤ w.newitemoff := by omega
      have hnext : ¬off + 1 ≤ w.newitemoff := by omega
      simp [hlate, hnext, hgt.ne']
  · simp [hon]

variable {special : Nat} {newitem : List UInt8} {newitemsz : Nat} {r : IndexPage × Nat}
  {L : List (IndexLp × List UInt8)}
  (hnew : w.newitemonleft = true →
    newitem.take newitemsz = new ∧ newitemsz ≤ newitem.length ∧ newitemsz % 8 = 0) {off : Nat}

include hnew

theorem redoAddNew_built (h : Built special r.1 L) (hoff : r.2 = L.length + 1)
    (hfits : ItemPage.headerSize + weight (L ++ redoNewAt w new off) ≤ special) :
    ∃ r', redoAddNew w newitem newitemsz off r = some r' ∧
      Built special r'.1 (L ++ redoNewAt w new off) ∧ r'.2 = (L ++ redoNewAt w new off).length + 1 := by
  unfold redoNewAt at hfits ⊢
  unfold redoAddNew
  by_cases hat : w.newitemonleft = true ∧ off = w.newitemoff
  · obtain ⟨htake, hlen, hmod⟩ := hnew hat.1
    rw [if_pos hat, weight_append, weight_cons] at hfits
    have hsize : new.length = newitemsz := by
      rw [← htake, length_take, Nat.min_eq_left hlen]
    obtain ⟨q, hq, hbuilt⟩ := h.addItem_of_fits hmod hlen (by simp only [hsize] at hfits; omega)
    rw [htake] at hbuilt
    rw [if_pos hat, if_pos hat, hoff, hq]
    exact ⟨_, rfl, hbuilt, by simp⟩
  · rw [if_neg hat, if_neg hat, append_nil]
    exact ⟨r, rfl, h, hoff⟩

/-- Replay puts the items and the new one on the left page in their order. -/
theorem redoLeftLoop_built {its : List (IndexLp × List UInt8)}
    (hits : ∀ it ∈ its, LeafTuple it.2) (h : Built special r.1 L) (hoff : r.2 = L.length + 1)
    (hlast : w.newitemonleft = true → w.newitemoff ≤ off + its.length)
    (hfits : ItemPage.headerSize + weight (L ++ redoOut w new off its) ≤ special) :
    ∃ r', redoLeftLoop w newitem newitemsz off its r = some r' ∧
      Built special r'.1 (L ++ redoOut w new off its) := by
  induction its generalizing off r L with
  | nil =>
    have hout : redoOut w new off [] = redoNewAt w new off := by
      unfold redoOut redoNewAt
      by_cases hon : w.newitemonleft = true
      · have hle := hlast hon
        rw [length_nil, Nat.add_zero] at hle
        by_cases heq : off = w.newitemoff
        · simp [hon, heq]
        · have hlate : ¬off ≤ w.newitemoff := by omega
          simp [heq, hlate]
      · simp [hon]
    rw [hout] at hfits ⊢
    obtain ⟨r', hr', hbuilt, -⟩ := redoAddNew_built hnew h hoff hfits
    exact ⟨r', hr', hbuilt⟩
  | cons it its ih =>
    have hleaf := hits it (mem_cons_self ..)
    rw [redoOut_cons, ← append_assoc, weight_append, weight_cons] at hfits
    have hfits₁ : ItemPage.headerSize + weight (L ++ redoNewAt w new off) ≤ special := by omega
    obtain ⟨r₁, hr₁, hbuilt₁, hoff₁⟩ := redoAddNew_built hnew h hoff hfits₁
    obtain ⟨q, hq, hbuilt₂⟩ := hbuilt₁.addItem_of_fits (tuple_length_mod (.inl hleaf)) le_rfl
      (by omega)
    rw [take_length] at hbuilt₂
    have hbuilt₃ := hbuilt₂.setState it.1
    have hnext : ∃ r', redoLeftLoop w newitem newitemsz (off + 1) its
          (q.setState (r₁.2 - 1) it.1, r₁.2 + 1) = some r' ∧
        Built special r'.1 (L ++ redoNewAt w new off ++ [it] ++ redoOut w new (off + 1) its) := by
      apply ih (fun x hx => hits x (mem_cons_of_mem it hx))
      · rw [hoff₁, Nat.add_sub_cancel]
        exact hbuilt₃
      · simp only [hoff₁, length_append, length_cons, length_nil]
      · intro hon
        have hle := hlast hon
        rw [length_cons] at hle
        omega
      · rw [append_assoc, singleton_append, weight_append, weight_cons]
        omega
    obtain ⟨r', hr', hbuilt'⟩ := hnext
    refine ⟨r', ?_, ?_⟩
    · rw [redoLeftLoop, hr₁]
      simp only [bind_eq_bind, bind_some]
      rw [hoff₁, hq]
      simp only [bind_some]
      rw [← hoff₁]
      exact hr'
    · rw [redoOut_cons, ← append_assoc]
      rw [append_assoc _ [it], singleton_append] at hbuilt'
      exact hbuilt'

end Left

section New

variable {itemsize : Nat} {itup : List UInt8} {xid urec : Nat}
  (hlen : itemsize - txnInfoSize ≤ itup.length) (hge : 24 ≤ itemsize) (hlt : itemsize < 2 ^ 13)

include hlen hge hlt

theorem indexTupleSize_newIndexTuple : indexTupleSize (newIndexTuple itemsize itup xid urec) =
    itemsize - txnInfoSize := by
  simp only [txnInfoSize] at hlen
  have hitup : 8 ≤ itup.length := by omega
  have htake : 8 ≤ ((indexTupleSetSize itup (itemsize - 16)).take (itemsize - 16)).length := by
    rw [length_take, indexTupleSetSize_length hitup]
    omega
  rw [newIndexTuple, txnInfoSize, indexTupleSize_append htake, indexTupleSize, tInfo_take (by omega),
    ← indexTupleSize, indexTupleSize_setSize hitup (by omega)]

theorem xbtreeTupleIsPivot_newIndexTuple : xbtreeTupleIsPivot (newIndexTuple itemsize itup xid urec) =
    xbtreeTupleIsPivot itup := by
  simp only [txnInfoSize] at hlen
  have hitup : 8 ≤ itup.length := by omega
  have htake : 8 ≤ ((indexTupleSetSize itup (itemsize - 16)).take (itemsize - 16)).length := by
    rw [length_take, indexTupleSetSize_length hitup]
    omega
  rw [newIndexTuple, txnInfoSize, xbtreeTupleIsPivot_append htake, xbtreeTupleIsPivot,
    tInfo_take (by omega), ← xbtreeTupleIsPivot, xbtreeTupleIsPivot_setSize hitup (by omega)]

/-- The new item carries the transaction and the undo pointer. -/
theorem newIndexTuple_owner (hxid : xid < 2 ^ 64) (hurec : urec < 2 ^ 64) :
    modifiedXidOf (newIndexTuple itemsize itup xid urec) = xid ∧
      urecOf (newIndexTuple itemsize itup xid urec) = urec := by
  have hsize := @indexTupleSize_newIndexTuple itemsize itup xid urec hlen hge hlt
  have hbody : ((indexTupleSetSize itup (itemsize - txnInfoSize)).take
      (itemsize - txnInfoSize)).length = itemsize - txnInfoSize := by
    simp only [txnInfoSize] at hlen ⊢
    rw [length_take, indexTupleSetSize_length (by omega)]
    omega
  constructor
  · rw [modifiedXidOf, hsize, newIndexTuple, drop_left' hbody, take_left' (leBytes_length ..)]
    exact leNat_leBytes hxid
  · rw [urecOf, hsize, ← drop_drop, newIndexTuple, drop_left' hbody,
      drop_left' (leBytes_length ..), take_of_length_le (leBytes_length ..).le]
    exact leNat_leBytes hurec

end New

namespace LeafSplit

variable {c : LeafSplit}

theorem WellFormed.newEntry_leaf (hwf : c.WellFormed) : LeafTuple c.newEntry.2 := by
  have hge := hwf.newsz_le
  have hmod := hwf.newsz_mod
  have hsize := @indexTupleSize_newIndexTuple c.newitemsz c.newitem c.xid c.urecPtr hwf.new_length hge
    hwf.newsz_lt
  refine ⟨?_, ?_, ?_⟩
  · rw [newEntry, xbtreeTupleIsPivot_newIndexTuple hwf.new_length hge hwf.newsz_lt]
    exact hwf.new_pivot
  · rw [newEntry, hsize, txnInfoSize]
    omega
  · rw [newEntry, hsize, newIndexTuple_length hwf.eight_le_newitem hwf.txn_le_newitemsz hwf.new_length]
    simp only [align8, txnInfoSize]
    omega

theorem mem_rightOut {i : Nat} {its : List (IndexLp × List UInt8)} {x : IndexLp × List UInt8}
    (hx : x ∈ c.rightOut i its) : x = c.newEntry ∨ x ∈ its := by
  unfold rightOut at hx
  split_ifs at hx
  · rcases eq_or_mem_of_mem_insertIdx hx with heq | hin
    · exact .inl heq
    · exact .inr (mem_of_mem_drop hin)
  · exact .inr (mem_of_mem_drop hx)

theorem right_tuples (hwf : c.WellFormed) (it : IndexLp × List UInt8)
    (hit : it ∈ c.rightHikey ++ c.rightOut (firstDataKey c.rightmost) c.dataItems) :
    LeafTuple it.2 ∨ PivotTuple it.2 := by
  rcases mem_append.mp hit with hin | hin
  · cases hr : c.rightmost with
    | true => simp [rightHikey, hr] at hin
    | false =>
      obtain ⟨hk, -, hpivot, heq⟩ := hwf.rightHikey_eq hr
      rw [heq] at hin
      obtain rfl := mem_singleton.mp hin
      exact .inr hpivot
  · rcases mem_rightOut hin with rfl | hin
    · exact .inl hwf.newEntry_leaf
    · exact .inl (hwf.data it hin)

theorem right_hikey_normal (hwf : c.WellFormed) {j : Nat} (hj : j + 1 < firstDataKey c.rightmost)
    {rest : List (IndexLp × List UInt8)} {it : IndexLp × List UInt8}
    (hit : (c.rightHikey ++ rest)[j]? = some it) : it.1 = .normal := by
  cases hr : c.rightmost with
  | true => simp [hr, firstDataKey] at hj
  | false =>
    obtain ⟨hk, -, -, heq⟩ := hwf.rightHikey_eq hr
    have hlt : j + 1 < 2 := by simpa [hr, firstDataKey] using hj
    obtain rfl : j = 0 := by omega
    rw [heq] at hit
    obtain rfl := Option.some.inj hit
    rfl

section Left

variable {s : SplitState} (hwf : c.WellFormed)
  (hleft : Built c.page.special s.left
    ((.normal, c.lefthikey) :: c.leftOut (firstDataKey c.rightmost) c.dataItems))
  (hoff : c.newitemonleft = true → s.newitemleftoff = 2 + (c.newitemoff - firstDataKey c.rightmost))

include hwf hleft hoff

/-- The data of the left page is the new item, if it is there, and the high key. -/
theorem wal_leftData :
    (c.wal s).leftData = (if c.newitemonleft then c.newEntry.2 else []) ++ c.lefthikey := by
  have hhikey : pageGetItem s.left 1 = c.lefthikey := by simp [pageGetItem, hleft.items]
  have htake : c.lefthikey.take (align8 (indexTupleSize c.lefthikey)) = c.lefthikey := by
    rw [← hwf.lefthikey.length, take_length]
  have hnew : c.newitemonleft = true → pageGetItem s.left s.newitemleftoff = c.newEntry.2 := by
    intro hon
    have hle := hwf.onleft hon
    have hlt := hwf.right_le
    have hge := hwf.newoff_ge
    have hlen : c.newitemoff - firstDataKey c.rightmost ≤
        (c.dataItems.take (c.firstright - firstDataKey c.rightmost)).length := by
      rw [length_take]
      omega
    have hidx : 2 + (c.newitemoff - firstDataKey c.rightmost) - 1 =
        c.newitemoff - firstDataKey c.rightmost + 1 := by omega
    rw [pageGetItem, hoff hon, hleft.items, hidx, getElem?_cons_succ, leftOut, if_pos ⟨hon, hge⟩,
      getElem?_insertIdx_self, if_pos hlen]
    rfl
  simp only [wal, hhikey, htake]
  cases hon : c.newitemonleft with
  | true => rw [if_pos rfl, if_pos rfl, hnew hon]
  | false => rfl

/-- Replay of the left page gives it the items of the page after the split. -/
theorem redoLeftPage_items :
    ∃ l, redoLeftPage (c.wal s) c.page c.rightmost = some l ∧ l.items = s.left.items := by
  have hdata := wal_leftData hwf hleft hoff
  have hfits := hleft.fits
  have hpivot := hwf.lefthikey
  have hleaf := hwf.newEntry_leaf
  have hpos : (if (c.wal s).newitemonleft then (c.wal s).leftData.drop
      (align8 (indexTupleSize (c.wal s).leftData) + txnInfoSize) else (c.wal s).leftData) =
      c.lefthikey := by
    change (if c.newitemonleft then _ else _) = _
    rw [hdata]
    cases c.newitemonleft with
    | true =>
      simp only [if_true]
      rw [indexTupleSize_append (eight_le_tuple (.inl hleaf)), ← hleaf.length, drop_left]
    | false => rfl
  have hnew : (c.wal s).newitemonleft = true →
      (c.wal s).leftData.take (align8 (indexTupleSize (c.wal s).leftData) + txnInfoSize) =
          c.newEntry.2 ∧
        align8 (indexTupleSize (c.wal s).leftData) + txnInfoSize ≤ (c.wal s).leftData.length ∧
        (align8 (indexTupleSize (c.wal s).leftData) + txnInfoSize) % 8 = 0 := by
    intro hon
    have hon' : c.newitemonleft = true := hon
    rw [hdata, if_pos hon', indexTupleSize_append (eight_le_tuple (.inl hleaf)), ← hleaf.length]
    exact ⟨take_left, by simp, tuple_length_mod (.inl hleaf)⟩
  have hlen := hpivot.length
  rw [weight_cons] at hfits
  have hnil : weight [] = 0 := rfl
  obtain ⟨p, hp, hbuilt⟩ := hwf.empty_built.addItem_of_fits (align8_mod _) hlen.ge
    (by rw [← hlen, hnil]; simp only at hfits; omega)
  rw [← hlen, take_length, nil_append] at hbuilt
  have hout : redoOut (c.wal s) c.newEntry.2 (firstDataKey c.rightmost)
      (c.dataItems.take (c.firstright - firstDataKey c.rightmost)) =
      c.leftOut (firstDataKey c.rightmost) c.dataItems := rfl
  obtain ⟨r, hr, hrbuilt⟩ : ∃ r, redoLeftLoop (c.wal s) (c.wal s).leftData
        (align8 (indexTupleSize (c.wal s).leftData) + txnInfoSize) (firstDataKey c.rightmost)
        (c.dataItems.take (c.firstright - firstDataKey c.rightmost)) (p, 2) = some r ∧
      Built c.page.special r.1 ([(.normal, c.lefthikey)] ++
        redoOut (c.wal s) c.newEntry.2 (firstDataKey c.rightmost)
          (c.dataItems.take (c.firstright - firstDataKey c.rightmost))) := by
    apply redoLeftLoop_built hnew (fun it hit => hwf.data it (mem_of_mem_take hit)) hbuilt rfl
    · intro hon
      have hle := hwf.onleft hon
      have hlt := hwf.right_le
      have hge := hwf.right_ge
      rw [length_take]
      change c.newitemoff ≤ _
      omega
    · rw [hout, singleton_append, weight_cons]
      exact hfits
  refine ⟨r.1, ?_, ?_⟩
  · unfold redoLeftPage
    simp only [hpos]
    rw [show pageAddItem (.empty c.page.special) c.lefthikey (align8 (indexTupleSize c.lefthikey)) 1 =
      some p from hp]
    simp only [bind_eq_bind, bind_some]
    rw [show redoLeftLoop (c.wal s) (c.wal s).leftData
      (align8 (indexTupleSize (c.wal s).leftData) + txnInfoSize) (firstDataKey c.rightmost)
      ((c.page.items.drop (firstDataKey c.rightmost - 1)).take
        ((c.wal s).firstright - firstDataKey c.rightmost)) (p, 2) = some r from hr]
    rfl
  · rw [hrbuilt.items, hleft.items, hout]
    rfl

end Left

/-- A leaf split loses nothing and replays.  The data items of the left page followed by those of the
right page are the items of the page in their order, with their states and bytes, and the new item in
its place with the top transaction and its undo pointer; and replaying the record of the split gives
both pages the same items. -/
theorem leaf_split_loses_nothing_and_replays (hwf : c.WellFormed) {s : SplitState}
    (h : c.xbtSplit = some s) :
    s.left.items.drop 1 ++ s.right.items.drop (firstDataKey c.rightmost - 1) =
        c.dataItems.insertIdx (c.newitemoff - firstDataKey c.rightmost) c.newEntry ∧
      (modifiedXidOf c.newEntry.2 = c.xid ∧ urecOf c.newEntry.2 = c.urecPtr) ∧
      (∃ l, redoLeftPage (c.wal s) c.page c.rightmost = some l ∧ l.items = s.left.items) ∧
      ∃ r, redoRightPage (c.wal s) c.page.special = some r ∧ r.items = s.right.items := by
  obtain ⟨hholds, hoff⟩ := xbtSplit_holds hwf h
  have hhikey : c.rightHikey.length = firstDataKey c.rightmost - 1 := by
    have := hwf.rightHikey_length
    omega
  refine ⟨?_, newIndexTuple_owner hwf.new_length hwf.newsz_le hwf.newsz_lt hwf.xid_lt hwf.urec_lt,
    redoLeftPage_items hwf hholds.left hoff, ?_⟩
  · rw [hholds.left.items, hholds.right.items, List.drop_succ_cons, List.drop_zero,
      List.drop_left' hhikey]
    exact leftOut_append_rightOut hwf
  · rw [hholds.right.items]
    exact hholds.right.redoRight hwf.special_lt (right_tuples hwf) rfl rfl
      fun j hj it hit => right_hikey_normal hwf hj hit

end LeafSplit

def smallIndexTuple (key xid urec : Nat) : List UInt8 :=
  leBytes 6 key ++ leBytes 2 16 ++ leBytes 8 key ++ (leBytes 8 xid ++ leBytes 8 urec)

/-- The rightmost page with an inserted and a deleted item takes a new one between them, on the left. -/
def splitOfTwo : LeafSplit where
  page := ⟨200, [⟨168, 32, .normal⟩, ⟨136, 32, .deleted⟩], smallIndexTuple 3 6 91 ++ smallIndexTuple 1 5 90⟩
  rightmost := true
  newitem := leBytes 6 2 ++ leBytes 2 32 ++ leBytes 8 2
  newitemsz := 32
  newitemoff := 2
  firstright := 2
  newitemonleft := true
  lefthikey := leBytes 6 3 ++ leBytes 2 (2 ^ 13 + 16) ++ leBytes 8 3
  xid := 7
  urecPtr := 100

theorem splitOfTwo_wellFormed : splitOfTwo.WellFormed where
  sound := ⟨by decide, by decide⟩
  special_lt := by decide
  data := by
    have hitems : splitOfTwo.dataItems = [(.normal, smallIndexTuple 1 5 90), (.deleted, smallIndexTuple 3 6 91)] :=
      by decide
    rw [hitems]
    simp only [forall_mem_cons, not_mem_nil, false_implies, implies_true, and_true]
    exact ⟨⟨by decide, by decide, by decide⟩, ⟨by decide, by decide, by decide⟩⟩
  hikey := nofun
  lefthikey := ⟨by decide, by decide, by decide⟩
  new_pivot := by decide
  new_length := by decide
  newsz_le := by decide
  newsz_mod := by decide
  newsz_lt := by decide
  xid_lt := by decide
  urec_lt := by decide
  newoff_ge := by decide
  newoff_le := by decide
  right_ge := by decide
  right_le := by decide
  right_lt := by decide
  onleft := by decide
  onright := nofun

/-- The three items are there in their order. -/
theorem splitOfTwo_keeps_items :
    ∃ s, splitOfTwo.xbtSplit = some s ∧
      s.left.items.drop 1 ++ s.right.items =
        [(.normal, smallIndexTuple 1 5 90), (.normal, smallIndexTuple 2 7 100),
          (.deleted, smallIndexTuple 3 6 91)] := by
  obtain ⟨s, hs⟩ := Option.isSome_iff_exists.mp (by decide : splitOfTwo.xbtSplit.isSome = true)
  refine ⟨s, hs, ?_⟩
  have hkeeps := (LeafSplit.leaf_split_loses_nothing_and_replays splitOfTwo_wellFormed hs).1
  exact hkeeps.trans (by decide)

end XStore
