import Mathlib.Order.Lattice
import Mathlib.Data.List.Basic

/-!
# Searching a chain of sorted pages

Pages are linked from left to right, each with the items of one stretch of a linear order and an
upper bound for them, which the last page does not have.  A search for a position walks right to
the first page whose bound allows it, bisects that page, and runs on to the end of the page; only
where the bound equals the position does it go on to the next page.
-/
namespace XStore

open List

/-- The first index of `[low, high)` at which `below` fails, by bisection. -/
def bisect (below : Nat → Bool) : Nat → Nat → Nat → Nat
  | 0, low, _ => low
  | fuel + 1, low, high =>
    if low < high then
      let mid := low + (high - low) / 2
      if below mid then bisect below fuel (mid + 1) high else bisect below fuel low mid
    else low

/-- Where `below` holds on an initial part only, everything left of the result is in that part and
nothing from the result on is. -/
theorem bisect_spec {below : Nat → Bool} (hmono : ∀ i j, i ≤ j → below j = true → below i = true)
    {fuel low high : Nat} (hle : low ≤ high) (hfuel : high - low ≤ fuel)
    (hlow : ∀ i, i < low → below i = true) (hhigh : ∀ i, high ≤ i → below i = false) :
    (∀ i, i < bisect below fuel low high → below i = true) ∧
      ∀ i, bisect below fuel low high ≤ i → below i = false := by
  induction fuel generalizing low high with
  | zero =>
    have heq : low = high := by omega
    exact ⟨hlow, heq ▸ hhigh⟩
  | succ fuel ih =>
    unfold bisect
    by_cases hlt : low < high
    · simp only [hlt, if_true]
      cases hmid : below (low + (high - low) / 2) with
      | true =>
        simp only [if_true]
        apply ih (by omega) (by omega) _ hhigh
        intro i hi
        exact hmono i _ (by omega) hmid
      | false =>
        simp only [Bool.false_eq_true, if_false]
        apply ih (by omega) (by omega) hlow
        intro i hi
        rw [Bool.eq_false_iff]
        intro htrue
        rw [hmono _ i hi htrue] at hmid
        cases hmid
    · simp only [hlt, if_false]
      have heq : low = high := by omega
      exact ⟨hlow, heq ▸ hhigh⟩

section

variable {α P H : Type*} [LinearOrder P] (pos : α → P)

/-- The number of items below a position, found by bisection. -/
def lowerBound (key : P) (items : List α) : Nat :=
  bisect (fun i => items[i]?.any fun a => decide (pos a < key)) items.length 0 items.length

variable {pos}
variable {key : P} {items : List α}

theorem lowerBound_spec (hs : items.Pairwise fun a b => pos a ≤ pos b) :
    (∀ a ∈ items.take (lowerBound pos key items), pos a < key) ∧
      ∀ a ∈ items.drop (lowerBound pos key items), key ≤ pos a := by
  have hmono : ∀ i j : Nat, i ≤ j → (items[j]?.any fun a => decide (pos a < key)) = true →
      (items[i]?.any fun a => decide (pos a < key)) = true := by
    intro i j hij hj
    simp only [Option.any_eq_true, decide_eq_true_eq] at hj ⊢
    obtain ⟨b, hb, hlt⟩ := hj
    obtain ⟨hjlt, rfl⟩ := List.getElem?_eq_some_iff.mp hb
    have hilt : i < items.length := by omega
    refine ⟨items[i], getElem?_eq_getElem hilt, ?_⟩
    rcases Nat.eq_or_lt_of_le hij with rfl | hlt'
    · exact hlt
    · exact (pairwise_iff_getElem.mp hs i j hilt hjlt hlt').trans_lt hlt
  have hend : ∀ i : Nat, items.length ≤ i → (items[i]?.any fun a => decide (pos a < key)) = false := by
    intro i hi
    rw [getElem?_eq_none hi]
    rfl
  obtain ⟨hbelow, habove⟩ :
      (∀ i, i < lowerBound pos key items → (items[i]?.any fun a => decide (pos a < key)) = true) ∧
        ∀ i, lowerBound pos key items ≤ i → (items[i]?.any fun a => decide (pos a < key)) = false :=
    bisect_spec hmono (Nat.zero_le _) (Nat.le_of_eq (Nat.sub_zero _))
      (fun i hi => absurd hi (Nat.not_lt_zero i)) hend
  constructor
  · intro a ha
    obtain ⟨i, hi, rfl⟩ := mem_take_iff_getElem.mp ha
    have hb := hbelow i (by omega)
    rw [getElem?_eq_getElem (by omega)] at hb
    simpa using hb
  · intro a ha
    obtain ⟨i, hi, rfl⟩ := mem_drop_iff_getElem.mp ha
    have hb := habove (i + lowerBound pos key items) (Nat.le_add_left _ _)
    rw [getElem?_eq_getElem (by omega)] at hb
    simpa [Nat.add_comm] using hb

theorem mem_drop_lowerBound (hs : items.Pairwise fun a b => pos a ≤ pos b) {a : α}
    (ha : a ∈ items) (hkey : key ≤ pos a) : a ∈ items.drop (lowerBound pos key items) := by
  rw [← take_append_drop (lowerBound pos key items) items, mem_append] at ha
  rcases ha with htake | hdrop
  · exact absurd ((lowerBound_spec hs).1 a htake) (not_lt.mpr hkey)
  · exact hdrop

theorem pairwise_insert_lowerBound (hs : items.Pairwise fun a b => pos a ≤ pos b) (a : α) :
    (items.take (lowerBound pos (pos a) items) ++
      a :: items.drop (lowerBound pos (pos a) items)).Pairwise fun a b => pos a ≤ pos b := by
  obtain ⟨hbelow, habove⟩ := @lowerBound_spec _ _ _ pos (pos a) items hs
  rw [pairwise_append, pairwise_cons]
  refine ⟨hs.sublist (take_sublist _ _), ⟨habove, hs.sublist (drop_sublist _ _)⟩, ?_⟩
  intro x hx y hy
  rcases mem_cons.mp hy with rfl | hy
  · exact (hbelow x hx).le
  · exact (hbelow x hx).le.trans (habove y hy)

end

structure ChainPage (α P H : Type*) where
  header : H
  /-- The page is being taken out of the chain and holds nothing. -/
  ignored : Bool
  bound : Option P
  items : List α
  deriving DecidableEq

section

variable {α P H : Type*} [LinearOrder P]

def ChainPage.passed (key : P) (p : ChainPage α P H) : Bool :=
  p.ignored || p.bound.any fun b => decide (b < key)

def chainItems (ps : List (ChainPage α P H)) : List α := ps.flatMap ChainPage.items

/-- The items that a search runs over once it has left its first page. -/
def rangeOn (key : P) : List (ChainPage α P H) → List α
  | [] => []
  | p :: ps =>
    if p.ignored then rangeOn key ps
    else p.items ++ if p.bound = some key then rangeOn key ps else []

def range (pos : α → P) (key : P) : List (ChainPage α P H) → List α
  | [] => []
  | p :: ps =>
    if p.passed key then range pos key ps
    else p.items.drop (lowerBound pos key p.items) ++
      if p.bound = some key then rangeOn key ps else []

/-- Every page is sorted and within its bound, only the last page is without one, and what lies
to the right of a page is not below its bound. -/
structure Ordered (pos : α → P) (ps : List (ChainPage α P H)) : Prop where
  sorted : ∀ p ∈ ps, p.items.Pairwise fun a b => pos a ≤ pos b
  le_bound : ∀ p ∈ ps, ∀ b, p.bound = some b → ∀ a ∈ p.items, pos a ≤ b
  empty : ∀ p ∈ ps, p.ignored = true → p.items = []
  apart : ps.Pairwise fun p q => p.ignored = false → ∃ b, p.bound = some b ∧
    (∀ a ∈ q.items, b ≤ pos a) ∧ ∀ c, q.ignored = false → q.bound = some c → b ≤ c

variable {pos : α → P} {key : P} {p : ChainPage α P H} {ps qs : List (ChainPage α P H)} {a : α}

theorem Ordered.tail (h : Ordered pos (p :: ps)) : Ordered pos ps where
  sorted := fun q hq => h.sorted q (mem_cons_of_mem p hq)
  le_bound := fun q hq => h.le_bound q (mem_cons_of_mem p hq)
  empty := fun q hq => h.empty q (mem_cons_of_mem p hq)
  apart := (pairwise_cons.mp h.apart).2

theorem rangeOn_sublist (key : P) (ps : List (ChainPage α P H)) :
    (rangeOn key ps).Sublist (chainItems ps) := by
  induction ps with
  | nil => exact List.Sublist.refl _
  | cons p ps ih =>
    unfold rangeOn chainItems
    rw [flatMap_cons]
    split_ifs
    · exact ih.trans (sublist_append_right _ _)
    · exact (List.Sublist.refl _).append ih
    · exact (List.Sublist.refl _).append (nil_sublist _)

theorem range_sublist (pos : α → P) (key : P) (ps : List (ChainPage α P H)) :
    (range pos key ps).Sublist (chainItems ps) := by
  induction ps with
  | nil => exact List.Sublist.refl _
  | cons p ps ih =>
    unfold range chainItems
    rw [flatMap_cons]
    split_ifs
    · exact ih.trans (sublist_append_right _ _)
    · exact (drop_sublist _ _).append (rangeOn_sublist key ps)
    · exact (drop_sublist _ _).append (nil_sublist _)

/-- To the right of a bound that equals the position, the search misses no item at the position. -/
theorem Ordered.mem_rangeOn (h : Ordered pos ps)
    (hbound : ∀ q ∈ ps, q.ignored = false → ∀ c, q.bound = some c → key ≤ c)
    (ha : a ∈ chainItems ps) (hkey : pos a = key) : a ∈ rangeOn key ps := by
  induction ps with
  | nil => cases ha
  | cons p ps ih =>
    have hrest := fun hin => ih h.tail (fun q hq => hbound q (mem_cons_of_mem p hq)) hin
    unfold chainItems at ha
    rw [flatMap_cons, mem_append] at ha
    unfold rangeOn
    cases hi : p.ignored with
    | true =>
      rw [h.empty p (mem_cons_self ..) hi] at ha
      rcases ha with hin | hin
      · cases hin
      · simpa using hrest hin
    | false =>
      simp only [Bool.false_eq_true, if_false, mem_append]
      rcases ha with hin | hin
      · exact .inl hin
      · obtain ⟨q, hq, hqa⟩ := mem_flatMap.mp hin
        obtain ⟨b, hb, hge, -⟩ := (pairwise_cons.mp h.apart).1 q hq hi
        have hkb : key = b :=
          le_antisymm (hbound p (mem_cons_self ..) hi b hb) (hkey ▸ hge a hqa)
        right
        rw [if_pos (hkb ▸ hb)]
        exact hrest hin

/-- A search in an ordered chain runs over every item at its position. -/
theorem Ordered.mem_range (h : Ordered pos ps) (ha : a ∈ chainItems ps) (hkey : pos a = key) :
    a ∈ range pos key ps := by
  induction ps with
  | nil => cases ha
  | cons p ps ih =>
    unfold chainItems at ha
    rw [flatMap_cons, mem_append] at ha
    unfold range
    cases hp : p.passed key with
    | true =>
      simp only [if_true]
      rcases ha with hin | hin
      · exfalso
        rcases Bool.or_eq_true _ _ ▸ hp with hi | hb
        · rw [h.empty p (mem_cons_self ..) hi] at hin
          cases hin
        · simp only [Option.any_eq_true, decide_eq_true_eq] at hb
          obtain ⟨b, hb, hlt⟩ := hb
          exact absurd (h.le_bound p (mem_cons_self ..) b hb a hin) (not_le.mpr (hkey ▸ hlt))
      · exact ih h.tail hin
    | false =>
      simp only [Bool.false_eq_true, if_false, mem_append]
      obtain ⟨hi, hb⟩ := Bool.or_eq_false_iff.mp hp
      rcases ha with hin | hin
      · exact .inl (mem_drop_lowerBound (h.sorted p (mem_cons_self ..)) hin hkey.ge)
      · have hapart := fun q hq => (pairwise_cons.mp h.apart).1 q hq hi
        obtain ⟨q, hq, hqa⟩ := mem_flatMap.mp hin
        obtain ⟨b, hpb, hge, -⟩ := hapart q hq
        have hkb : key = b := by
          apply le_antisymm _ (hkey ▸ hge a hqa)
          simpa [hpb] using hb
        right
        rw [if_pos (hkb ▸ hpb)]
        apply h.tail.mem_rangeOn _ hin hkey
        intro q' hq' hi' c hc
        obtain ⟨b', hb', -, hle⟩ := hapart q' hq'
        cases hpb.symm.trans hb'
        exact hkb ▸ hle c hi' hc

end

end XStore
