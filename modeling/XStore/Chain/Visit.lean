import XStore.Chain.Search

/-!
# Changing items along a search

A visitor runs over the items a search runs over, from left to right.  It passes an item, replaces
it and goes on, or stops.  Each replacement is noted in the header of its page.
-/
namespace XStore

open List

inductive Visit (α : Type*) where
  | pass
  | stop
  | put (a : α)
  deriving DecidableEq

section

variable {α P H : Type*} (f : α → Visit α) (note : H → H)

/-- Visit a list of items; the flag says that the visitor stopped. -/
def visitItems : H → List α → H × List α × Bool
  | h, [] => (h, [], false)
  | h, a :: as => match f a with
    | .pass => let (h', as', s) := visitItems h as; (h', a :: as', s)
    | .stop => (h, a :: as, true)
    | .put b => let (h', as', s) := visitItems (note h) as; (h', b :: as', s)

def visitPage (start : Nat) (p : ChainPage α P H) : ChainPage α P H × Bool :=
  let (h, rest, s) := visitItems f note p.header (p.items.drop start)
  ({ p with header := h, items := p.items.take start ++ rest }, s)

def visitOn [DecidableEq P] (key : P) : List (ChainPage α P H) → List (ChainPage α P H)
  | [] => []
  | p :: ps =>
    if p.ignored then p :: visitOn key ps
    else
      let (p', s) := visitPage f note 0 p
      p' :: if !s && decide (p.bound = some key) then visitOn key ps else ps

/-- Visit the items that a search for a position runs over. -/
def visit [LinearOrder P] (pos : α → P) (key : P) : List (ChainPage α P H) → List (ChainPage α P H)
  | [] => []
  | p :: ps =>
    if p.passed key then p :: visit pos key ps
    else
      let (p', s) := visitPage f note (lowerBound pos key p.items) p
      p' :: if !s && decide (p.bound = some key) then visitOn f note key ps else ps

variable {f note} {a b : α} {l l' : List α}

def ReplacedOnce (a b : α) (l l' : List α) : Prop := ∃ l₁ l₂, l = l₁ ++ a :: l₂ ∧ l' = l₁ ++ b :: l₂

theorem ReplacedOnce.append_left (h : ReplacedOnce a b l l') (k : List α) :
    ReplacedOnce a b (k ++ l) (k ++ l') := by
  obtain ⟨l₁, l₂, rfl, rfl⟩ := h
  exact ⟨k ++ l₁, l₂, by simp, by simp⟩

theorem ReplacedOnce.append_right (h : ReplacedOnce a b l l') (k : List α) :
    ReplacedOnce a b (l ++ k) (l' ++ k) := by
  obtain ⟨l₁, l₂, rfl, rfl⟩ := h
  exact ⟨l₁, l₂ ++ k, by simp, by simp⟩

theorem ReplacedOnce.perm {l l' m₁ m₂ : List α} (h : ReplacedOnce a b l l')
    (hp : l.Perm (m₁ ++ a :: m₂)) : l'.Perm (m₁ ++ b :: m₂) := by
  obtain ⟨l₁, l₂, rfl, rfl⟩ := h
  have hrest : (l₁ ++ l₂).Perm (m₁ ++ m₂) :=
    ((perm_middle.symm.trans hp).trans perm_middle).cons_inv
  exact (perm_middle.trans (hrest.cons b)).trans perm_middle.symm

/-- The visitor acts on one item of a list only, and replaces it. -/
def ActsOnce (f : α → Visit α) (a b : α) (l : List α) : Prop :=
  ∃ l₁ l₂, l = l₁ ++ a :: l₂ ∧ f a = .put b ∧ (∀ x ∈ l₁, f x = .pass) ∧ ∀ x ∈ l₂, f x = .pass

theorem ActsOnce.append_cases {xs ys : List α} (h : ActsOnce f a b (xs ++ ys)) :
    (ActsOnce f a b xs ∧ ∀ y ∈ ys, f y = .pass) ∨ (∀ x ∈ xs, f x = .pass) ∧ ActsOnce f a b ys := by
  obtain ⟨l₁, l₂, heq, hput, h₁, h₂⟩ := h
  rcases append_eq_append_iff.mp heq with ⟨m, rfl, rfl⟩ | ⟨m, rfl, hm⟩
  · exact .inr ⟨fun x hx => h₁ x (mem_append_left m hx),
      m, l₂, rfl, hput, fun x hx => h₁ x (mem_append_right xs hx), h₂⟩
  · cases m with
    | nil =>
      refine .inr ⟨fun x hx => h₁ x (by simpa using hx), [], l₂, by simpa using hm.symm, hput, nofun, h₂⟩
    | cons x m =>
      simp only [cons_append, List.cons.injEq] at hm
      obtain ⟨rfl, rfl⟩ := hm
      exact .inl ⟨⟨l₁, m, rfl, hput, h₁, fun x hx => h₂ x (mem_append_left ys hx)⟩,
        fun y hy => h₂ y (mem_append_right m hy)⟩

theorem visitItems_pass {h : H} {l : List α} (hp : ∀ a ∈ l, f a = .pass) :
    visitItems f note h l = (h, l, false) := by
  induction l generalizing h with
  | nil => rfl
  | cons a l ih =>
    unfold visitItems
    rw [hp a (mem_cons_self ..)]
    simp only
    rw [ih fun x hx => hp x (mem_cons_of_mem a hx)]

theorem visitItems_once {h : H} {l : List α} {a b : α} (ha : ActsOnce f a b l) :
    ∃ l', visitItems f note h l = (note h, l', false) ∧ ReplacedOnce a b l l' := by
  obtain ⟨l₁, l₂, rfl, hput, h₁, h₂⟩ := ha
  refine ⟨l₁ ++ b :: l₂, ?_, l₁, l₂, rfl, rfl⟩
  induction l₁ generalizing h with
  | nil =>
    simp only [nil_append]
    unfold visitItems
    rw [hput]
    simp only
    rw [visitItems_pass h₂]
  | cons x l₁ ih =>
    simp only [cons_append]
    unfold visitItems
    rw [h₁ x (mem_cons_self ..)]
    simp only
    rw [ih fun y hy => h₁ y (mem_cons_of_mem x hy)]

theorem visitPage_pass {start : Nat} {p : ChainPage α P H}
    (hp : ∀ a ∈ p.items.drop start, f a = .pass) : visitPage f note start p = (p, false) := by
  unfold visitPage
  rw [visitItems_pass hp]
  simp

theorem visitPage_once {start : Nat} {p : ChainPage α P H} {a b : α}
    (ha : ActsOnce f a b (p.items.drop start)) :
    ∃ p', visitPage f note start p = (p', false) ∧ ReplacedOnce a b p.items p'.items := by
  obtain ⟨l', hl', hr⟩ := @visitItems_once _ _ f note p.header _ a b ha
  refine ⟨_, by unfold visitPage; rw [hl'], ?_⟩
  have hrep := hr.append_left (p.items.take start)
  rw [take_append_drop] at hrep
  exact hrep

def ChainPage.shape (pos : α → P) (p : ChainPage α P H) : ChainPage P P Unit :=
  ⟨(), p.ignored, p.bound, p.items.map pos⟩

theorem visitItems_map {pos : α → P} (hpos : ∀ a b, f a = .put b → pos b = pos a) (h : H) (l : List α) :
    (visitItems f note h l).2.1.map pos = l.map pos := by
  induction l generalizing h with
  | nil => rfl
  | cons a l ih =>
    unfold visitItems
    cases hf : f a with
    | pass => simp [ih]
    | stop => rfl
    | put b => simp [ih, hpos a b hf]

theorem visitPage_shape {pos : α → P} (hpos : ∀ a b, f a = .put b → pos b = pos a) (start : Nat)
    (p : ChainPage α P H) : (visitPage f note start p).1.shape pos = p.shape pos := by
  simp only [visitPage, ChainPage.shape, ChainPage.mk.injEq, true_and, map_append]
  rw [visitItems_map hpos, ← map_append, take_append_drop]

section Chain

variable [LinearOrder P] {pos : α → P} {key : P} {ps : List (ChainPage α P H)} {a b : α}
  {p : ChainPage α P H}

theorem visitOn_pass (hp : ∀ a ∈ rangeOn key ps, f a = .pass) : visitOn f note key ps = ps := by
  induction ps with
  | nil => rfl
  | cons p ps ih =>
    unfold rangeOn at hp
    unfold visitOn
    cases hi : p.ignored with
    | true =>
      simp only [hi, if_true] at hp ⊢
      rw [ih hp]
    | false =>
      simp only [hi, Bool.false_eq_true, if_false, mem_append] at hp ⊢
      rw [visitPage_pass fun a ha => hp a (.inl (by simpa using ha))]
      by_cases hb : p.bound = some key
      · simp only [hb, if_true] at hp
        simp [hb, ih fun a ha => hp a (.inr ha)]
      · simp [hb]

/-- One page, and the pages behind it where its bound equals the position. -/
theorem visitPage_follow_once {start : Nat} {next : List (ChainPage α P H)}
    (hpass : (∀ x ∈ rangeOn key ps, f x = .pass) → next = ps)
    (honce : ActsOnce f a b (rangeOn key ps) → ReplacedOnce a b (chainItems ps) (chainItems next))
    (h : ActsOnce f a b
      (p.items.drop start ++ if p.bound = some key then rangeOn key ps else [])) :
    ReplacedOnce a b (chainItems (p :: ps)) (chainItems ((visitPage f note start p).1 ::
      if !(visitPage f note start p).2 && decide (p.bound = some key) then next else ps)) := by
  rcases h.append_cases with ⟨hpage, hrest⟩ | ⟨hpage, hrest⟩
  · obtain ⟨p', hp', hr⟩ := @visitPage_once _ P _ f note start p a b hpage
    rw [hp']
    by_cases hb : p.bound = some key
    · simp only [hb, if_true] at hrest
      simp only [hb, Bool.not_false, decide_true, Bool.and_self, if_true, hpass hrest]
      exact hr.append_right _
    · simp only [hb, decide_false, Bool.and_false, Bool.false_eq_true, if_false]
      exact hr.append_right _
  · rw [visitPage_pass hpage]
    by_cases hb : p.bound = some key
    · simp only [hb, if_true] at hrest
      simp only [hb, Bool.not_false, decide_true, Bool.and_self, if_true]
      exact (honce hrest).append_left p.items
    · obtain ⟨l₁, l₂, heq, -⟩ := hrest
      simp [hb] at heq

theorem visitOn_once (h : ActsOnce f a b (rangeOn key ps)) :
    ReplacedOnce a b (chainItems ps) (chainItems (visitOn f note key ps)) := by
  induction ps with
  | nil =>
    obtain ⟨l₁, l₂, heq, -⟩ := h
    simp [rangeOn] at heq
  | cons p ps ih =>
    unfold rangeOn at h
    unfold visitOn
    cases hi : p.ignored with
    | true =>
      simp only [hi, if_true] at h ⊢
      exact (ih h).append_left p.items
    | false =>
      simp only [hi, Bool.false_eq_true, if_false] at h ⊢
      exact visitPage_follow_once visitOn_pass ih h

/-- Where the visitor acts on one item of the range only, the chain changes at that item. -/
theorem visit_once (h : ActsOnce f a b (range pos key ps)) :
    ReplacedOnce a b (chainItems ps) (chainItems (visit f note pos key ps)) := by
  induction ps with
  | nil =>
    obtain ⟨l₁, l₂, heq, -⟩ := h
    simp [range] at heq
  | cons p ps ih =>
    unfold range at h
    unfold visit
    cases hi : p.passed key with
    | true =>
      simp only [hi, if_true] at h ⊢
      exact (ih h).append_left p.items
    | false =>
      simp only [hi, Bool.false_eq_true, if_false] at h ⊢
      exact visitPage_follow_once visitOn_pass visitOn_once h

def Visit.result (f : α → Visit α) (a : α) : α :=
  match f a with
  | .put b => b
  | _ => a

theorem visitItems_all {h : H} {l : List α} (hstop : ∀ a ∈ l, f a ≠ .stop) :
    (visitItems f note h l).2 = (l.map (Visit.result f), false) := by
  induction l generalizing h with
  | nil => rfl
  | cons a l ih =>
    have hrest := fun h' : H => @ih h' fun x hx => hstop x (mem_cons_of_mem a hx)
    unfold visitItems
    rw [map_cons]
    cases hf : f a with
    | pass => simp [hrest, Visit.result, hf]
    | stop => exact absurd hf (hstop a (mem_cons_self ..))
    | put b => simp [hrest, Visit.result, hf]

omit [LinearOrder P] in
theorem visitPage_items {start : Nat} {p : ChainPage α P H} (hstop : ∀ a ∈ p.items, f a ≠ .stop) :
    (visitPage f note start p).1.items =
        p.items.take start ++ (p.items.drop start).map (Visit.result f) ∧
      (visitPage f note start p).2 = false := by
  have hall := @visitItems_all _ _ f note p.header (p.items.drop start)
    fun a ha => hstop a (mem_of_mem_drop ha)
  unfold visitPage
  simp only [hall, and_self]

omit [LinearOrder P] in
theorem chainItems_cons (p : ChainPage α P H) (ps : List (ChainPage α P H)) :
    chainItems (p :: ps) = p.items ++ chainItems ps :=
  flatMap_cons

/-- One page of a search that goes on behind it where the bound equals the position. -/
theorem visitPage_follow_mem {start : Nat} {next : List (ChainPage α P H)}
    {behind : List α} {a : α} (hstop : ∀ a ∈ p.items, f a ≠ .stop)
    (hnext : a ∈ behind → Visit.result f a ∈ chainItems next)
    (ha : a ∈ p.items.drop start ++ if p.bound = some key then behind else []) :
    Visit.result f a ∈ chainItems ((visitPage f note start p).1 ::
      if !(visitPage f note start p).2 && decide (p.bound = some key) then next else ps) := by
  obtain ⟨hitems, hflag⟩ := @visitPage_items _ P _ f note start p hstop
  rw [chainItems_cons, hitems, hflag, mem_append, mem_append]
  rcases mem_append.mp ha with hin | hin
  · exact .inl (.inr (mem_map_of_mem hin))
  · by_cases hb : p.bound = some key
    · rw [if_pos hb] at hin
      simp only [hb, Bool.not_false, decide_true, Bool.and_self, if_true]
      exact .inr (hnext hin)
    · rw [if_neg hb] at hin
      cases hin

theorem visitOn_result_mem {a : α} (hstop : ∀ a ∈ chainItems ps, f a ≠ .stop)
    (ha : a ∈ rangeOn key ps) : Visit.result f a ∈ chainItems (visitOn f note key ps) := by
  induction ps with
  | nil => cases ha
  | cons p ps ih =>
    simp only [chainItems_cons, mem_append] at hstop
    have hrest := ih fun a ha => hstop a (.inr ha)
    unfold rangeOn at ha
    unfold visitOn
    cases hi : p.ignored with
    | true =>
      rw [hi, if_pos rfl] at ha
      rw [if_pos rfl, chainItems_cons, mem_append]
      exact .inr (hrest ha)
    | false =>
      rw [hi, if_neg Bool.false_ne_true] at ha
      rw [if_neg Bool.false_ne_true]
      exact visitPage_follow_mem (fun a ha => hstop a (.inl ha)) hrest ha

/-- A visitor that never stops acts on every item that the search runs over. -/
theorem visit_result_mem {a : α} (hstop : ∀ a ∈ chainItems ps, f a ≠ .stop)
    (ha : a ∈ range pos key ps) : Visit.result f a ∈ chainItems (visit f note pos key ps) := by
  induction ps with
  | nil => cases ha
  | cons p ps ih =>
    simp only [chainItems_cons, mem_append] at hstop
    unfold range at ha
    unfold visit
    cases hi : p.passed key with
    | true =>
      rw [hi, if_pos rfl] at ha
      rw [if_pos rfl, chainItems_cons, mem_append]
      exact .inr (ih (fun a ha => hstop a (.inr ha)) ha)
    | false =>
      rw [hi, if_neg Bool.false_ne_true] at ha
      rw [if_neg Bool.false_ne_true]
      exact visitPage_follow_mem (fun a ha => hstop a (.inl ha))
        (visitOn_result_mem fun a ha => hstop a (.inr ha)) ha

theorem Ordered.of_shape {qs : List (ChainPage α P H)} (h : Ordered pos ps)
    (heq : qs.map (ChainPage.shape pos) = ps.map (ChainPage.shape pos)) : Ordered pos qs := by
  have hmem : ∀ q ∈ qs, ∃ p ∈ ps, q.ignored = p.ignored ∧ q.bound = p.bound ∧
      q.items.map pos = p.items.map pos := by
    intro q hq
    have hin : q.shape pos ∈ ps.map (ChainPage.shape pos) := heq ▸ mem_map_of_mem hq
    obtain ⟨p, hp, hs⟩ := mem_map.mp hin
    simp only [ChainPage.shape, ChainPage.mk.injEq, true_and] at hs
    exact ⟨p, hp, hs.1.symm, hs.2.1.symm, hs.2.2.symm⟩
  refine ⟨?_, ?_, ?_, ?_⟩
  · intro q hq
    obtain ⟨p, hp, -, -, hitems⟩ := hmem q hq
    have hsorted := pairwise_map.mpr (h.sorted p hp)
    rw [← hitems] at hsorted
    exact pairwise_map.mp hsorted
  · intro q hq b hb a ha
    obtain ⟨p, hp, -, hbound, hitems⟩ := hmem q hq
    obtain ⟨a', ha', hpos⟩ := mem_map.mp (hitems ▸ mem_map_of_mem ha : pos a ∈ p.items.map pos)
    exact hpos ▸ h.le_bound p hp b (hbound ▸ hb) a' ha'
  · intro q hq hi
    obtain ⟨p, hp, hign, -, hitems⟩ := hmem q hq
    rw [h.empty p hp (hign ▸ hi)] at hitems
    exact map_eq_nil_iff.mp hitems
  · have hapart : (ps.map (ChainPage.shape pos)).Pairwise fun s t => s.ignored = false →
        ∃ b, s.bound = some b ∧ (∀ x ∈ t.items, b ≤ x) ∧
          ∀ c, t.ignored = false → t.bound = some c → b ≤ c := by
      apply pairwise_map.mpr (h.apart.imp _)
      intro p q hpq hi
      obtain ⟨b, hb, hge, hle⟩ := hpq hi
      refine ⟨b, hb, fun x hx => ?_, hle⟩
      obtain ⟨a, ha, rfl⟩ := mem_map.mp hx
      exact hge a ha
    rw [← heq] at hapart
    refine (pairwise_map.mp hapart).imp fun {p q} hpq hi => ?_
    obtain ⟨b, hb, hge, hle⟩ := hpq hi
    exact ⟨b, hb, fun a ha => hge (pos a) (mem_map_of_mem ha), hle⟩

theorem visitOn_shape (hpos : ∀ a b, f a = .put b → pos b = pos a) (key : P)
    (ps : List (ChainPage α P H)) :
    (visitOn f note key ps).map (ChainPage.shape pos) = ps.map (ChainPage.shape pos) := by
  induction ps with
  | nil => rfl
  | cons p ps ih =>
    unfold visitOn
    cases hi : p.ignored with
    | true => simp [ih]
    | false =>
      simp only [Bool.false_eq_true, if_false, map_cons, visitPage_shape hpos]
      split_ifs
      · rw [ih]
      · rfl

/-- A visitor that leaves the positions of the items leaves the chain ordered. -/
theorem visit_shape (hpos : ∀ a b, f a = .put b → pos b = pos a) (key : P)
    (ps : List (ChainPage α P H)) :
    (visit f note pos key ps).map (ChainPage.shape pos) = ps.map (ChainPage.shape pos) := by
  induction ps with
  | nil => rfl
  | cons p ps ih =>
    unfold visit
    cases hi : p.passed key with
    | true => simp [ih]
    | false =>
      simp only [Bool.false_eq_true, if_false, map_cons, visitPage_shape hpos]
      split_ifs
      · rw [visitOn_shape hpos]
      · rfl

end Chain

end

end XStore
