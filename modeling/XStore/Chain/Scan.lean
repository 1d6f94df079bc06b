import XStore.Chain.Search

/-!
# Reading the items at a cut of a chain

A three-way comparison cuts a linear order into what lies below it, what it meets, and what lies
above.  A scan walks right to the first page that may hold something it meets, bisects that page, and
folds over the items it meets; it goes on to the next page while the comparison meets the bound of
the page.  Skipped items are not compared.
-/
namespace XStore

open List

/-- The comparison of something fixed with a position falls along the order. -/
structure Cuts {P : Type*} [LE P] (cmp : P → Ordering) : Prop where
  gt_of_le : ∀ {b c}, b ≤ c → cmp c = .gt → cmp b = .gt
  lt_of_le : ∀ {b c}, b ≤ c → cmp b = .lt → cmp c = .lt

/-- Bisection by a three-way comparison: the first index of `[low, high)` at which it is not `gt`, and
an index from which on it is `lt`. -/
def bisectStrict (cmp : Nat → Ordering) : Nat → Nat → Nat → Nat → Nat × Nat
  | 0, low, _, strict => (low, strict)
  | fuel + 1, low, high, strict =>
    if low < high then
      let mid := low + (high - low) / 2
      match cmp mid with
      | .gt => bisectStrict cmp fuel (mid + 1) high strict
      | .eq => bisectStrict cmp fuel low mid strict
      | .lt => bisectStrict cmp fuel low mid mid
    else (low, strict)

theorem bisectStrict_spec {cmp : Nat → Ordering} (hc : Cuts cmp) {fuel low high strict : Nat}
    (hle : low ≤ high) (hfuel : high - low ≤ fuel) (hlow : ∀ i, i < low → cmp i = .gt)
    (hhigh : ∀ i, high ≤ i → cmp i ≠ .gt) (hstrict : ∀ i, strict ≤ i → cmp i = .lt) :
    (∀ i, i < (bisectStrict cmp fuel low high strict).1 → cmp i = .gt) ∧
      (∀ i, (bisectStrict cmp fuel low high strict).1 ≤ i → cmp i ≠ .gt) ∧
      ∀ i, (bisectStrict cmp fuel low high strict).2 ≤ i → cmp i = .lt := by
  induction fuel generalizing low high strict with
  | zero =>
    have heq : low = high := by omega
    exact ⟨hlow, heq ▸ hhigh, hstrict⟩
  | succ fuel ih =>
    unfold bisectStrict
    by_cases hlt : low < high
    · simp only [hlt, if_true]
      have hnot : ∀ o, cmp (low + (high - low) / 2) = o → o ≠ .gt →
          ∀ i, low + (high - low) / 2 ≤ i → cmp i ≠ .gt := by
        intro o ho hne i hi hgt
        exact hne (ho.symm.trans (hc.gt_of_le hi hgt))
      cases hmid : cmp (low + (high - low) / 2) with
      | gt =>
        apply ih (by omega) (by omega) _ hhigh hstrict
        intro i hi
        exact hc.gt_of_le (by omega) hmid
      | eq => exact ih (by omega) (by omega) hlow (hnot _ hmid nofun) hstrict
      | lt =>
        apply ih (by omega) (by omega) hlow (hnot _ hmid nofun)
        intro i hi
        exact hc.lt_of_le hi hmid
    · simp only [hlt, if_false]
      have heq : low = high := by omega
      exact ⟨hlow, heq ▸ hhigh, hstrict⟩

section

variable {α P H σ β : Type*} (pos : α → P) (cmp : P → Ordering) (skip : α → Bool)
  (f : σ → α → Except β σ)

/-- Fold over the items of a page from index `i` on, up to the index `strict`.  The flag says that the
end of the page was reached. -/
def scanItems (strict : Option Nat) : Nat → σ → List α → Except β (σ × Bool)
  | _, s, [] => .ok (s, true)
  | i, s, a :: as =>
    if strict = some i then .ok (s, false)
    else if skip a then scanItems strict (i + 1) s as
    else if cmp (pos a) ≠ .eq then .ok (s, false)
    else do
      let s' ← f s a
      scanItems strict (i + 1) s' as

/-- The scan steps to the pages right of `p`. -/
def ChainPage.stepsRight (p : ChainPage α P H) (ps : List (ChainPage α P H)) : Bool :=
  !ps.isEmpty && p.bound.any fun b => decide (cmp b = .eq)

/-- The scan after its first page; a chain must not end with an ignored page. -/
def scanOn (fell : β) (s : σ) : List (ChainPage α P H) → Except β σ
  | [] => .error fell
  | p :: ps =>
    if p.ignored then scanOn fell s ps
    else do
      let r ← scanItems pos cmp skip f none 0 s p.items
      if r.2 && p.stepsRight cmp ps then scanOn fell r.1 ps else .ok r.1

def cutBounds (items : List α) : Nat × Nat :=
  bisectStrict (fun i => items[i]?.elim .lt fun a => cmp (pos a)) items.length 0 items.length
    items.length

def ChainPage.movesRight (p : ChainPage α P H) (ps : List (ChainPage α P H)) : Bool :=
  !ps.isEmpty && (p.ignored || p.bound.any fun b => decide (cmp b = .gt))

def scan (fell : β) (s : σ) : List (ChainPage α P H) → Except β σ
  | [] => .error fell
  | p :: ps =>
    if p.movesRight cmp ps then scan fell s ps
    else if p.ignored then .error fell
    else do
      let bounds := cutBounds pos cmp p.items
      let strict := if p.items.isEmpty then none else some bounds.2
      let r ← scanItems pos cmp skip f strict bounds.1 s (p.items.drop bounds.1)
      if r.2 && p.stepsRight cmp ps then scanOn pos cmp skip f fell r.1 ps else .ok r.1

/-- The items that the comparison meets and that are not skipped. -/
def met (as : List α) : List α := as.filter fun a => !skip a && decide (cmp (pos a) = .eq)

end

section

variable {α P H σ β : Type*} {pos : α → P} {cmp : P → Ordering} {skip : α → Bool}
  {f : σ → α → Except β σ} {p : ChainPage α P H} {ps : List (ChainPage α P H)} {as : List α} {s : σ}

theorem ChainPage.stepsRight_iff :
    p.stepsRight cmp ps = true ↔ ps ≠ [] ∧ ∃ b, p.bound = some b ∧ cmp b = .eq := by
  simp [ChainPage.stepsRight, Option.any_eq_true]

theorem foldlM_split {before after : List α} {a : α} {b : β}
    (hbefore : ∀ x ∈ before, f s x = .ok s) (ha : f s a = .error b) :
    (before ++ a :: after).foldlM f s = .error b := by
  induction before with
  | nil =>
    rw [nil_append, foldlM_cons, ha]
    rfl
  | cons x before ih =>
    obtain ⟨hx, hrest⟩ := forall_mem_cons.mp hbefore
    rw [cons_append, foldlM_cons, hx]
    exact ih hrest

/-- A fold that keeps its state stops at the first item it does not go past. -/
theorem foldlM_stops (h : ∀ a ∈ as, f s a = .ok s ∨ ∃ b, f s a = .error b) :
    (as.foldlM f s = .ok s ∧ ∀ a ∈ as, f s a = .ok s) ∨
      ∃ before a after b, as = before ++ a :: after ∧ (∀ x ∈ before, f s x = .ok s) ∧
        f s a = .error b ∧ as.foldlM f s = .error b := by
  induction as with
  | nil => exact .inl ⟨rfl, nofun⟩
  | cons a as ih =>
    rw [foldlM_cons]
    rcases h a (mem_cons_self ..) with hok | ⟨b, herr⟩
    · rw [hok]
      rcases ih fun x hx => h x (mem_cons_of_mem a hx) with ⟨hfold, hall⟩ | hstop
      · exact .inl ⟨hfold, forall_mem_cons.mpr ⟨hok, hall⟩⟩
      · obtain ⟨before, x, after, b, rfl, hbefore, herr, hfold⟩ := hstop
        exact .inr ⟨a :: before, x, after, b, rfl, forall_mem_cons.mpr ⟨hok, hbefore⟩, herr, hfold⟩
    · rw [herr]
      exact .inr ⟨[], a, as, b, rfl, nofun, herr, rfl⟩

theorem met_append (as bs : List α) :
    met pos cmp skip (as ++ bs) = met pos cmp skip as ++ met pos cmp skip bs :=
  filter_append ..

theorem met_eq_nil (h : ∀ a ∈ as, cmp (pos a) ≠ .eq) : met pos cmp skip as = [] := by
  apply filter_eq_nil_iff.mpr
  intro a ha
  simp [h a ha]

theorem met_of_lt (h : ∀ a ∈ as, cmp (pos a) = .lt) : met pos cmp skip as = [] :=
  met_eq_nil fun a ha => by simp [h a ha]

def EndsInUse (ps : List (ChainPage α P H)) : Prop := ∃ p, ps.getLast? = some p ∧ p.ignored = false

theorem EndsInUse.tail (h : EndsInUse (p :: ps)) (hps : ps ≠ []) : EndsInUse ps := by
  obtain ⟨q, hq, hi⟩ := h
  refine ⟨q, ?_, hi⟩
  rwa [getLast?_cons_of_ne_nil hps] at hq

theorem EndsInUse.ne_nil_of_ignored (h : EndsInUse (p :: ps)) (hi : p.ignored = true) : ps ≠ [] := by
  rintro rfl
  obtain ⟨q, hq, huse⟩ := h
  obtain rfl : p = q := Option.some.inj hq
  rw [hi] at huse
  cases huse

variable [LinearOrder P]

/-- On the items of a page that do not lie below the cut, the scan folds over those that it meets, and
stops before the end of the page only where an item lies above. -/
theorem scanItems_eq (hc : Cuts cmp) {strict : Option Nat} {as : List α}
    (hs : as.Pairwise fun a b => pos a ≤ pos b) (hge : ∀ a ∈ as, cmp (pos a) ≠ .gt) {i : Nat}
    (hstrict : ∀ k, strict = some (i + k) → ∀ a ∈ as.drop k, cmp (pos a) = .lt) (s : σ) :
    ∃ more, scanItems pos cmp skip f strict i s as =
        (met pos cmp skip as).foldlM f s >>= (fun s' => .ok (s', more)) ∧
      (more = false → ∃ a ∈ as, cmp (pos a) = .lt) := by
  induction as generalizing i s with
  | nil => exact ⟨true, rfl, nofun⟩
  | cons a as ih =>
    obtain ⟨hfirst, hrest⟩ := pairwise_cons.mp hs
    have hnext := @ih hrest (fun b hb => hge b (mem_cons_of_mem a hb)) (i + 1) fun k hk b hb =>
      hstrict (k + 1) (by rw [hk]; congr 1; omega) b hb
    have hstop : cmp (pos a) = .lt → met pos cmp skip (a :: as) = [] := by
      intro hlt
      apply met_of_lt
      intro b hb
      rcases mem_cons.mp hb with rfl | hb
      · exact hlt
      · exact hc.lt_of_le (hfirst b hb) hlt
    unfold scanItems
    by_cases hend : strict = some i
    · have hlt : cmp (pos a) = .lt := hstrict 0 hend a (mem_cons_self ..)
      rw [if_pos hend, hstop hlt]
      exact ⟨false, rfl, fun _ => ⟨a, mem_cons_self .., hlt⟩⟩
    · rw [if_neg hend]
      cases hskip : skip a with
      | true =>
        obtain ⟨more, heq, hmore⟩ := hnext s
        refine ⟨more, ?_, fun hm => ?_⟩
        · simpa [met, hskip] using heq
        · obtain ⟨b, hb, hlt⟩ := hmore hm
          exact ⟨b, mem_cons_of_mem a hb, hlt⟩
      | false =>
        cases hcmp : cmp (pos a) with
        | gt => exact absurd hcmp (hge a (mem_cons_self ..))
        | lt =>
          rw [hstop hcmp]
          exact ⟨false, by simp, fun _ => ⟨a, mem_cons_self .., hcmp⟩⟩
        | eq =>
          have hmet : met pos cmp skip (a :: as) = a :: met pos cmp skip as := by
            simp [met, hskip, hcmp]
          rw [hmet, foldlM_cons]
          cases hf : f s a with
          | error b => exact ⟨true, rfl, nofun⟩
          | ok s' =>
            obtain ⟨more, heq, hmore⟩ := hnext s'
            refine ⟨more, ?_, fun hm => ?_⟩
            · rw [if_neg Bool.false_ne_true, if_neg (not_not.mpr rfl)]
              exact heq
            · obtain ⟨b, hb, hlt⟩ := hmore hm
              exact ⟨b, mem_cons_of_mem a hb, hlt⟩

/-- What lies right of a page is above the cut where its bound, or an item of it, is. -/
theorem Ordered.behind_lt (h : Ordered pos (p :: ps)) (hc : Cuts cmp) (hi : p.ignored = false)
    (habove : (∃ a ∈ p.items, cmp (pos a) = .lt) ∨ ∀ b, p.bound = some b → cmp b = .lt) :
    ∀ x ∈ chainItems ps, cmp (pos x) = .lt := by
  intro x hx
  obtain ⟨q, hq, hqx⟩ := mem_flatMap.mp hx
  obtain ⟨b, hb, hge, -⟩ := (pairwise_cons.mp h.apart).1 q hq hi
  have hlt : cmp b = .lt := by
    rcases habove with ⟨a, ha, hlt⟩ | hbound
    · exact hc.lt_of_le (h.le_bound p (mem_cons_self ..) b hb a ha) hlt
    · exact hbound b hb
  exact hc.lt_of_le (hge x hqx) hlt

/-- The items a page adds to the fold and what the scan does behind it. -/
theorem Ordered.page_step (h : Ordered pos (p :: ps)) (hc : Cuts cmp) (hi : p.ignored = false)
    (hbound : ps ≠ [] → ∀ b, p.bound = some b → cmp b ≠ .gt)
    (has : as.Sublist p.items)
    (hmet : met pos cmp skip p.items = met pos cmp skip as) {r : Except β (σ × Bool)}
    {more : Bool}
    (hr : r = (met pos cmp skip as).foldlM f s >>= (fun s' => .ok (s', more)))
    (hmore : more = false → ∃ a ∈ as, cmp (pos a) = .lt) (next : σ → Except β σ)
    (hnext : p.stepsRight cmp ps = true →
      ∀ s', next s' = (met pos cmp skip (chainItems ps)).foldlM f s') :
    (r >>= fun r => if r.2 && p.stepsRight cmp ps then next r.1 else .ok r.1) =
      (met pos cmp skip (chainItems (p :: ps))).foldlM f s := by
  have hsplit : chainItems (p :: ps) = p.items ++ chainItems ps := flatMap_cons ..
  rw [hsplit, met_append, hmet, foldlM_append, hr, bind_assoc]
  refine bind_congr fun s' => ?_
  change (if more && p.stepsRight cmp ps then next s' else .ok s') = _
  by_cases hright : (more && p.stepsRight cmp ps) = true
  · rw [if_pos hright]
    exact hnext (Bool.and_eq_true_iff.mp hright).2 s'
  · rw [if_neg hright]
    have hnil : met pos cmp skip (chainItems ps) = [] := by
      by_cases hps : ps = []
      · rw [hps]
        rfl
      · apply met_of_lt
        apply h.behind_lt hc hi
        cases hm : more with
        | false =>
          obtain ⟨a, ha, hlt⟩ := hmore hm
          exact .inl ⟨a, has.subset ha, hlt⟩
        | true =>
          right
          intro b hb
          have hne : cmp b ≠ .eq := by
            intro heq
            apply hright
            simp [ChainPage.stepsRight, hm, hb, heq, hps]
          cases hcmp : cmp b with
          | lt => rfl
          | eq => exact absurd hcmp hne
          | gt => exact absurd hcmp (hbound hps b hb)
    rw [hnil]
    rfl

/-- After its first page the scan folds over all it meets. -/
theorem Ordered.scanOn_eq (h : Ordered pos ps) (hc : Cuts cmp) (hend : EndsInUse ps)
    (hge : ∀ a ∈ chainItems ps, cmp (pos a) ≠ .gt)
    (hbound : ∀ q ∈ ps, q.ignored = false → ∀ b, q.bound = some b → cmp b ≠ .gt) (fell : β) (s : σ) :
    scanOn pos cmp skip f fell s ps = (met pos cmp skip (chainItems ps)).foldlM f s := by
  induction ps generalizing s with
  | nil => obtain ⟨_, hnil, -⟩ := hend; cases hnil
  | cons p ps ih =>
    have hsplit : chainItems (p :: ps) = p.items ++ chainItems ps := flatMap_cons ..
    rw [hsplit] at hge
    have hrest := fun hps s => @ih h.tail (hend.tail hps)
      (fun a ha => hge a (mem_append_right _ ha))
      (fun q hq => hbound q (mem_cons_of_mem p hq)) s
    unfold scanOn
    cases hi : p.ignored with
    | true =>
      rw [if_pos rfl, hrest (hend.ne_nil_of_ignored hi), hsplit,
        h.empty p (mem_cons_self ..) hi, nil_append]
    | false =>
      rw [if_neg Bool.false_ne_true]
      obtain ⟨more, heq, hmore⟩ := @scanItems_eq _ _ _ _ pos cmp skip f _ hc none p.items
        (h.sorted p (mem_cons_self ..)) (fun a ha => hge a (mem_append_left _ ha)) 0
        nofun s
      apply h.page_step hc hi (fun _ => hbound p (mem_cons_self ..) hi) (List.Sublist.refl _) rfl
        heq hmore fun s' => scanOn pos cmp skip f fell s' ps
      intro hright
      exact hrest (ChainPage.stepsRight_iff.mp hright).1

/-- Bisecting a page finds where the items below the cut end, and a place from which on all lie
above. -/
theorem cutBounds_spec (hc : Cuts cmp) (hs : as.Pairwise fun a b => pos a ≤ pos b) :
    (∀ a ∈ as.take (cutBounds pos cmp as).1, cmp (pos a) = .gt) ∧
      (∀ a ∈ as.drop (cutBounds pos cmp as).1, cmp (pos a) ≠ .gt) ∧
      ∀ k, (cutBounds pos cmp as).2 = (cutBounds pos cmp as).1 + k →
        ∀ a ∈ (as.drop (cutBounds pos cmp as).1).drop k, cmp (pos a) = .lt := by
  have hcuts : Cuts fun i : Nat => as[i]?.elim .lt fun a => cmp (pos a) := by
    have hpos : ∀ i j (hj : j < as.length) (hij : i ≤ j), pos as[i] ≤ pos as[j] := by
      intro i j hj hij
      rcases Nat.eq_or_lt_of_le hij with rfl | hlt
      · exact le_refl _
      · exact pairwise_iff_getElem.mp hs i j (by omega) hj hlt
    refine ⟨fun {i j} hij hgt => ?_, fun {i j} hij hlt => ?_⟩
    · by_cases hj : j < as.length
      · have hi : i < as.length := by omega
        rw [getElem?_eq_getElem hj] at hgt
        rw [getElem?_eq_getElem hi]
        exact hc.gt_of_le (hpos i j hj hij) hgt
      · rw [getElem?_eq_none (by omega)] at hgt
        cases hgt
    · by_cases hj : j < as.length
      · have hi : i < as.length := by omega
        rw [getElem?_eq_getElem hi] at hlt
        rw [getElem?_eq_getElem hj]
        exact hc.lt_of_le (hpos i j hj hij) hlt
      · rw [getElem?_eq_none (by omega)]
        rfl
  have hend : ∀ i, as.length ≤ i → (as[i]?.elim .lt fun a => cmp (pos a)) = Ordering.lt := by
    intro i hi
    rw [getElem?_eq_none hi]
    rfl
  obtain ⟨hbelow, hmiddle, habove⟩ := @bisectStrict_spec _ hcuts as.length 0 as.length as.length
    (Nat.zero_le _) (Nat.sub_le _ _) (fun i hi => absurd hi (Nat.not_lt_zero i))
    (fun i hi => by rw [hend i hi]; nofun) hend
  refine ⟨fun a ha => ?_, fun a ha => ?_, fun k hk a ha => ?_⟩
  · obtain ⟨i, hi, rfl⟩ := mem_take_iff_getElem.mp ha
    have hcmp := hbelow i (lt_of_lt_of_le hi (Nat.min_le_left _ _))
    rwa [getElem?_eq_getElem (by omega)] at hcmp
  · obtain ⟨i, hi, rfl⟩ := mem_drop_iff_getElem.mp ha
    have hcmp := hmiddle (i + (cutBounds pos cmp as).1) (Nat.le_add_left _ _)
    rw [getElem?_eq_getElem (by omega)] at hcmp
    simpa only [Nat.add_comm, Option.elim_some] using hcmp
  · rw [drop_drop, ← hk] at ha
    obtain ⟨i, hi, rfl⟩ := mem_drop_iff_getElem.mp ha
    have hcmp := habove (i + (cutBounds pos cmp as).2) (Nat.le_add_left _ _)
    rw [getElem?_eq_getElem (by omega)] at hcmp
    simpa only [Nat.add_comm, Option.elim_some] using hcmp

/-- A scan of an ordered chain folds over all items that it meets and does not skip, in the order of
the chain. -/
theorem Ordered.scan_eq (h : Ordered pos ps) (hc : Cuts cmp) (hend : EndsInUse ps) (fell : β)
    (s : σ) : scan pos cmp skip f fell s ps = (met pos cmp skip (chainItems ps)).foldlM f s := by
  induction ps with
  | nil => obtain ⟨_, hnil, -⟩ := hend; cases hnil
  | cons p ps ih =>
    have hsplit : chainItems (p :: ps) = p.items ++ chainItems ps := flatMap_cons ..
    unfold scan
    cases hmoves : p.movesRight cmp ps with
    | true =>
      simp only [ChainPage.movesRight, Bool.and_eq_true, Bool.not_eq_true', isEmpty_eq_false_iff,
        Bool.or_eq_true, Option.any_eq_true, decide_eq_true_eq] at hmoves
      obtain ⟨hps, hpast⟩ := hmoves
      have hnil : met pos cmp skip p.items = [] := by
        rcases hpast with hi | ⟨b, hb, hgt⟩
        · rw [h.empty p (mem_cons_self ..) hi]
          rfl
        · apply met_eq_nil
          intro a ha
          rw [hc.gt_of_le (h.le_bound p (mem_cons_self ..) b hb a ha) hgt]
          nofun
      rw [if_pos rfl, ih h.tail (hend.tail hps), hsplit, met_append, hnil, nil_append]
    | false =>
      have hi : p.ignored = false := by
        by_contra hne
        have htrue : p.ignored = true := by simpa using hne
        simp [ChainPage.movesRight, htrue, hend.ne_nil_of_ignored htrue] at hmoves
      have hbound : ps ≠ [] → ∀ b, p.bound = some b → cmp b ≠ .gt := by
        intro hps b hb hgt
        simp [ChainPage.movesRight, hps, hb, hgt] at hmoves
      obtain ⟨hbelow, hmiddle, habove⟩ := cutBounds_spec hc (h.sorted p (mem_cons_self ..))
      have hmet : met pos cmp skip p.items =
          met pos cmp skip (p.items.drop (cutBounds pos cmp p.items).1) := by
        conv_lhs => rw [← take_append_drop (cutBounds pos cmp p.items).1 p.items, met_append]
        rw [met_eq_nil fun a ha => by simp [hbelow a ha], nil_append]
      obtain ⟨more, heq, hmore⟩ := @scanItems_eq _ _ _ _ pos cmp skip f _ hc
        (if p.items.isEmpty then none else some (cutBounds pos cmp p.items).2)
        (p.items.drop (cutBounds pos cmp p.items).1)
        ((h.sorted p (mem_cons_self ..)).sublist (drop_sublist _ _)) hmiddle
        (cutBounds pos cmp p.items).1
        (fun k hk => habove k (by split_ifs at hk with hempty; exact Option.some.inj hk)) s
      rw [if_neg Bool.false_ne_true, if_neg (by simp [hi])]
      apply h.page_step hc hi hbound (drop_sublist _ _) hmet heq hmore
        fun s' => scanOn pos cmp skip f fell s' ps
      intro hright s'
      obtain ⟨hps, b, hb, heqb⟩ := ChainPage.stepsRight_iff.mp hright
      have hapart := (pairwise_cons.mp h.apart).1
      apply h.tail.scanOn_eq hc (hend.tail hps)
      · intro x hx hgt
        obtain ⟨q, hq, hqx⟩ := mem_flatMap.mp hx
        obtain ⟨b', hb', hge, -⟩ := hapart q hq hi
        cases hb.symm.trans hb'
        rw [hc.gt_of_le (hge x hqx) hgt] at heqb
        cases heqb
      · intro q hq hiq c hcb hgt
        obtain ⟨b', hb', -, hle⟩ := hapart q hq hi
        cases hb.symm.trans hb'
        rw [hc.gt_of_le (hle c hiq hcb) hgt] at heqb
        cases heqb

end

end XStore
