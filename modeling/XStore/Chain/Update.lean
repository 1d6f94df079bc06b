import XStore.Chain.Search

/-!
# Inserting into a chain and splitting its pages -/
namespace XStore

open List

section

variable {α P H : Type*} [LinearOrder P]

def ChainPage.insert (note : H → H) (pos : α → P) (a : α) (p : ChainPage α P H) :
    ChainPage α P H :=
  { p with
    header := note p.header
    items := p.items.take (lowerBound pos (pos a) p.items) ++
      a :: p.items.drop (lowerBound pos (pos a) p.items) }

/-- Insert an item on the page that a search for its position ends on. -/
def insertItem (note : H → H) (pos : α → P) (a : α) :
    List (ChainPage α P H) → Option (List (ChainPage α P H))
  | [] => none
  | p :: ps =>
    if p.passed (pos a) then (insertItem note pos a ps).map (p :: ·)
    else some (p.insert note pos a :: ps)

/-- A page is split in two at `m`, which the order allows there. -/
structure SplitAt (pos : α → P) (m : P) (p p₁ p₂ : ChainPage α P H) : Prop where
  ignored : p.ignored = false ∧ p₁.ignored = false ∧ p₂.ignored = false
  items : p.items = p₁.items ++ p₂.items
  bound₁ : p₁.bound = some m
  bound₂ : p₂.bound = p.bound
  le_left : ∀ a ∈ p₁.items, pos a ≤ m
  le_right : ∀ a ∈ p₂.items, m ≤ pos a
  le_bound : ∀ b, p.bound = some b → m ≤ b

variable {note : H → H} {pos : α → P} {a : α} {m : P} {p p₁ p₂ : ChainPage α P H}
  {ps qs pre post : List (ChainPage α P H)}

theorem mem_insert {x : α} : x ∈ (p.insert note pos a).items ↔ x = a ∨ x ∈ p.items := by
  have hsplit := take_append_drop (lowerBound pos (pos a) p.items) p.items
  simp only [ChainPage.insert, mem_append, mem_cons]
  constructor
  · rintro (h | rfl | h)
    · exact .inr (mem_of_mem_take h)
    · exact .inl rfl
    · exact .inr (mem_of_mem_drop h)
  · rintro (rfl | h)
    · exact .inr (.inl rfl)
    · rw [← hsplit, mem_append] at h
      rcases h with h | h
      · exact .inl h
      · exact .inr (.inr h)

theorem insertItem_mem (h : insertItem note pos a ps = some qs) {q : ChainPage α P H} (hq : q ∈ qs) :
    q ∈ ps ∨ ∃ p ∈ ps, p.passed (pos a) = false ∧ q = p.insert note pos a := by
  induction ps generalizing qs with
  | nil => cases h
  | cons p ps ih =>
    unfold insertItem at h
    cases hp : p.passed (pos a) with
    | true =>
      simp only [hp, if_true, Option.map_eq_some_iff] at h
      obtain ⟨rest, hrest, rfl⟩ := h
      rcases mem_cons.mp hq with rfl | hin
      · exact .inl (mem_cons_self ..)
      · rcases ih hrest hin with hold | ⟨p', hp', hnew⟩
        · exact .inl (mem_cons_of_mem p hold)
        · exact .inr ⟨p', mem_cons_of_mem p hp', hnew⟩
    | false =>
      simp only [hp, Bool.false_eq_true, if_false, Option.some.injEq] at h
      subst h
      rcases mem_cons.mp hq with rfl | hin
      · exact .inr ⟨p, mem_cons_self .., hp, rfl⟩
      · exact .inl (mem_cons_of_mem p hin)

theorem insertItem_perm (h : insertItem note pos a ps = some qs) :
    (chainItems qs).Perm (a :: chainItems ps) := by
  induction ps generalizing qs with
  | nil => cases h
  | cons p ps ih =>
    unfold insertItem at h
    cases hp : p.passed (pos a) with
    | true =>
      simp only [hp, if_true, Option.map_eq_some_iff] at h
      obtain ⟨rest, hrest, rfl⟩ := h
      exact ((ih hrest).append_left p.items).trans perm_middle
    | false =>
      simp only [hp, Bool.false_eq_true, if_false, Option.some.injEq] at h
      subst h
      have hsplit := take_append_drop (lowerBound pos (pos a) p.items) p.items
      have hpage : (p.insert note pos a).items.Perm (a :: p.items) := by
        have hmid := @perm_middle _ a (p.items.take (lowerBound pos (pos a) p.items))
          (p.items.drop (lowerBound pos (pos a) p.items))
        rw [hsplit] at hmid
        exact hmid
      exact hpage.append_right (chainItems ps)

theorem Ordered.insertItem (h : Ordered pos ps) (hins : insertItem note pos a ps = some qs) :
    Ordered pos qs := by
  have hcases := fun q hq => @insertItem_mem _ _ _ _ note pos a ps qs hins q hq
  refine ⟨?_, ?_, ?_, ?_⟩
  · intro q hq
    rcases hcases q hq with hold | ⟨p, hp, -, rfl⟩
    · exact h.sorted q hold
    · exact pairwise_insert_lowerBound (h.sorted p hp) a
  · intro q hq b hb x hx
    rcases hcases q hq with hold | ⟨p, hp, hpass, rfl⟩
    · exact h.le_bound q hold b hb x hx
    · have hpb : p.bound = some b := hb
      rcases mem_insert.mp hx with rfl | hx
      · simpa [ChainPage.passed, hpb] using (Bool.or_eq_false_iff.mp hpass).2
      · exact h.le_bound p hp b hpb x hx
  · intro q hq hi
    rcases hcases q hq with hold | ⟨p, hp, hpass, rfl⟩
    · exact h.empty q hold hi
    · have hign : p.ignored = true := hi
      rw [(Bool.or_eq_false_iff.mp hpass).1] at hign
      cases hign
  · clear hcases
    induction ps generalizing qs with
    | nil => cases hins
    | cons p ps ih =>
      obtain ⟨hfirst, hrest⟩ := pairwise_cons.mp h.apart
      unfold XStore.insertItem at hins
      cases hp : p.passed (pos a) with
      | true =>
        simp only [hp, if_true, Option.map_eq_some_iff] at hins
        obtain ⟨rest, hins, rfl⟩ := hins
        refine pairwise_cons.mpr ⟨fun q hq hi => ?_, ih h.tail hins⟩
        rcases insertItem_mem hins hq with hold | ⟨p', hp', -, rfl⟩
        · exact hfirst q hold hi
        · obtain ⟨b, hb, hge, hle⟩ := hfirst p' hp' hi
          have hlt : b < pos a := by simpa [ChainPage.passed, hi, hb] using hp
          refine ⟨b, hb, fun x hx => ?_, hle⟩
          rcases mem_insert.mp hx with rfl | hx
          · exact hlt.le
          · exact hge x hx
      | false =>
        simp only [hp, Bool.false_eq_true, if_false, Option.some.injEq] at hins
        subst hins
        exact pairwise_cons.mpr ⟨hfirst, hrest⟩

theorem chainItems_split (h : SplitAt pos m p p₁ p₂) :
    chainItems (pre ++ p₁ :: p₂ :: post) = chainItems (pre ++ p :: post) := by
  simp [chainItems, h.items]

theorem Ordered.split (h : Ordered pos (pre ++ p :: post)) (hs : SplitAt pos m p p₁ p₂)
    (hpre : ∀ q ∈ pre, q.ignored = false → ∀ b, q.bound = some b → b ≤ m) :
    Ordered pos (pre ++ p₁ :: p₂ :: post) := by
  have hp : p ∈ pre ++ p :: post := by simp
  have hmem : ∀ q ∈ pre ++ p₁ :: p₂ :: post, q ∈ pre ++ p :: post ∨ q = p₁ ∨ q = p₂ := by
    intro q hq
    simp only [mem_append, mem_cons] at hq ⊢
    tauto
  have hsub₁ : p₁.items.Sublist p.items := hs.items ▸ sublist_append_left _ _
  have hsub₂ : p₂.items.Sublist p.items := hs.items ▸ sublist_append_right _ _
  refine ⟨?_, ?_, ?_, ?_⟩
  · intro q hq
    rcases hmem q hq with hold | rfl | rfl
    · exact h.sorted q hold
    · exact (h.sorted p hp).sublist hsub₁
    · exact (h.sorted p hp).sublist hsub₂
  · intro q hq b hb x hx
    rcases hmem q hq with hold | rfl | rfl
    · exact h.le_bound q hold b hb x hx
    · cases hs.bound₁.symm.trans hb
      exact hs.le_left x hx
    · exact h.le_bound p hp b (hs.bound₂ ▸ hb) x (hsub₂.subset hx)
  · intro q hq hi
    rcases hmem q hq with hold | rfl | rfl
    · exact h.empty q hold hi
    · rw [hs.ignored.2.1] at hi
      cases hi
    · rw [hs.ignored.2.2] at hi
      cases hi
  · obtain ⟨hpw, hpost, hcross⟩ := pairwise_append.mp h.apart
    obtain ⟨hfirst, hrest⟩ := pairwise_cons.mp hpost
    have hright : ∀ q ∈ post, ∃ b, p.bound = some b ∧ (∀ x ∈ q.items, b ≤ pos x) ∧
        ∀ c, q.ignored = false → q.bound = some c → b ≤ c := fun q hq => hfirst q hq hs.ignored.1
    refine pairwise_append.mpr ⟨hpw, pairwise_cons.mpr ⟨?_, pairwise_cons.mpr
      ⟨fun q hq _ => hs.bound₂ ▸ hright q hq, hrest⟩⟩, ?_⟩
    · intro q hq _
      refine ⟨m, hs.bound₁, ?_⟩
      rcases mem_cons.mp hq with rfl | hin
      · exact ⟨hs.le_right, fun c _ hc => hs.le_bound c (hs.bound₂ ▸ hc)⟩
      · obtain ⟨b, hb, hge, hle⟩ := hright q hin
        have hmb := hs.le_bound b hb
        exact ⟨fun x hx => hmb.trans (hge x hx), fun c hi hc => hmb.trans (hle c hi hc)⟩
    · intro q hq q' hq' hi
      obtain ⟨b, hb, hge, hle⟩ := hcross q hq p (mem_cons_self ..) hi
      rcases mem_cons.mp hq' with rfl | hin
      · refine ⟨b, hb, fun x hx => hge x (hsub₁.subset hx), fun c _ hc => ?_⟩
        cases hs.bound₁.symm.trans hc
        exact hpre q hq hi b hb
      · rcases mem_cons.mp hin with rfl | hin
        · exact ⟨b, hb, fun x hx => hge x (hsub₂.subset hx),
            fun c _ hc => hle c hs.ignored.1 (hs.bound₂ ▸ hc)⟩
        · exact hcross q hq q' (mem_cons_of_mem p hin) hi

end

end XStore
