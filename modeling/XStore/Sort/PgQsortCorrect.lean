import XStore.Sort.PgQsort

/-!
# The quicksort sorts under a strict total order

The partition invariant, one pass at a time, and the induction over the recursion.  Under a
strict order no two positions compare equal, so the cursors `pa` and `pd` never move and the final
exchange only puts the pivot between the two parts.
-/
namespace XStore.Sort

variable {α : Type*} {cmp : α → α → Int} {a n : Nat} {A : Cells α} {B : Cells α}

section Insertion

theorem insertDown_perm (k : Nat) (hk : k < n) : PermOn a n A (insertDown cmp a k A) := by
  induction k generalizing A with
  | zero => exact PermOn.refl a n A
  | succ k ih =>
    rw [insertDown]
    split
    · refine (PermOn.swap A ?_ ?_).trans (ih (by omega))
      all_goals unfold InSeg; omega
    · exact PermOn.refl a n A

/-- The element at `a + k` sinks to its place in a segment that is in order without it. -/
theorem insertDown_sorted (k m : Nat) (hkm : k ≤ m) (hs : StrictOn cmp a (m + 1) A)
    (hrest : ∀ i j, a ≤ i → i < j → j < a + (m + 1) → i ≠ a + k → j ≠ a + k →
      cmp (A i) (A j) < 0)
    (habove : ∀ j, a + k < j → j < a + (m + 1) → cmp (A (a + k)) (A j) < 0) :
    SortedOn cmp a (m + 1) (insertDown cmp a k A) := by
  induction k generalizing A with
  | zero =>
    intro i j hi hij hj
    rcases Nat.eq_or_lt_of_le hi with rfl | hlt
    · exact habove j hij hj
    · exact hrest i j hi hij hj (by omega) (by omega)
  | succ k ih =>
    have hlo : InSeg a (m + 1) (a + k) := by unfold InSeg; omega
    have hhi : InSeg a (m + 1) (a + k + 1) := by unfold InSeg; omega
    rw [insertDown]
    split
    · rename_i hpos
      have hlt : cmp (A (a + k + 1)) (A (a + k)) < 0 :=
        (hs.flip _ _ hlo hhi (by omega)).mp hpos
      refine ih (by omega) (hs.perm (PermOn.swap A hhi hlo)) ?_ ?_
      · intro i j hi hij hj hik hjk
        by_cases hi' : i = a + k + 1
        · subst hi'
          rw [swapCells_left, swapCells_of_ne A (by omega) (by omega)]
          exact hrest (a + k) j (by omega) (by omega) hj (by omega) (by omega)
        · rw [swapCells_of_ne A hi' hik]
          by_cases hj' : j = a + k + 1
          · subst hj'
            rw [swapCells_left]
            exact hrest i (a + k) hi (by omega) (by omega) (by omega) (by omega)
          · rw [swapCells_of_ne A hj' hjk]
            exact hrest i j hi hij hj hi' hj'
      · intro j hj hjm
        rw [swapCells_right]
        by_cases hj' : j = a + k + 1
        · subst hj'
          rw [swapCells_left]
          exact hlt
        · rw [swapCells_of_ne A hj' (by omega)]
          exact habove j (by omega) hjm
    · rename_i hpos
      have hlt : cmp (A (a + k)) (A (a + k + 1)) < 0 :=
        hs.neg_of_not_pos hlo hhi (by omega) hpos
      intro i j hi hij hj
      by_cases hi' : i = a + (k + 1)
      · subst hi'
        exact habove j hij hj
      · by_cases hj' : j = a + (k + 1)
        · subst hj'
          by_cases hik : i = a + k
          · subst hik
            exact hlt
          · refine hs.trans i (a + k) _ ⟨hi, by omega⟩ hlo hhi hik (by omega) (by omega) ?_ hlt
            exact hrest i (a + k) hi (by omega) (by omega) (by omega) (by omega)
        · exact hrest i j hi hij hj hi' hj'

theorem insertionSort_spec (m : Nat) (hm : m < n) (hs : StrictOn cmp a n A) :
    PermOn a n A (insertionSort cmp a m A) ∧
      SortedOn cmp a (m + 1) (insertionSort cmp a m A) := by
  induction m with
  | zero => exact ⟨PermOn.refl a n A, fun i j hi hij hj => by omega⟩
  | succ m ih =>
    obtain ⟨hperm, hsorted⟩ := ih (by omega)
    refine ⟨hperm.trans (insertDown_perm (m + 1) hm), ?_⟩
    refine insertDown_sorted (m + 1) (m + 1) le_rfl ((hs.perm hperm).sub le_rfl (by omega)) ?_ ?_
    · intro i j hi hij hj _ hjm
      exact hsorted i j hi hij (by omega)
    · intro j hj hjm
      omega

theorem sorted_of_presorted (hs : StrictOn cmp a n A) (h : presorted cmp a n A = true) :
    SortedOn cmp a n A := by
  have hstep : ∀ k, k + 1 < n → cmp (A (a + k)) (A (a + k + 1)) < 0 := by
    intro k hk
    have hk' := List.all_eq_true.mp h k (List.mem_range.mpr (by omega))
    refine hs.neg_of_not_pos ?_ ?_ (by omega) (by simpa using hk')
    all_goals unfold InSeg; omega
  intro i j hi hij hj
  obtain ⟨d, rfl⟩ := Nat.exists_eq_add_of_lt hij
  induction d with
  | zero =>
    have := hstep (i - a) (by omega)
    rwa [show a + (i - a) = i by omega] at this
  | succ d ih =>
    have hprev := ih (by omega) (by omega)
    have hlast := hstep (i + d + 1 - a) (by omega)
    rw [show a + (i + d + 1 - a) = i + d + 1 by omega] at hlast
    refine hs.trans i (i + d + 1) _ ?_ ?_ ?_ (by omega) (by omega) (by omega) hprev hlast
    all_goals unfold InSeg; omega

end Insertion

section Pivot

theorem med3_cases (A : Cells α) (i j k : Nat) :
    med3 cmp A i j k = i ∨ med3 cmp A i j k = j ∨ med3 cmp A i j k = k := by
  unfold med3
  split_ifs <;> simp

theorem med3_inSeg {i j k : Nat} (hi : InSeg a n i) (hj : InSeg a n j) (hk : InSeg a n k) :
    InSeg a n (med3 cmp A i j k) := by
  rcases @med3_cases _ cmp A i j k with h | h | h <;> rw [h] <;> assumption

theorem pivotPos_inSeg (hn : 7 ≤ n) : InSeg a n (pivotPos cmp a n A) := by
  unfold pivotPos
  have hmid : InSeg a n (a + n / 2) := by unfold InSeg; omega
  simp only
  split_ifs with h7 h40
  · refine med3_inSeg (med3_inSeg ?_ ?_ ?_) (med3_inSeg ?_ ?_ ?_) (med3_inSeg ?_ ?_ ?_)
    all_goals unfold InSeg; omega
  · refine med3_inSeg ?_ hmid ?_
    all_goals unfold InSeg; omega
  · exact hmid

end Pivot

section Partition

/-- Below `pb` the elements are less than the pivot at `a`, above `pc` they are greater. -/
structure PartInv (cmp : α → α → Int) (a n : Nat) (A : Cells α) (s : PartState α) : Prop where
  perm : PermOn (a + 1) (n - 1) A s.A
  pa_eq : s.pa = a + 1
  pd_eq : s.pd = a + (n - 1)
  pb_gt : a < s.pb
  pb_le : s.pb ≤ s.pc + 1
  pc_lt : s.pc < a + n
  less : ∀ j, a < j → j < s.pb → cmp (s.A j) (s.A a) < 0
  greater : ∀ j, s.pc < j → j < a + n → 0 < cmp (s.A j) (s.A a)

theorem PartInv.strict {s : PartState α} (h : PartInv cmp a n A s) (hs : StrictOn cmp a n A)
    (hn : 1 ≤ n) : StrictOn cmp a n s.A :=
  hs.perm (h.perm.mono (by omega) (by omega))

theorem scanUp_inv (k : Nat) (s : PartState α) (hn : 1 ≤ n) (hs : StrictOn cmp a n A)
    (h : PartInv cmp a n A s) (hk : s.pb + k = s.pc + 1) :
    PartInv cmp a n A (scanUp cmp a k s) ∧ (scanUp cmp a k s).pc = s.pc ∧
      s.pb ≤ (scanUp cmp a k s).pb ∧
      ((scanUp cmp a k s).pb ≤ s.pc →
        0 < cmp ((scanUp cmp a k s).A (scanUp cmp a k s).pb) ((scanUp cmp a k s).A a)) := by
  induction k generalizing s with
  | zero => exact ⟨h, rfl, le_rfl, fun hle => by simp only [scanUp] at hle; omega⟩
  | succ k ih =>
    have hb : InSeg a n s.pb := ⟨by have := h.pb_gt; omega, by have := h.pc_lt; omega⟩
    have ha : InSeg a n a := ⟨le_rfl, by omega⟩
    have hba : s.pb ≠ a := by have := h.pb_gt; omega
    have hst := h.strict hs hn
    rw [scanUp]
    split
    · rename_i hle
      have hlt : cmp (s.A s.pb) (s.A a) < 0 := hst.neg_of_not_pos hb ha hba (by omega)
      rw [if_neg (by omega)]
      have hnext : PartInv cmp a n A { s with pb := s.pb + 1 } := by
        refine { h with pb_gt := ?_, pb_le := ?_, less := fun j hj hjb => ?_ }
        · have := h.pb_gt
          simp only; omega
        · simp only; omega
        · rcases Nat.lt_or_ge j s.pb with hlow | hhigh
          · exact h.less j hj hlow
          · simp only at hjb
            rw [show j = s.pb by omega]
            exact hlt
      obtain ⟨h1, h2, h3, h4⟩ := ih { s with pb := s.pb + 1 } hnext (by simp only; omega)
      exact ⟨h1, h2, by simp only at h3; omega, h4⟩
    · rename_i hle
      exact ⟨h, rfl, le_rfl, fun _ => by omega⟩

theorem scanDown_inv (k : Nat) (s : PartState α) (hn : 1 ≤ n) (hs : StrictOn cmp a n A)
    (h : PartInv cmp a n A s) (hk : s.pb + k = s.pc + 1) :
    PartInv cmp a n A (scanDown cmp a k s) ∧ (scanDown cmp a k s).pb = s.pb ∧
      (scanDown cmp a k s).A = s.A ∧ (scanDown cmp a k s).pc ≤ s.pc ∧
      (s.pb ≤ (scanDown cmp a k s).pc →
        cmp (s.A (scanDown cmp a k s).pc) (s.A a) < 0) := by
  induction k generalizing s with
  | zero => exact ⟨h, rfl, rfl, le_rfl, fun hle => by simp only [scanDown] at hle; omega⟩
  | succ k ih =>
    have hc : InSeg a n s.pc := ⟨by have := h.pb_gt; omega, h.pc_lt⟩
    have ha : InSeg a n a := ⟨le_rfl, by omega⟩
    have hca : s.pc ≠ a := by have := h.pb_gt; omega
    have hst := h.strict hs hn
    rw [scanDown]
    split
    · rename_i hge
      have hgt : 0 < cmp (s.A s.pc) (s.A a) := hst.pos_of_not_neg hc ha hca (by omega)
      rw [if_neg (by omega)]
      have hpb := h.pb_gt
      have hnext : PartInv cmp a n A { s with pc := s.pc - 1 } := by
        refine { h with pb_le := ?_, pc_lt := ?_, greater := fun j hj hjn => ?_ }
        · simp only; omega
        · have := h.pc_lt
          simp only; omega
        · rcases Nat.lt_or_ge s.pc j with hhigh | hlow
          · exact h.greater j hhigh hjn
          · simp only at hj
            rw [show j = s.pc by omega]
            exact hgt
      obtain ⟨h1, h2, h3, h4, h5⟩ := ih { s with pc := s.pc - 1 } hnext (by simp only; omega)
      exact ⟨h1, h2, h3, by simp only at h4; omega, h5⟩
    · rename_i hge
      exact ⟨h, rfl, rfl, le_rfl, fun _ => by omega⟩

/-- One pass of the partition loop either crosses the cursors or stands at a pair to exchange. -/
theorem scanBoth_inv (s : PartState α) (hn : 1 ≤ n) (hs : StrictOn cmp a n A)
    (h : PartInv cmp a n A s) :
    PartInv cmp a n A (scanBoth cmp a s) ∧
      (scanBoth cmp a s).pc + 1 - (scanBoth cmp a s).pb ≤ s.pc + 1 - s.pb ∧
      ((scanBoth cmp a s).pb ≤ (scanBoth cmp a s).pc →
        0 < cmp ((scanBoth cmp a s).A (scanBoth cmp a s).pb) ((scanBoth cmp a s).A a) ∧
        cmp ((scanBoth cmp a s).A (scanBoth cmp a s).pc) ((scanBoth cmp a s).A a) < 0) := by
  unfold scanBoth
  obtain ⟨hu, hupc, hupb, hstop⟩ :=
    scanUp_inv (s.pc + 1 - s.pb) s hn hs h (by have := h.pb_le; omega)
  generalize scanUp cmp a (s.pc + 1 - s.pb) s = u at hu hupc hupb hstop ⊢
  obtain ⟨hd, hdpb, hdA, hdpc, hdstop⟩ :=
    scanDown_inv (u.pc + 1 - u.pb) u hn hs hu (by have := hu.pb_le; omega)
  generalize scanDown cmp a (u.pc + 1 - u.pb) u = d at hd hdpb hdA hdpc hdstop ⊢
  refine ⟨hd, by omega, fun hle => ?_⟩
  rw [hdA, hdpb] at *
  exact ⟨hstop (by omega), hdstop hle⟩

theorem partitionLoop_spec (fuel : Nat) (s : PartState α) (hn : 1 ≤ n) (hs : StrictOn cmp a n A)
    (h : PartInv cmp a n A s) (hf : s.pc + 1 - s.pb ≤ fuel) :
    PartInv cmp a n A (partitionLoop cmp a fuel s) ∧
      (partitionLoop cmp a fuel s).pb = (partitionLoop cmp a fuel s).pc + 1 := by
  induction fuel generalizing s with
  | zero => exact ⟨h, by have := h.pb_le; simp only [partitionLoop]; omega⟩
  | succ fuel ih =>
    rw [partitionLoop]
    obtain ⟨hb, hshrink, hpair⟩ := scanBoth_inv s hn hs h
    generalize scanBoth cmp a s = b at hb hshrink hpair ⊢
    have hble := hb.pb_le
    have hbgt := hb.pb_gt
    have hclt := hb.pc_lt
    split
    · exact ⟨hb, by omega⟩
    · rename_i hcross
      obtain ⟨hgt, hlt⟩ := hpair (by omega)
      have hne : b.pb ≠ b.pc := by
        intro heq
        rw [heq] at hgt
        omega
      refine ih _ ?_ (by simp only; omega)
      have hswap : PermOn (a + 1) (n - 1) b.A (swapCells b.A b.pb b.pc) := by
        refine PermOn.swap _ ?_ ?_
        all_goals unfold InSeg; omega
      have hpiv : swapCells b.A b.pb b.pc a = b.A a := swapCells_of_ne _ (by omega) (by omega)
      refine ⟨hb.perm.trans hswap, hb.pa_eq, hb.pd_eq, ?_, ?_, ?_, ?_, ?_⟩
      · simp only; omega
      · simp only; omega
      · simp only; omega
      · intro j hj hjb
        simp only [hpiv] at hjb ⊢
        rcases Nat.lt_or_ge j b.pb with hlow | hhigh
        · rw [swapCells_of_ne _ (by omega) (by omega)]
          exact hb.less j hj hlow
        · rw [show j = b.pb by omega, swapCells_left]
          exact hlt
      · intro j hj hjn
        simp only [hpiv] at hj ⊢
        rcases Nat.lt_or_ge b.pc j with hhigh | hlow
        · rw [swapCells_of_ne _ (by omega) (by omega)]
          exact hb.greater j hhigh hjn
        · rw [show j = b.pc by omega, swapCells_right]
          exact hgt

/-- After the partition the pivot stands at its final place `m` between the two parts. -/
theorem partitioned_spec (hn : 7 ≤ n) (hs : StrictOn cmp a n A) :
    ∃ m, InSeg a n m ∧ (partitioned cmp a n A).pb - (partitioned cmp a n A).pa = m - a ∧
      (partitioned cmp a n A).pd - (partitioned cmp a n A).pc = a + n - (m + 1) ∧
      PermOn a n A (partitioned cmp a n A).A ∧
      (∀ j, a ≤ j → j < m →
        cmp ((partitioned cmp a n A).A j) ((partitioned cmp a n A).A m) < 0) ∧
      (∀ j, m < j → j < a + n →
        cmp ((partitioned cmp a n A).A m) ((partitioned cmp a n A).A j) < 0) := by
  have ha : InSeg a n a := ⟨le_rfl, by omega⟩
  have hpiv : PermOn a n A (swapCells A a (pivotPos cmp a n A)) :=
    PermOn.swap A ha (pivotPos_inSeg hn)
  have hstart : PartInv cmp a n (swapCells A a (pivotPos cmp a n A))
      ⟨swapCells A a (pivotPos cmp a n A), a + 1, a + 1, a + (n - 1), a + (n - 1)⟩ := by
    refine ⟨PermOn.refl _ _ _, rfl, rfl, ?_, ?_, ?_, fun j h1 h2 => ?_, fun j h1 h2 => ?_⟩ <;>
      simp only at * <;> omega
  have hs0 := hs.perm hpiv
  obtain ⟨hinv, hcross⟩ := partitionLoop_spec n _ (by omega) hs0 hstart (by simp only; omega)
  unfold partitioned
  generalize swapCells A a (pivotPos cmp a n A) = A0 at *
  generalize partitionLoop cmp a n _ = s at hinv hcross ⊢
  have hst := hinv.strict hs0 (by omega)
  have hpa := hinv.pa_eq
  have hpd := hinv.pd_eq
  have hpb := hinv.pb_gt
  have hpc := hinv.pc_lt
  have hm : InSeg a n s.pc := ⟨by omega, hpc⟩
  -- the second exchange is empty, and the first one puts the pivot at `pc`
  have hright : min (s.pd - s.pc) (a + n - s.pd - 1) = 0 := by omega
  have hmove : swapN s.A a (s.pb - min (s.pa - a) (s.pb - s.pa)) (min (s.pa - a) (s.pb - s.pa)) =
      swapCells s.A a s.pc := by
    rcases Nat.eq_or_lt_of_le (show a ≤ s.pc by omega) with heq | hlt
    · rw [show min (s.pa - a) (s.pb - s.pa) = 0 by omega, ← heq, swapCells_self]
      rfl
    · rw [show min (s.pa - a) (s.pb - s.pa) = 1 by omega]
      simp only [swapN, Nat.add_zero]
      rw [show s.pb - 1 = s.pc by omega]
  refine ⟨s.pc, hm, ?_, ?_, ?_, ?_, ?_⟩
  · simp only; omega
  · simp only; omega
  · simp only [hright, hmove, swapN]
    exact (hpiv.trans (hinv.perm.mono (by omega) (by omega))).trans (PermOn.swap _ ha hm)
  · intro j hj hjm
    simp only [hright, hmove, swapN, swapCells_right]
    rcases Nat.eq_or_lt_of_le hj with rfl | hlt
    · rw [swapCells_left]
      exact hinv.less s.pc (by omega) (by omega)
    · rw [swapCells_of_ne _ (by omega) (by omega)]
      exact hinv.less j hlt (by omega)
  · intro j hj hjn
    simp only [hright, hmove, swapN, swapCells_right]
    rw [swapCells_of_ne _ (by omega) (by omega)]
    exact (hst.flip j a ⟨by omega, hjn⟩ ha (by omega)).mp (hinv.greater j hj hjn)

end Partition

/-- Two sorted parts around a pivot that separates them make a sorted segment. -/
theorem sorted_of_parts {m : Nat} (hm : InSeg a n m) (hs : StrictOn cmp a n A)
    (hleft : SortedOn cmp a (m - a) A) (hright : SortedOn cmp (m + 1) (a + n - (m + 1)) A)
    (hless : ∀ j, a ≤ j → j < m → cmp (A j) (A m) < 0)
    (hgreater : ∀ j, m < j → j < a + n → cmp (A m) (A j) < 0) : SortedOn cmp a n A := by
  obtain ⟨ham, hmn⟩ := hm
  intro i j hi hij hj
  rcases Nat.lt_trichotomy i m with him | rfl | him
  · rcases Nat.lt_trichotomy j m with hjm | rfl | hjm
    · exact hleft i j hi hij (by omega)
    · exact hless i hi him
    · exact hs.trans i m j ⟨hi, by omega⟩ ⟨ham, hmn⟩ ⟨by omega, hj⟩ (by omega) (by omega) (by omega)
        (hless i hi him) (hgreater j hjm hj)
  · exact hgreater j hij hj
  · exact hright i j (by omega) hij (by omega)

/-- Sorting one part of a segment that a pivot at `m` separates keeps it separated. -/
theorem separated_perm {m b d : Nat} (hp : PermOn b d A B)
    (hpart : (b = a ∧ a + d = m) ∨ (b = m + 1 ∧ m + 1 + d = a + n))
    (hless : ∀ j, a ≤ j → j < m → cmp (A j) (A m) < 0)
    (hgreater : ∀ j, m < j → j < a + n → cmp (A m) (A j) < 0) :
    (∀ j, a ≤ j → j < m → cmp (B j) (B m) < 0) ∧
      (∀ j, m < j → j < a + n → cmp (B m) (B j) < 0) := by
  have hmid : B m = A m := hp.outside (by unfold InSeg; omega)
  refine ⟨fun j hj hjm => ?_, fun j hj hjn => ?_⟩ <;> rw [hmid]
  · by_cases hin : InSeg b d j
    · exact hp.forall_cells (P := fun x => cmp x (A m) < 0)
        (fun k hk => hless k (by unfold InSeg at *; omega) (by unfold InSeg at *; omega)) hin
    · rw [hp.outside hin]
      exact hless j hj hjm
  · by_cases hin : InSeg b d j
    · exact hp.forall_cells (P := fun x => cmp (A m) x < 0)
        (fun k hk => hgreater k (by unfold InSeg at *; omega) (by unfold InSeg at *; omega)) hin
    · rw [hp.outside hin]
      exact hgreater j hj hjn

theorem SortedOn.congr_outside {b m : Nat} (h : SortedOn cmp a n A)
    (hp : PermOn b m A B) (hdisj : ∀ k, InSeg a n k → ¬ InSeg b m k) : SortedOn cmp a n B := by
  intro i j hi hij hj
  rw [hp.outside (hdisj i ⟨hi, by omega⟩), hp.outside (hdisj j ⟨by omega, hj⟩)]
  exact h i j hi hij hj

theorem sorted_short (hn : ¬ 1 < n) : SortedOn cmp a n A := fun i j hi hij hj => by omega

/-- With as much fuel as elements the routine rearranges the segment into increasing order. -/
theorem pgQsort_spec (fuel a n : Nat) (A : Cells α) (hf : n ≤ fuel) (hs : StrictOn cmp a n A) :
    PermOn a n A (pgQsort cmp fuel a n A) ∧ SortedOn cmp a n (pgQsort cmp fuel a n A) := by
  induction fuel generalizing a n A with
  | zero => exact ⟨PermOn.refl a n A, sorted_short (by omega)⟩
  | succ fuel ih =>
    -- a part is sorted by a recursive call, or is too short to need one
    have hpart : ∀ b d B, d ≤ fuel → StrictOn cmp b d B →
        PermOn b d B (if 1 < d then pgQsort cmp fuel b d B else B) ∧
          SortedOn cmp b d (if 1 < d then pgQsort cmp fuel b d B else B) := by
      intro b d B hd hB
      split
      · exact ih b d B hd hB
      · rename_i hshort
        exact ⟨PermOn.refl b d B, sorted_short hshort⟩
    rw [pgQsort]
    split
    · rename_i h7
      rcases Nat.eq_zero_or_pos n with rfl | hpos
      · exact ⟨PermOn.refl a 0 A, sorted_short (by omega)⟩
      · obtain ⟨h1, h2⟩ := insertionSort_spec (n - 1) (by omega) hs
        exact ⟨h1, by rwa [Nat.sub_add_cancel hpos] at h2⟩
    · rename_i h7
      split
      · rename_i hpre
        exact ⟨PermOn.refl a n A, sorted_of_presorted hs hpre⟩
      · obtain ⟨m, hm, hd1, hd2, hperm, hless, hgreater⟩ := partitioned_spec (by omega) hs
        generalize partitioned cmp a n A = s at *
        have hm' := hm
        obtain ⟨ham, hmn⟩ := hm'
        have hst := hs.perm hperm
        simp only [hd1, hd2, show a + n - (a + n - (m + 1)) = m + 1 by omega]
        have hdisj : ∀ k, InSeg a (m - a) k → ¬ InSeg (m + 1) (a + n - (m + 1)) k := by
          intro k; unfold InSeg; omega
        have hdisj' : ∀ k, InSeg (m + 1) (a + n - (m + 1)) k → ¬ InSeg a (m - a) k := by
          intro k; unfold InSeg; omega
        split
        · obtain ⟨p1, o1⟩ := hpart a (m - a) s.A (by omega) (hst.sub le_rfl (by omega))
          generalize (if 1 < m - a then pgQsort cmp fuel a (m - a) s.A else s.A) = B at *
          have q1 : PermOn a n s.A B := p1.mono le_rfl (by omega)
          obtain ⟨p2, o2⟩ := hpart (m + 1) (a + n - (m + 1)) B (by omega)
            ((hst.perm q1).sub (by omega) (by omega))
          generalize (if 1 < a + n - (m + 1) then pgQsort cmp fuel (m + 1) (a + n - (m + 1)) B
            else B) = C at *
          have q2 : PermOn a n B C := p2.mono (by omega) (by omega)
          obtain ⟨l1, g1⟩ := separated_perm (n := n) p1 (.inl ⟨rfl, by omega⟩) hless hgreater
          obtain ⟨l2, g2⟩ := separated_perm (n := n) p2 (.inr ⟨rfl, by omega⟩) l1 g1
          exact ⟨(hperm.trans q1).trans q2, sorted_of_parts hm ((hst.perm q1).perm q2)
            (o1.congr_outside p2 hdisj) o2 l2 g2⟩
        · obtain ⟨p1, o1⟩ := hpart (m + 1) (a + n - (m + 1)) s.A (by omega)
            (hst.sub (by omega) (by omega))
          generalize (if 1 < a + n - (m + 1) then pgQsort cmp fuel (m + 1) (a + n - (m + 1)) s.A
            else s.A) = B at *
          have q1 : PermOn a n s.A B := p1.mono (by omega) (by omega)
          obtain ⟨p2, o2⟩ := hpart a (m - a) B (by omega) ((hst.perm q1).sub le_rfl (by omega))
          generalize (if 1 < m - a then pgQsort cmp fuel a (m - a) B else B) = C at *
          have q2 : PermOn a n B C := p2.mono le_rfl (by omega)
          obtain ⟨l1, g1⟩ := separated_perm (n := n) p1 (.inr ⟨rfl, by omega⟩) hless hgreater
          obtain ⟨l2, g2⟩ := separated_perm (n := n) p2 (.inl ⟨rfl, by omega⟩) l1 g1
          exact ⟨(hperm.trans q1).trans q2, sorted_of_parts hm ((hst.perm q1).perm q2) o2
            (o1.congr_outside p2 hdisj') l2 g2⟩

end XStore.Sort
