import Mathlib.Data.List.Nodup
import Mathlib.Data.List.TakeWhile

/-!
# Scanning a table of bucket chains

An iterator over a hash table stands in a bucket and, once it has begun the chain there, at a place
inside it.  A scan that is resumed from the number of the bucket alone comes back to the start of the
chain, so what it returns depends on where the wanted entries are in their chains.
-/
namespace XStore

open List

variable {α : Type*}

/-- The iterator: its bucket, and what is left of the chain it has begun. -/
structure BucketSeq (α : Type*) where
  curBucket : Nat
  curEntry : List α

/-- The place behind an entry that has `chain` behind it in bucket `b`. -/
def BucketSeq.behind (b : Nat) (chain : List α) : BucketSeq α :=
  ⟨if chain.isEmpty then b + 1 else b, chain⟩

def searchBuckets : List (List α) → Nat → Option α × BucketSeq α
  | [], b => (none, ⟨b, []⟩)
  | [] :: rest, b => searchBuckets rest (b + 1)
  | (e :: chain) :: _, b => (some e, .behind b chain)

def hashSeqSearch (buckets : List (List α)) (s : BucketSeq α) : Option α × BucketSeq α :=
  match s.curEntry with
  | e :: chain => (some e, .behind s.curBucket chain)
  | [] => searchBuckets (buckets.drop s.curBucket) s.curBucket

def seqFind (buckets : List (List α)) (p : α → Bool) : Nat → BucketSeq α → Option α × BucketSeq α
  | 0, s => (none, s)
  | fuel + 1, s =>
    match hashSeqSearch buckets s with
    | (none, s') => (none, s')
    | (some e, s') => if p e then (some e, s') else seqFind buckets p fuel s'

/-- A scan from the start of bucket `b`, with the bucket to resume it from.  Every entry is looked at
once, so the fuel is enough. -/
def resumeScan (buckets : List (List α)) (p : α → Bool) (b : Nat) : Option α × Nat :=
  match seqFind buckets p (buckets.flatten.length + 1) ⟨b, []⟩ with
  | (none, _) => (none, 0)
  | (some e, s) => (some e, s.curBucket)

/-- What `n` scans return, each resumed where the one before has left off. -/
def resumedScans (buckets : List (List α)) (p : α → Bool) : Nat → Nat → List (Option α)
  | 0, _ => []
  | n + 1, b => (resumeScan buckets p b).1 :: resumedScans buckets p n (resumeScan buckets p b).2

/-- The first wanted entry of the chains from bucket `b` on, with the place behind it. -/
def firstWanted (p : α → Bool) : List (List α) → Nat → Option (α × BucketSeq α)
  | [], _ => none
  | c :: cs, b =>
    match c.dropWhile (!p ·) with
    | [] => firstWanted p cs (b + 1)
    | e :: chain => some (e, .behind b chain)

section Scan

variable (buckets : List (List α)) (p : α → Bool)

theorem seqFind_chain (b : Nat) (chain : List α) (hne : chain ≠ []) (fuel : Nat) :
    seqFind buckets p (chain.length + fuel) ⟨b, chain⟩ =
      match chain.dropWhile (!p ·) with
      | [] => seqFind buckets p fuel ⟨b + 1, []⟩
      | e :: rest => (some e, .behind b rest) := by
  induction chain with
  | nil => exact absurd rfl hne
  | cons e rest ih =>
    rw [length_cons, Nat.add_right_comm, seqFind, hashSeqSearch]
    by_cases hp : p e = true
    · simp [hp]
    · simp only [hp, Bool.false_eq_true, if_false, dropWhile_cons, Bool.not_false, if_true]
      cases rest with
      | nil => simp [BucketSeq.behind]
      | cons f rest => exact ih (cons_ne_nil f rest)

theorem seqFind_eq (cs : List (List α)) (b fuel : Nat) (hdrop : buckets.drop b = cs)
    (hfuel : cs.flatten.length < fuel) :
    (firstWanted p cs b = none → (seqFind buckets p fuel ⟨b, []⟩).1 = none) ∧
      ∀ e s, firstWanted p cs b = some (e, s) → seqFind buckets p fuel ⟨b, []⟩ = (some e, s) := by
  induction cs generalizing b fuel with
  | nil =>
    obtain ⟨fuel, rfl⟩ := Nat.exists_eq_add_of_lt hfuel
    refine ⟨fun _ => ?_, (fun e s h => by cases h)⟩
    rw [seqFind, hashSeqSearch]
    simp only [hdrop, searchBuckets]
  | cons c cs ih =>
    have hnext : buckets.drop (b + 1) = cs := by
      rw [← tail_drop, hdrop, tail_cons]
    cases c with
    | nil =>
      have hsame : seqFind buckets p fuel ⟨b, []⟩ = seqFind buckets p fuel ⟨b + 1, []⟩ := by
        cases fuel with
        | zero => exact absurd hfuel (Nat.not_lt_zero _)
        | succ fuel => simp only [seqFind, hashSeqSearch, hdrop, hnext, searchBuckets]
      rw [hsame]
      exact ih (b + 1) fuel hnext (by simpa using hfuel)
    | cons e chain =>
      have hsame : seqFind buckets p fuel ⟨b, []⟩ = seqFind buckets p fuel ⟨b, e :: chain⟩ := by
        cases fuel with
        | zero => exact absurd hfuel (Nat.not_lt_zero _)
        | succ fuel => simp only [seqFind, hashSeqSearch, hdrop, searchBuckets]
      rw [flatten_cons, length_append] at hfuel
      obtain ⟨more, rfl⟩ := Nat.exists_eq_add_of_le (by omega : (e :: chain).length ≤ fuel)
      rw [hsame, seqFind_chain buckets p b (e :: chain) (cons_ne_nil e chain), firstWanted]
      cases (e :: chain).dropWhile (!p ·) with
      | nil => exact ih (b + 1) more hnext (by omega)
      | cons f rest =>
        refine ⟨(fun h => by cases h), ?_⟩
        intro f' s h
        cases h
        rfl

theorem resumeScan_eq (b : Nat) :
    resumeScan buckets p b =
      match firstWanted p (buckets.drop b) b with
      | none => (none, 0)
      | some (e, s) => (some e, s.curBucket) := by
  have hlen : (buckets.drop b).flatten.length < buckets.flatten.length + 1 := by
    apply Nat.lt_succ_of_le
    conv_rhs => rw [← take_append_drop b buckets, flatten_append, length_append]
    exact Nat.le_add_left _ _
  obtain ⟨hnone, hsome⟩ := seqFind_eq buckets p _ b _ rfl hlen
  rw [resumeScan]
  cases hfirst : firstWanted p (buckets.drop b) b with
  | none =>
    have h := hnone hfirst
    generalize seqFind buckets p (buckets.flatten.length + 1) ⟨b, []⟩ = r at h
    obtain ⟨_, s⟩ := r
    cases h
    rfl
  | some r =>
    obtain ⟨e, s⟩ := r
    rw [hsome e s hfirst]

end Scan

/-- The first wanted entry of a chain is the last one of the chain. -/
def WantedLast (p : α → Bool) (c : List α) : Prop := ∀ e rest, c.dropWhile (!p ·) = e :: rest → rest = []

section First

variable {p : α → Bool} {c : List α} {e : α}

theorem filter_eq_of_dropWhile {rest : List α}
    (h : c.dropWhile (!p ·) = e :: rest) : c.filter p = e :: rest.filter p := by
  induction c with
  | nil => cases h
  | cons f c ih =>
    by_cases hp : p f = true
    · simp only [dropWhile_cons, hp, Bool.not_true, Bool.false_eq_true, if_false] at h
      obtain ⟨rfl, rfl⟩ := List.cons.inj h
      rw [filter_cons_of_pos hp]
    · simp only [dropWhile_cons, hp, Bool.not_false, if_true] at h
      rw [filter_cons_of_neg hp, ih h]

theorem filter_eq_nil_of_dropWhile (h : c.dropWhile (!p ·) = []) : c.filter p = [] := by
  rw [filter_eq_nil_iff]
  intro e he
  simpa using dropWhile_eq_nil_iff.mp h e he

variable (p) in
theorem firstWanted_head (cs : List (List α)) (b : Nat) :
    (firstWanted p cs b).map Prod.fst = (cs.flatten.filter p).head? := by
  induction cs generalizing b with
  | nil => rfl
  | cons c cs ih =>
    rw [firstWanted, flatten_cons, filter_append]
    cases hc : c.dropWhile (!p ·) with
    | nil => simp [filter_eq_nil_of_dropWhile hc, ih]
    | cons e rest => simp [filter_eq_of_dropWhile hc]

/-- If the wanted entries are last in their chains, the rest of them is behind the entry. -/
theorem firstWanted_rest {buckets cs : List (List α)} {b : Nat} {s : BucketSeq α}
    (hdrop : buckets.drop b = cs) (hlast : ∀ c ∈ cs, WantedLast p c)
    (h : firstWanted p cs b = some (e, s)) :
    cs.flatten.filter p = e :: (buckets.drop s.curBucket).flatten.filter p := by
  induction cs generalizing b with
  | nil => cases h
  | cons c cs ih =>
    have hnext : buckets.drop (b + 1) = cs := by
      rw [← tail_drop, hdrop, tail_cons]
    rw [firstWanted] at h
    rw [flatten_cons, filter_append]
    cases hc : c.dropWhile (!p ·) with
    | nil =>
      rw [hc] at h
      rw [filter_eq_nil_of_dropWhile hc, nil_append]
      exact ih hnext (fun c' hc' => hlast c' (mem_cons_of_mem c hc')) h
    | cons f rest =>
      rw [hc] at h
      cases h
      have hrest := hlast c mem_cons_self _ rest hc
      subst hrest
      rw [filter_eq_of_dropWhile hc, BucketSeq.behind]
      simp [hnext]

end First

section Resume

variable {buckets : List (List α)} {p : α → Bool}

theorem resumeScan_fst (b : Nat) :
    (resumeScan buckets p b).1 = ((buckets.drop b).flatten.filter p).head? := by
  rw [resumeScan_eq, ← firstWanted_head p (buckets.drop b) b]
  cases firstWanted p (buckets.drop b) b <;> rfl

theorem resumeScan_none {b : Nat} (h : (resumeScan buckets p b).1 = none) : (resumeScan buckets p b).2 = 0 := by
  rw [resumeScan_eq] at h ⊢
  cases hfirst : firstWanted p (buckets.drop b) b with
  | none => rfl
  | some r =>
    rw [hfirst] at h
    cases h

/-- Up to the end of the table every wanted entry is returned in turn. -/
theorem resumedScans_round (hlast : ∀ c ∈ buckets, WantedLast p c) (m : Nat) (wanted : List α) (b : Nat)
    (hwanted : (buckets.drop b).flatten.filter p = wanted) :
    resumedScans buckets p (wanted.length + (m + 1)) b =
      wanted.map some ++ none :: resumedScans buckets p m 0 := by
  have hhead := firstWanted_head p (buckets.drop b) b
  rw [hwanted] at hhead
  induction wanted generalizing b with
  | nil =>
    have hnone : firstWanted p (buckets.drop b) b = none := by simpa using hhead
    rw [length_nil, Nat.zero_add, resumedScans, resumeScan_eq, hnone]
    rfl
  | cons e wanted ih =>
    obtain ⟨⟨f, s⟩, hfirst, rfl⟩ := Option.map_eq_some_iff.mp hhead
    have hrest := firstWanted_rest rfl (fun c hc => hlast c (mem_of_mem_drop hc)) hfirst
    rw [hwanted] at hrest
    have htail := (List.cons.inj hrest).2.symm
    rw [length_cons, Nat.add_right_comm, resumedScans, resumeScan_eq, hfirst]
    simp only [map_cons, cons_append]
    congr 1
    apply ih s.curBucket htail
    rw [← htail]
    exact firstWanted_head p _ _

theorem mem_resumedScans_mono {b m n : Nat} {r : Option α} (hmn : m ≤ n)
    (h : r ∈ resumedScans buckets p m b) : r ∈ resumedScans buckets p n b := by
  induction m generalizing b n with
  | zero => cases h
  | succ m ih =>
    obtain ⟨n, rfl⟩ := Nat.exists_eq_add_of_le' (Nat.le_trans (Nat.succ_le_succ (Nat.zero_le m)) hmn)
    rw [resumedScans] at h ⊢
    rcases mem_cons.mp h with h | h
    · exact h ▸ mem_cons_self
    · exact mem_cons_of_mem _ (ih (Nat.le_of_succ_le_succ hmn) h)

/-- From a bucket whose first wanted entry has others behind it, the scan does not get away. -/
theorem resumedScans_stuck {k : Nat} {c : List α} {e : α} {rest : List α} (hk : buckets[k]? = some c)
    (hc : c.dropWhile (!p ·) = e :: rest) (hrest : rest ≠ []) (n : Nat) :
    resumedScans buckets p n k = List.replicate n (some e) := by
  obtain ⟨hlt, hget⟩ := List.getElem?_eq_some_iff.mp hk
  have hscan : resumeScan buckets p k = (some e, k) := by
    rw [resumeScan_eq, drop_eq_getElem_cons hlt, hget, firstWanted, hc]
    simp [BucketSeq.behind, hrest]
  induction n with
  | zero => rfl
  | succ n ih => rw [resumedScans, hscan, ih, replicate_succ]

/-- All wanted entries come up from wherever the scan is resumed, exactly if there is only one of them
or each is the last of its chain. -/
theorem resumedScans_complete_iff (hnodup : buckets.flatten.Nodup) :
    (∀ b ≤ buckets.length, ∀ n ≥ 2 * buckets.flatten.length + 2, ∀ e ∈ buckets.flatten, p e = true →
      some e ∈ resumedScans buckets p n b) ↔
    (∀ c ∈ buckets, WantedLast p c) ∨ (buckets.flatten.filter p).length ≤ 1 := by
  constructor
  · intro hall
    by_contra hnot
    rw [not_or, Nat.not_le] at hnot
    obtain ⟨hstuck, htwo⟩ := hnot
    simp only [WantedLast, not_forall] at hstuck
    obtain ⟨c, hmem, e, rest, hc, hrest⟩ := hstuck
    obtain ⟨k, hk⟩ := mem_iff_getElem?.mp hmem
    -- only `e` comes up from the bucket of `c`
    have honly : ∀ f ∈ buckets.flatten.filter p, f = e := by
      intro f hf
      obtain ⟨hf, hpf⟩ := mem_filter.mp hf
      have hreturned := hall k (Nat.le_of_lt (List.getElem?_eq_some_iff.mp hk).1)
        (2 * buckets.flatten.length + 2) (Nat.le_refl _) f hf hpf
      rw [resumedScans_stuck hk hc hrest] at hreturned
      exact Option.some.inj (eq_of_mem_replicate hreturned)
    have hle := (hnodup.filter p).length_le_of_subset (fun f hf => mem_singleton.mpr (honly f hf))
    rw [length_singleton] at hle
    omega
  · rintro (hlast | hone) b - n hn e he hp
    · -- the rest of this round, and one round from the start
      have hlen : ((buckets.drop b).flatten.filter p).length ≤ buckets.flatten.length := by
        apply Nat.le_trans (length_filter_le _ _)
        conv_rhs => rw [← take_append_drop b buckets, flatten_append, length_append]
        exact Nat.le_add_left _ _
      have hlen₀ := length_filter_le p buckets.flatten
      obtain ⟨m, rfl⟩ := Nat.exists_eq_add_of_le (by omega :
        ((buckets.drop b).flatten.filter p).length + ((buckets.flatten.filter p).length + 1 + 1) ≤ n)
      have hround := resumedScans_round hlast ((buckets.flatten.filter p).length + (m + 1)) _ b rfl
      have hsecond := resumedScans_round hlast m (buckets.flatten.filter p) 0 (by simp)
      have hn' : ((buckets.drop b).flatten.filter p).length + ((buckets.flatten.filter p).length + 1 + 1) + m =
          ((buckets.drop b).flatten.filter p).length + ((buckets.flatten.filter p).length + (m + 1) + 1) := by
        omega
      rw [hn', hround, hsecond]
      apply mem_append_right
      apply mem_cons_of_mem
      apply mem_append_left
      exact mem_map_of_mem (mem_filter.mpr ⟨he, hp⟩)
    · -- the one entry comes up in this scan, or in the next one from the start
      have hsingle : buckets.flatten.filter p = [e] := by
        have hmem : e ∈ buckets.flatten.filter p := mem_filter.mpr ⟨he, hp⟩
        obtain ⟨f, hf⟩ := length_eq_one_iff.mp
          (Nat.le_antisymm hone (length_pos_of_mem hmem))
        rw [hf] at hmem ⊢
        rw [mem_singleton.mp hmem]
      apply mem_resumedScans_mono (by omega : 2 ≤ n)
      cases hfirst : (resumeScan buckets p b).1 with
      | none =>
        have hstart : (resumeScan buckets p 0).1 = some e := by
          rw [resumeScan_fst, drop_zero, hsingle, head?_cons]
        rw [resumedScans, resumedScans, resumeScan_none hfirst, hstart]
        simp
      | some f =>
        have hf : f ∈ buckets.flatten.filter p := by
          rw [resumeScan_fst] at hfirst
          have hf := mem_of_mem_head? hfirst
          rw [mem_filter] at hf ⊢
          obtain ⟨c, hc, hfc⟩ := mem_flatten.mp hf.1
          exact ⟨mem_flatten.mpr ⟨c, mem_of_mem_drop hc, hfc⟩, hf.2⟩
        rw [hsingle] at hf
        rw [resumedScans, hfirst, mem_singleton.mp hf]
        exact mem_cons_self

end Resume

end XStore
