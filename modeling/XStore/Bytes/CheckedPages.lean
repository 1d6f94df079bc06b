import XStore.Bytes.Memory
import Mathlib.Algebra.Order.Ring.Nat

/-!
# Tables of records on checked pages

A table of records of one size, `perPage` of them on a page, with a checksum of four bytes behind the
last record of each page. The pages are filled in a buffer, record by record, and copied to where the
table stands.
-/
namespace XStore

namespace Memory

variable {m b : Memory} {a c n : Nat} {i : Nat}

theorem store_load_inside (h : i < n) : m.store a (b.load c n) (a + i) = b (c + i) := by
  have hi : i < (b.load c n).length := by simpa using h
  rw [store_inside m a _ hi]
  simp [load]

theorem store_load_outside (h : i < a ∨ a + n ≤ i) : m.store a (b.load c n) i = m i :=
  store_outside m a _ (by simpa using h)

theorem load_congr {m' : Memory} {a' len x k : Nat} (h : ∀ i < len, m (a + i) = m' (a' + i))
    (hx : x + k ≤ len) : m.load (a + x) k = m'.load (a' + x) k := by
  rw [load_eq_iff]
  intro i hi
  rw [Nat.add_assoc, Nat.add_assoc]
  exact h (x + i) (by omega)

end Memory

def wordBytes (ws : List UInt64) : List UInt8 := ws.flatMap fun v => leBytes 8 v.toNat

def wordAt (bs : List UInt8) (i : Nat) : UInt64 := UInt64.ofNat (leNat ((bs.drop (8 * i)).take 8))

@[simp] theorem wordBytes_length (ws : List UInt64) : (wordBytes ws).length = ws.length * 8 := by
  simp [wordBytes]

theorem wordAt_wordBytes {ws : List UInt64} {i : Nat} {v : UInt64} (h : ws[i]? = some v) :
    wordAt (wordBytes ws) i = v := by
  induction ws generalizing i with
  | nil => simp at h
  | cons w ws ih =>
    have hlen : (leBytes 8 w.toNat).length = 8 := leBytes_length _ _
    cases i with
    | zero =>
      obtain rfl : w = v := by simpa using h
      have htake : ((wordBytes (w :: ws)).drop (8 * 0)).take 8 = leBytes 8 w.toNat :=
        List.take_left' hlen
      rw [wordAt, htake, leNat_leBytes w.toNat_lt, UInt64.ofNat_toNat]
    | succ i =>
      have hdrop : (wordBytes (w :: ws)).drop (8 * (i + 1)) = (wordBytes ws).drop (8 * i) := by
        rw [Nat.mul_succ, Nat.add_comm, ← List.drop_drop]
        exact congrArg _ (List.drop_left' hlen)
      rw [wordAt, hdrop]
      exact ih (by simpa using h)

structure RecordPages where
  page : Nat
  size : Nat
  perPage : Nat
  /-- How many records the table has. -/
  total : Nat
  perPage_pos : 0 < perPage
  fits : perPage * size + 4 ≤ page

namespace RecordPages

variable (T : RecordPages) (crc : List UInt8 → UInt32) (n : Nat)

/-- How many of `n` records stand on a page. -/
def count (p : Nat) : Nat := min T.perPage (n - p * T.perPage)

structure PageAt (m : Memory) (a p : Nat) (record : Nat → List UInt8) : Prop where
  stored : ∀ l < n, l / T.perPage = p → m.load (a + l % T.perPage * T.size) T.size = record l
  checked : leNat (m.load (a + T.count n p * T.size) 4) =
    (crc (m.load a (T.count n p * T.size))).toNat

variable {T crc n} {m m' b : Memory} {a a' p p₀ c d l : Nat} {record : Nat → List UInt8} {i j : Nat}

variable (T) in
theorem count_fits (n p : Nat) : T.count n p * T.size + 4 ≤ T.page := by
  have h : T.count n p * T.size ≤ T.perPage * T.size := Nat.mul_le_mul_right _ (min_le_left _ _)
  exact (Nat.add_le_add_right h 4).trans T.fits

variable (T) in
theorem mod_lt_count (hl : l < n) : l % T.perPage < T.count n (l / T.perPage) := by
  have hm := Nat.mod_lt l T.perPage_pos
  have hd := Nat.div_add_mod' l T.perPage
  rw [count, lt_min_iff]
  omega

variable (T) in
theorem slot_le (h : i < j) : i * T.size + T.size ≤ j * T.size := by
  have := Nat.mul_le_mul_right T.size (Nat.succ_le_of_lt h)
  rwa [Nat.succ_mul] at this

variable (T) in
theorem record_fits (hl : l < n) :
    l % T.perPage * T.size + T.size ≤ T.count n (l / T.perPage) * T.size :=
  T.slot_le (T.mod_lt_count hl)

theorem page_le (h : i < j) : i * T.page + T.page ≤ j * T.page := by
  have := Nat.mul_le_mul_right T.page (Nat.succ_le_of_lt h)
  rwa [Nat.succ_mul] at this

variable (T) in
/-- The page that ends behind a record is the page of the record. -/
theorem eq_div_of_end (hn : p * T.perPage < n) (hend : p * T.perPage + T.count n p = c + 1) :
    p = c / T.perPage := by
  have hpos : 0 < T.count n p := lt_min T.perPage_pos (by omega)
  have hle : T.count n p ≤ T.perPage := min_le_left _ _
  refine (Nat.div_eq_of_lt_le ?_ ?_).symm
  · omega
  · rw [Nat.succ_mul]
    omega

variable (T) in
theorem count_full (hend : (c + 1) % T.perPage = 0) (hc : c < n) :
    T.count n (c / T.perPage) = T.perPage := by
  obtain ⟨k, hk⟩ := Nat.dvd_of_mod_eq_zero hend
  obtain ⟨j, rfl⟩ : ∃ j, k = j + 1 := by
    refine Nat.exists_eq_succ_of_ne_zero ?_
    rintro rfl
    omega
  have hpos := T.perPage_pos
  rw [Nat.mul_succ, Nat.mul_comm] at hk
  have hdiv : c / T.perPage = j := by
    refine Nat.div_eq_of_lt_le ?_ ?_
    · omega
    · rw [Nat.succ_mul]
      omega
  rw [count, hdiv]
  omega

variable (T) in
theorem count_last (hlast : n % T.perPage ≠ 0) : T.count n ((n - 1) / T.perPage) = n % T.perPage := by
  have hd := Nat.div_add_mod' n T.perPage
  have hm := Nat.mod_lt n T.perPage_pos
  have hdiv : (n - 1) / T.perPage = n / T.perPage := by
    refine Nat.div_eq_of_lt_le ?_ ?_
    · omega
    · rw [Nat.succ_mul]
      omega
  rw [count, hdiv]
  omega

variable (T) in
theorem end_ne_of_not_end (hend : ¬ ((c + 1) % T.perPage = 0 ∨ c + 1 = n))
    (hn : p * T.perPage < n) : p * T.perPage + T.count n p ≠ c + 1 := by
  intro heq
  rcases min_choice T.perPage (n - p * T.perPage) with hmin | hmin
  · rw [count, hmin, ← Nat.succ_mul] at heq
    exact hend (.inl (heq ▸ Nat.mul_mod_left _ _))
  · rw [count, hmin] at heq
    exact hend (.inr (by omega))

theorem PageAt.congr (h : T.PageAt crc n m a p record)
    (heq : ∀ i < T.page, m (a + i) = m' (a' + i)) : T.PageAt crc n m' a' p record where
  stored := by
    intro l hl hp
    have hfit := T.count_fits n p
    have hslot := hp ▸ T.record_fits hl
    rw [← Memory.load_congr heq (by omega)]
    exact h.stored l hl hp
  checked := by
    have hfit := T.count_fits n p
    have hload := Memory.load_congr (x := 0) (k := T.count n p * T.size) heq (by omega)
    rw [Nat.add_zero, Nat.add_zero] at hload
    rw [← Memory.load_congr heq hfit, ← hload]
    exact h.checked

variable (T crc n)

/-- A buffer for the pages from `p₀` on has the records below `c`, and the checksums of the pages that
end at or below `d`. -/
structure Filled (b : Memory) (p₀ c d : Nat) (record : Nat → List UInt8) : Prop where
  stored : ∀ l, p₀ ≤ l / T.perPage → l < c →
    b.load ((l / T.perPage - p₀) * T.page + l % T.perPage * T.size) T.size = record l
  checked : ∀ p, p₀ ≤ p → p * T.perPage + T.count n p ≤ d → p * T.perPage < n →
    leNat (b.load ((p - p₀) * T.page + T.count n p * T.size) 4) =
      (crc (b.load ((p - p₀) * T.page) (T.count n p * T.size))).toNat

variable {T crc n}

theorem filled_zero : T.Filled crc n b p₀ (p₀ * T.perPage) (p₀ * T.perPage) record where
  stored := by
    intro l hp hl
    have := (Nat.le_div_iff_mul_le T.perPage_pos).mp hp
    omega
  checked := by
    intro p hp hend hn
    have hle := Nat.mul_le_mul_right T.perPage hp
    have : 0 < T.count n p := lt_min T.perPage_pos (by omega)
    omega

/-- The records of a page, and with them its checksum, are apart from every other page. -/
theorem page_apart {q : Nat} (hp : p₀ ≤ p) (hq : p₀ ≤ q) (hne : p ≠ q) :
    (p - p₀) * T.page + T.page ≤ (q - p₀) * T.page ∨ (q - p₀) * T.page + T.page ≤ (p - p₀) * T.page := by
  rcases Nat.lt_or_ge p q with h | h
  · exact .inl (page_le (by omega))
  · exact .inr (page_le (by omega))

theorem Filled.store_record (h : T.Filled crc n b p₀ c c record) (hp : p₀ ≤ c / T.perPage) (hc : c < n)
    (hlen : (record c).length = T.size) :
    T.Filled crc n (b.store ((c / T.perPage - p₀) * T.page + c % T.perPage * T.size) (record c))
      p₀ (c + 1) c record where
  stored := by
    intro l hpl hl
    rcases Nat.lt_succ_iff_lt_or_eq.mp hl with hlt | rfl
    · rw [Memory.load_store_of_disjoint, h.stored l hpl hlt]
      have hfit := T.count_fits n (l / T.perPage)
      have hfit' := T.count_fits n (c / T.perPage)
      have hslot := T.record_fits (hlt.trans hc)
      have hslot' := T.record_fits hc
      by_cases hpage : l / T.perPage = c / T.perPage
      · have hlow : l % T.perPage < c % T.perPage := by
          have hd := Nat.div_add_mod' l T.perPage
          have hd' := Nat.div_add_mod' c T.perPage
          rw [hpage] at hd
          omega
        have := T.slot_le hlow
        rw [hpage]
        omega
      · have := page_apart (T := T) hpl hp hpage
        rw [hlen]
        omega
    · have := Memory.load_store_self b ((l / T.perPage - p₀) * T.page + l % T.perPage * T.size) (record l)
      rwa [hlen] at this
  checked := by
    intro q hq hend hn
    -- the page of `c` is not complete yet
    have hne : q ≠ c / T.perPage := by
      rintro rfl
      have := T.mod_lt_count hc
      have := Nat.div_add_mod' c T.perPage
      omega
    have hfit := T.count_fits n q
    have hfit' := T.count_fits n (c / T.perPage)
    have hslot := T.record_fits hc
    have hapart := page_apart (T := T) hq hp hne
    rw [Memory.load_store_of_disjoint, Memory.load_store_of_disjoint]
    · exact h.checked q hq hend hn
    · rw [hlen]
      omega
    · rw [hlen]
      omega

/-- The page of `c` ends behind `c` and gets its checksum. -/
theorem Filled.store_check {crcSize : Nat} (h : T.Filled crc n b p₀ (c + 1) c record)
    (hp : p₀ ≤ c / T.perPage) (hc : c < n)
    (hsize : crcSize = T.count n (c / T.perPage) * T.size) :
    T.Filled crc n (b.store ((c / T.perPage - p₀) * T.page + crcSize)
      (leBytes 4 (crc (b.load ((c / T.perPage - p₀) * T.page) crcSize)).toNat))
      p₀ (c + 1) (c + 1) record := by
  subst hsize
  have hfit' := T.count_fits n (c / T.perPage)
  constructor
  · intro l hpl hl
    rw [Memory.load_store_of_disjoint]
    · exact h.stored l hpl hl
    · have hfit := T.count_fits n (l / T.perPage)
      have hslot := T.record_fits (show l < n by omega)
      rw [leBytes_length]
      by_cases hpage : l / T.perPage = c / T.perPage
      · rw [hpage] at hslot ⊢
        omega
      · have := page_apart (T := T) hpl hp hpage
        omega
  · intro q hq hle hn
    by_cases hpage : q = c / T.perPage
    · subst hpage
      have hself := Memory.load_store_self b
        ((c / T.perPage - p₀) * T.page + T.count n (c / T.perPage) * T.size)
        (leBytes 4 (crc (b.load ((c / T.perPage - p₀) * T.page)
          (T.count n (c / T.perPage) * T.size))).toNat)
      rw [leBytes_length] at hself
      rw [hself, leNat_leBytes (UInt32.toNat_lt _), Memory.load_store_of_disjoint]
      exact .inl le_rfl
    · have hfit := T.count_fits n q
      have hapart := page_apart (T := T) hq hp hpage
      rw [Memory.load_store_of_disjoint, Memory.load_store_of_disjoint]
      · refine h.checked q hq ?_ hn
        by_contra hgt
        exact hpage (T.eq_div_of_end hn (by omega))
      · rw [leBytes_length]
        omega
      · rw [leBytes_length]
        omega

theorem Filled.of_not_end (h : T.Filled crc n b p₀ (c + 1) c record)
    (hend : ¬ ((c + 1) % T.perPage = 0 ∨ c + 1 = n)) :
    T.Filled crc n b p₀ (c + 1) (c + 1) record where
  stored := h.stored
  checked := by
    intro q hq hle hn
    refine h.checked q hq ?_ hn
    have := T.end_ne_of_not_end hend hn
    omega

theorem Filled.pageAt (h : T.Filled crc n b p₀ c c record) (hp : p₀ ≤ p) (hn : p * T.perPage < n)
    (hend : p * T.perPage + T.count n p ≤ c) :
    T.PageAt crc n b ((p - p₀) * T.page) p record where
  stored := by
    intro l hl hpl
    have hlt := T.mod_lt_count hl
    have hd := Nat.div_add_mod' l T.perPage
    subst hpl
    exact h.stored l hp (by omega)
  checked := h.checked p hp hend hn

end RecordPages

end XStore
