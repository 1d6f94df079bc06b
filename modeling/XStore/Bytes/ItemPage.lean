import XStore.Bytes.Memory
import Mathlib.Data.List.InsertIdx

/-!
# Pages of items

The slots of a page grow upwards behind its header, and the items they point to grow downwards from
the end of the page.  A slot carries a state.  An item begins at a multiple of eight.
-/
namespace XStore

open List

def align8 (n : Nat) : Nat := (n + 7) / 8 * 8

theorem align8_of_mod {n : Nat} (h : n % 8 = 0) : align8 n = n := by
  unfold align8
  omega

theorem align8_mod (n : Nat) : align8 n % 8 = 0 := Nat.mul_mod_left ..

theorem le_align8 (n : Nat) : n ≤ align8 n := by
  unfold align8
  omega

structure Slot (F : Type*) where
  off : Nat
  len : Nat
  state : F
  deriving DecidableEq

structure ItemPage (F : Type*) where
  /-- Where the items end. -/
  special : Nat
  slots : List (Slot F)
  /-- The bytes from the lowest item on. -/
  area : List UInt8
  deriving DecidableEq

namespace ItemPage

variable {F : Type*}

def headerSize : Nat := 24

def slotSize : Nat := 4

def lower (p : ItemPage F) : Nat := headerSize + slotSize * p.slots.length

def upper (p : ItemPage F) : Nat := p.special - p.area.length

def item (p : ItemPage F) (s : Slot F) : List UInt8 := (p.area.drop (s.off - p.upper)).take s.len

/-- The items in the order of their slots, with their states. -/
def items (p : ItemPage F) : List (F × List UInt8) := p.slots.map fun s => (s.state, p.item s)

def empty (special : Nat) : ItemPage F := ⟨special, [], []⟩

def grow (p : ItemPage F) (bytes : List UInt8) : ItemPage F := { p with area := bytes ++ p.area }

/-- Add an item in the slot with index `i`, where the page has room. -/
def addItem (state : F) (p : ItemPage F) (item : List UInt8) (size i : Nat) : Option (ItemPage F) :=
  if p.slots.length < i then none
  else if p.upper < p.lower + slotSize + align8 size then none
  else some
    { special := p.special
      slots := p.slots.insertIdx i ⟨p.upper - align8 size, size, state⟩
      area := item.take size ++ List.replicate (align8 size - size) 0 ++ p.area }

/-- Give the slot with index `i` another state. -/
def setState (p : ItemPage F) (i : Nat) (state : F) : ItemPage F :=
  { p with slots := p.slots.modify i fun s => { s with state := state } }

/-- The slots and the items do not meet, and every item lies in the area. -/
structure Sound (p : ItemPage F) : Prop where
  fits : p.lower + p.area.length ≤ p.special
  inside : ∀ s ∈ p.slots, p.upper ≤ s.off ∧ s.off + s.len ≤ p.special

variable {p q : ItemPage F} {s : Slot F} {state : F} {bytes : List UInt8} {size i : Nat}

theorem Sound.upper_add (h : p.Sound) : p.upper + p.area.length = p.special := by
  have hfits := h.fits
  unfold upper
  omega

theorem empty_sound {special : Nat} (h : headerSize ≤ special) :
    (empty special : ItemPage F).Sound where
  fits := by simpa [empty, lower, headerSize, slotSize] using h
  inside := by simp [empty]

@[simp] theorem empty_items (special : Nat) : (empty special : ItemPage F).items = [] := rfl

@[simp] theorem items_length : p.items.length = p.slots.length := by simp [items]

theorem item_grow (h : p.Sound) (hs : s ∈ p.slots) (hroom : bytes.length ≤ p.upper) :
    (p.grow bytes).item s = p.item s := by
  have hin := h.inside s hs
  have hup := h.upper_add
  have hoff : s.off - (p.grow bytes).upper = bytes.length + (s.off - p.upper) := by
    simp only [grow, upper, length_append] at *
    omega
  rw [item, hoff]
  change ((bytes ++ p.area).drop _).take _ = _
  rw [drop_append, drop_eq_nil_of_le (Nat.le_add_right _ _), nil_append,
    Nat.add_sub_cancel_left]
  rfl

theorem items_grow (h : p.Sound) (hroom : bytes.length ≤ p.upper) :
    (p.grow bytes).items = p.items := by
  apply map_congr_left
  intro s hs
  rw [item_grow h hs hroom]

theorem Sound.grow (h : p.Sound) (hroom : p.lower + bytes.length ≤ p.upper) :
    (p.grow bytes).Sound where
  fits := by
    have hup := h.upper_add
    simp only [ItemPage.grow, lower, length_append] at *
    omega
  inside := by
    intro s hs
    have hin := h.inside s hs
    simp only [ItemPage.grow, upper, length_append] at *
    omega

theorem item_upper (hoff : s.off = p.upper) : p.item s = p.area.take s.len := by
  rw [item, hoff, Nat.sub_self, drop_zero]

theorem items_setState (i : Nat) (state : F) :
    (p.setState i state).items = p.items.modify i fun x => (state, x.2) := by
  apply ext_getElem?
  intro j
  simp only [items, setState, getElem?_map, getElem?_modify]
  split_ifs with hij
  · cases p.slots[j]? <;> rfl
  · cases p.slots[j]? <;> rfl

theorem Sound.setState (h : p.Sound) (i : Nat) (state : F) : (p.setState i state).Sound where
  fits := by simpa [ItemPage.setState, lower] using h.fits
  inside := by
    intro s hs
    obtain ⟨j, hj, rfl⟩ := mem_iff_getElem.mp hs
    simp only [ItemPage.setState, length_modify] at hj
    simp only [ItemPage.setState, getElem_modify]
    split_ifs
    · exact h.inside p.slots[j] (getElem_mem hj)
    · exact h.inside p.slots[j] (getElem_mem hj)

/-- Point the slot with index `i` to the lowest bytes of the area. -/
def setLowest (p : ItemPage F) (i len : Nat) (state : F) : ItemPage F :=
  { p with slots := p.slots.set i ⟨p.upper, len, state⟩ }

theorem items_setLowest (i len : Nat) (state : F) :
    (p.setLowest i len state).items = p.items.set i (state, p.area.take len) := by
  have hitem : p.item ⟨p.upper, len, state⟩ = p.area.take len := item_upper rfl
  rw [← hitem]
  exact map_set

theorem Sound.setLowest (h : p.Sound) {len : Nat} (hlen : len ≤ p.area.length) (i : Nat) (state : F) :
    (p.setLowest i len state).Sound where
  fits := by simpa [ItemPage.setLowest, lower] using h.fits
  inside := by
    intro s hs
    rcases mem_or_eq_of_mem_set hs with hs | rfl
    · exact h.inside s hs
    · have hup := h.upper_add
      refine ⟨le_rfl, ?_⟩
      change p.upper + len ≤ p.special
      omega

theorem addItem_eq_some (h : addItem state p bytes size i = some q) :
    i ≤ p.slots.length ∧ p.lower + slotSize + align8 size ≤ p.upper ∧
      q = { special := p.special
            slots := p.slots.insertIdx i ⟨p.upper - align8 size, size, state⟩
            area := bytes.take size ++ List.replicate (align8 size - size) 0 ++ p.area } := by
  unfold addItem at h
  split_ifs at h with hi hroom
  exact ⟨by omega, by omega, (Option.some.inj h).symm⟩

section Add

variable (hp : p.Sound) (hsize : size ≤ bytes.length) (h : addItem state p bytes size i = some q)

include hp hsize h

theorem addItem_sound : q.Sound := by
  obtain ⟨hi, hroom, rfl⟩ := addItem_eq_some h
  have hup := hp.upper_add
  have halign := le_align8 size
  constructor
  · simp only [lower, length_insertIdx_of_le_length hi, length_append, length_take,
      length_replicate] at hroom ⊢
    simp only [slotSize] at *
    omega
  · intro s hs
    simp only [upper, length_append, length_take, length_replicate] at hup hroom hs ⊢
    rcases (mem_insertIdx hi).mp hs with rfl | hs
    · simp only
      omega
    · have hin := hp.inside s hs
      simp only [upper] at hin
      omega

/-- Adding an item puts it in its place among the items. -/
theorem addItem_items : q.items = p.items.insertIdx i (state, bytes.take size) := by
  obtain ⟨hi, hroom, rfl⟩ := addItem_eq_some h
  have hup := hp.upper_add
  have halign := le_align8 size
  have hgrow : ∀ s ∈ p.slots, (p.grow (bytes.take size ++ List.replicate (align8 size - size) 0)).item s
      = p.item s := by
    intro s hs
    apply item_grow hp hs
    simp only [length_append, length_take, length_replicate]
    omega
  have hnew : (p.grow (bytes.take size ++ List.replicate (align8 size - size) 0)).item
      ⟨p.upper - align8 size, size, state⟩ = bytes.take size := by
    have hoff : p.upper - align8 size -
        (p.grow (bytes.take size ++ List.replicate (align8 size - size) 0)).upper = 0 := by
      simp only [grow, upper, length_append, length_take, length_replicate] at *
      omega
    simp only [item, hoff, drop_zero]
    change ((bytes.take size ++ _) ++ p.area).take size = _
    rw [append_assoc, take_append_of_le_length (by simp [hsize]), take_take,
      Nat.min_self]
  change (p.slots.insertIdx i _).map (fun s => (s.state, (p.grow _).item s)) = _
  rw [map_insertIdx, hnew]
  congr 1
  apply map_congr_left
  intro s hs
  rw [hgrow s hs]

end Add

/-- An item whose size is a multiple of eight is added where there is room. -/
theorem addItem_isSome (hi : i ≤ p.slots.length)
    (hroom : p.lower + slotSize + align8 size ≤ p.upper) :
    ∃ q, addItem state p bytes size i = some q := by
  unfold addItem
  rw [if_neg (by omega), if_neg (by omega)]
  exact ⟨_, rfl⟩

end ItemPage

end XStore
