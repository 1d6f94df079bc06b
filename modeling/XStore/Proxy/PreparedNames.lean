import Mathlib.Data.Set.Function
import XStore.Proxy.NoticeValue

/-!
# The proxy's set of prepared statements

For every `PREPARE` and `DEALLOCATE` the server sends a notice with the name as plain text.  The proxy
takes one token from the text and keeps it in a hash map; from the number of items in the map it tells
whether the session has prepared statements.  Names with one and the same token are one item.
-/
namespace XStore.Proxy

structure StmtName where
  text : List Char
  ne_nil : text ≠ []
  length_le : text.length ≤ 63
  no_nul : '\x00' ∉ text
  deriving DecidableEq

inductive PrepStatement
  | prepare (name : StmtName)
  | deallocate (name : StmtName)
  | deallocateAll

/-- `qc_ProcessUtility`: the notice of a statement, with its terminator. -/
def PrepStatement.notice : PrepStatement → List Char
  | prepare name => "NOTICE: xproxy prepare stmt ".toList ++ (name.text ++ ['\x00'])
  | deallocate name => "NOTICE: xproxy deallocate stmt ".toList ++ (name.text ++ ['\x00'])
  | deallocateAll => "NOTICE: xproxy deallocate all".toList ++ ['\x00']

/-- The types of notices; all that do not touch prepared statements are one. -/
inductive NoticeType
  | discardAll
  | deallocateAll
  | deallocateStmt
  | prepareStmt
  | other

def allNoticeList : List (List Char × NoticeType) :=
  [("discard all".toList, .discardAll), ("discard temp".toList, .other), ("reset all".toList, .other),
    ("deallocate all".toList, .deallocateAll), ("deallocate stmt ".toList, .deallocateStmt),
    ("prepare stmt ".toList, .prepareStmt), ("set variable ".toList, .other),
    ("reset variable ".toList, .other), ("create temp table ".toList, .other),
    ("drop temp table ".toList, .other), ("session level advisory locks".toList, .other),
    ("no session level advisory locks".toList, .other), ("listen on ".toList, .other),
    ("unlisten on ".toList, .other), ("unlisten all".toList, .other),
    ("declare cursor ".toList, .other), ("close cursor ".toList, .other), ("close all".toList, .other)]

/-- `get_xproxy_notice_type`: the first text that the message begins with, and what is behind it. -/
def getXproxyNoticeType (message : List Char) : Option (NoticeType × List Char) :=
  allNoticeList.findSome? fun (text, type) =>
    if (message.take text.length).map Char.toLower = text then some (type, message.drop text.length)
    else none

/-- `od_hashmap_t` with keys only: each bucket is a list. -/
structure KeyMap where
  buckets : Nat → List (List Char)
  items : Nat

namespace KeyMap

variable (hash : List Char → Nat) (size : Nat) (m : KeyMap) (key : List Char)

def empty : KeyMap := ⟨fun _ => [], 0⟩

/-- `od_hashmap_insert` -/
def insert : KeyMap :=
  let i := hash key % size
  if key ∈ m.buckets i then m
  else ⟨Function.update m.buckets i (m.buckets i ++ [key]), m.items + 1⟩

/-- `od_hashmap_delete` -/
def delete : KeyMap :=
  let i := hash key % size
  if key ∈ m.buckets i then ⟨Function.update m.buckets i ((m.buckets i).erase key), m.items - 1⟩
  else m

end KeyMap

section Notices

variable (hash : List Char → Nat) (size : Nat)

def noticeToken (text : List Char) : Option (List Char) :=
  (parseNoticeMessage text 0 text.length).map fun t => slice t.buf (t.token, t.tokenLen)

/-- What `od_backend_notice` does to `query_prep_stmts`, by the type of the notice. -/
def applyNotice (m : KeyMap) : Option (NoticeType × List Char) → Except ValueError KeyMap
  | some (.discardAll, _) | some (.deallocateAll, _) => .ok .empty
  | some (.deallocateStmt, text) => match noticeToken text with
    | none => .error .serverRead
    | some key => .ok (m.delete hash size key)
  | some (.prepareStmt, text) => match noticeToken text with
    | none => .error .serverRead
    | some key => .ok (m.insert hash size key)
  | _ => .ok m

def odBackendNotice (m : KeyMap) (message : List Char) : Except ValueError KeyMap :=
  if 15 < message.length ∧ message.take 15 = "NOTICE: xproxy ".toList then
    applyNotice hash size m (getXproxyNoticeType (message.drop 15))
  else .ok m

/-- The statements that the session has from `PREPARE`, and the map of the proxy. -/
structure PrepState where
  session : List StmtName
  map : KeyMap

/-- A statement that succeeds, and its notice; a notice that cannot be read leaves the map alone. -/
def PrepState.step (s : PrepState) (a : PrepStatement) : Option PrepState :=
  let map := match odBackendNotice hash size s.map a.notice with
    | .ok map => map
    | .error _ => s.map
  match a with
  | .prepare name => if name ∈ s.session then none else some ⟨name :: s.session, map⟩
  | .deallocate name => if name ∈ s.session then some ⟨s.session.erase name, map⟩ else none
  | .deallocateAll => some ⟨[], map⟩

def PrepState.run : List PrepStatement → PrepState → Option PrepState
  | [], s => some s
  | a :: acts, s => (s.step hash size a).bind (run acts)

def PrepState.start : PrepState := ⟨[], .empty⟩

end Notices

def StmtName.key (name : StmtName) : Option (List Char) := noticeToken (name.text ++ ['\x00'])

def PrepStatement.Names (N : Set StmtName) : PrepStatement → Prop
  | prepare name | deallocate name => name ∈ N
  | deallocateAll => True

section Tracked

variable {hash : List Char → Nat} {size : Nat} {m : KeyMap} {name : StmtName} {key : List Char}
  {N : Set StmtName} {s s' : PrepState}

theorem prepare_notice_first : 15 < (PrepStatement.prepare name).notice.length ∧
    (PrepStatement.prepare name).notice.take 15 = "NOTICE: xproxy ".toList := by
  change 15 < ("NOTICE: xproxy prepare stmt ".toList ++ (name.text ++ ['\x00'])).length ∧ _
  exact ⟨by simp, rfl⟩

theorem getXproxyNoticeType_prepare (text : List Char) :
    getXproxyNoticeType ("prepare stmt ".toList ++ text) = some (.prepareStmt, text) := rfl

theorem odBackendNotice_prepare :
    odBackendNotice hash size m (PrepStatement.prepare name).notice =
      applyNotice hash size m (some (.prepareStmt, name.text ++ ['\x00'])) := by
  have hrest : (PrepStatement.prepare name).notice.drop 15 =
      "prepare stmt ".toList ++ (name.text ++ ['\x00']) := rfl
  rw [odBackendNotice, if_pos prepare_notice_first, hrest, getXproxyNoticeType_prepare]

theorem deallocate_notice_first : 15 < (PrepStatement.deallocate name).notice.length ∧
    (PrepStatement.deallocate name).notice.take 15 = "NOTICE: xproxy ".toList := by
  change 15 < ("NOTICE: xproxy deallocate stmt ".toList ++ (name.text ++ ['\x00'])).length ∧ _
  exact ⟨by simp, rfl⟩

theorem getXproxyNoticeType_deallocate (text : List Char) :
    getXproxyNoticeType ("deallocate stmt ".toList ++ text) = some (.deallocateStmt, text) := rfl

theorem odBackendNotice_deallocate :
    odBackendNotice hash size m (PrepStatement.deallocate name).notice =
      applyNotice hash size m (some (.deallocateStmt, name.text ++ ['\x00'])) := by
  have hrest : (PrepStatement.deallocate name).notice.drop 15 =
      "deallocate stmt ".toList ++ (name.text ++ ['\x00']) := rfl
  rw [odBackendNotice, if_pos deallocate_notice_first, hrest, getXproxyNoticeType_deallocate]

theorem PrepState.step_prepare (hnew : name ∉ s.session) (hkey : name.key = some key) :
    s.step hash size (.prepare name) = some ⟨name :: s.session, s.map.insert hash size key⟩ := by
  have htoken : noticeToken (name.text ++ ['\x00']) = some key := hkey
  simp only [PrepState.step, odBackendNotice_prepare, applyNotice, htoken, if_neg hnew]

theorem PrepState.step_deallocate (hthere : name ∈ s.session) (hkey : name.key = some key) :
    s.step hash size (.deallocate name) =
      some ⟨s.session.erase name, s.map.delete hash size key⟩ := by
  have htoken : noticeToken (name.text ++ ['\x00']) = some key := hkey
  simp only [PrepState.step, odBackendNotice_deallocate, applyNotice, htoken, if_pos hthere]

theorem PrepState.step_prepare_error (hnew : name ∉ s.session) (hkey : name.key = none) :
    s.step hash size (.prepare name) = some ⟨name :: s.session, s.map⟩ := by
  have htoken : noticeToken (name.text ++ ['\x00']) = none := hkey
  simp only [PrepState.step, odBackendNotice_prepare, applyNotice, htoken, if_neg hnew]

/-- The map has the keys of the statements, each in its bucket. -/
structure PrepState.Tracked (hash : List Char → Nat) (size : Nat) (N : Set StmtName) (s : PrepState) :
    Prop where
  named : ∀ name ∈ s.session, name ∈ N
  keys : ∀ i key, key ∈ s.map.buckets i ↔
    i = hash key % size ∧ ∃ name ∈ s.session, name.key = some key
  nodup : s.session.Nodup
  unique : ∀ i, (s.map.buckets i).Nodup
  items : s.map.items = s.session.length

theorem PrepState.start_tracked : PrepState.start.Tracked hash size N where
  named := nofun
  keys := by simp [PrepState.start, KeyMap.empty]
  nodup := .nil
  unique := fun _ => .nil
  items := rfl

theorem PrepState.Tracked.prepare (hinj : Set.InjOn StmtName.key N) (h : s.Tracked hash size N)
    (hname : name ∈ N) (hkey : name.key = some key) (hnew : name ∉ s.session) :
    PrepState.Tracked hash size N ⟨name :: s.session, s.map.insert hash size key⟩ := by
  obtain ⟨named, keys, nodup, unique, items⟩ := h
  have hout : key ∉ s.map.buckets (hash key % size) := by
    rw [keys]
    rintro ⟨-, other, hother, hsame⟩
    exact hnew (hinj hname (named other hother) (hkey.trans hsame.symm) ▸ hother)
  simp only [KeyMap.insert, if_neg hout]
  constructor
  · exact List.forall_mem_cons.mpr ⟨hname, named⟩
  · intro i k
    simp only [Function.update_apply]
    grind
  · exact List.nodup_cons.mpr ⟨hnew, nodup⟩
  · intro i
    simp only [Function.update_apply]
    grind [List.nodup_append]
  · simp [items]

theorem PrepState.Tracked.deallocate (hinj : Set.InjOn StmtName.key N) (h : s.Tracked hash size N)
    (hkey : name.key = some key) (hthere : name ∈ s.session) :
    PrepState.Tracked hash size N ⟨s.session.erase name, s.map.delete hash size key⟩ := by
  obtain ⟨named, keys, nodup, unique, items⟩ := h
  have hin : key ∈ s.map.buckets (hash key % size) := (keys _ _).mpr ⟨rfl, name, hthere, hkey⟩
  -- another statement has another key
  have hother : ∀ other ∈ s.session, other ≠ name → other.key ≠ some key := by
    intro other ho hne hsame
    exact hne (hinj (named other ho) (named name hthere) (hsame.trans hkey.symm))
  simp only [KeyMap.delete, if_pos hin]
  constructor
  · exact fun other ho => named other (List.mem_of_mem_erase ho)
  · intro i k
    simp only [Function.update_apply, nodup.mem_erase_iff]
    split_ifs with hi
    · rw [(unique _).mem_erase_iff, keys]
      grind
    · rw [keys]
      grind
  · exact nodup.erase name
  · intro i
    simp only [Function.update_apply]
    split_ifs
    · exact (unique _).erase key
    · exact unique i
  · rw [List.length_erase_of_mem hthere, items]

theorem PrepState.Tracked.step (hinj : Set.InjOn StmtName.key N)
    (hkeys : ∀ name ∈ N, name.key ≠ none) (h : s.Tracked hash size N) {a : PrepStatement}
    (ha : a.Names N) (hs : s.step hash size a = some s') : s'.Tracked hash size N := by
  cases a with
  | prepare name =>
    obtain ⟨key, hkey⟩ := Option.ne_none_iff_exists'.mp (hkeys name ha)
    by_cases hthere : name ∈ s.session
    · simp [PrepState.step, hthere] at hs
    · cases (PrepState.step_prepare hthere hkey).symm.trans hs
      exact h.prepare hinj ha hkey hthere
  | deallocate name =>
    obtain ⟨key, hkey⟩ := Option.ne_none_iff_exists'.mp (hkeys name ha)
    by_cases hthere : name ∈ s.session
    · cases (PrepState.step_deallocate hthere hkey).symm.trans hs
      exact h.deallocate hinj hkey hthere
    · simp [PrepState.step, hthere] at hs
  | deallocateAll =>
    cases hs
    exact PrepState.start_tracked

theorem PrepState.Tracked.run (hinj : Set.InjOn StmtName.key N)
    (hkeys : ∀ name ∈ N, name.key ≠ none) (h : s.Tracked hash size N) {acts : List PrepStatement}
    (hacts : ∀ a ∈ acts, a.Names N) (hrun : s.run hash size acts = some s') :
    s'.Tracked hash size N := by
  induction acts generalizing s with
  | nil =>
    cases hrun
    exact h
  | cons a acts ih =>
    obtain ⟨s₁, hstep, hrest⟩ := Option.bind_eq_some_iff.mp hrun
    exact ih (h.step hinj hkeys (hacts a List.mem_cons_self) hstep)
      (fun b hb => hacts b (List.mem_cons_of_mem a hb)) hrest

/-- Two statements are one item of the map, and dropping one of them leaves the map without the other. -/
theorem run_collision {other : StmtName} (hne : name ≠ other) (hkey : name.key = some key)
    (hother : other.key = some key) :
    ∃ s, PrepState.start.run hash size [.prepare name, .prepare other, .deallocate name] = some s ∧
      s.map.items = 0 ∧ s.session = [other] := by
  have hfirst : PrepState.start.step hash size (.prepare name) =
      some ⟨[name], KeyMap.empty.insert hash size key⟩ := PrepState.step_prepare List.not_mem_nil hkey
  have hsecond : PrepState.step hash size ⟨[name], KeyMap.empty.insert hash size key⟩ (.prepare other) =
      some ⟨[other, name], (KeyMap.empty.insert hash size key).insert hash size key⟩ :=
    PrepState.step_prepare (by simpa using hne.symm) hother
  have hthird : PrepState.step hash size
      ⟨[other, name], (KeyMap.empty.insert hash size key).insert hash size key⟩ (.deallocate name) =
      some ⟨[other, name].erase name,
        ((KeyMap.empty.insert hash size key).insert hash size key).delete hash size key⟩ :=
    PrepState.step_deallocate (by simp) hkey
  refine ⟨_, Option.bind_eq_some_iff.mpr ⟨_, hfirst, Option.bind_eq_some_iff.mpr ⟨_, hsecond,
    Option.bind_eq_some_iff.mpr ⟨_, hthird, rfl⟩⟩⟩, ?_, ?_⟩
  · simp [KeyMap.insert, KeyMap.delete, KeyMap.empty]
  · simp [hne.symm]

end Tracked

/-- Whatever the statements are, the map is empty exactly when the session has no prepared statement, if and
only if every name that the statements may use gives a token, and no two of them the same. -/
theorem prepared_statements_tracked_iff (hash : List Char → Nat) (size : Nat) (N : Set StmtName) :
    (∀ acts s, (∀ a ∈ acts, PrepStatement.Names N a) →
      PrepState.start.run hash size acts = some s → (s.map.items = 0 ↔ s.session = [])) ↔
      (∀ name ∈ N, name.key ≠ none) ∧ Set.InjOn StmtName.key N := by
  constructor
  · intro h
    have hkeys : ∀ name ∈ N, name.key ≠ none := by
      intro name hname hnone
      have hstep : PrepState.start.step hash size (.prepare name) = _ :=
        PrepState.step_prepare_error List.not_mem_nil hnone
      have hiff := h [.prepare name] _ (List.forall_mem_singleton.mpr hname)
        (Option.bind_eq_some_iff.mpr ⟨_, hstep, rfl⟩)
      exact absurd (hiff.mp rfl) (List.cons_ne_nil _ _)
    refine ⟨hkeys, fun name hname other hother hsame => ?_⟩
    by_contra hne
    obtain ⟨key, hkey⟩ := Option.ne_none_iff_exists'.mp (hkeys name hname)
    obtain ⟨s, hrun, hitems, hsession⟩ :=
      @run_collision hash size name key other hne hkey (hsame.symm.trans hkey)
    have hempty := (h _ s (by
      simp only [List.forall_mem_cons]
      exact ⟨hname, hother, hname, nofun⟩) hrun).mp hitems
    rw [hsession] at hempty
    cases hempty
  · rintro ⟨hkeys, hinj⟩ acts s hacts hrun
    have h := PrepState.Tracked.run hinj hkeys PrepState.start_tracked hacts hrun
    rw [h.items, List.length_eq_zero_iff]

def ab : StmtName := ⟨['a', ' ', 'b'], by decide, by decide, by decide⟩

def ac : StmtName := ⟨['a', ' ', 'c'], by decide, by decide, by decide⟩

theorem dropped_name_hides_other :
    ∃ s, PrepState.start.run List.length 16 [.prepare ab, .prepare ac, .deallocate ab] = some s ∧
      s.map.items = 0 ∧ s.session = [ac] :=
  @run_collision List.length 16 ab ['a', '\x00'] ac (by decide) (by decide) (by decide)

end XStore.Proxy
