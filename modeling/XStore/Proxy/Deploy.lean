import Mathlib.Data.List.Nodup
import XStore.Proxy.PreparedNames
import XStore.Proxy.SqlText

/-!
# Bringing a server connection to the settings of a client

Before a client gets a server connection the proxy compares the variables it knows of both, and
sends the differences as one text of `SET` and `RESET` statements.  The text is put together in a
buffer of fixed size, bucket by bucket of the two maps.
-/
namespace XStore.Proxy

open List

/-- A byte of a name as the proxy stores it: in lower case, as an unquoted name may have it. -/
def isNameChar (c : Char) : Bool :=
  c.isLower || c.isDigit || c = '_' || c = '$' || c = '.' || 128 ≤ c.toNat

/-- A key of the maps.  The server has cut each part of it to less than `NAMEDATALEN` bytes. -/
structure GucName where
  chars : List Char
  nonempty : chars ≠ []
  valid : ∀ c ∈ chars, isNameChar c = true
  short : ∀ part ∈ chars.splitOn '.', part.length < 64

theorem GucName.ext_chars {a b : GucName} (h : a.chars = b.chars) : a = b := by
  cases a
  cases b
  cases h
  rfl

instance : DecidableEq GucName := fun a b =>
  decidable_of_iff (a.chars = b.chars) ⟨GucName.ext_chars, congrArg GucName.chars⟩

/-- The value of a variable as `parse_variable_value` leaves it. -/
structure VarValue where
  values : List (List Char)
  nonempty : values ≠ []
  no_nul : ∀ v ∈ values, '\x00' ∉ v
  deriving DecidableEq

def VarValue.data (v : VarValue) : List Char := stored v.values

/-- `od_hashmap_t`: every key stands in the bucket of its hash, and once. -/
structure VarMap (hash : GucName → Nat) (size : Nat) where
  size_pos : 0 < size
  buckets : Nat → List (GucName × VarValue)
  placed : ∀ i < size, ∀ e ∈ buckets i, hash e.1 % size = i
  distinct : ∀ i < size, ((buckets i).map Prod.fst).Nodup

variable {hash : GucName → Nat} {size : Nat} {bucket : List (GucName × VarValue)} {e : GucName × VarValue}
  {cs : List Change}
  {i : Nat}
  {v : VarValue}

/-- `od_bucket_search` -/
def bucketSearch (bucket : List (GucName × VarValue)) (key : GucName) : Option VarValue :=
  (bucket.find? fun e => e.1 = key).map Prod.snd

/-- `od_hashmap_find` -/
def VarMap.find (m : VarMap hash size) (keyhash : Nat) (key : GucName) : Option VarValue :=
  bucketSearch (m.buckets (keyhash % size)) key

inductive CasError
  /-- -1 is returned. -/
  | failed
  /-- A write behind the end of the buffer. -/
  | overrun
  deriving DecidableEq

/-- The text for a variable of the client.  The check in front compares with the whole buffer. -/
def appendSet (queryLen : Nat) (query : List Char) (key : GucName) (value : VarValue) :
    Except CasError (List Char) :=
  if queryLen < 4 + key.chars.length + 1 + 1 then .error .failed
  else
    let query := query ++ ("SET ".toList ++ (key.chars ++ ['=']))
    if queryLen + 1 < query.length then .error .overrun
    else
      match enquoteValues value.data (queryLen - query.length) with
      | none => .error .failed
      | some text => .ok (query ++ (text ++ [';']))

def appendReset (queryLen : Nat) (query : List Char) (key : GucName) : Except CasError (List Char) :=
  if queryLen < 6 + key.chars.length + 1 then .error .failed
  else
    let query := query ++ ("RESET ".toList ++ (key.chars ++ [';']))
    if queryLen + 1 < query.length then .error .overrun else .ok query

section Cas

variable (client server : VarMap hash size) (queryLen : Nat)

def sameOnServer (i : Nat) (e : GucName × VarValue) : Bool :=
  match server.find i e.1 with
  | some v => v.data.length = e.2.data.length && v.data = e.2.data
  | none => false

/-- One round of `other_vars_cas`. -/
def casBucket (query : List Char) (i : Nat) : Except CasError (List Char) := do
  let query ← (client.buckets i).foldlM (fun query e =>
    if sameOnServer server i e then pure query else appendSet queryLen query e.1 e.2) query
  (server.buckets i).foldlM (fun query e =>
    if (client.find i e.1).isSome then pure query else appendReset queryLen query e.1) query

def otherVarsCas : Except CasError (List Char) :=
  (List.range size).foldlM (casBucket client server queryLen) []

end Cas

def odQryMaxSz : Nat := 1024

/-- What else `od_deploy` meets: the kind of the route, the text of `kiwi_vars_cas` or its -1, and
whether the messages can be made and written. -/
structure DeployEnv where
  replication : Bool
  reported : Option (List Char)
  sends : Nat → Bool

inductive DeployResult
  | overrun
  /-- -1 -/
  | failed
  /-- The number of queries, and the one for the variables that are not reported. -/
  | deployed (queryCount : Nat) (sent : Option (List Char))
  deriving DecidableEq

def odDeploy (env : DeployEnv) (client server : VarMap hash size) : DeployResult :=
  if env.replication then .deployed 0 none
  else
    let reported := env.reported.getD []
    if reported ≠ [] ∧ env.sends 0 = false then .failed
    else
      let queryCount := if reported = [] then 0 else 1
      match otherVarsCas client server (odQryMaxSz - 1) with
      | .error .overrun => .overrun
      -- not more than zero, so nothing is sent
      | .error .failed => .deployed queryCount none
      | .ok text =>
        if text = [] then .deployed queryCount none
        -- the terminator is written as well
        else if odQryMaxSz - 1 < text.length then .overrun
        else if env.sends 1 = false then .failed
        else .deployed (queryCount + 1) (some text)

inductive Statement
  | set (name : List Char) (values : List (List Char))
  | reset (name : List Char)
  deriving DecidableEq

def reservedKeywords : List String :=
  ["all", "analyse", "analyze", "and", "any", "array", "as", "asc", "asymmetric", "both", "case", "cast",
    "check", "collate", "column", "constraint", "create", "current_catalog", "current_date", "current_role",
    "current_time", "current_timestamp", "current_user", "default", "deferrable", "desc", "distinct", "do",
    "else", "end", "except", "false", "fetch", "for", "foreign", "from", "grant", "group", "having", "in",
    "initially", "intersect", "into", "lateral", "leading", "limit", "localtime", "localtimestamp", "not",
    "null", "offset", "on", "only", "or", "order", "placing", "primary", "references", "returning", "select",
    "session_user", "some", "symmetric", "system_user", "table", "then", "to", "trailing", "true", "union",
    "unique", "user", "using", "variadic", "when", "where", "window", "with"]

def typeFuncNameKeywords : List String :=
  ["authorization", "binary", "collation", "concurrently", "cross", "current_schema", "freeze", "full",
    "ilike", "inner", "is", "isnull", "join", "left", "like", "natural", "notnull", "outer", "overlaps",
    "right", "similar", "tablesample", "verbose"]

/-- `ColId` of the grammar: an identifier, but no keyword of these two classes. -/
def isColId (part : List Char) : Bool :=
  part.head?.any (fun c => c.isLower || c = '_' || 128 ≤ c.toNat) &&
    !((reservedKeywords ++ typeFuncNameKeywords).any fun keyword => keyword.toList = part)

/-- `var_name` of the grammar -/
def isVarName (name : List Char) : Bool := (name.splitOn '.').all isColId

def readStatement (text : List Char) : Option (Statement × List Char) :=
  if "SET ".toList.isPrefixOf text then
    let name := (text.drop 4).takeWhile isNameChar
    let rest := (text.drop 4).dropWhile isNameChar
    if isVarName name ∧ rest.head? = some '=' then
      (readLiterals (rest.length + 2) rest.tail).bind fun r =>
        if r.2.head? = some ';' then some (.set name r.1, r.2.tail) else none
    else none
  else if "RESET ".toList.isPrefixOf text then
    let name := (text.drop 6).takeWhile isNameChar
    let rest := (text.drop 6).dropWhile isNameChar
    if isVarName name ∧ rest.head? = some ';' then some (.reset name, rest.tail) else none
  else none

def readStatements : (fuel : Nat) → List Char → Option (List Statement)
  | 0, _ => none
  | fuel + 1, text =>
    if text = [] then some []
    else (readStatement text).bind fun r => (readStatements fuel r.2).map (r.1 :: ·)

abbrev Settings := List Char → List (List Char)

/-- The effect of a statement, given the values to which variables are reset. -/
def Statement.execute (defaults settings : Settings) : Statement → Settings
  | set name values => Function.update settings name values
  | reset name => Function.update settings name (defaults name)

/-- The server runs a text as a whole; if it cannot be read nothing is executed. -/
def executeText (defaults settings : Settings) (text : List Char) : Settings :=
  match readStatements (text.length + 1) text with
  | some sts => sts.foldl (Statement.execute defaults) settings
  | none => settings

def VarMap.lookup (m : VarMap hash size) (name : GucName) : Option VarValue := m.find (hash name) name

def VarMap.Agrees (m : VarMap hash size) (defaults settings : Settings) : Prop :=
  ∀ name : GucName, settings name.chars = ((m.lookup name).map VarValue.values).getD (defaults name.chars)

/-- The variables of the client have its values, and those that only the server had are reset. -/
def Settled (client server : VarMap hash size) (defaults settings : Settings) : Prop :=
  (∀ name value, client.lookup name = some value → settings name.chars = value.values) ∧
    ∀ name, (server.lookup name).isSome → client.lookup name = none →
      settings name.chars = defaults name.chars

/-- What a caller of `od_deploy` relies on. -/
def DeployResult.Complete (client server : VarMap hash size) (defaults settings : Settings) :
    DeployResult → Prop
  | overrun => False
  | failed => True
  | deployed _ none => Settled client server defaults settings
  | deployed _ (some text) => Settled client server defaults (executeText defaults settings text)

inductive Change
  | set (name : GucName) (value : VarValue)
  | reset (name : GucName)

namespace Change

def name : Change → GucName
  | set name _ => name
  | reset name => name

def text : Change → List Char
  | set name value => "SET ".toList ++ (name.chars ++ ['=']) ++ (literals value.values ++ [';'])
  | reset name => "RESET ".toList ++ (name.chars ++ [';'])

theorem text_set (name : GucName) (value : VarValue) :
    (set name value).text = "SET ".toList ++ (name.chars ++ ['=']) ++ (literals value.values ++ [';']) := rfl

theorem text_reset (name : GucName) : (reset name).text = "RESET ".toList ++ (name.chars ++ [';']) := rfl

def statement : Change → Statement
  | set name value => .set name.chars value.values
  | reset name => .reset name.chars

def append (queryLen : Nat) (query : List Char) : Change → Except CasError (List Char)
  | set name value => appendSet queryLen query name value
  | reset name => appendReset queryLen query name

end Change

section Changes

variable (client server : VarMap hash size)

def setsOf (i : Nat) : List Change :=
  (client.buckets i).filterMap fun e => if sameOnServer server i e then none else some (.set e.1 e.2)

def resetsOf (i : Nat) : List Change :=
  (server.buckets i).filterMap fun e => if (client.find i e.1).isSome then none else some (.reset e.1)

/-- What has to change on the server, in the order of the buckets. -/
def changes : List Change := (List.range size).flatMap fun i => setsOf client server i ++ resetsOf client server i

theorem foldlM_append_filterMap (queryLen : Nat) (skip : GucName × VarValue → Bool)
    (change : GucName × VarValue → Change) (items : List (GucName × VarValue)) (query : List Char) :
    (items.filterMap fun e => if skip e then none else some (change e)).foldlM (Change.append queryLen) query =
      items.foldlM (fun query e => if skip e then pure query else (change e).append queryLen query) query := by
  rw [foldlM_filterMap]
  congr 1
  funext query e
  cases skip e <;> rfl

theorem casBucket_eq (queryLen : Nat) (query : List Char) (i : Nat) :
    casBucket client server queryLen query i =
      (setsOf client server i ++ resetsOf client server i).foldlM (Change.append queryLen) query := by
  have hresets (query : List Char) : (resetsOf client server i).foldlM (Change.append queryLen) query =
      (server.buckets i).foldlM (fun query e =>
        if (client.find i e.1).isSome then pure query else appendReset queryLen query e.1) query :=
    foldlM_append_filterMap queryLen _ (fun e => .reset e.1) _ query
  rw [foldlM_append, setsOf, foldlM_append_filterMap, funext hresets]
  rfl

theorem foldlM_casBucket (queryLen : Nat) (is : List Nat) (query : List Char) :
    is.foldlM (casBucket client server queryLen) query =
      (is.flatMap fun i => setsOf client server i ++ resetsOf client server i).foldlM
        (Change.append queryLen) query := by
  induction is generalizing query with
  | nil => rfl
  | cons i is ih =>
    rw [foldlM_cons, flatMap_cons, foldlM_append, casBucket_eq]
    congr 1
    funext query
    exact ih query

/-- `other_vars_cas` writes the changes one after another. -/
theorem otherVarsCas_eq (queryLen : Nat) :
    otherVarsCas client server queryLen = (changes client server).foldlM (Change.append queryLen) [] :=
  foldlM_casBucket client server queryLen (List.range size) []

end Changes

/-- The texts fit from a position on, each value with four bytes to spare, and the terminator. -/
def Fits (queryLen : Nat) : (pos : Nat) → List Change → Prop
  | pos, [] => pos ≤ queryLen
  | pos, .set name value :: cs => pos + (Change.set name value).text.length + 3 ≤ queryLen ∧
      Fits queryLen (pos + (Change.set name value).text.length) cs
  | pos, .reset name :: cs => pos + (Change.reset name).text.length ≤ queryLen + 1 ∧
      Fits queryLen (pos + (Change.reset name).text.length) cs

/-- A text is found not to fit before anything is written behind the buffer. -/
def Stops (queryLen : Nat) : (pos : Nat) → List Change → Prop
  | _, [] => False
  | pos, .set name value :: cs => queryLen < 6 + name.chars.length ∨
      pos + name.chars.length + 5 ≤ queryLen + 1 ∧
        (queryLen < pos + (Change.set name value).text.length + 3 ∨
          Stops queryLen (pos + (Change.set name value).text.length) cs)
  | pos, .reset name :: cs => queryLen < 7 + name.chars.length ∨
      pos + (Change.reset name).text.length ≤ queryLen + 1 ∧
        Stops queryLen (pos + (Change.reset name).text.length) cs

theorem length_set_text (name : GucName) (value : VarValue) :
    (Change.set name value).text.length = name.chars.length + (literals value.values).length + 6 := by
  have hset : "SET ".toList.length = 4 := by decide
  rw [Change.text_set, length_append, length_append, length_append, length_append, length_singleton,
    length_singleton, hset]
  omega

theorem length_reset_text (name : GucName) : (Change.reset name).text.length = name.chars.length + 7 := by
  have hreset : "RESET ".toList.length = 6 := by decide
  rw [Change.text_reset, length_append, length_append, length_singleton, hreset]
  omega

theorem append_set (queryLen : Nat) (query : List Char) (name : GucName) (value : VarValue) :
    (Change.set name value).append queryLen query =
      if queryLen < 6 + name.chars.length then .error .failed
      else if queryLen + 1 < query.length + name.chars.length + 5 then .error .overrun
      else if query.length + (Change.set name value).text.length + 3 ≤ queryLen then
        .ok (query ++ (Change.set name value).text)
      else .error .failed := by
  have hlen : (query ++ ("SET ".toList ++ (name.chars ++ ['=']))).length =
      query.length + name.chars.length + 5 := by
    have hset : "SET ".toList.length = 4 := by decide
    rw [length_append, length_append, length_append, length_singleton, hset]
    omega
  rw [Change.append, appendSet, length_set_text]
  by_cases hname : queryLen < 6 + name.chars.length
  · rw [if_pos hname, if_pos (by omega)]
  · rw [if_neg hname, if_neg (by omega)]
    simp only [hlen]
    split
    · rfl
    · rw [VarValue.data, enquoteValues_eq value.nonempty value.no_nul]
      by_cases hroom : query.length + (name.chars.length + (literals value.values).length + 6) + 3 ≤ queryLen
      · rw [if_pos hroom, if_pos (by omega)]
        simp only [Change.text_set, append_assoc]
      · rw [if_neg hroom, if_neg (by omega)]

theorem append_reset (queryLen : Nat) (query : List Char) (name : GucName) :
    (Change.reset name).append queryLen query =
      if queryLen < 7 + name.chars.length then .error .failed
      else if queryLen + 1 < query.length + (Change.reset name).text.length then .error .overrun
      else .ok (query ++ (Change.reset name).text) := by
  have hlen : (query ++ ("RESET ".toList ++ (name.chars ++ [';']))).length =
      query.length + (Change.reset name).text.length := length_append
  rw [Change.append, appendReset]
  simp only [hlen]
  by_cases hname : queryLen < 7 + name.chars.length
  · rw [if_pos hname, if_pos (by omega)]
  · rw [if_neg hname, if_neg (by omega)]
    rfl

def texts (cs : List Change) : List Char := cs.flatMap Change.text

/-- What `other_vars_cas` returns. -/
inductive Outcome (queryLen : Nat) (query : List Char) (cs : List Change) : Except CasError (List Char) → Prop
  | fits (h : Fits queryLen query.length cs) (hroom : (query ++ texts cs).length ≤ queryLen) :
      Outcome queryLen query cs (.ok (query ++ texts cs))
  | tooLong (h : queryLen < (query ++ texts cs).length) (hstops : ¬ Stops queryLen query.length cs) :
      Outcome queryLen query cs (.ok (query ++ texts cs))
  | stops (h : Stops queryLen query.length cs) (hfits : ¬ Fits queryLen query.length cs) :
      Outcome queryLen query cs (.error .failed)
  | overrun (h : ¬ Fits queryLen query.length cs) (hstops : ¬ Stops queryLen query.length cs) :
      Outcome queryLen query cs (.error .overrun)

theorem texts_cons (c : Change) (cs : List Change) : texts (c :: cs) = c.text ++ texts cs := flatMap_cons

/-- A change that fits is written, and the rest decides. -/
theorem Outcome.cons {queryLen : Nat} {query : List Char} {c : Change} {cs : List Change}
    {r : Except CasError (List Char)} (h : Outcome queryLen (query ++ c.text) cs r)
    (hfits : Fits queryLen query.length (c :: cs) ↔ Fits queryLen (query ++ c.text).length cs)
    (hstops : Stops queryLen query.length (c :: cs) ↔ Stops queryLen (query ++ c.text).length cs) :
    Outcome queryLen query (c :: cs) r := by
  have htexts : (query ++ c.text) ++ texts cs = query ++ texts (c :: cs) := by
    rw [texts_cons, append_assoc]
  cases h with
  | fits h hroom =>
    rw [htexts] at hroom ⊢
    exact .fits (hfits.mpr h) hroom
  | tooLong h hstops' =>
    rw [htexts] at h ⊢
    exact .tooLong h (mt hstops.mp hstops')
  | stops h hfits' => exact .stops (hstops.mpr h) (mt hfits.mp hfits')
  | overrun h hstops' => exact .overrun (mt hfits.mp h) (mt hstops.mp hstops')

theorem Fits.length_le {queryLen pos : Nat} (h : Fits queryLen pos cs) :
    pos + (texts cs).length ≤ queryLen := by
  induction cs generalizing pos with
  | nil => exact h
  | cons c cs ih =>
    rw [texts_cons, length_append, ← Nat.add_assoc]
    cases c with
    | set name value => exact ih h.2
    | reset name => exact ih h.2

theorem outcome_foldlM (queryLen : Nat) (query : List Char) (cs : List Change) :
    Outcome queryLen query cs (cs.foldlM (Change.append queryLen) query) := by
  induction cs generalizing query with
  | nil =>
    have hnil : query ++ texts [] = query := append_nil query
    have hresult : ([] : List Change).foldlM (Change.append queryLen) query = .ok (query ++ texts []) :=
      congrArg Except.ok hnil.symm
    rw [hresult]
    by_cases hroom : query.length ≤ queryLen
    · exact .fits hroom (hnil.symm ▸ hroom)
    · exact .tooLong (hnil.symm ▸ Nat.lt_of_not_le hroom) (fun h => h.elim)
  | cons c cs ih =>
    rw [foldlM_cons]
    cases c with
    | set name value =>
      have hlen := length_set_text name value
      rw [append_set]
      split
      · next hname =>
        refine .stops (.inl hname) ?_
        rintro ⟨hfits, -⟩
        omega
      · next hname =>
        split
        · next hover =>
          refine .overrun ?_ ?_
          · rintro ⟨hfits, -⟩
            omega
          · rintro (hstop | ⟨hstop, -⟩) <;> omega
        · next hover =>
          split
          · next hroom =>
            apply (ih _).cons
            · rw [length_append, Fits]
              exact and_iff_right hroom
            · rw [length_append, Stops, or_iff_right hname, and_iff_right (by omega),
                or_iff_right (by omega)]
          · next hroom =>
            refine .stops (.inr ⟨by omega, .inl (by omega)⟩) ?_
            rintro ⟨hfits, -⟩
            exact hroom hfits
    | reset name =>
      have hlen := length_reset_text name
      rw [append_reset]
      split
      · next hname =>
        refine .stops (.inl hname) ?_
        intro hfits
        have hle := hfits.length_le
        rw [texts_cons, length_append] at hle
        omega
      · next hname =>
        split
        · next hover =>
          refine .overrun ?_ ?_
          · rintro ⟨hfits, -⟩
            omega
          · rintro (hstop | ⟨hstop, -⟩) <;> omega
        · next hover =>
          apply (ih _).cons
          · rw [length_append, Fits]
            exact and_iff_right (by omega)
          · rw [length_append, Stops, or_iff_right hname, and_iff_right (by omega)]

theorem takeWhile_name {p : Char → Bool} {name : List Char} {c : Char} (hname : ∀ d ∈ name, p d = true)
    (hc : p c = false) (rest : List Char) :
    (name ++ c :: rest).takeWhile p = name ∧ (name ++ c :: rest).dropWhile p = c :: rest := by
  rw [takeWhile_append_of_pos hname, dropWhile_append_of_pos hname,
    takeWhile_cons_of_neg (by rw [hc]; decide), dropWhile_cons_of_neg (by rw [hc]; decide)]
  exact ⟨append_nil name, rfl⟩

theorem readStatement_text (c : Change) (rest : List Char) :
    readStatement (c.text ++ rest) = if isVarName c.name.chars then some (c.statement, rest) else none := by
  cases c with
  | set name value =>
    have htext : (Change.set name value).text ++ rest =
        'S' :: 'E' :: 'T' :: ' ' :: (name.chars ++ '=' :: (literals value.values ++ ';' :: rest)) := by
      simp only [Change.text_set, append_assoc]
      rfl
    obtain ⟨htake, hdrop⟩ := takeWhile_name name.valid (c := '=') (by decide) (literals value.values ++ ';' :: rest)
    have hread : readLiterals (('=' :: (literals value.values ++ ';' :: rest)).length + 2)
        (literals value.values ++ ';' :: rest) = some (value.values, ';' :: rest) := by
      apply readLiterals_literals value.nonempty (by simp) (by simp)
      simp only [length_cons, length_append]
      omega
    rw [htext, readStatement, if_pos (by rfl)]
    simp only [drop_succ_cons, drop_zero, htake, hdrop, head?_cons, tail_cons, and_true, Change.name]
    rw [hread]
    simp only [Option.bind_some, head?_cons, tail_cons, if_true, Change.statement]
    by_cases hname : isVarName name.chars = true <;> simp [hname]
  | reset name =>
    have htext : (Change.reset name).text ++ rest =
        'R' :: 'E' :: 'S' :: 'E' :: 'T' :: ' ' :: (name.chars ++ ';' :: rest) := by
      simp only [Change.text_reset, append_assoc]
      rfl
    obtain ⟨htake, hdrop⟩ := takeWhile_name name.valid (c := ';') (by decide) rest
    rw [htext, readStatement, if_neg (fun h => by cases h), if_pos (by rfl)]
    simp only [drop_succ_cons, drop_zero, htake, hdrop, head?_cons, tail_cons, and_true,
      Change.statement, Change.name]
    by_cases hname : isVarName name.chars = true <;> simp [hname]

theorem Change.text_ne_nil (c : Change) : c.text ≠ [] := by
  cases c <;> exact cons_ne_nil _ _

/-- The server can read the statements of all changes. -/
def Readable (cs : List Change) : Prop := ∀ c ∈ cs, isVarName c.name.chars = true

instance (cs : List Change) : Decidable (Readable cs) := inferInstanceAs (Decidable (∀ c ∈ cs, _))

theorem readable_cons {c : Change} : Readable (c :: cs) ↔ isVarName c.name.chars = true ∧ Readable cs :=
  forall_mem_cons

theorem readStatements_texts {fuel : Nat} (hfuel : (texts cs).length < fuel) :
    readStatements fuel (texts cs) = if Readable cs then some (cs.map Change.statement) else none := by
  induction cs generalizing fuel with
  | nil =>
    obtain ⟨fuel, rfl⟩ : ∃ k, fuel = k + 1 := ⟨fuel - 1, by omega⟩
    rfl
  | cons c cs ih =>
    obtain ⟨fuel, rfl⟩ : ∃ k, fuel = k + 1 := ⟨fuel - 1, by omega⟩
    have hpos := length_pos_of_ne_nil c.text_ne_nil
    rw [texts_cons, length_append] at hfuel
    rw [texts_cons, readStatements, if_neg (fun h => c.text_ne_nil (append_eq_nil_iff.mp h).1),
      readStatement_text]
    by_cases hc : isVarName c.name.chars = true
    · rw [if_pos hc, Option.bind_some, ih (by omega)]
      by_cases hcs : Readable cs
      · rw [if_pos hcs, if_pos (readable_cons.mpr ⟨hc, hcs⟩)]
        rfl
      · rw [if_neg hcs, if_neg fun h => hcs (readable_cons.mp h).2]
        rfl
    · rw [if_neg hc, if_neg fun h => hc (readable_cons.mp h).1]
      rfl

theorem executeText_texts (defaults settings : Settings) (cs : List Change) :
    executeText defaults settings (texts cs) =
      if Readable cs then (cs.map Change.statement).foldl (Statement.execute defaults) settings else settings := by
  rw [executeText, readStatements_texts (Nat.lt_succ_self _)]
  by_cases hcs : Readable cs
  · rw [if_pos hcs, if_pos hcs]
  · rw [if_neg hcs, if_neg hcs]

def Change.value? : Change → Option VarValue
  | set _ value => some value
  | reset _ => none

def Change.after (defaults : Settings) : Change → List (List Char)
  | set _ value => value.values
  | reset name => defaults name.chars

theorem execute_statement (defaults settings : Settings) (c : Change) :
    Statement.execute defaults settings c.statement =
      Function.update settings c.name.chars (c.after defaults) := by
  cases c <;> rfl

/-- A variable has a value if it had it before or a change gives it, and no change takes it away. -/
theorem foldl_execute {defaults : Settings} {n : List Char} {x : List (List Char)} (cs : List Change)
    (settings : Settings) (hall : ∀ c ∈ cs, c.name.chars = n → c.after defaults = x)
    (h : settings n = x ∨ ∃ c ∈ cs, c.name.chars = n) :
    (cs.map Change.statement).foldl (Statement.execute defaults) settings n = x := by
  induction cs generalizing settings with
  | nil =>
    rcases h with h | ⟨c, hc, -⟩
    · exact h
    · cases hc
  | cons c cs ih =>
    rw [map_cons, foldl_cons, execute_statement]
    apply ih _ (fun d hd => hall d (mem_cons_of_mem _ hd))
    by_cases hn : c.name.chars = n
    · left
      rw [hn, Function.update_self]
      exact hall c mem_cons_self hn
    · rcases h with h | ⟨d, hd, hdn⟩
      · left
        rw [Function.update_of_ne (Ne.symm hn), h]
      · rcases mem_cons.mp hd with rfl | hd
        · exact absurd hdn hn
        · exact .inr ⟨d, hd, hdn⟩

theorem mem_of_bucketSearch {key : GucName}
    (h : bucketSearch bucket key = some v) : (key, v) ∈ bucket := by
  obtain ⟨e, he, rfl⟩ := Option.map_eq_some_iff.mp h
  have hkey := find?_some he
  rw [decide_eq_true_eq] at hkey
  exact hkey ▸ mem_of_find?_eq_some he

theorem bucketSearch_of_mem (hnodup : (bucket.map Prod.fst).Nodup)
    (he : e ∈ bucket) : bucketSearch bucket e.1 = some e.2 := by
  cases hfind : bucketSearch bucket e.1 with
  | none =>
    rw [bucketSearch, Option.map_eq_none_iff, find?_eq_none] at hfind
    exact absurd (decide_eq_true rfl) (hfind e he)
  | some v =>
    have hmem := mem_of_bucketSearch hfind
    have heq := inj_on_of_nodup_map hnodup hmem he rfl
    rw [← heq]

theorem VarMap.find_eq_lookup (m : VarMap hash size) {name : GucName} (h : hash name % size = i) :
    m.find i name = m.lookup name := by
  rw [VarMap.lookup, VarMap.find, VarMap.find, ← h, Nat.mod_mod]

theorem VarMap.lookup_of_mem (m : VarMap hash size) (hi : i < size)
    (he : e ∈ m.buckets i) : m.lookup e.1 = some e.2 := by
  rw [VarMap.lookup, VarMap.find, m.placed i hi e he]
  exact bucketSearch_of_mem (m.distinct i hi) he

theorem VarMap.mem_of_lookup (m : VarMap hash size) {name : GucName}
    (h : m.lookup name = some v) : (name, v) ∈ m.buckets (hash name % size) := mem_of_bucketSearch h

theorem stored_inj {vs ws : List (List Char)} (hvs : ∀ v ∈ vs, '\x00' ∉ v) (hws : ∀ w ∈ ws, '\x00' ∉ w)
    (h : stored vs = stored ws) : vs = ws := by
  have hcons : ∀ (v : List Char) vs, stored (v :: vs) = v ++ '\x00' :: stored vs := by
    intro v vs
    rw [stored, flatMap_cons, append_assoc]
    rfl
  induction vs generalizing ws with
  | nil => exact (stored_eq_nil.mp h.symm).symm
  | cons v vs ih =>
    cases ws with
    | nil => exact stored_eq_nil.mp h
    | cons w ws =>
      rw [hcons, hcons] at h
      have hne : ∀ u : List Char, '\x00' ∉ u → ∀ d ∈ u, (decide (d ≠ '\x00')) = true :=
        fun u hu d hd => decide_eq_true (fun h0 => hu (h0 ▸ hd))
      have hv := takeWhile_name (hne v (hvs v mem_cons_self)) (c := '\x00') (by decide) (stored vs)
      have hw := takeWhile_name (hne w (hws w mem_cons_self)) (c := '\x00') (by decide) (stored ws)
      rw [h] at hv
      have hrest : stored vs = stored ws := (List.cons.inj (hv.2.symm.trans hw.2)).2
      rw [hv.1.symm.trans hw.1, ih (fun u hu => hvs u (mem_cons_of_mem _ hu))
        (fun u hu => hws u (mem_cons_of_mem _ hu)) hrest]

section Deploy

variable {client server : VarMap hash size} {defaults settings : Settings} {c : Change}

theorem mem_changes : c ∈ changes client server ↔
    ∃ i < size, c ∈ setsOf client server i ∨ c ∈ resetsOf client server i := by
  simp only [changes, mem_flatMap, List.mem_range, mem_append]

/-- A change sets a variable to the client's value, or there is none. -/
theorem lookup_of_mem_changes (hc : c ∈ changes client server) :
    client.lookup c.name = c.value? := by
  obtain ⟨i, hi, hc⟩ := mem_changes.mp hc
  rcases hc with hc | hc
  · obtain ⟨e, he, hif⟩ := mem_filterMap.mp hc
    split at hif
    · cases hif
    · cases hif
      exact client.lookup_of_mem hi he
  · obtain ⟨e, he, hif⟩ := mem_filterMap.mp hc
    split at hif
    · cases hif
    · next hnone =>
      cases hif
      rw [client.find_eq_lookup (server.placed i hi e he)] at hnone
      exact Option.not_isSome_iff_eq_none.mp hnone

/-- A variable of the client is changed unless the server has its value. -/
theorem set_mem_changes {name : GucName} {value : VarValue} (h : client.lookup name = some value) :
    Change.set name value ∈ changes client server ∨
      ∃ v, server.lookup name = some v ∧ v.values = value.values := by
  have hi := Nat.mod_lt (hash name) client.size_pos
  have hmem := client.mem_of_lookup h
  cases hsame : sameOnServer server (hash name % size) (name, value) with
  | false =>
    refine .inl (mem_changes.mpr ⟨_, hi, .inl (mem_filterMap.mpr ⟨_, hmem, ?_⟩)⟩)
    rw [hsame]
    rfl
  | true =>
    rw [sameOnServer, server.find_eq_lookup rfl] at hsame
    split at hsame
    · next v hv =>
      rw [Bool.and_eq_true, decide_eq_true_eq, decide_eq_true_eq] at hsame
      exact .inr ⟨v, hv, stored_inj v.no_nul value.no_nul hsame.2⟩
    · cases hsame

theorem reset_mem_changes {name : GucName} (hserver : (server.lookup name).isSome = true)
    (hclient : client.lookup name = none) : Change.reset name ∈ changes client server := by
  obtain ⟨v, hv⟩ := Option.isSome_iff_exists.mp hserver
  have hi := Nat.mod_lt (hash name) server.size_pos
  refine mem_changes.mpr ⟨_, hi, .inr (mem_filterMap.mpr ⟨_, server.mem_of_lookup hv, ?_⟩)⟩
  rw [client.find_eq_lookup rfl, hclient]
  rfl

/-- The changes bring the server to the settings of the client. -/
theorem settled_changes (hagrees : server.Agrees defaults settings) :
    Settled client server defaults
      (((changes client server).map Change.statement).foldl (Statement.execute defaults) settings) := by
  have hvalue : ∀ c ∈ changes client server, ∀ name : GucName, c.name.chars = name.chars →
      c.value? = client.lookup name := by
    intro c hc name hname
    rw [← GucName.ext_chars hname, lookup_of_mem_changes hc]
  constructor
  · intro name value hclient
    apply foldl_execute
    · intro c hc hname
      have hc' := (hvalue c hc name hname).trans hclient
      cases c with
      | set _ _ => exact congrArg VarValue.values (Option.some.inj hc')
      | reset _ => cases hc'
    · rcases set_mem_changes hclient with hmem | ⟨v, hv, hvalues⟩
      · exact .inr ⟨_, hmem, rfl⟩
      · left
        rw [hagrees name, hv]
        exact hvalues
  · intro name hserver hclient
    apply foldl_execute
    · intro c hc hname
      have hc' := (hvalue c hc name hname).trans hclient
      cases c with
      | set _ _ => cases hc'
      | reset _ => exact congrArg defaults hname
    · exact .inr ⟨_, reset_mem_changes hserver hclient, rfl⟩

/-- The setting that a map stands for; a variable it does not have has its default. -/
def VarMap.setting (m : VarMap hash size) (defaults : Settings) (name : GucName) : List (List Char) :=
  ((m.lookup name).map VarValue.values).getD (defaults name.chars)

/-- The maps stand for the same settings. -/
def SameSettings (client server : VarMap hash size) (defaults : Settings) : Prop :=
  ∀ name, client.setting defaults name = server.setting defaults name

/-- With nothing sent, the server is where the client wants it if the maps stand for the same settings. -/
theorem settled_iff (hagrees : server.Agrees defaults settings) :
    Settled client server defaults settings ↔ SameSettings client server defaults := by
  constructor
  · rintro ⟨hset, hreset⟩ name
    rw [VarMap.setting, VarMap.setting, ← hagrees name]
    cases hclient : client.lookup name with
    | some value => exact (hset name value hclient).symm
    | none =>
      cases hserver : server.lookup name with
      | none => rw [hagrees name, hserver]
      | some v => exact (hreset name (by rw [hserver]; rfl) hclient).symm
  · intro hsame
    refine ⟨fun name value hclient => ?_, fun name _ hclient => ?_⟩
    · have heq := hsame name
      rw [VarMap.setting, hclient] at heq
      rw [hagrees name]
      exact heq.symm
    · have heq := hsame name
      rw [VarMap.setting, hclient] at heq
      rw [hagrees name]
      exact heq.symm

/-- An earlier message fails to be sent, or the text fits and is either not sent or can be read.  Otherwise the
maps have to stand for the same settings, and no text may be written behind the buffer. -/
def Deployable (env : DeployEnv) (client server : VarMap hash size) (defaults : Settings) : Prop :=
  (env.replication = false ∧ ((env.reported.getD [] ≠ [] ∧ env.sends 0 = false) ∨
    (Fits (odQryMaxSz - 1) 0 (changes client server) ∧
      (env.sends 1 = false ∨ Readable (changes client server))))) ∨
  (SameSettings client server defaults ∧ (env.replication = true ∨
    Fits (odQryMaxSz - 1) 0 (changes client server) ∨ Stops (odQryMaxSz - 1) 0 (changes client server)))

theorem texts_eq_nil {cs : List Change} (h : texts cs = []) : cs = [] := by
  cases cs with
  | nil => rfl
  | cons c cs =>
    rw [texts_cons] at h
    exact absurd (append_eq_nil_iff.mp h).1 c.text_ne_nil

/-- `od_deploy` brings the server to the client's settings or reports an error exactly if they can be
deployed. -/
theorem deploy_is_complete_iff (env : DeployEnv) (client server : VarMap hash size)
    (hagrees : server.Agrees defaults settings) :
    (odDeploy env client server).Complete client server defaults settings ↔
      Deployable env client server defaults := by
  have hsettled : Settled client server defaults _ := settled_changes hagrees
  have hsame : Settled client server defaults _ ↔ _ := settled_iff hagrees
  have houtcome := outcome_foldlM (odQryMaxSz - 1) [] (changes client server)
  rw [← otherVarsCas_eq] at houtcome
  rw [odDeploy, Deployable]
  cases hrepl : env.replication with
  | true =>
    simp only [if_true, Bool.true_eq_false, false_and, false_or, true_or, and_true]
    exact hsame
  | false =>
    simp only [Bool.false_eq_true, if_false, true_and, false_or]
    split
    · next hfailed => exact iff_of_true trivial (.inl (.inl hfailed))
    · next hfailed =>
      rw [or_iff_right hfailed]
      generalize hr : otherVarsCas client server (odQryMaxSz - 1) = r at houtcome ⊢
      cases houtcome with
      | fits h hroom =>
        rw [List.nil_append] at hroom ⊢
        have h : Fits (odQryMaxSz - 1) 0 (changes client server) := h
        simp only [h, true_and, true_or, and_true]
        by_cases hnil : texts (changes client server) = []
        · simp only [hnil, if_true]
          rw [texts_eq_nil hnil] at hsettled ⊢
          exact iff_of_true hsettled (.inl (.inr nofun))
        · simp only [if_neg hnil, if_neg (Nat.not_lt.mpr hroom)]
          split
          · next hsend => exact iff_of_true trivial (.inl (.inl hsend))
          · next hsend =>
            rw [DeployResult.Complete, executeText_texts, or_iff_right hsend]
            split
            · next hread => exact iff_of_true hsettled (.inl hread)
            · next hread =>
              rw [or_iff_right hread]
              exact hsame
      | tooLong h hstops =>
        rw [List.nil_append] at h ⊢
        have hnil : texts (changes client server) ≠ [] := by
          intro hnil
          rw [hnil] at h
          exact absurd h (by decide)
        have hfits : ¬ Fits (odQryMaxSz - 1) 0 (changes client server) := by
          intro hfits
          have hle := hfits.length_le
          omega
        simp only [if_neg hnil, if_pos h]
        refine iff_of_false (fun hf => hf) ?_
        rintro (⟨hf, -⟩ | ⟨-, hf | hstop⟩)
        · exact hfits hf
        · exact hfits hf
        · exact hstops hstop
      | stops h hfits =>
        constructor
        · exact fun hs => .inr ⟨hsame.mp hs, .inr h⟩
        · rintro (⟨hf, -⟩ | ⟨hs, -⟩)
          · exact absurd hf hfits
          · exact hsame.mpr hs
      | overrun h hstops =>
        refine iff_of_false (fun hf => hf) ?_
        rintro (⟨hf, -⟩ | ⟨-, hf | hstop⟩)
        · exact h hf
        · exact h hf
        · exact hstops hstop

end Deploy

def myVar : GucName :=
  ⟨['m', 'y', '.', 'v'], by decide, List.all_eq_true.mp (by decide), by decide +kernel⟩

def oneVariable (value : VarValue) : VarMap (fun _ => 0) 1 where
  size_pos := by decide
  buckets := fun i => if i = 0 then [(myVar, value)] else []
  placed := fun i hi _ _ => (Nat.lt_one_iff.mp hi).symm
  distinct := by
    intro i _
    split
    · exact nodup_singleton _
    · exact nodup_nil

def noVariables : VarMap (fun _ => 0) 1 where
  size_pos := by decide
  buckets := fun _ => []
  placed := fun _ _ _ h => by cases h
  distinct := fun _ _ => List.nodup_nil

theorem noVariables_agrees (defaults : Settings) : noVariables.Agrees defaults defaults := fun _ => rfl

def letters (n : Nat) : VarValue where
  values := [List.replicate n 'a']
  nonempty := List.cons_ne_nil _ _
  no_nul := by
    intro v hv h0
    rw [List.mem_singleton.mp hv] at h0
    exact absurd (List.eq_of_mem_replicate h0) (by decide)

/-- The settings of a server connection that has the variable. -/
def withVariable (value : VarValue) : Settings := fun name => if name = myVar.chars then value.values else [[]]

theorem oneVariable_agrees (value : VarValue) : (oneVariable value).Agrees (fun _ => [[]]) (withVariable value) := by
  intro name
  have hlookup : (oneVariable value).lookup name = if name = myVar then some value else none := by
    change ([(myVar, value)].find? fun e => e.1 = name).map Prod.snd = _
    by_cases hname : name = myVar
    · rw [if_pos hname, hname, find?_cons, decide_eq_true rfl]
      rfl
    · rw [if_neg hname, find?_cons, decide_eq_false (Ne.symm hname)]
      rfl
  rw [hlookup, withVariable]
  by_cases hname : name = myVar
  · rw [if_pos hname, if_pos (congrArg GucName.chars hname)]
    rfl
  · rw [if_neg hname, if_neg fun h => hname (GucName.ext_chars h)]
    rfl

/-- A value takes the place of another one. -/
theorem deploy_replaces_value :
    (oneVariable (letters 7)).Agrees (fun _ => [[]]) (withVariable (letters 7)) ∧
      (odDeploy ⟨false, none, fun _ => true⟩ (oneVariable (letters 5)) (oneVariable (letters 7))).Complete
        (oneVariable (letters 5)) (oneVariable (letters 7)) (fun _ => [[]]) (withVariable (letters 7)) := by
  have hchanges : changes (oneVariable (letters 5)) (oneVariable (letters 7)) = [.set myVar (letters 5)] := rfl
  refine ⟨oneVariable_agrees _, (deploy_is_complete_iff _ _ _ (oneVariable_agrees _)).mpr (.inl ⟨rfl, .inr ?_⟩)⟩
  rw [hchanges]
  have hlen : (Change.set myVar (letters 5)).text.length = 18 := by decide
  refine ⟨⟨by rw [hlen]; decide, ?_⟩, .inr (by decide +kernel)⟩
  rw [hlen]
  exact (by decide : 0 + 18 ≤ odQryMaxSz - 1)

theorem length_le_doubled (v : List Char) : v.length ≤ (doubled v).length := by
  induction v with
  | nil => exact Nat.le_refl _
  | cons c v ih =>
    rw [doubled_cons, length_append, length_cons]
    split <;> simp only [length_cons, length_nil] <;> omega

theorem length_letters_text (n : Nat) : n ≤ (Change.set myVar (letters n)).text.length := by
  have hdoubled := length_le_doubled (List.replicate n 'a')
  rw [length_replicate] at hdoubled
  have hliterals : (literals (letters n).values).length = (doubled (List.replicate n 'a')).length + 3 := by
    change (literal (List.replicate n 'a')).length = _
    rw [literal, length_cons, length_cons, length_append]
    rfl
  rw [length_set_text]
  omega

/-- A value of 1100 bytes is never sent, and no error is reported. -/
theorem long_value_is_not_deployed :
    noVariables.Agrees (fun _ => [[]]) (fun _ => [[]]) ∧
      odDeploy ⟨false, none, fun _ => true⟩ (oneVariable (letters 1100)) noVariables = .deployed 0 none ∧
      ¬ Settled (oneVariable (letters 1100)) noVariables (fun _ => [[]]) (fun _ => [[]]) := by
  refine ⟨noVariables_agrees _, ?_, ?_⟩
  · have hlong := length_letters_text 1100
    have hcas : otherVarsCas (oneVariable (letters 1100)) noVariables (odQryMaxSz - 1) = .error .failed := by
      rw [otherVarsCas_eq]
      change [Change.set myVar (letters 1100)].foldlM (Change.append (odQryMaxSz - 1)) [] = _
      rw [List.foldlM_cons, append_set, if_neg (by decide), if_neg (by decide),
        if_neg (by rw [odQryMaxSz]; omega)]
      rfl
    rw [odDeploy, hcas]
    rfl
  · intro h
    have hvalue := h.1 myVar (letters 1100) rfl
    exact absurd (congrArg List.length (List.cons.inj hvalue).1) (by rw [List.length_replicate]; decide)

end XStore.Proxy
