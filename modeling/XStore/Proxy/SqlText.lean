import XStore.Proxy.NoticeValue

/-!
# Values as SQL text

`enquote_values` writes the stored value of a variable as a list of literals in the escape string
form, into a buffer of a given size.  The server's scanner takes the escapes away again.
-/
namespace XStore.Proxy

open Option List QueryCheck

/-- `APPEND_CHAR`; none where the source returns -1. -/
def appendChar (limit : Nat) (out : List Char) (c : Char) : Option (List Char) :=
  if out.length < limit then some (out ++ [c]) else none

/-- The loop over the bytes of one value and its closing quote; the result is what follows the
terminator, and the text.  There always is a terminator. -/
def enquoteValue (limit : Nat) : (src out : List Char) → Option (List Char × List Char)
  | [], _ => none
  | c :: src, out =>
    if c = '\x00' then (appendChar limit out '\'').map fun out => (src, out)
    else if c = '\'' then
      (appendChar limit out '\'').bind fun out => (appendChar limit out c).bind (enquoteValue limit src)
    else if c = '\\' then
      (appendChar limit out '\\').bind fun out => (appendChar limit out c).bind (enquoteValue limit src)
    else (appendChar limit out c).bind (enquoteValue limit src)

def enquoteLoop (limit : Nat) : (fuel : Nat) → (src out : List Char) → Option (List Char)
  | 0, _, _ => none
  | fuel + 1, src, out =>
    (if out = [] then some out else appendChar limit out ',').bind fun out =>
    (appendChar limit out 'E').bind fun out =>
    (appendChar limit out '\'').bind fun out =>
    (enquoteValue limit src out).bind fun r =>
      if r.1 = [] then some r.2 else enquoteLoop limit fuel r.1 r.2

/-- `enquote_values`; each round takes at least the terminator of a value. -/
def enquoteValues (src : List Char) (dstLen : Nat) : Option (List Char) :=
  if dstLen < 4 then none else enquoteLoop (dstLen - 4) src.length src []

def stored (vs : List (List Char)) : List Char := vs.flatMap fun v => v ++ ['\x00']

def literal (v : List Char) : List Char := 'E' :: '\'' :: (doubled v ++ ['\''])

def literals : List (List Char) → List Char
  | [] => []
  | [v] => literal v
  | v :: w :: vs => literal v ++ ',' :: literals (w :: vs)

def appendAll (limit : Nat) (out text : List Char) : Option (List Char) := text.foldlM (appendChar limit) out

theorem appendAll_cons (limit : Nat) (out : List Char) (c : Char) (text : List Char) :
    appendAll limit out (c :: text) = (appendChar limit out c).bind fun out => appendAll limit out text := by
  rw [appendAll, foldlM_cons]
  rfl

theorem appendAll_append (limit : Nat) (out text more : List Char) :
    appendAll limit out (text ++ more) =
      (appendAll limit out text).bind fun out => appendAll limit out more := by
  rw [appendAll, foldlM_append]
  rfl

theorem appendAll_eq {limit : Nat} {out : List Char} (text : List Char) (hout : out.length ≤ limit) :
    appendAll limit out text = if out.length + text.length ≤ limit then some (out ++ text) else none := by
  induction text generalizing out with
  | nil =>
    rw [length_nil, Nat.add_zero, if_pos hout, append_nil]
    rfl
  | cons c text ih =>
    rw [appendAll_cons, appendChar]
    by_cases hlt : out.length < limit
    · have hlen : (out ++ [c]).length = out.length + 1 := by
        rw [length_append, length_singleton]
      rw [if_pos hlt, bind_some, ih (by omega), hlen, length_cons, append_assoc]
      congr 1
      simp only [eq_iff_iff]
      omega
    · rw [if_neg hlt, if_neg (by rw [length_cons]; omega)]
      rfl

theorem appendAll_some {limit : Nat} {out text out' : List Char} (h : appendAll limit out text = some out') :
    out' = out ++ text := by
  induction text generalizing out with
  | nil =>
    cases h
    rw [append_nil]
  | cons c text ih =>
    rw [appendAll_cons, appendChar] at h
    split at h
    · rw [ih h, append_assoc]
      rfl
    · cases h

theorem doubled_cons (c : Char) (v : List Char) :
    doubled (c :: v) = (if c = '\'' ∨ c = '\\' then [c, c] else [c]) ++ doubled v := by
  rw [doubled, doubled, flatMap_cons]

theorem enquoteValue_cons (limit : Nat) (out src : List Char) {c : Char} (h0 : c ≠ '\x00') :
    enquoteValue limit (c :: src) out =
      (appendAll limit out (if c = '\'' ∨ c = '\\' then [c, c] else [c])).bind (enquoteValue limit src) := by
  have hone : ∀ out, appendAll limit out [c] = appendChar limit out c := by
    intro out
    rw [appendAll_cons]
    exact bind_fun_some _
  rw [enquoteValue, if_neg h0]
  by_cases hquote : c = '\''
  · rw [if_pos hquote, if_pos (.inl hquote), appendAll_cons, hquote, bind_assoc]
    simp only [← hquote, hone]
  · rw [if_neg hquote]
    by_cases hback : c = '\\'
    · rw [if_pos hback, if_pos (.inr hback), appendAll_cons, hback, bind_assoc]
      simp only [← hback, hone]
    · rw [if_neg hback, if_neg (fun h => h.elim hquote hback), hone]

variable {v : List Char}

/-- One value is written as its doubled text and the closing quote. -/
theorem enquoteValue_eq (limit : Nat) (out src : List Char) (hv : '\x00' ∉ v) :
    enquoteValue limit (v ++ '\x00' :: src) out =
      (appendAll limit out (doubled v ++ ['\''])).map fun out => (src, out) := by
  induction v generalizing out with
  | nil =>
    rw [nil_append, enquoteValue, if_pos rfl, doubled, flatMap_nil, nil_append, appendAll_cons]
    cases appendChar limit out '\'' <;> rfl
  | cons c v ih =>
    have h0 : c ≠ '\x00' := fun h => hv (h ▸ mem_cons_self)
    rw [cons_append, enquoteValue_cons _ _ _ h0, doubled_cons, append_assoc, appendAll_append,
      map_bind]
    congr 1
    funext out
    exact ih out (fun h => hv (mem_cons_of_mem _ h))

/-- What is written for the values, with a comma before it where there is text already. -/
def joined (out : List Char) (vs : List (List Char)) : List Char :=
  if out = [] then literals vs else ',' :: literals vs

theorem enquoteLoop_succ (limit fuel : Nat) (out : List Char) (vs : List (List Char))
    (hv : '\x00' ∉ v) :
    enquoteLoop limit (fuel + 1) (stored (v :: vs)) out =
      (appendAll limit out (joined out [v])).bind fun out =>
        if stored vs = [] then some out else enquoteLoop limit fuel (stored vs) out := by
  have hstored : stored (v :: vs) = v ++ '\x00' :: stored vs := by
    rw [stored, flatMap_cons, append_assoc]
    rfl
  have hsep : (if out = [] then some out else appendChar limit out ',') =
      appendAll limit out (if out = [] then [] else [',']) := by
    split
    · rfl
    · rw [appendAll_cons]
      exact (bind_fun_some _).symm
  have htext : joined out [v] = (if out = [] then [] else [',']) ++ ('E' :: '\'' :: (doubled v ++ ['\''])) := by
    rw [joined]
    split <;> rfl
  rw [enquoteLoop, hstored, hsep, htext, appendAll_append, bind_assoc]
  congr 1
  funext out
  rw [appendAll_cons, bind_assoc]
  congr 1
  funext out
  rw [appendAll_cons, bind_assoc]
  congr 1
  funext out
  rw [enquoteValue_eq _ _ _ hv, bind_map]
  rfl

variable {vs : List (List Char)}

theorem stored_eq_nil : stored vs = [] ↔ vs = [] := by
  constructor
  · intro h
    cases vs with
    | nil => rfl
    | cons v vs =>
      rw [stored, flatMap_cons, append_eq_nil_iff, append_eq_nil_iff] at h
      exact absurd h.1.2 (cons_ne_nil _ _)
  · rintro rfl
    rfl

theorem literal_ne_nil (v : List Char) : literal v ≠ [] := cons_ne_nil _ _

theorem joined_cons (out : List Char) (hne : vs ≠ []) :
    joined out (v :: vs) = joined out [v] ++ ',' :: literals vs := by
  obtain ⟨w, vs, rfl⟩ := exists_cons_of_ne_nil hne
  rw [joined, joined]
  split <;> rfl

variable {fuel : Nat}

theorem enquoteLoop_eq (limit : Nat) (out : List Char) (hne : vs ≠ [])
    (hvs : ∀ v ∈ vs, '\x00' ∉ v) (hfuel : vs.length ≤ fuel) :
    enquoteLoop limit fuel (stored vs) out = appendAll limit out (joined out vs) := by
  induction vs generalizing fuel out with
  | nil => exact absurd rfl hne
  | cons v vs ih =>
    obtain ⟨fuel, rfl⟩ : ∃ k, fuel = k + 1 := ⟨fuel - 1, by simp only [length_cons] at hfuel; omega⟩
    rw [enquoteLoop_succ _ _ _ _ (hvs v mem_cons_self)]
    by_cases hnil : vs = []
    · simp only [hnil, stored_eq_nil.mpr, if_true]
      exact bind_fun_some _
    · simp only [if_neg (mt stored_eq_nil.mp hnil)]
      rw [joined_cons _ hnil, appendAll_append]
      cases hfirst : appendAll limit out (joined out [v]) with
      | none => rfl
      | some out' =>
        have hout : out' ≠ [] := by
          rw [appendAll_some hfirst, joined]
          intro h
          have hnone := (append_eq_nil_iff.mp h).2
          split at hnone
          · exact literal_ne_nil v hnone
          · cases hnone
        rw [bind_some, bind_some, ih out' hnil (fun w hw => hvs w (mem_cons_of_mem _ hw))
          (Nat.le_of_succ_le_succ hfuel), joined, if_neg hout]

theorem length_le_stored (vs : List (List Char)) : vs.length ≤ (stored vs).length := by
  induction vs with
  | nil => exact Nat.le_refl _
  | cons v vs ih =>
    have hcons : (stored (v :: vs)).length = v.length + 1 + (stored vs).length := by
      rw [stored, flatMap_cons, length_append, length_append, length_singleton]
      rfl
    rw [hcons, length_cons]
    omega

/-- The literals are written if they and four more bytes fit. -/
theorem enquoteValues_eq (hne : vs ≠ []) (hvs : ∀ v ∈ vs, '\x00' ∉ v) (dstLen : Nat) :
    enquoteValues (stored vs) dstLen =
      if (literals vs).length + 4 ≤ dstLen then some (literals vs) else none := by
  rw [enquoteValues]
  split
  · rw [if_neg (by omega)]
  · rw [enquoteLoop_eq _ [] hne hvs (length_le_stored vs), joined, if_pos rfl, appendAll_eq _ (Nat.zero_le _)]
    simp only [length_nil, Nat.zero_add, nil_append]
    congr 1
    simp only [eq_iff_iff]
    omega

def isOctal (c : Char) : Bool := '0' ≤ c && c ≤ '7'

def hexValue (c : Char) : Option Nat :=
  if '0' ≤ c ∧ c ≤ '9' then some (c.toNat - 48)
  else if 'a' ≤ c ∧ c ≤ 'f' then some (c.toNat - 87)
  else if 'A' ≤ c ∧ c ≤ 'F' then some (c.toNat - 55)
  else none

def unescapeSingleChar : Char → Char
  | 'b' => '\x08'
  | 'f' => '\x0c'
  | 'n' => '\n'
  | 'r' => '\r'
  | 't' => '\t'
  | 'v' => '\x0b'
  | c => c

/-- An escape behind its backslash: up to three octal digits, up to two hexadecimal ones, or one
byte.  Escapes of code points are not read, nor is that of the quote, which the server may refuse. -/
def readEscape : List Char → Option (Char × List Char)
  | [] => none
  | c :: rest =>
    if isOctal c then
      let digits := ((c :: rest).takeWhile isOctal).take 3
      some (Char.ofNat (digits.foldl (fun n d => 8 * n + (d.toNat - 48)) 0 % 256), (c :: rest).drop digits.length)
    else if c = 'x' then
      match (rest.take 2).map hexValue with
      | some a :: some b :: _ => some (Char.ofNat (16 * a + b), rest.drop 2)
      | some a :: _ => some (Char.ofNat a, rest.drop 1)
      | _ => some ('x', rest)
    else if c = 'u' ∨ c = 'U' ∨ c = '\'' then none
    else some (unescapeSingleChar c, rest)

/-- The inside of a literal up to its closing quote, and what follows. -/
def readBody : (fuel : Nat) → List Char → Option (List Char × List Char)
  | 0, _ => none
  | _ + 1, [] => none
  | fuel + 1, c :: rest =>
    if c = '\'' then
      if rest.head? = some '\'' then (readBody fuel rest.tail).map fun r => ('\'' :: r.1, r.2)
      else some ([], rest)
    else if c = '\\' then
      (readEscape rest).bind fun e => (readBody fuel e.2).map fun r => (e.1 :: r.1, r.2)
    else (readBody fuel rest).map fun r => (c :: r.1, r.2)

def readLiteral (fuel : Nat) : List Char → Option (List Char × List Char)
  | e :: q :: rest => if (e = 'E' ∨ e = 'e') ∧ q = '\'' then readBody fuel rest else none
  | _ => none

/-- Literals with commas between them, and what follows. -/
def readLiterals : (fuel : Nat) → List Char → Option (List (List Char) × List Char)
  | 0, _ => none
  | fuel + 1, text => (readLiteral fuel text).bind fun r =>
    if r.2.head? = some ',' then (readLiterals fuel r.2.tail).map fun rs => (r.1 :: rs.1, rs.2)
    else some ([r.1], r.2)

def decodeLiterals (text : List Char) : Option (List (List Char)) :=
  (readLiterals (text.length + 2) text).bind fun r => if r.2 = [] then some r.1 else none

theorem readBody_doubled {v rest : List Char} (hrest : rest.head? ≠ some '\'')
    (hfuel : (doubled v).length < fuel) : readBody fuel (doubled v ++ '\'' :: rest) = some (v, rest) := by
  induction v generalizing fuel with
  | nil =>
    obtain ⟨fuel, rfl⟩ : ∃ k, fuel = k + 1 := ⟨fuel - 1, by omega⟩
    rw [doubled, flatMap_nil, nil_append, readBody, if_pos rfl, if_neg hrest]
  | cons c v ih =>
    obtain ⟨fuel, rfl⟩ : ∃ k, fuel = k + 1 := ⟨fuel - 1, by omega⟩
    rw [doubled_cons, length_append] at hfuel
    rw [doubled_cons, append_assoc]
    by_cases hquote : c = '\''
    · rw [if_pos (.inl hquote)] at hfuel ⊢
      simp only [length_cons, length_nil] at hfuel
      rw [hquote, cons_append, readBody, if_pos rfl, cons_append, head?_cons, if_pos rfl,
        tail_cons, nil_append, ih (by omega)]
      rfl
    · by_cases hback : c = '\\'
      · rw [if_pos (.inr hback)] at hfuel ⊢
        simp only [length_cons, length_nil] at hfuel
        have hescape : ∀ text, readEscape ('\\' :: text) = some ('\\', text) := fun _ => rfl
        rw [hback, cons_append, readBody, if_neg (by decide), if_pos rfl, cons_append,
          nil_append, hescape, bind_some, ih (by omega)]
        rfl
      · rw [if_neg (fun h => h.elim hquote hback)] at hfuel ⊢
        simp only [length_cons, length_nil] at hfuel
        rw [cons_append, readBody, if_neg hquote, if_neg hback, nil_append, ih (by omega)]
        rfl

theorem readLiteral_literal {v rest : List Char} (hrest : rest.head? ≠ some '\'')
    (hfuel : (literal v).length < fuel) : readLiteral fuel (literal v ++ rest) = some (v, rest) := by
  have hlen : (doubled v).length < fuel := by
    rw [literal, length_cons, length_cons, length_append] at hfuel
    omega
  rw [literal, cons_append, cons_append, readLiteral, if_pos ⟨.inl rfl, rfl⟩, append_assoc]
  exact readBody_doubled hrest hlen

theorem readLiterals_literals {rest : List Char} (hne : vs ≠ [])
    (hquote : rest.head? ≠ some '\'') (hcomma : rest.head? ≠ some ',') (hfuel : (literals vs).length + 1 < fuel) :
    readLiterals fuel (literals vs ++ rest) = some (vs, rest) := by
  induction vs generalizing fuel with
  | nil => exact absurd rfl hne
  | cons v vs ih =>
    obtain ⟨fuel, rfl⟩ : ∃ k, fuel = k + 1 := ⟨fuel - 1, by omega⟩
    cases vs with
    | nil =>
      rw [literals] at hfuel ⊢
      rw [readLiterals, readLiteral_literal hquote (by omega), bind_some, if_neg hcomma]
    | cons w vs =>
      rw [literals, length_append, length_cons] at hfuel
      rw [literals, append_assoc, readLiterals, readLiteral_literal (by simp) (by omega),
        bind_some]
      simp only [cons_append, head?_cons, tail_cons, if_true]
      rw [ih (cons_ne_nil _ _) (by omega)]
      rfl

/-- A list of values that is set on a server reaches the proxy and comes back as the same list. -/
theorem variable_values_round_trip (cs : List ConstVal) (hne : cs ≠ []) (hlen : cs.length ≤ 20)
    (hcs : ∀ c ∈ cs, ValidConst c) :
    ∃ text value, flattenSetVariableArgs (cs.map some) = some text ∧
      parseVariableValue (text.toList ++ ['\x00']) = .ok value ∧
      ∀ dstLen, (literals (cs.map constText)).length + 4 ≤ dstLen →
        ∃ sql, enquoteValues value dstLen = some sql ∧ decodeLiterals sql = some (cs.map constText) := by
  obtain ⟨text, htext, hparse⟩ := parseVariableValue_flatten hne hlen hcs
  refine ⟨text, _, htext, hparse, ?_⟩
  intro dstLen hdst
  have hstored : (cs.flatMap fun c => constText c ++ ['\x00']) = stored (cs.map constText) := by
    rw [stored, List.flatMap_map]
  have hvs : ∀ v ∈ cs.map constText, '\x00' ∉ v := by
    intro v hv
    obtain ⟨c, hc, rfl⟩ := List.mem_map.mp hv
    rcases rendered_cases (hcs c hc) with ⟨-, -, hnum⟩ | ⟨-, hnul⟩
    · exact fun h => absurd (hnum _ h) (by decide)
    · exact hnul
  have hmap : cs.map constText ≠ [] := mt List.map_eq_nil_iff.mp hne
  refine ⟨literals (cs.map constText), ?_, ?_⟩
  · rw [hstored, enquoteValues_eq hmap hvs, if_pos hdst]
  · have hread : readLiterals ((literals (cs.map constText)).length + 2) (literals (cs.map constText) ++ []) =
        some (cs.map constText, []) :=
      readLiterals_literals hmap (by decide) (by decide) (by omega)
    rw [List.append_nil] at hread
    rw [decodeLiterals, hread]
    rfl

/-- A number, a string with every kind of special byte, and an empty string. -/
theorem variable_values_round_trip_mixed : ∃ text value,
    flattenSetVariableArgs [some (.integer (-5)), some (.string "a'b\\ c,"), some (.string "")] = some text ∧
      parseVariableValue (text.toList ++ ['\x00']) = .ok value ∧
      ∀ dstLen, (literals ["-5".toList, "a'b\\ c,".toList, []]).length + 4 ≤ dstLen →
        ∃ sql, enquoteValues value dstLen = some sql ∧
          decodeLiterals sql = some ["-5".toList, "a'b\\ c,".toList, []] := by
  apply variable_values_round_trip [.integer (-5), .string "a'b\\ c,", .string ""]
    (List.cons_ne_nil _ _) (by decide)
  intro c hc
  simp only [List.mem_cons, List.not_mem_nil, or_false] at hc
  rcases hc with rfl | rfl | rfl
  · trivial
  · rw [ValidConst]
    decide
  · rw [ValidConst]
    decide

end XStore.Proxy
