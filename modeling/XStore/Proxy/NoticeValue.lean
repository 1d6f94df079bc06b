import Mathlib.Data.List.GetD
import XStore.QueryCheck.Utility

/-!
# Reading the values of a notice

`parse_notice_message` takes one token from the text and removes its quotes and escapes where it
stands, with one pointer for reading and another for writing.  The text ends with a zero byte that
counts as part of it.  A character stands for a byte.
-/
namespace XStore.Proxy

open List

def isspace (c : Char) : Bool := c = ' ' || (9 ≤ c.toNat && c.toNat ≤ 13)

/-- `*p` -/
def peek (buf : List Char) (p : Nat) : Char := buf.getD p '\x00'

/-- Skip while the bytes have a property; the result is the position and what is left. -/
def skipWhile (f : Char → Bool) (buf : List Char) : (len : Nat) → (p : Nat) → Nat × Nat
  | 0, p => (p, 0)
  | len + 1, p => if f (peek buf p) then skipWhile f buf len (p + 1) else (p, len + 1)

/-- Where the loop over the bytes of a token has stopped. -/
structure TokenEnd where
  buf : List Char
  p : Nat
  q : Nat
  len : Nat
  deriving DecidableEq

/-- The loop over the bytes of a token; none for a backslash at the end. -/
def tokenLoop (quote : Char) : (len : Nat) → (buf : List Char) → (p q : Nat) → Option TokenEnd
  | 0, buf, p, q => some ⟨buf, p, q, 0⟩
  | len + 1, buf, p, q =>
    if peek buf p = '\x00' then some ⟨buf, p, q, len + 1⟩
    else if peek buf p = quote then
      match len with
      | len' + 1 =>
        if quote = '\'' ∧ peek buf (p + 1) = quote then
          tokenLoop quote len' (buf.set q (peek buf (p + 1))) (p + 2) (q + 1)
        else some ⟨buf, p, q, len' + 2⟩
      | 0 => some ⟨buf, p, q, 1⟩
    else if peek buf p = '\\' then
      match len with
      | len' + 1 => tokenLoop quote len' (buf.set q (peek buf (p + 1))) (p + 2) (q + 1)
      | 0 => none
    else if quote = ' ' ∧ peek buf p = ',' then some ⟨buf, p, q, len + 1⟩
    else tokenLoop quote len (buf.set q (peek buf p)) (p + 1) (q + 1)

/-- Behind a token: its closing quote or separator, and what may follow. -/
def skipSeparator (buf : List Char) (p len : Nat) : Nat × Nat :=
  let after := if peek buf p = ',' then (p + 1, len - 1)
    else
      let (p, len) := skipWhile isspace buf (len - 1) (p + 1)
      if 0 < len ∧ peek buf p = ',' then (p + 1, len - 1) else (p, len)
  skipWhile (fun c => isspace c || c = '\x00') buf after.2 after.1

structure NoticeToken where
  buf : List Char
  token : Nat
  tokenLen : Nat
  data : Nat
  size : Nat
  deriving DecidableEq

def takeToken (buf : List Char) (quoted : Bool) (p len : Nat) : Option NoticeToken :=
  match tokenLoop (if quoted then '\'' else ' ') len buf p p with
  | none => none
  | some e =>
    if quoted ∧ e.len = 0 then none
    else
      let (data, size) := if 0 < e.len then skipSeparator e.buf e.p e.len else (e.p, e.len)
      some ⟨e.buf.set e.q '\x00', p, e.q - p + 1, data, size⟩

def parseNoticeMessage (buf : List Char) (data size : Nat) : Option NoticeToken :=
  let (p, len) := skipWhile isspace buf size data
  if len = 0 then none
  else if peek buf p = '\'' then takeToken buf true (p + 1) (len - 1)
  else takeToken buf false p len

inductive ValueError
  /-- `OD_ESERVER_READ` -/
  | serverRead
  /-- A write behind the end of `values` and `lengths`. -/
  | overrun
  deriving DecidableEq

/-- The loop of `parse_variable_value`, with the room that is left in `values` and `lengths`. -/
def parseValues : (room : Nat) → (buf : List Char) → (data len : Nat) →
    Except ValueError (List Char × List (Nat × Nat))
  | 0, buf, _, len => if len = 0 then .ok (buf, []) else .error .overrun
  | room + 1, buf, data, len =>
    if len = 0 then .ok (buf, [])
    else
      match parseNoticeMessage buf data len with
      | none => .error .serverRead
      | some t => (parseValues room t.buf t.data t.size).map fun r => (r.1, (t.token, t.tokenLen) :: r.2)

/-- A value in the text after all of them have been read. -/
def slice (buf : List Char) (r : Nat × Nat) : List Char := (buf.drop r.1).take r.2

/-- `parse_variable_value`: the values one after another, each with its terminator. -/
def parseVariableValue (text : List Char) : Except ValueError (List Char) :=
  (parseValues 20 text 0 text.length).map fun r => r.2.flatMap (slice r.1)

theorem peek_append (pre rest : List Char) (c : Char) : peek (pre ++ c :: rest) pre.length = c := by
  rw [peek, getD_append_right _ _ _ _ (Nat.le_refl _), Nat.sub_self]
  rfl

/-- The byte that is read goes behind the token; what was read before moves on by one place. -/
theorem set_append (pre gap rest : List Char) (c : Char) :
    (pre ++ (gap ++ c :: rest)).set pre.length c = (pre ++ [c]) ++ ((gap ++ [c]).tail ++ rest) := by
  rw [set_append_right _ _ (Nat.le_refl _), Nat.sub_self]
  cases gap with
  | nil => simp
  | cons g gs => simp

/-- The loop with the token so far at the end of `pre`, and `gap` between the two pointers. -/
def loopAt (quote : Char) (pre gap rest : List Char) : Option TokenEnd :=
  tokenLoop quote rest.length (pre ++ (gap ++ rest)) (pre.length + gap.length) pre.length

theorem peek_loop (pre gap rest : List Char) (c : Char) :
    peek (pre ++ (gap ++ c :: rest)) (pre.length + gap.length) = c := by
  rw [← append_assoc, ← length_append]
  exact peek_append (pre ++ gap) rest c

theorem peek_loop_next (pre gap rest : List Char) (c d : Char) :
    peek (pre ++ (gap ++ c :: d :: rest)) (pre.length + gap.length + 1) = d := by
  have h := peek_loop pre (gap ++ [c]) rest d
  rw [append_assoc, length_append] at h
  exact h

theorem length_tail_append (gap : List Char) (c : Char) : ((gap ++ [c]).tail).length = gap.length := by
  rw [length_tail, length_append, length_singleton, Nat.add_sub_cancel]

variable (quote : Char) (pre gap rest : List Char) {c : Char} {cs : List ConstVal} {val : List Char}

theorem loopAt_copy (c : Char) (len : Nat) (hlen : len = rest.length) :
    tokenLoop quote len ((pre ++ (gap ++ c :: rest)).set pre.length c) (pre.length + gap.length + 1)
      (pre.length + 1) = loopAt quote (pre ++ [c]) ((gap ++ [c]).tail) rest := by
  rw [set_append, loopAt, hlen, length_tail_append, length_append, length_singleton]
  congr 1
  omega

theorem loopAt_plain (h0 : c ≠ '\x00') (hquote : c ≠ quote) (hback : c ≠ '\\')
    (hcomma : quote = ' ' → c ≠ ',') :
    loopAt quote pre gap (c :: rest) = loopAt quote (pre ++ [c]) ((gap ++ [c]).tail) rest := by
  rw [loopAt, length_cons, tokenLoop.eq_def]
  simp only [peek_loop]
  rw [if_neg h0, if_neg hquote, if_neg hback, if_neg (fun h => hcomma h.1 h.2)]
  exact loopAt_copy quote pre gap rest c _ rfl

theorem loopAt_doubled :
    loopAt '\'' pre gap ('\'' :: '\'' :: rest) =
      loopAt '\'' (pre ++ ['\'']) ((gap ++ ['\''] ++ ['\'']).tail) rest := by
  rw [loopAt, length_cons, length_cons, tokenLoop.eq_def]
  simp only [peek_loop, peek_loop_next]
  rw [if_neg (by decide), if_pos trivial, if_pos ⟨trivial, trivial⟩]
  have h := loopAt_copy '\'' pre (gap ++ ['\'']) rest '\'' _ rfl
  rw [length_append, append_assoc] at h
  exact h

theorem loopAt_backslash (c : Char) (hquote : quote ≠ '\\') :
    loopAt quote pre gap ('\\' :: c :: rest) =
      loopAt quote (pre ++ [c]) ((gap ++ ['\\'] ++ [c]).tail) rest := by
  rw [loopAt, length_cons, length_cons, tokenLoop.eq_def]
  simp only [peek_loop, peek_loop_next]
  rw [if_neg (by decide), if_neg (Ne.symm hquote), if_pos trivial]
  have h := loopAt_copy quote pre (gap ++ ['\\']) rest c _ rfl
  rw [length_append, append_assoc] at h
  exact h

theorem loopAt_close (h : rest.head? ≠ some '\'') :
    loopAt '\'' pre gap ('\'' :: rest) =
      some ⟨pre ++ (gap ++ '\'' :: rest), pre.length + gap.length, pre.length, rest.length + 1⟩ := by
  rw [loopAt, length_cons, tokenLoop.eq_def]
  cases rest with
  | nil =>
    simp only [peek_loop]
    rw [if_neg (by decide), if_pos trivial]
    rfl
  | cons d rest =>
    simp only [peek_loop, peek_loop_next, length_cons]
    rw [if_neg (by decide), if_pos trivial, if_neg (fun hd => h (congrArg some hd.2))]

/-- A token without quotes ends at the separator or at the end of the text. -/
theorem loopAt_stop (h : c = '\x00' ∨ c = ',') :
    loopAt ' ' pre gap (c :: rest) =
      some ⟨pre ++ (gap ++ c :: rest), pre.length + gap.length, pre.length, rest.length + 1⟩ := by
  rw [loopAt, length_cons, tokenLoop.eq_def]
  simp only [peek_loop]
  rcases h with rfl | rfl
  · rw [if_pos rfl]
  · rw [if_neg (by decide), if_neg (by decide), if_neg (by decide), if_pos ⟨trivial, rfl⟩]

def doubled (val : List Char) : List Char :=
  val.flatMap fun ch => if ch = '\'' ∨ ch = '\\' then [ch, ch] else [ch]

theorem loopAt_doubled_text (hval : '\x00' ∉ val) :
    ∃ gap', loopAt '\'' pre gap (doubled val ++ rest) = loopAt '\'' (pre ++ val) gap' rest := by
  induction val generalizing pre gap with
  | nil => exact ⟨gap, by rw [append_nil]; rfl⟩
  | cons c val ih =>
    have h0 : c ≠ '\x00' := fun h => hval (h ▸ mem_cons_self)
    have hstep : ∃ gap', loopAt '\'' pre gap (doubled (c :: val) ++ rest) =
        loopAt '\'' (pre ++ [c]) gap' (doubled val ++ rest) := by
      rw [doubled, flatMap_cons, append_assoc]
      by_cases hquote : c = '\''
      · rw [if_pos (.inl hquote), hquote]
        exact ⟨_, loopAt_doubled pre gap _⟩
      · by_cases hback : c = '\\'
        · rw [if_pos (.inr hback), hback]
          exact ⟨_, loopAt_backslash '\'' pre gap _ _ (by decide)⟩
        · rw [if_neg (fun h => h.elim hquote hback)]
          exact ⟨_, loopAt_plain '\'' pre gap _ h0 hquote hback (fun h => absurd h (by decide))⟩
    obtain ⟨gap₁, hfirst⟩ := hstep
    obtain ⟨gap₂, hrest⟩ := ih (pre ++ [c]) gap₁ (fun h => hval (mem_cons_of_mem _ h))
    refine ⟨gap₂, ?_⟩
    rw [hfirst, hrest, append_assoc]
    rfl

def IsPlain (c : Char) : Prop := c ≠ '\x00' ∧ c ≠ '\'' ∧ c ≠ ',' ∧ c ≠ '\\' ∧ isspace c = false

theorem IsPlain.ne_blank (h : IsPlain c) : c ≠ ' ' := by
  rintro rfl
  exact absurd h.2.2.2.2 (by decide)

theorem loopAt_plain_text (hval : ∀ c ∈ val, IsPlain c) :
    ∃ gap', loopAt ' ' pre gap (val ++ rest) = loopAt ' ' (pre ++ val) gap' rest := by
  induction val generalizing pre gap with
  | nil => exact ⟨gap, by rw [append_nil]; rfl⟩
  | cons c val ih =>
    have hc := hval c mem_cons_self
    have hfirst := loopAt_plain ' ' pre gap (val ++ rest) hc.1 hc.ne_blank hc.2.2.2.1 (fun _ => hc.2.2.1)
    obtain ⟨gap', hrest⟩ := ih (pre ++ [c]) ((gap ++ [c]).tail) (fun d hd => hval d (mem_cons_of_mem _ hd))
    refine ⟨gap', ?_⟩
    rw [cons_append, hfirst, hrest, append_assoc]
    rfl

theorem skipWhile_zero (f : Char → Bool) (buf : List Char) (p : Nat) : skipWhile f buf 0 p = (p, 0) := by
  rw [skipWhile]

theorem skipWhile_skip (f : Char → Bool) (h : f c = true) :
    skipWhile f (pre ++ c :: rest) (rest.length + 1) pre.length =
      skipWhile f (pre ++ c :: rest) rest.length (pre.length + 1) := by
  rw [skipWhile, peek_append, if_pos h]

theorem skipWhile_stop (f : Char → Bool) (h : f c = false) :
    skipWhile f (pre ++ c :: rest) (rest.length + 1) pre.length = (pre.length, rest.length + 1) := by
  rw [skipWhile, peek_append, if_neg (by rw [h]; decide)]

/-- A text that the reader does not skip at its beginning. -/
def Begins (text : List Char) : Prop := ∃ c rest, text = c :: rest ∧ c ≠ '\x00' ∧ isspace c = false

/-- The end of the text, or a separator and another token. -/
inductive Behind : (text unread : List Char) → Prop
  | last : Behind ['\x00'] []
  | separator {unread : List Char} (h : Begins unread) : Behind (',' :: ' ' :: unread) unread

theorem Behind.head {text unread : List Char} (h : Behind text unread) :
    ∃ c rest, text = c :: rest ∧ (c = '\x00' ∨ c = ',') := by
  cases h with
  | last => exact ⟨_, _, rfl, .inl rfl⟩
  | separator _ => exact ⟨_, _, rfl, .inr rfl⟩

/-- The blank and whatever follows it up to the next token. -/
theorem skipWhile_blank {unread : List Char} (h : Begins unread) :
    skipWhile (fun c => isspace c || c = '\x00') (pre ++ ' ' :: unread) (unread.length + 1) pre.length =
      (pre.length + 1, unread.length) := by
  rw [skipWhile_skip _ _ _ (by decide)]
  obtain ⟨c, rest, rfl, h0, hspace⟩ := h
  have hstop := skipWhile_stop (pre ++ [' ']) rest (fun c => isspace c || c = '\x00') (c := c)
    (by rw [hspace, Bool.false_or, decide_eq_false h0])
  rw [append_assoc, length_append] at hstop
  exact hstop

theorem skipSeparator_behind {text unread : List Char} (h : Behind text unread) :
    skipSeparator (pre ++ text) pre.length text.length =
      (pre.length + (text.length - unread.length), unread.length) := by
  cases h with
  | last =>
    rw [skipSeparator, peek_append, if_neg (by decide)]
    simp only [length_singleton, Nat.sub_self, skipWhile_zero]
    rw [if_neg (fun h => absurd h.1 (by decide)), skipWhile_zero]
    rfl
  | separator hbegins =>
    have hblank := skipWhile_blank (pre ++ [',']) hbegins
    rw [append_assoc, length_append] at hblank
    rw [skipSeparator, peek_append, if_pos rfl]
    refine hblank.trans ?_
    simp only [length_cons, length_nil, Prod.mk.injEq, and_true]
    omega

theorem skipSeparator_quote {text unread : List Char} (h : Behind text unread) :
    skipSeparator (pre ++ '\'' :: text) pre.length (text.length + 1) =
      (pre.length + 1 + (text.length - unread.length), unread.length) := by
  have hafter : pre ++ '\'' :: text = (pre ++ ['\'']) ++ text := by
    rw [append_assoc]
    rfl
  have hlen : pre.length + 1 = (pre ++ ['\'']).length := by
    rw [length_append, length_singleton]
  rw [skipSeparator, peek_append, if_neg (by decide), Nat.add_sub_cancel, hafter, hlen]
  generalize pre ++ ['\''] = pre'
  cases h with
  | last =>
    have hstop : skipWhile isspace (pre' ++ ['\x00']) 1 pre'.length = (pre'.length, 1) :=
      skipWhile_stop pre' [] isspace (by decide)
    have hnul : skipWhile (fun c => isspace c || c = '\x00') (pre' ++ ['\x00']) 1 pre'.length =
        (pre'.length + 1, 0) :=
      skipWhile_skip pre' [] _ (by decide)
    rw [length_singleton, hstop]
    simp only [peek_append]
    rw [if_neg (fun h => absurd h.2 (by decide)), hnul]
    rfl
  | @separator unread hbegins =>
    have hstop : skipWhile isspace (pre' ++ ',' :: ' ' :: unread) (unread.length + 2) pre'.length =
        (pre'.length, unread.length + 2) :=
      skipWhile_stop pre' (' ' :: unread) isspace (by decide)
    have hblank := skipWhile_blank (pre' ++ [',']) hbegins
    rw [append_assoc, length_append] at hblank
    rw [length_cons, length_cons, hstop]
    simp only [peek_append]
    rw [if_pos ⟨by omega, trivial⟩]
    refine hblank.trans ?_
    simp only [length_singleton, Prod.mk.injEq, and_true]
    omega

/-- A token has been read: its value stands in the text with a terminator, and the rest is unread. -/
structure TokenRead (t : NoticeToken) (pre val unread : List Char) : Prop where
  token : t.token = pre.length
  tokenLen : t.tokenLen = val.length + 1
  text : ∃ junk, t.buf = (pre ++ (val ++ '\x00' :: junk)) ++ unread ∧
    t.data = (pre ++ (val ++ '\x00' :: junk)).length
  size : t.size = unread.length

/-- The terminator is written over a byte that has been read. -/
theorem set_terminator {u : List Char} (hused : u ≠ []) (unread : List Char) :
    (pre ++ (u ++ unread)).set pre.length '\x00' = (pre ++ '\x00' :: u.tail) ++ unread := by
  rw [set_append_right _ _ (Nat.le_refl _), Nat.sub_self]
  obtain ⟨c, u, rfl⟩ := exists_cons_of_ne_nil hused
  rw [cons_append, set_cons_zero, append_assoc]
  rfl

theorem takeToken_of_loop {quoted : Bool} {val u unread : List Char} {len p : Nat} {buf : List Char}
    (hused : u ≠ []) (hloop : tokenLoop (if quoted then '\'' else ' ') len buf pre.length pre.length =
      some ⟨(pre ++ val) ++ (u ++ unread), p, (pre ++ val).length, e⟩) (he : 0 < e)
    (hskip : skipSeparator ((pre ++ val) ++ (u ++ unread)) p e =
      ((pre ++ val).length + u.length, unread.length)) :
    ∃ t, takeToken buf quoted pre.length len = some t ∧ TokenRead t pre val unread := by
  refine ⟨_, by rw [takeToken, hloop]; simp only; rw [if_neg (fun h => absurd h.2 (by omega)), if_pos he,
    hskip], rfl, ?_, ⟨u.tail, ?_, ?_⟩, rfl⟩
  · simp only [length_append]
    omega
  · simp only
    rw [set_terminator _ hused, append_assoc pre val]
  · have hpos := length_pos_of_ne_nil hused
    simp only [length_append, length_cons, length_tail]
    omega

theorem Behind.append {text unread : List Char} (h : Behind text unread) :
    ∃ sep, sep ≠ [] ∧ text = sep ++ unread := by
  cases h with
  | last => exact ⟨['\x00'], cons_ne_nil _ _, rfl⟩
  | separator _ => exact ⟨[',', ' '], cons_ne_nil _ _, rfl⟩

theorem takeToken_quoted {val text unread : List Char} (hval : '\x00' ∉ val) (h : Behind text unread) :
    ∃ t, takeToken (pre ++ (doubled val ++ '\'' :: text)) true pre.length
      (doubled val ++ '\'' :: text).length = some t ∧ TokenRead t pre val unread := by
  obtain ⟨gap, hgap⟩ := loopAt_doubled_text pre [] ('\'' :: text) hval
  have hclosed : text.head? ≠ some '\'' := by
    obtain ⟨c, rest, rfl, hc⟩ := h.head
    rcases hc with rfl | rfl <;> exact fun h => absurd (Option.some.inj h) (by decide)
  rw [loopAt_close _ _ _ hclosed] at hgap
  obtain ⟨sep, hsep, rfl⟩ := h.append
  have hskip := skipSeparator_quote ((pre ++ val) ++ gap) h
  apply takeToken_of_loop pre (u := gap ++ '\'' :: sep) (by simp) (e := (sep ++ unread).length + 1)
    (p := (pre ++ val).length + gap.length)
  · rw [append_assoc gap]
    exact hgap
  · omega
  · rw [append_assoc gap]
    rw [append_assoc, length_append] at hskip
    refine hskip.trans ?_
    simp only [length_append, length_cons, Prod.mk.injEq, and_true]
    omega

theorem takeToken_plain {val text unread : List Char} (hval : ∀ c ∈ val, IsPlain c)
    (h : Behind text unread) :
    ∃ t, takeToken (pre ++ (val ++ text)) false pre.length (val ++ text).length = some t ∧
      TokenRead t pre val unread := by
  obtain ⟨gap, hgap⟩ := loopAt_plain_text pre [] text hval
  have hskip := skipSeparator_behind ((pre ++ val) ++ gap) h
  obtain ⟨c, rest, htext, hc⟩ := h.head
  obtain ⟨sep, hsep, hunread⟩ := h.append
  rw [htext, loopAt_stop _ _ _ hc, ← htext] at hgap
  have hpos : 0 < text.length := by
    rw [htext]
    exact Nat.succ_pos _
  apply takeToken_of_loop pre (u := gap ++ sep) (by simp [hsep]) (e := text.length)
    (p := (pre ++ val).length + gap.length)
  · rw [append_assoc gap, ← hunread]
    rw [htext] at hgap ⊢
    exact hgap
  · exact hpos
  · rw [append_assoc gap, ← hunread]
    rw [append_assoc, length_append] at hskip
    refine hskip.trans ?_
    rw [hunread]
    simp only [length_append, Prod.mk.injEq, and_true]
    omega

open QueryCheck

def constText : ConstVal → List Char
  | .integer i => (toString i).toList
  | .float s | .string s => s.toList
  | .other => []

def isNumberChar (c : Char) : Bool := c.isAlphanum || c = '+' || c = '-' || c = '.' || c = '_'

/-- An integer, a number in the scanner's form, or a C string. -/
def ValidConst : ConstVal → Prop
  | .integer _ => True
  | .float s => s.toList ≠ [] ∧ ∀ c ∈ s.toList, isNumberChar c = true
  | .string s => '\x00' ∉ s.toList
  | .other => False

def rendered : ConstVal → List Char
  | .string s => '\'' :: (doubled s.toList ++ ['\''])
  | c => constText c

def behind : List ConstVal → List Char
  | [] => ['\x00']
  | c :: cs => ',' :: ' ' :: (rendered c ++ behind cs)

def unread : List ConstVal → List Char
  | [] => []
  | c :: cs => rendered c ++ behind cs

theorem isspace_of_isNumberChar (h : isNumberChar c = true) : isspace c = false := by
  rw [← Bool.not_eq_true, isspace, Bool.or_eq_true, Bool.and_eq_true, decide_eq_true_eq, decide_eq_true_eq,
    decide_eq_true_eq]
  rintro (rfl | hnat)
  · exact absurd h (by decide)
  · have hcases : c.toNat = 9 ∨ c.toNat = 10 ∨ c.toNat = 11 ∨ c.toNat = 12 ∨ c.toNat = 13 := by omega
    rcases hcases with hc | hc | hc | hc | hc <;> rw [← Char.ofNat_toNat c, hc] at h <;>
      exact absurd h (by decide)

theorem isPlain_of_isNumberChar (h : isNumberChar c = true) : IsPlain c := by
  have hne : ∀ d : Char, isNumberChar d = false → c ≠ d := by
    rintro d hd rfl
    rw [h] at hd
    cases hd
  exact ⟨hne _ (by decide), hne _ (by decide), hne _ (by decide), hne _ (by decide),
    isspace_of_isNumberChar h⟩

theorem isNumberChar_digits {n : Nat} (h : c ∈ Nat.toDigits 10 n) : isNumberChar c = true := by
  have hdigit := Nat.isDigit_of_mem_toDigits (by decide) (by decide) h
  simp only [isNumberChar, Char.isAlphanum, hdigit, Bool.or_true, Bool.true_or]

theorem isNumberChar_toString {i : Int} (h : c ∈ (toString i).toList) :
    isNumberChar c = true := by
  cases i with
  | ofNat n =>
    have htext : (toString (Int.ofNat n)).toList = Nat.toDigits 10 n := String.toList_ofList
    rw [htext] at h
    exact isNumberChar_digits h
  | negSucc n =>
    have htext : (toString (Int.negSucc n)).toList = '-' :: Nat.toDigits 10 (n + 1) := by
      rw [show toString (Int.negSucc n) = "-" ++ Nat.repr (n + 1) from rfl, String.toList_append]
      exact congrArg _ String.toList_ofList
    rw [htext] at h
    rcases mem_cons.mp h with rfl | h
    · decide
    · exact isNumberChar_digits h

theorem toString_ne_nil (i : Int) : (toString i).toList ≠ [] := by
  cases i with
  | ofNat n =>
    have htext : (toString (Int.ofNat n)).toList = Nat.toDigits 10 n := String.toList_ofList
    rw [htext]
    exact Nat.toDigits_ne_nil
  | negSucc n =>
    rw [show toString (Int.negSucc n) = "-" ++ Nat.repr (n + 1) from rfl, String.toList_append]
    exact cons_ne_nil _ _

theorem rendered_cases {c : ConstVal} (h : ValidConst c) :
    (rendered c = constText c ∧ constText c ≠ [] ∧ ∀ d ∈ constText c, isNumberChar d = true) ∨
      rendered c = '\'' :: (doubled (constText c) ++ ['\'']) ∧ '\x00' ∉ constText c := by
  cases c with
  | integer i => exact .inl ⟨rfl, toString_ne_nil i, fun d hd => isNumberChar_toString hd⟩
  | float s => exact .inl ⟨rfl, h.1, h.2⟩
  | string s => exact .inr ⟨rfl, h⟩
  | other => exact h.elim

theorem begins_rendered {c : ConstVal} (h : ValidConst c) (text : List Char) : Begins (rendered c ++ text) := by
  rcases rendered_cases h with ⟨hr, hne, hnum⟩ | ⟨hr, -⟩
  · obtain ⟨d, ds, hd⟩ := exists_cons_of_ne_nil hne
    rw [hr, hd]
    have hplain := isPlain_of_isNumberChar (hnum d (hd ▸ mem_cons_self))
    exact ⟨d, ds ++ text, rfl, hplain.1, hplain.2.2.2.2⟩
  · rw [hr]
    exact ⟨_, _, rfl, by decide, by decide⟩

theorem behind_unread (h : ∀ c ∈ cs, ValidConst c) : Behind (behind cs) (unread cs) := by
  cases cs with
  | nil => exact .last
  | cons c cs => exact .separator (begins_rendered (h c mem_cons_self) _)

/-- The next value is read; the opening quote is left behind before the value. -/
theorem parseNoticeMessage_rendered {c : ConstVal} (hc : ValidConst c)
    (hcs : ∀ c ∈ cs, ValidConst c) :
    ∃ t before, parseNoticeMessage (pre ++ unread (c :: cs)) pre.length (unread (c :: cs)).length = some t ∧
      pre <+: before ∧ TokenRead t before (constText c) (unread cs) := by
  have hbehind := behind_unread hcs
  have hskip : skipWhile isspace (pre ++ unread (c :: cs)) (unread (c :: cs)).length pre.length =
      (pre.length, (unread (c :: cs)).length) := by
    obtain ⟨d, ds, hd, -, hspace⟩ := begins_rendered hc (behind cs)
    rw [unread, hd]
    exact skipWhile_stop pre ds isspace hspace
  rw [parseNoticeMessage, hskip]
  simp only
  rcases rendered_cases hc with ⟨hr, hne, hnum⟩ | ⟨hr, hnul⟩
  · obtain ⟨d, ds, hd⟩ := exists_cons_of_ne_nil hne
    have hquote := (isPlain_of_isNumberChar (hnum d (hd ▸ mem_cons_self))).2.1
    have hpeek : peek (pre ++ unread (c :: cs)) pre.length = d := by
      rw [unread, hr, hd]
      exact peek_append pre _ d
    have hlen : (unread (c :: cs)).length ≠ 0 := by
      rw [unread, hr, hd]
      exact Nat.succ_ne_zero _
    rw [if_neg hlen, hpeek, if_neg hquote, unread, hr]
    obtain ⟨t, ht, hread⟩ := takeToken_plain pre (fun d hd => isPlain_of_isNumberChar (hnum d hd)) hbehind
    exact ⟨t, pre, ht, prefix_refl pre, hread⟩
  · have htext : unread (c :: cs) = '\'' :: (doubled (constText c) ++ '\'' :: behind cs) := by
      rw [unread, hr, cons_append, append_assoc]
      rfl
    rw [htext, length_cons, if_neg (Nat.succ_ne_zero _), peek_append, if_pos rfl]
    obtain ⟨t, ht, hread⟩ := takeToken_quoted (pre ++ ['\'']) hnul hbehind
    rw [append_assoc, length_append] at ht
    exact ⟨t, pre ++ ['\''], ht, prefix_append _ _, hread⟩

theorem slice_of_prefix {before val junk buf : List Char}
    (h : before ++ (val ++ '\x00' :: junk) <+: buf) :
    slice buf (before.length, val.length + 1) = val ++ ['\x00'] := by
  obtain ⟨rest, rfl⟩ := h
  have hval : val ++ '\x00' :: junk ++ rest = (val ++ ['\x00']) ++ (junk ++ rest) := by
    simp only [append_assoc, cons_append, nil_append]
  have hlen : val.length + 1 = (val ++ ['\x00']).length := by
    rw [length_append, length_singleton]
  rw [slice, append_assoc before]
  simp only
  rw [drop_left, hval, hlen, take_left]

/-- All the values are read, and none of them is touched afterwards. -/
theorem parseValues_unread {room : Nat} (hroom : cs.length ≤ room)
    (hcs : ∀ c ∈ cs, ValidConst c) :
    ∃ buf rs, parseValues room (pre ++ unread cs) pre.length (unread cs).length = .ok (buf, rs) ∧
      pre <+: buf ∧ rs.flatMap (slice buf) = cs.flatMap fun c => constText c ++ ['\x00'] := by
  induction cs generalizing room pre with
  | nil =>
    refine ⟨pre, [], ?_, prefix_refl pre, rfl⟩
    cases room <;> simp only [parseValues, unread, append_nil, length_nil, if_true]
  | cons c cs ih =>
    obtain ⟨room, rfl⟩ : ∃ k, room = k + 1 := ⟨room - 1, by simp only [length_cons] at hroom; omega⟩
    have hc := hcs c mem_cons_self
    have hrest : ∀ c ∈ cs, ValidConst c := fun d hd => hcs d (mem_cons_of_mem _ hd)
    obtain ⟨t, before, ht, hpre, htoken, htokenLen, ⟨junk, hbuf, hdata⟩, hsize⟩ :=
      parseNoticeMessage_rendered pre hc hrest
    obtain ⟨buf, rs, hparse, hprefix, hslices⟩ := ih (before ++ (constText c ++ '\x00' :: junk))
      (Nat.le_of_succ_le_succ hroom) hrest
    have hlen : (unread (c :: cs)).length ≠ 0 := by
      obtain ⟨d, ds, hd, -⟩ := begins_rendered hc (behind cs)
      rw [unread, hd]
      exact Nat.succ_ne_zero _
    refine ⟨buf, (before.length, (constText c).length + 1) :: rs, ?_, ?_, ?_⟩
    · rw [parseValues, if_neg hlen, ht]
      simp only
      rw [hbuf, hdata, hsize, hparse, htoken, htokenLen]
      rfl
    · exact (hpre.trans (prefix_append _ _)).trans hprefix
    · rw [flatMap_cons, flatMap_cons, slice_of_prefix hprefix, hslices]

theorem setArgText_rendered {c : ConstVal} (h : ValidConst c) :
    setArgText (some c) = some (String.ofList (rendered c)) := by
  cases c with
  | integer i => exact congrArg some String.ofList_toList.symm
  | float s => exact congrArg some String.ofList_toList.symm
  | string s => rfl
  | other => exact h.elim

theorem mapM_setArgText (hcs : ∀ c ∈ cs, ValidConst c) :
    (cs.map some).mapM setArgText = some (cs.map fun c => String.ofList (rendered c)) := by
  induction cs with
  | nil => rfl
  | cons c cs ih =>
    rw [map_cons, mapM_cons, setArgText_rendered (hcs c mem_cons_self),
      ih (fun d hd => hcs d (mem_cons_of_mem _ hd))]
    rfl

theorem intercalate_rendered (c : ConstVal) (cs : List ConstVal) :
    [',', ' '].intercalate ((c :: cs).map rendered) ++ ['\x00'] = unread (c :: cs) := by
  induction cs generalizing c with
  | nil => simp [unread, behind]
  | cons d cs ih =>
    rw [map_cons, map_cons, intercalate_cons_cons, append_assoc, ← map_cons, ih d]
    simp [unread, behind]

/-- `flatten_set_variable_args` gives the text that the reader sees, without its terminator. -/
theorem flattenSetVariableArgs_unread (hne : cs ≠ [])
    (hcs : ∀ c ∈ cs, ValidConst c) :
    ∃ text, flattenSetVariableArgs (cs.map some) = some text ∧ text.toList ++ ['\x00'] = unread cs := by
  obtain ⟨c, cs, rfl⟩ := exists_cons_of_ne_nil hne
  have hchars : (String.toList ∘ fun c => String.ofList (rendered c)) = rendered := by
    funext c
    exact String.toList_ofList
  refine ⟨_, by rw [flattenSetVariableArgs, if_neg (by simp), mapM_setArgText hcs]; rfl, ?_⟩
  rw [String.toList_intercalate, map_map, hchars]
  exact intercalate_rendered c cs

/-- The stored value of a variable is the values with their terminators. -/
theorem parseVariableValue_flatten (hne : cs ≠ []) (hlen : cs.length ≤ 20)
    (hcs : ∀ c ∈ cs, ValidConst c) :
    ∃ text, flattenSetVariableArgs (cs.map some) = some text ∧
      parseVariableValue (text.toList ++ ['\x00']) = .ok (cs.flatMap fun c => constText c ++ ['\x00']) := by
  obtain ⟨text, htext, hunread⟩ := flattenSetVariableArgs_unread hne hcs
  obtain ⟨buf, rs, hparse, -, hslices⟩ := parseValues_unread [] hlen hcs
  refine ⟨text, htext, ?_⟩
  rw [nil_append, length_nil] at hparse
  rw [parseVariableValue, hunread, hparse, ← hslices]
  rfl

end XStore.Proxy
