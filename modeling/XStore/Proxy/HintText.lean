import Mathlib.Data.List.Infix
import Mathlib.Data.List.Chain
import Mathlib.Tactic.Cases

/-!
# Read-only hints in comments

`query_check` and the proxy look for `READ-ONLY` in the comments of a statement that start with a plus
sign.  To pass over string literals they count the quotes since the last hint: an odd number of single or
of double quotes ends the search.  What they take for a hint is therefore a matter of the characters, and
need not be a comment.
-/
namespace XStore.Proxy

open List

/-- `strstr` for a text that is not empty: what stands before the first occurrence, and the rest. -/
def strstr (pat : List Char) : List Char → Option (List Char × List Char)
  | [] => none
  | c :: s =>
    if pat.isPrefixOf (c :: s) then some ([], c :: s)
    else (strstr pat s).map fun r => (c :: r.1, r.2)

def startComment : List Char := ['/', '*', '+']

def endComment : List Char := ['*', '/']

def readonly : List Char := ['r', 'e', 'a', 'd', '-', 'o', 'n', 'l', 'y']

/-- `strcasestr` with `READ-ONLY` -/
def saysReadOnly (comment : List Char) : Bool := (strstr readonly (comment.map Char.toLower)).isSome

/-- The loop over the hints; every round takes at least five characters. -/
def hintLoop : (fuel : Nat) → List Char → Bool
  | 0, _ => false
  | fuel + 1, str => match strstr startComment str with
    | none => false
    | some (prevHint, start) =>
      if prevHint.count '\'' % 2 = 1 ∨ prevHint.count '"' % 2 = 1 then false
      else match strstr endComment start with
        | none => false
        | some (comment, behind) =>
          if saysReadOnly (comment.drop 3) then true else hintLoop fuel (behind.drop 2)

/-- `contains_read_only_hint_in_comments` of `query_check` -/
def containsReadOnlyHintInComments (str : List Char) : Bool := hintLoop str.length str

/-- `contains_readonly_in_comments` of the proxy -/
def containsReadonlyInComments (str : List Char) : Bool := hintLoop str.length str

structure FirstAt (pat s before rest : List Char) : Prop where
  eq : s = before ++ rest
  here : pat <+: rest
  first : ∀ y z, before = y ++ z → z ≠ [] → ¬ pat <+: z ++ rest

section Search

variable {pat s before rest : List Char}

theorem FirstAt.nil (h : pat <+: s) : FirstAt pat s [] s where
  eq := rfl
  here := h
  first := fun _ _ hyz hz => absurd (append_eq_nil_iff.mp hyz.symm).2 hz

theorem FirstAt.cons {c : Char} (h : FirstAt pat s before rest) (hc : ¬ pat <+: c :: s) :
    FirstAt pat (c :: s) (c :: before) rest where
  eq := congrArg (c :: ·) h.eq
  here := h.here
  first := by
    intro y z hyz hz
    cases y with
    | nil =>
      rw [nil_append] at hyz
      rwa [← hyz, cons_append, ← h.eq]
    | cons d y => exact h.first y z (List.cons.inj hyz).2 hz

theorem firstAt_of_strstr (h : strstr pat s = some (before, rest)) : FirstAt pat s before rest := by
  induction s generalizing before with
  | nil => cases h
  | cons c s ih =>
    rw [strstr] at h
    split at h
    · next hp =>
      cases h
      exact .nil (List.isPrefixOf_iff_prefix.mp hp)
    · next hp =>
      obtain ⟨⟨b, r⟩, hs, heq⟩ := Option.map_eq_some_iff.mp h
      cases heq
      exact (ih hs).cons fun hpre => hp (List.isPrefixOf_iff_prefix.mpr hpre)

theorem FirstAt.strstr_eq (h : FirstAt pat s before rest) (hpat : pat ≠ []) :
    strstr pat s = some (before, rest) := by
  obtain ⟨rfl, here, first⟩ := h
  induction before with
  | nil =>
    cases rest with
    | nil => exact absurd (prefix_nil.mp here) hpat
    | cons c rest => rw [nil_append, strstr, if_pos (List.isPrefixOf_iff_prefix.mpr here)]
  | cons c before ih =>
    have hc : ¬ pat.isPrefixOf (c :: (before ++ rest)) = true := fun hp =>
      first [] _ rfl (cons_ne_nil _ _) (List.isPrefixOf_iff_prefix.mp hp)
    rw [cons_append, strstr, if_neg hc, ih fun y z hyz => first (c :: y) z (congrArg (c :: ·) hyz)]
    rfl

/-- The first occurrence behind a part in which none begins. -/
theorem FirstAt.of_append {x a : List Char} (h : FirstAt pat (x ++ s) (x ++ a) rest) :
    FirstAt pat s a rest where
  eq := append_cancel_left (h.eq.trans (append_assoc x a rest))
  here := h.here
  first := fun y z hyz => h.first (x ++ y) z (by rw [hyz, append_assoc])

/-- A cut through two texts lies behind the first or inside it. -/
theorem append_eq_append_cases {x : List Char} (h : x ++ s = before ++ rest) :
    (∃ a, before = x ++ a) ∨ ∃ c, c ≠ [] ∧ x = before ++ c ∧ rest = c ++ s := by
  rcases append_eq_append_iff.mp h with ⟨a, ha, -⟩ | ⟨c, hc, hr⟩
  · exact .inl ⟨a, ha⟩
  · by_cases hnil : c = []
    · exact .inl ⟨[], by rw [hc, hnil, append_nil, append_nil]⟩
    · exact .inr ⟨c, hnil, hc, hr⟩

end Search

inductive SqlToken
  | literal (content : List Char)
  | identifier (content : List Char)
  | comment (content : List Char)
  | other (c : Char)
  deriving DecidableEq

def doubledQuote (q : Char) (content : List Char) : List Char :=
  content.flatMap fun c => if c = q then [q, q] else [c]

namespace SqlToken

def render : SqlToken → List Char
  | literal content => '\'' :: (doubledQuote '\'' content ++ ['\''])
  | identifier content => '"' :: (doubledQuote '"' content ++ ['"'])
  | comment content => '/' :: '*' :: (content ++ endComment)
  | other c => [c]

def Valid : SqlToken → Prop
  | comment content => ¬ endComment <:+: content
  | other c => c ≠ '\'' ∧ c ≠ '"'
  | _ => True

instance : DecidablePred Valid
  | comment content => inferInstanceAs (Decidable (¬ endComment <:+: content))
  | other c => inferInstanceAs (Decidable (c ≠ '\'' ∧ c ≠ '"'))
  | literal _ => .isTrue trivial
  | identifier _ => .isTrue trivial

def apart : SqlToken → SqlToken → Bool
  | other c, other d => !(c = '/' && d = '*')
  | literal _, literal _ | identifier _, identifier _ => false
  | _, _ => true

end SqlToken

def sqlText (ts : List SqlToken) : List Char := ts.flatMap SqlToken.render

structure Tokenised (ts : List SqlToken) : Prop where
  valid : ∀ t ∈ ts, t.Valid
  apart : ts.IsChain (SqlToken.apart · ·)

instance (ts : List SqlToken) : Decidable (Tokenised ts) :=
  decidable_of_iff ((∀ t ∈ ts, t.Valid) ∧ ts.IsChain (SqlToken.apart · ·))
    ⟨fun h => ⟨h.1, h.2⟩, fun h => ⟨h.valid, h.apart⟩⟩

/-- A comment that is a hint and says that the statement only reads -/
def SqlToken.isReadOnlyHint : SqlToken → Bool
  | comment ('+' :: body) => saysReadOnly body
  | _ => false

def HasReadOnlyHint (ts : List SqlToken) : Prop := ∃ t ∈ ts, t.isReadOnlyHint = true

instance (ts : List SqlToken) : Decidable (HasReadOnlyHint ts) := inferInstanceAs (Decidable (∃ t ∈ ts, _))

/-- The first `/*+` of the text has even numbers of quotes before it; `body` stands between it and the next end
of a comment. -/
structure FirstTaken (str gap body behind : List Char) : Prop where
  start : FirstAt startComment str gap (startComment ++ (body ++ (endComment ++ behind)))
  stop : FirstAt endComment (startComment ++ (body ++ (endComment ++ behind))) (startComment ++ body)
    (endComment ++ behind)
  single : gap.count '\'' % 2 = 0
  double : gap.count '"' % 2 = 0

/-- A place that the searches take for a hint, with the text before and behind it.  They go on behind a place
that does not say that the statement only reads. -/
inductive TakenForHint : (str before body behind : List Char) → Prop
  | first {str gap body behind : List Char} (h : FirstTaken str gap body behind) : TakenForHint str gap body behind
  | next {str gap skipped rest before body behind : List Char} (hfirst : FirstTaken str gap skipped rest)
      (hread : saysReadOnly skipped = false) (h : TakenForHint rest before body behind) :
      TakenForHint str (gap ++ (startComment ++ (skipped ++ (endComment ++ before)))) body behind

/-- The place is a comment of the statement. -/
def CommentAt (ts : List SqlToken) (before body : List Char) : Prop :=
  ∃ front back, ts = front ++ .comment ('+' :: body) :: back ∧ before = sqlText front

/-- Quotes and `/*+` stand only where their own kind of token begins, ends or doubles them. -/
def SqlToken.InPlace : SqlToken → Prop
  | literal content => '"' ∉ content
  | identifier content => '\'' ∉ content
  | comment content => content.head? ≠ some '+' →
    ('\'' ∉ content ∧ '"' ∉ content) ∧ ¬ startComment <:+: content
  | other _ => True

instance : DecidablePred SqlToken.InPlace
  | .literal content => inferInstanceAs (Decidable ('"' ∉ content))
  | .identifier content => inferInstanceAs (Decidable ('\'' ∉ content))
  | .comment content => inferInstanceAs (Decidable (content.head? ≠ some '+' →
    ('\'' ∉ content ∧ '"' ∉ content) ∧ ¬ startComment <:+: content))
  | .other _ => .isTrue trivial

def SqlToken.notStarred : SqlToken → SqlToken → Bool
  | comment _, other c => c ≠ '*'
  | _, _ => true

/-- In addition, no star follows on a comment. -/
structure InPlace (ts : List SqlToken) : Prop where
  token : ∀ t ∈ ts, t.InPlace
  pair : ts.IsChain (SqlToken.notStarred · ·)

instance (ts : List SqlToken) : Decidable (InPlace ts) :=
  decidable_of_iff ((∀ t ∈ ts, t.InPlace) ∧ ts.IsChain (SqlToken.notStarred · ·))
    ⟨fun h => ⟨h.1, h.2⟩, fun h => ⟨h.token, h.pair⟩⟩

section Counting

variable {q o : Char} {content b c z rest : List Char}

theorem doubledQuote_cons (x : Char) : doubledQuote q (x :: content) =
    (if x = q then [q, q] else [x]) ++ doubledQuote q content := flatMap_cons

theorem count_doubledQuote_self (content : List Char) : (doubledQuote q content).count q % 2 = 0 := by
  induction content with
  | nil => rfl
  | cons x content ih =>
    rw [doubledQuote_cons, count_append]
    split_ifs with hx
    · rw [count_cons_self, count_cons_self, count_nil]
      omega
    · rw [count_cons_of_ne hx, count_nil, Nat.zero_add, ih]

theorem count_doubledQuote_other (ho : o ≠ q) (h : o ∉ content) : (doubledQuote q content).count o = 0 := by
  rw [count_eq_zero, doubledQuote, mem_flatMap]
  rintro ⟨x, hx, hin⟩
  split_ifs at hin
  · simp [ho] at hin
  · rw [mem_singleton.mp hin] at h
    exact h hx

/-- A quote is not cut from its double in front of another character. -/
theorem count_of_doubledQuote (ho : o ≠ q) (h : doubledQuote q content = b ++ o :: z) :
    b.count q % 2 = 0 := by
  induction content generalizing b with
  | nil => simp [doubledQuote] at h
  | cons x content ih =>
    rw [doubledQuote_cons] at h
    split_ifs at h with hx
    · -- both quotes stand before the character
      match b, h with
      | [], h => simp [ho.symm] at h
      | [_], h => simp [ho.symm] at h
      | _ :: _ :: b, h =>
        simp only [cons_append, nil_append, List.cons.injEq] at h
        have := ih h.2.2
        rw [← h.1, ← h.2.1, count_cons_self, count_cons_self]
        omega
    · match b, h with
      | [], _ => rfl
      | _ :: b, h =>
        simp only [cons_append, nil_append, List.cons.injEq] at h
        rw [← h.1, count_cons_of_ne hx]
        exact ih h.2

theorem prefix_startComment {x : Char} {s : List Char} (h : startComment <+: x :: s) :
    x = '/' ∧ ['*', '+'] <+: s := by
  rw [startComment, cons_prefix_cons] at h
  exact ⟨h.1.symm, h.2⟩

/-- An occurrence that begins between the quotes has an odd number of them before it. -/
theorem count_of_inside (hq : '/' ≠ q) (hc : c ≠ []) (h : q :: (doubledQuote q content ++ [q]) = b ++ c)
    (hp : startComment <+: c ++ rest) : b.count q % 2 = 1 := by
  obtain ⟨x, c, rfl⟩ := exists_cons_of_ne_nil hc
  obtain rfl := (prefix_startComment hp).1
  cases b with
  | nil => simp [hq.symm] at h
  | cons y b =>
    simp only [cons_append, List.cons.injEq] at h
    obtain ⟨rfl, h⟩ := h
    rw [count_cons_self]
    suffices b.count q % 2 = 0 by omega
    rcases append_eq_append_iff.mp h with ⟨a, -, ha⟩ | ⟨a, ha, hlast⟩
    · simp [cons_eq_append_iff, hq] at ha
    · cases a with
      | nil => simp [hq] at hlast
      | cons e a =>
        simp only [cons_append, List.cons.injEq] at hlast
        rw [← hlast.1] at ha
        exact count_of_doubledQuote hq ha

end Counting

section FirstHint

variable {t : SqlToken} {ts : List SqlToken} {b r : List Char} {front : List SqlToken}

theorem sqlText_cons : sqlText (t :: ts) = t.render ++ sqlText ts := flatMap_cons

/-- A text that begins with a star begins with one as a token. -/
theorem head_of_star (h : ['*', '+'] <+: sqlText ts) : ts.head? = some (.other '*') := by
  cases ts with
  | nil => simp [sqlText] at h
  | cons t ts =>
    rw [sqlText_cons] at h
    cases t with
    | other x => rw [head?_cons, ← (cons_prefix_cons.mp h).1]
    | _ => exact absurd (cons_prefix_cons.mp h).1 (by decide)

/-- No occurrence begins in a comment that is not a hint. -/
theorem not_in_plain_comment {content c : List Char} (hplus : content.head? ≠ some '+')
    (hin : ¬ startComment <:+: content) (hstar : ¬ ['*', '+'] <+: sqlText ts) (hc : c ≠ [])
    (h : (SqlToken.comment content).render = b ++ c) : ¬ startComment <+: c ++ sqlText ts := by
  intro hbegin
  obtain ⟨x, c, rfl⟩ := exists_cons_of_ne_nil hc
  obtain ⟨hx, hp⟩ := prefix_startComment hbegin
  change ['*', '+'] <+: c ++ sqlText ts at hp
  subst hx
  rw [SqlToken.render] at h
  match b, h with
  | [], h =>
    simp only [nil_append, List.cons.injEq, true_and] at h
    rw [← h] at hp
    cases content with
    | nil => simp [endComment] at hp
    | cons d content =>
      simp only [cons_append, cons_prefix_cons] at hp
      exact hplus (congrArg some hp.2.1.symm)
  | [_], h => simp at h
  | _ :: _ :: b, h =>
    simp only [cons_append, List.cons.injEq] at h
    rcases append_eq_append_iff.mp h.2.2 with ⟨a, -, ha⟩ | ⟨a, rfl, ha⟩
    · match a, ha with
      | [], ha => simp [endComment] at ha
      | [_], ha =>
        simp only [endComment, cons_append, nil_append, List.cons.injEq, true_and] at ha
        rw [← ha.2] at hp
        exact hstar hp
      | _ :: _ :: _, ha => simp [endComment] at ha
    · match a, ha with
      | [], ha => simp [endComment] at ha
      | [_], ha =>
        simp only [endComment, cons_append, nil_append, List.cons.injEq] at ha
        simp [ha.2] at hp
      | [_, _], ha =>
        simp only [endComment, cons_append, nil_append, List.cons.injEq] at ha
        simp [ha.2] at hp
      | _ :: x :: y :: a, ha =>
        simp only [cons_append, List.cons.injEq] at ha
        rw [ha.2] at hp
        simp only [cons_append, cons_prefix_cons] at hp
        exact hin ⟨b, a, by rw [← ha.1, ← hp.1, ← hp.2.1]; simp [startComment]⟩

theorem count_render (hvalid : t.Valid) (hk : t.InPlace)
    (ht : ∀ body, t ≠ .comment ('+' :: body)) :
    t.render.count '\'' % 2 = 0 ∧ t.render.count '"' % 2 = 0 := by
  cases t with
  | literal content =>
    have hself := count_doubledQuote_self (q := '\'') content
    have hother := count_doubledQuote_other (q := '\'') (by decide) hk
    simp [SqlToken.render, hother]
    omega
  | identifier content =>
    have hself := count_doubledQuote_self (q := '"') content
    have hother := count_doubledQuote_other (q := '"') (by decide) hk
    simp [SqlToken.render, hother]
    omega
  | comment content =>
    have hplain : content.head? ≠ some '+' := fun h => by
      obtain ⟨body, rfl⟩ := head?_eq_some_iff.mp h
      exact ht body rfl
    have hquotes := (hk hplain).1
    simp [SqlToken.render, endComment, count_eq_zero.mpr hquotes.1,
      count_eq_zero.mpr hquotes.2]
  | other x =>
    simp [SqlToken.render, hvalid.1, hvalid.2]

theorem startComment_prefix_hint (body u : List Char) :
    startComment <+: (SqlToken.comment ('+' :: body)).render ++ u :=
  ⟨body ++ endComment ++ u, rfl⟩

/-- Behind a comment or a slash no star stands as a token of its own. -/
theorem not_star_behind {R : SqlToken → SqlToken → Prop} (hR : (t :: ts).IsChain R) (h : ¬ R t (.other '*')) :
    ¬ ['*', '+'] <+: sqlText ts := by
  intro hstar
  obtain ⟨back, rfl⟩ := head?_eq_some_iff.mp (head_of_star hstar)
  exact h (isChain_cons_cons.mp hR).1

/-- Where the search finds a hint, the quotes before it do not match, or it is a comment. -/
theorem first_hint (hts : Tokenised ts) (hk : InPlace ts)
    (h : FirstAt startComment (sqlText ts) b r) :
    (b.count '\'' % 2 = 1 ∨ b.count '"' % 2 = 1) ∨
      ∃ front body back, ts = front ++ .comment ('+' :: body) :: back ∧
        r = sqlText (.comment ('+' :: body) :: back) := by
  induction ts generalizing b with
  | nil =>
    have hr := (append_eq_nil_iff.mp h.eq.symm).2
    exact absurd h.here (by simp [hr, startComment])
  | cons t ts ih =>
    obtain ⟨hvalid, hvalids⟩ := forall_mem_cons.mp hts.valid
    obtain ⟨htoken, htokens⟩ := forall_mem_cons.mp hk.token
    rw [sqlText_cons] at h
    rcases append_eq_append_cases h.eq with ⟨a, rfl⟩ | ⟨c, hnil, hc, hr⟩
    · -- behind the token, which is then no hint
      have hplain : ∀ body, t ≠ .comment ('+' :: body) := by
        rintro body rfl
        refine h.first [] _ rfl (by simp) ?_
        exact ⟨body ++ endComment ++ a ++ r, by simp [startComment]⟩
      have hcount := count_render hvalid htoken hplain
      rw [count_append, count_append]
      rcases ih ⟨hvalids, hts.apart.tail⟩ ⟨htokens, hk.pair.tail⟩ h.of_append with
        hodd | ⟨front, body, back, rfl, hback⟩
      · left
        omega
      · exact .inr ⟨t :: front, body, back, rfl, hback⟩
    · have hp := h.here
      rw [hr] at hp
      cases t with
      | literal content => exact .inl (.inl (count_of_inside (by decide) hnil hc hp))
      | identifier content => exact .inl (.inr (count_of_inside (by decide) hnil hc hp))
      | comment content =>
        by_cases hplus : content.head? = some '+'
        · obtain ⟨body, rfl⟩ := head?_eq_some_iff.mp hplus
          have hb : b = [] := by
            by_contra hb
            refine h.first [] b rfl hb ?_
            rw [← h.eq]
            exact startComment_prefix_hint body _
          refine .inr ⟨[], body, ts, rfl, ?_⟩
          rw [sqlText_cons, h.eq, hb, nil_append]
        · refine absurd hp (not_in_plain_comment hplus (htoken hplus).2 ?_ hnil hc)
          exact not_star_behind hk.pair (by simp [SqlToken.notStarred])
      | other x =>
        have hlen := congrArg List.length hc
        obtain ⟨y, c, rfl⟩ := exists_cons_of_ne_nil hnil
        simp [SqlToken.render] at hlen
        obtain ⟨rfl, rfl⟩ : b = [] ∧ c = [] :=
          ⟨length_eq_zero_iff.mp (by omega), length_eq_zero_iff.mp (by omega)⟩
        obtain ⟨hy, hstar⟩ := prefix_startComment hp
        have hxy : x = y := (List.cons.inj hc).1
        rw [hxy.trans hy] at hts
        exact absurd hstar (not_star_behind hts.apart (by decide))

/-- The search for the end stops at the end of the comment. -/
theorem end_of_hint {body u : List Char} (h : ¬ endComment <:+: '+' :: body) :
    strstr endComment ((SqlToken.comment ('+' :: body)).render ++ u) =
      some ('/' :: '*' :: '+' :: body, endComment ++ u) := by
  refine FirstAt.strstr_eq ⟨by simp [SqlToken.render], prefix_append _ _, ?_⟩ (by decide)
  intro y z hyz hz hp
  match z, hz with
  | [x], _ =>
    simp only [endComment, cons_append, nil_append, cons_prefix_cons] at hp
    exact absurd hp.2.1 (by decide)
  | x :: x' :: z, _ =>
    simp only [endComment, cons_append, cons_prefix_cons] at hp
    obtain ⟨rfl, rfl, -⟩ := hp
    match y, hyz with
    | [], hyz => simp at hyz
    | [_], hyz => simp at hyz
    | _ :: _ :: y, hyz =>
      simp only [cons_append, List.cons.injEq] at hyz
      exact h ⟨y, z, by rw [hyz.2.2]; simp [endComment]⟩

theorem Tokenised.suffix (h : Tokenised (front ++ ts)) : Tokenised ts where
  valid := fun t ht => h.valid t (mem_append_right _ ht)
  apart := h.apart.right_of_append

theorem InPlace.suffix (h : InPlace (front ++ ts)) : InPlace ts where
  token := fun t ht => h.token t (mem_append_right _ ht)
  pair := h.pair.right_of_append

theorem FirstAt.unique {pat s before rest before' rest' : List Char} (h : FirstAt pat s before rest)
    (h' : FirstAt pat s before' rest') (hpat : pat ≠ []) : before = before' ∧ rest = rest' := by
  have heq := (h.strstr_eq hpat).symm.trans (h'.strstr_eq hpat)
  cases heq
  exact ⟨rfl, rfl⟩

/-- With quotes in their place the first place is the first hint, and the search goes on behind it. -/
theorem FirstTaken.comment {gap body behind : List Char} (h : FirstTaken (sqlText ts) gap body behind)
    (hts : Tokenised ts) (hk : InPlace ts) :
    ∃ front back, ts = front ++ .comment ('+' :: body) :: back ∧ gap = sqlText front ∧ behind = sqlText back := by
  rcases first_hint hts hk h.start with hodd | ⟨front, body', back, rfl, hback⟩
  · have := h.single
    have := h.double
    omega
  have hvalid : ¬ endComment <:+: '+' :: body' := hts.valid (.comment ('+' :: body')) (by simp)
  have hgap : gap = sqlText front := by
    have heq := h.start.eq
    rw [hback, sqlText, flatMap_append] at heq
    exact (append_cancel_right heq).symm
  have hstop := h.stop
  rw [hback, sqlText_cons] at hstop
  obtain ⟨hbody, hbehind⟩ := hstop.unique (firstAt_of_strstr (end_of_hint hvalid)) (by decide)
  have hbody : body = body' := append_cancel_left (show startComment ++ body = startComment ++ body' from hbody)
  exact ⟨front, back, by rw [hbody], hgap, append_cancel_left hbehind⟩

/-- With quotes in their place, every place that is taken for a hint is one. -/
theorem TakenForHint.comment {str before body behind : List Char} (h : TakenForHint str before body behind)
    (hstr : str = sqlText ts) (hts : Tokenised ts) (hk : InPlace ts) : CommentAt ts before body := by
  induction h generalizing ts with
  | first h =>
    subst hstr
    obtain ⟨front, back, heq, hgap, -⟩ := h.comment hts hk
    exact ⟨front, back, heq, hgap⟩
  | @next str gap skipped rest before body behind hfirst hread h ih =>
    subst hstr
    obtain ⟨front, back, rfl, rfl, rfl⟩ := hfirst.comment hts hk
    rw [append_cons] at hts hk
    obtain ⟨front', back', rfl, rfl⟩ := ih rfl hts.suffix hk.suffix
    refine ⟨front ++ .comment ('+' :: skipped) :: front', back', by simp, ?_⟩
    simp [sqlText, SqlToken.render, startComment]

end FirstHint

section Search

variable {str gap gap' body body' behind behind' : List Char}

theorem FirstTaken.unique (h : FirstTaken str gap body behind) (h' : FirstTaken str gap' body' behind') :
    gap = gap' ∧ body = body' ∧ behind = behind' := by
  obtain ⟨hgap, hstart⟩ := h.start.unique h'.start (by decide)
  have hstop := h.stop
  rw [hstart] at hstop
  obtain ⟨hbody, hbehind⟩ := hstop.unique h'.stop (by decide)
  exact ⟨hgap, append_cancel_left hbody, append_cancel_left hbehind⟩

/-- The end of a comment does not begin in `/*+`. -/
theorem firstTaken_of_strstr {start comment rest : List Char} (hstart : strstr startComment str = some (gap, start))
    (hend : strstr endComment start = some (comment, rest)) (hsingle : gap.count '\'' % 2 = 0)
    (hdouble : gap.count '"' % 2 = 0) : FirstTaken str gap (comment.drop 3) (rest.drop 2) := by
  have hstart := firstAt_of_strstr hstart
  have hend := firstAt_of_strstr hend
  obtain ⟨tail, rfl⟩ := hstart.here
  obtain ⟨behind, rfl⟩ := hend.here
  obtain ⟨body, rfl⟩ : ∃ body, comment = startComment ++ body := by
    have heq := hend.eq
    match comment, heq with
    | [], heq | [_], heq | [_, _], heq => simp [startComment, endComment] at heq
    | a :: b :: c :: comment, heq =>
      simp only [startComment, cons_append, nil_append, List.cons.injEq] at heq
      exact ⟨comment, by simp [startComment, ← heq.1, ← heq.2.1, ← heq.2.2.1]⟩
  obtain rfl : tail = body ++ (endComment ++ behind) := by
    have heq := hend.eq
    rw [append_assoc] at heq
    exact append_cancel_left heq
  exact ⟨hstart, hend, hsingle, hdouble⟩

theorem FirstTaken.length_lt (h : FirstTaken str gap body behind) : behind.length < str.length := by
  rw [h.start.eq]
  simp [startComment, endComment]
  omega

/-- The loop finds exactly the places that are taken for a hint and say that the statement only reads. -/
theorem hintLoop_iff {fuel : Nat} (hfuel : str.length ≤ fuel) : hintLoop fuel str = true ↔
    ∃ before body behind, TakenForHint str before body behind ∧ saysReadOnly body = true := by
  induction fuel generalizing str with
  | zero =>
    refine iff_of_false Bool.false_ne_true ?_
    rintro ⟨before, body, behind, h, -⟩
    have hlt : 0 < str.length := by
      cases h with
      | first h => exact Nat.zero_lt_of_lt h.length_lt
      | next h => exact Nat.zero_lt_of_lt h.length_lt
    omega
  | succ fuel ih =>
    have hfirst : ∀ before body behind, TakenForHint str before body behind →
        ∃ gap skipped rest, FirstTaken str gap skipped rest := by
      rintro _ _ _ (h | ⟨h, -, -⟩)
      · exact ⟨_, _, _, h⟩
      · exact ⟨_, _, _, h⟩
    rw [hintLoop]
    split
    · next hnone =>
      refine iff_of_false Bool.false_ne_true ?_
      rintro ⟨before, body, behind, h, -⟩
      obtain ⟨gap, skipped, rest, h⟩ := hfirst _ _ _ h
      rw [h.start.strstr_eq (by decide)] at hnone
      cases hnone
    next gap start hstart =>
    split_ifs with hodd
    · refine iff_of_false not_false ?_
      rintro ⟨before, body, behind, h, -⟩
      obtain ⟨gap', skipped, rest, h⟩ := hfirst _ _ _ h
      obtain ⟨rfl, -⟩ := (firstAt_of_strstr hstart).unique h.start (by decide)
      have := h.single
      have := h.double
      omega
    split
    · next hnone =>
      refine iff_of_false Bool.false_ne_true ?_
      rintro ⟨before, body, behind, h, -⟩
      obtain ⟨gap', skipped, rest, h⟩ := hfirst _ _ _ h
      obtain ⟨-, rfl⟩ := (firstAt_of_strstr hstart).unique h.start (by decide)
      rw [h.stop.strstr_eq (by decide)] at hnone
      cases hnone
    next comment rest hend =>
    have htaken := firstTaken_of_strstr hstart hend (by omega) (by omega)
    split_ifs with hread
    · exact iff_of_true rfl ⟨_, _, _, .first htaken, hread⟩
    rw [ih (by have := htaken.length_lt; omega)]
    constructor
    · rintro ⟨before, body, behind, h, hbody⟩
      exact ⟨_, body, behind, .next htaken (Bool.eq_false_iff.mpr hread) h, hbody⟩
    · rintro ⟨before, body, behind, h | ⟨h, -, hrest⟩, hbody⟩
      · exact absurd ((h.unique htaken).2.1 ▸ hbody) hread
      · obtain ⟨-, -, rfl⟩ := h.unique htaken
        exact ⟨_, body, behind, hrest, hbody⟩

end Search

/-- Both searches honour only hints of the statement's comments. -/
def HonoursOnlyHints (ts : List SqlToken) : Prop :=
  (containsReadOnlyHintInComments (sqlText ts) = true → HasReadOnlyHint ts) ∧
    (containsReadonlyInComments (sqlText ts) = true → HasReadOnlyHint ts)

def hintText : List Char := ['/', '*', '+', 'R', 'E', 'A', 'D', '-', 'O', 'N', 'L', 'Y', '*', '/']

/-- A single quote in an identifier and the hint in a literal -/
def hintBehindSingle : List SqlToken := [.identifier ['\''], .other ' ', .literal hintText]

theorem hint_in_literal_honoured : Tokenised hintBehindSingle ∧ ¬ HasReadOnlyHint hintBehindSingle ∧
    containsReadOnlyHintInComments (sqlText hintBehindSingle) = true ∧
    containsReadonlyInComments (sqlText hintBehindSingle) = true := by
  decide +kernel

theorem CommentAt.hasReadOnlyHint {ts : List SqlToken} {before body : List Char} (h : CommentAt ts before body)
    (hread : saysReadOnly body = true) : HasReadOnlyHint ts := by
  obtain ⟨front, back, rfl, -⟩ := h
  exact ⟨.comment ('+' :: body), by simp, hread⟩

/-- Only comments are honoured exactly when the statement has a hint or every place that is taken for one is a
comment.  That is so if quotes stand in their own tokens and every `/*+` is at the start of a comment. -/
theorem read_only_hint_honoured_iff (ts : List SqlToken) :
    (HonoursOnlyHints ts ↔ HasReadOnlyHint ts ∨ ∀ before body behind,
      TakenForHint (sqlText ts) before body behind → saysReadOnly body = true → CommentAt ts before body) ∧
    (Tokenised ts → InPlace ts → HonoursOnlyHints ts) := by
  have hloop := hintLoop_iff (Nat.le_refl (sqlText ts).length)
  have hiff : HonoursOnlyHints ts ↔ HasReadOnlyHint ts ∨ ∀ before body behind,
      TakenForHint (sqlText ts) before body behind → saysReadOnly body = true → CommentAt ts before body := by
    constructor
    · rintro ⟨hcheck, -⟩
      by_cases hhint : HasReadOnlyHint ts
      · exact .inl hhint
      · exact .inr fun before body behind h hread =>
          absurd (hcheck (hloop.mpr ⟨before, body, behind, h, hread⟩)) hhint
    · intro h
      have honours : hintLoop (sqlText ts).length (sqlText ts) = true → HasReadOnlyHint ts := by
        intro htrue
        obtain ⟨before, body, behind, htaken, hread⟩ := hloop.mp htrue
        rcases h with hhint | hall
        · exact hhint
        · exact (hall before body behind htaken hread).hasReadOnlyHint hread
      exact ⟨honours, honours⟩
  refine ⟨hiff, fun hts hk => hiff.mpr (.inr ?_)⟩
  exact fun before body behind h _ => h.comment rfl hts hk

/-- A hint that says nothing, a literal with quotes and a hint in it, and a hint. -/
def hintAmongQuotes : List SqlToken :=
  [.comment ['+', 'a'], .literal ('\'' :: hintText), .other ' ', .identifier ['"'],
    .comment (hintText.drop 2).dropLast.dropLast]

/-- The literal with a hint in it ends the search, and nothing is honoured although there is a hint. -/
theorem only_hints_honoured_among_quotes : Tokenised hintAmongQuotes ∧ InPlace hintAmongQuotes ∧
    HasReadOnlyHint hintAmongQuotes ∧ HonoursOnlyHints hintAmongQuotes := by
  have hts : Tokenised hintAmongQuotes := by decide +kernel
  have hk : InPlace hintAmongQuotes := by decide +kernel
  exact ⟨hts, hk, by decide +kernel, (read_only_hint_honoured_iff hintAmongQuotes).2 hts hk⟩

end XStore.Proxy
