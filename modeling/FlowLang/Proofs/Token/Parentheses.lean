import FlowLang.Proofs.Token.WellNested
import Mathlib.Logic.Relation

/-!
# The closing parenthesis

A parenthesis is closed by the first one behind it with a well-nested text between the two.  The
search for it goes through the text place by place, counts the parentheses that are open, and passes
over quoted texts.  What is found from one place of the search is found from the next one too, so
where it ends shows what is found.

* `Closes`, `closingParen` : the closing parenthesis in a text, and the one that is found.
* `closingParen_eq_some_iff`, `closingParen_eq_none_iff` : it is found, if there is one.
* `Search`, `Search.Passes` : a place of the search, and where it goes from there.
* `Search.wellFounded_passes`, `Search.existsUnique_ends` : every search ends, in one place.
* `Search.Passes.behind`, `Search.Visits.behind` : what is found from a place, along a step and
  along a search.
* `Search.Visits.result` : where the search ends, and what is found then.
* `closing_parenthesis_is_exact` : **which parenthesis closes one, for every text.**
-/

namespace FlowLang

namespace Enclosure

/-! ### Places in a text -/

/-- What stands between two characters of a text. -/
def between (cs : List Char) (i j : Nat) : List Char := (cs.drop (i + 1)).take (j - (i + 1))

/-- The parenthesis at `j` closes the one at `i`. -/
structure Closes (cs : List Char) (i j : Nat) : Prop where
  lt : i < j
  inside : WellNested (between cs i j)
  closing : cs[j]? = some ')'

/-- The place of the parenthesis that is found to close the one at `i`. -/
def closingParen (cs : List Char) (i : Nat) : Option Nat :=
  (closeParen 0 (cs.drop (i + 1))).map fun r => i + 1 + r.1.length

section

variable {cs : List Char} {i j k : Nat} {c : Char}

theorem drop_of_getElem? (h : cs[k]? = some c) : cs.drop k = c :: cs.drop (k + 1) := by
  obtain ⟨hk, rfl⟩ := List.getElem?_eq_some_iff.1 h
  exact List.drop_eq_getElem_cons hk

/-- The text behind an opening parenthesis, put together around the closing one. -/
theorem Closes.drop_eq (h : Closes cs i j) :
    cs.drop (i + 1) = between cs i j ++ ')' :: cs.drop (j + 1) := by
  have far : i + 1 + (j - (i + 1)) = j := by
    have := h.lt
    omega
  have behind : cs.drop j = (cs.drop (i + 1)).drop (j - (i + 1)) := by rw [List.drop_drop, far]
  rw [← drop_of_getElem? h.closing, behind, between, List.take_append_drop]

theorem closeParen_eq_of_closes (h : Closes cs i j) :
    closeParen 0 (cs.drop (i + 1)) = some (between cs i j, cs.drop (j + 1)) :=
  closeParen_eq_some_iff.2 ⟨balanced_iff_wellNested.2 h.inside, h.drop_eq⟩

theorem Closes.length_between (h : Closes cs i j) : i + 1 + (between cs i j).length = j := by
  have := (List.getElem?_eq_some_iff.1 h.closing).1
  have := h.lt
  rw [between, List.length_take, List.length_drop]
  omega

/-- **What is found is what closes the parenthesis.** -/
theorem closingParen_eq_some_iff : closingParen cs i = some j ↔ Closes cs i j := by
  constructor
  · intro h
    obtain ⟨⟨text, rest⟩, hc, rfl⟩ := Option.map_eq_some_iff.1 h
    obtain ⟨hb, hd⟩ := closeParen_eq_some_iff.1 hc
    refine ⟨by omega, ?_, ?_⟩
    · rw [between, hd, Nat.add_sub_cancel_left, List.take_left]
      exact balanced_iff_wellNested.1 hb
    · rw [← List.getElem?_drop, hd, List.getElem?_append_right le_rfl, Nat.sub_self]
      rfl
  · intro h
    rw [closingParen, closeParen_eq_of_closes h, Option.map_some, h.length_between]

theorem Closes.unique (h : Closes cs i j) (h' : Closes cs i k) : j = k :=
  Option.some.inj ((closingParen_eq_some_iff.2 h).symm.trans (closingParen_eq_some_iff.2 h'))

/-- The closing parenthesis is told by what stands behind it. -/
theorem closingParen_of_closeParen {text : List Char}
    (h : closeParen 0 (cs.drop (i + 1)) = some (text, cs.drop (j + 1))) (hj : j < cs.length) :
    closingParen cs i = some j := by
  have len := congrArg List.length (closeParen_append h)
  rw [List.length_append, List.length_cons, List.length_drop, List.length_drop] at len
  rw [closingParen, h, Option.map_some]
  congr 1
  show i + 1 + text.length = j
  omega

theorem closingParen_eq_none_iff : closingParen cs i = none ↔ ∀ j, ¬ Closes cs i j := by
  simp only [Option.eq_none_iff_forall_ne_some, ← closingParen_eq_some_iff]

end

/-! ### What stands behind a stretch -/

/-- Behind a backslash the next character does not count, if there is one. -/
theorem closeQuote_escape (cs : List Char) :
    (closeQuote ('\\' :: cs)).map Prod.snd = (closeQuote cs.tail).map Prod.snd := by
  cases cs with
  | nil => rfl
  | cons c cs =>
    rw [closeQuote, Option.map_map]
    rfl

theorem closeParen_quote_behind (depth : Nat) (cs : List Char) :
    (closeParen depth ('"' :: cs)).map Prod.snd =
      ((closeQuote cs).map Prod.snd).bind fun rest => (closeParen depth rest).map Prod.snd := by
  cases h : closeQuote cs with
  | none =>
    rw [closeParen]
    split
    · rfl
    next he => rw [h] at he; cases he
  | some r =>
    rw [closeParen_quote h, Option.map_map]
    rfl

/-! ### The search -/

/-- A place of the search for the closing parenthesis. -/
structure Search where
  /-- The character that is looked at. -/
  index : Nat
  /-- The number of parentheses that have been opened and not closed. -/
  depth : Nat
  /-- The search is inside a quoted text. -/
  quoted : Bool

namespace Search

/-- The search starts at the opening parenthesis, before it has been counted. -/
def start (i : Nat) : Search := ⟨i, 0, false⟩

/-- The search goes on from one place to another one.  A backslash in a quoted text takes it over
the next character, whether there is one or not. -/
inductive Passes (cs : List Char) : Search → Search → Prop
  | escape {k d : Nat} (h : cs[k]? = some '\\') : Passes cs ⟨k, d, true⟩ ⟨k + 2, d, true⟩
  | unquote {k d : Nat} (h : cs[k]? = some '"') : Passes cs ⟨k, d, true⟩ ⟨k + 1, d, false⟩
  | quoted {k d : Nat} {c : Char} (h : cs[k]? = some c) (hb : c ≠ '\\') (hq : c ≠ '"') :
    Passes cs ⟨k, d, true⟩ ⟨k + 1, d, true⟩
  | quote {k d : Nat} (h : cs[k]? = some '"') : Passes cs ⟨k, d, false⟩ ⟨k + 1, d, true⟩
  | opening {k d : Nat} (h : cs[k]? = some '(') : Passes cs ⟨k, d, false⟩ ⟨k + 1, d + 1, false⟩
  | closing {k d : Nat} (h : cs[k]? = some ')') :
    Passes cs ⟨k, d + 2, false⟩ ⟨k + 1, d + 1, false⟩
  | neutral {k d : Nat} {c : Char} (h : cs[k]? = some c) (hc : Depth.Neutral c) :
    Passes cs ⟨k, d, false⟩ ⟨k + 1, d, false⟩

/-- The search for what closes the parenthesis at `i` comes to this place. -/
def Visits (cs : List Char) (i : Nat) (p : Search) : Prop :=
  Relation.ReflTransGen (Passes cs) (start i) p

/-- The search does not go on from here. -/
def Ends (cs : List Char) (p : Search) : Prop := ∀ q, ¬ Passes cs p q

/-- The parenthesis here closes the last open one. -/
def Succeeds (cs : List Char) (p : Search) : Prop :=
  p.quoted = false ∧ cs[p.index]? = some ')' ∧ p.depth = 1

/-- The parenthesis here would be closed although none is open. -/
def Underflows (cs : List Char) (p : Search) : Prop :=
  p.quoted = false ∧ cs[p.index]? = some ')' ∧ p.depth = 0

/-- The text is over. -/
def Over (cs : List Char) (p : Search) : Prop := cs.length ≤ p.index

variable {cs : List Char} {i : Nat} {p q r : Search}

/-- The search ends at the closing parenthesis, at one that closes nothing, or behind the text. -/
theorem passes_or_ends (cs : List Char) (p : Search) :
    (∃ q, Passes cs p q) ∨ p.Succeeds cs ∨ p.Underflows cs ∨ p.Over cs := by
  obtain ⟨k, d, quoted⟩ := p
  cases h : cs[k]? with
  | none => exact .inr (.inr (.inr (List.getElem?_eq_none_iff.1 h)))
  | some c =>
    cases quoted with
    | true =>
      by_cases hb : c = '\\'
      · exact .inl ⟨_, .escape (hb ▸ h)⟩
      by_cases hq : c = '"'
      · exact .inl ⟨_, .unquote (hq ▸ h)⟩
      · exact .inl ⟨_, .quoted h hb hq⟩
    | false =>
      by_cases ho : c = '('
      · exact .inl ⟨_, .opening (ho ▸ h)⟩
      by_cases hc : c = ')'
      · subst hc
        match d with
        | 0 => exact .inr (.inr (.inl ⟨rfl, h, rfl⟩))
        | 1 => exact .inr (.inl ⟨rfl, h, rfl⟩)
        | d + 2 => exact .inl ⟨_, .closing h⟩
      by_cases hq : c = '"'
      · exact .inl ⟨_, .quote (hq ▸ h)⟩
      · exact .inl ⟨_, .neutral h ⟨ho, hc, hq⟩⟩

/-- There is only one way on. -/
theorem Passes.unique (h : Passes cs p q) (h' : Passes cs p r) : q = r := by
  cases h <;> cases h' <;> grind [Depth.Neutral]

/-- A step starts inside the text and goes on by one character or two. -/
theorem Passes.index (h : Passes cs p q) :
    p.index < cs.length ∧ p.index < q.index ∧ q.index ≤ p.index + 2 := by
  have inside : ∃ c, cs[p.index]? = some c := by
    cases h <;> exact ⟨_, ‹_›⟩
  obtain ⟨c, hc⟩ := inside
  exact ⟨(List.getElem?_eq_some_iff.1 hc).1, by cases h <;> simp⟩

/-- **No search goes on for ever.** -/
theorem wellFounded_passes (cs : List Char) : WellFounded fun q p => Passes cs p q := by
  refine Subrelation.wf (r := InvImage (· < ·) fun p => cs.length - p.index) ?_
    (InvImage.wf _ Nat.lt_wfRel.wf)
  intro q p h
  obtain ⟨hin, hlt, -⟩ := h.index
  show cs.length - q.index < cs.length - p.index
  omega

theorem exists_ends (cs : List Char) (p : Search) :
    ∃ q, Relation.ReflTransGen (Passes cs) p q ∧ Ends cs q := by
  induction p using (wellFounded_passes cs).induction with
  | _ p ih =>
    by_cases he : Ends cs p
    · exact ⟨p, .refl, he⟩
    · simp only [Ends, not_forall, not_not] at he
      obtain ⟨q, hq⟩ := he
      obtain ⟨r, hr, he⟩ := ih q hq
      exact ⟨r, hr.head hq, he⟩

theorem Ends.eq (he : Ends cs p) (h : Relation.ReflTransGen (Passes cs) p q) : p = q := by
  rcases h.cases_head with rfl | ⟨r, hr, -⟩
  · rfl
  · exact absurd hr (he r)

/-- **Every search comes to an end, and to only one.** -/
theorem existsUnique_ends (cs : List Char) (i : Nat) : ∃! p, Visits cs i p ∧ Ends cs p := by
  obtain ⟨p, hp, he⟩ := exists_ends cs (start i)
  refine ⟨p, ⟨hp, he⟩, ?_⟩
  rintro q ⟨hq, he'⟩
  -- of two places that one search comes to, one is on the way to the other
  have unique : Relator.RightUnique (Passes cs) := fun _ _ _ => Passes.unique
  rcases Relation.ReflTransGen.total_of_right_unique unique hp hq with h | h
  · exact (he.eq h).symm
  · exact he'.eq h

/-! ### What is found from a place -/

/-- What is found from here on to stand behind the closing parenthesis. -/
def behind (cs : List Char) (p : Search) : Option (List Char) :=
  if p.quoted then
    ((closeQuote (cs.drop p.index)).map Prod.snd).bind fun rest =>
      (closeParen (p.depth - 1) rest).map Prod.snd
  else (closeParen (p.depth - 1) (cs.drop p.index)).map Prod.snd

theorem behind_quoted (cs : List Char) (k d : Nat) : behind cs ⟨k, d + 1, true⟩ =
    ((closeQuote (cs.drop k)).map Prod.snd).bind fun rest => (closeParen d rest).map Prod.snd := rfl

theorem behind_unquoted (cs : List Char) (k d : Nat) :
    behind cs ⟨k, d + 1, false⟩ = (closeParen d (cs.drop k)).map Prod.snd := rfl

/-- **A step does not change what is found**, and a parenthesis stays open. -/
theorem Passes.behind (h : Passes cs p q) (hp : 0 < p.depth) :
    0 < q.depth ∧ q.behind cs = p.behind cs := by
  obtain ⟨k, d, quoted⟩ := p
  obtain ⟨d, rfl⟩ := Nat.exists_eq_succ_of_ne_zero (Nat.pos_iff_ne_zero.1 hp)
  refine ⟨by cases h <;> exact Nat.succ_pos _, ?_⟩
  cases h with
  | escape h =>
    rw [behind_quoted, behind_quoted, drop_of_getElem? h, closeQuote_escape, List.tail_drop]
  | unquote h =>
    rw [behind_quoted, behind_unquoted, drop_of_getElem? h, closeQuote]
    rfl
  | quoted h hb hq =>
    rw [behind_quoted, behind_quoted, drop_of_getElem? h, closeQuote_cons hb hq, Option.map_map]
    rfl
  | quote h =>
    rw [behind_quoted, behind_unquoted, drop_of_getElem? h, closeParen_quote_behind]
  | opening h | closing h =>
    rw [behind_unquoted, behind_unquoted, drop_of_getElem? h, closeParen, Option.map_map]
    rfl
  | neutral h hc =>
    obtain ⟨ho, hc, hq⟩ := hc
    rw [behind_unquoted, behind_unquoted, drop_of_getElem? h, closeParen_cons ho hc hq,
      Option.map_map]
    rfl

/-- **From every place of a search behind its start, the same is found**, and a parenthesis is open
there. -/
theorem Visits.behind (ho : cs[i]? = some '(') (h : Visits cs i p) :
    p = start i ∨ 0 < p.depth ∧ p.behind cs = (closeParen 0 (cs.drop (i + 1))).map Prod.snd := by
  induction h with
  | refl => exact .inl rfl
  | tail _ hp ih =>
    refine .inr ?_
    rcases ih with rfl | ⟨hd, hb⟩
    · have first : Passes cs (start i) ⟨i + 1, 1, false⟩ := .opening ho
      obtain rfl := hp.unique first
      exact ⟨Nat.one_pos, rfl⟩
    · obtain ⟨hd', hb'⟩ := hp.behind hd
      exact ⟨hd', hb'.trans hb⟩

theorem Visits.index (ho : cs[i]? = some '(') (h : Visits cs i p) : p.index ≤ cs.length + 1 := by
  cases h with
  | refl =>
    have := (List.getElem?_eq_some_iff.1 ho).1
    show i ≤ _
    omega
  | tail _ hp =>
    have := hp.index
    omega

/-- **No parenthesis is closed that has not been opened.** -/
theorem Visits.not_underflows (ho : cs[i]? = some '(') (h : Visits cs i p) : ¬ p.Underflows cs := by
  rintro ⟨-, hc, hd⟩
  rcases h.behind ho with rfl | ⟨hpos, -⟩
  · have : some '(' = some ')' := ho.symm.trans hc
    simp at this
  · omega

theorem Succeeds.behind (h : p.Succeeds cs) : p.behind cs = some (cs.drop (p.index + 1)) := by
  obtain ⟨k, d, quoted⟩ := p
  obtain ⟨rfl, hc, rfl⟩ := h
  rw [behind_unquoted, drop_of_getElem? hc, closeParen]
  rfl

theorem Over.behind (h : p.Over cs) : p.behind cs = none := by
  rw [Search.behind, List.drop_eq_nil_of_le h]
  split <;> simp [closeQuote, closeParen]

/-- **The search ends at the parenthesis that is found, or behind the text if none is found.** -/
theorem Visits.result (ho : cs[i]? = some '(') (h : Visits cs i p) (he : Ends cs p) :
    p.Succeeds cs ∧ closingParen cs i = some p.index ∨ p.Over cs ∧ closingParen cs i = none := by
  have found : p.behind cs = (closeParen 0 (cs.drop (i + 1))).map Prod.snd := by
    rcases h.behind ho with rfl | ⟨-, hb⟩
    · exact absurd (.opening ho) (he _)
    · exact hb
  rcases passes_or_ends cs p with ⟨q, hp⟩ | hs | hu | hover
  · exact absurd hp (he q)
  · rw [hs.behind] at found
    obtain ⟨⟨text, rest⟩, hr, rfl⟩ := Option.map_eq_some_iff.1 found.symm
    exact .inl ⟨hs, closingParen_of_closeParen hr (List.getElem?_eq_some_iff.1 hs.2.1).1⟩
  · exact absurd hu (h.not_underflows ho)
  · rw [hover.behind] at found
    exact .inr ⟨hover, by rw [closingParen, Option.map_eq_none_iff.1 found.symm, Option.map_none]⟩

end Search

/-! ### Exactness -/

/-- What is said about the parenthesis that opens at `i`. -/
structure Exact (cs : List Char) (i : Nat) : Prop where
  /-- What is found closes the parenthesis, and what closes it is found. -/
  found : ∀ j, closingParen cs i = some j ↔ Closes cs i j
  /-- Nothing is found if nothing closes it. -/
  missing : closingParen cs i = none ↔ ∀ j, ¬ Closes cs i j
  /-- At most one parenthesis closes it. -/
  unique : ∀ j k, Closes cs i j → Closes cs i k → j = k
  /-- The arguments that open here are what stands between the two. -/
  args : ∀ j, Closes cs i j →
    lexeme '(' (cs.drop (i + 1)) = .ok ⟨.args, between cs i j, cs.drop (j + 1)⟩
  /-- Without a closing parenthesis there are no arguments. -/
  unclosed : (∀ j, ¬ Closes cs i j) → lexeme '(' (cs.drop (i + 1)) = .error .unclosedParen
  /-- The search does not go on for ever. -/
  finite : Acc (fun q p => Search.Passes cs p q) (.start i)
  /-- It comes to one end. -/
  ends : ∃! p : Search, p.Visits cs i ∧ p.Ends cs
  /-- It goes over the end of the text by one character at most. -/
  within : ∀ p : Search, p.Visits cs i → p.index ≤ cs.length + 1
  /-- It never closes a parenthesis while it counts none as open. -/
  counts : ∀ p : Search, p.Visits cs i → ¬ p.Underflows cs
  /-- It ends at the parenthesis that is found, or behind the text if none is found. -/
  result : ∀ p : Search, p.Visits cs i → p.Ends cs →
    p.Succeeds cs ∧ closingParen cs i = some p.index ∨ p.Over cs ∧ closingParen cs i = none

end Enclosure

open Enclosure

/-- **The closing parenthesis is found exactly.**  Take any text and an opening parenthesis in it.
What is found is the parenthesis with a well-nested text before it, up to the one that opens; there
is at most one, and nothing is found only if there is none.  What stands between the two are the
arguments there.  The search ends, whatever the text; it never closes what has not been opened, and
a backslash takes it over the end of the text by one character at most, where nothing is found. -/
theorem closing_parenthesis_is_exact {cs : List Char} {i : Nat} (h : cs[i]? = some '(') :
    Exact cs i where
  found _ := closingParen_eq_some_iff
  missing := closingParen_eq_none_iff
  unique _ _ hj hk := hj.unique hk
  args j hj := by
    rw [lexeme_eq_ok_iff]
    exact .args (closeParen_eq_of_closes hj)
  unclosed hn := by
    have none := closingParen_eq_none_iff.2 hn
    rw [closingParen, Option.map_eq_none_iff] at none
    simp [lexeme, none]
  finite := (Search.wellFounded_passes cs).apply _
  ends := Search.existsUnique_ends cs i
  within _ hp := hp.index h
  counts _ hp := hp.not_underflows h
  result _ hp he := hp.result h he

/-- A quoted parenthesis behind a quoted quote, and a backslash at the end of the text. -/
theorem closing_parenthesis_is_exact_escapes :
    (∃ cs, cs = "f(g(\"\\\")\"), (x)) y".toList ∧ cs[1]? = some '(' ∧
      closingParen cs 1 = some 15 ∧ Exact cs 1) ∧
    ∃ cs, cs = "(\"\\".toList ∧ cs[0]? = some '(' ∧ closingParen cs 0 = none ∧
      Search.Visits cs 0 ⟨cs.length + 1, 1, true⟩ ∧ Exact cs 0 := by
  constructor
  · have h : "f(g(\"\\\")\"), (x)) y".toList[1]? = some '(' := by decide
    exact ⟨_, rfl, h, by decide +kernel, closing_parenthesis_is_exact h⟩
  · have h : "(\"\\".toList[0]? = some '(' := by decide
    have visits : Search.Visits "(\"\\".toList 0 ⟨4, 1, true⟩ :=
      ((Relation.ReflTransGen.refl.tail (.opening h)).tail (.quote (by decide))).tail
        (.escape (by decide))
    exact ⟨_, rfl, h, by decide +kernel, visits, closing_parenthesis_is_exact h⟩

end FlowLang
