import FlowLang.Proofs.Writing.Group

/-!
# Well-nested texts

What can stand between two parentheses is told by a grammar, which counts nothing: single
characters, texts in quotes, and such texts in parentheses.  These are the texts behind which nothing
is open if one counts, so they are the texts that can be closed.

* `Quotation`, `WellNested` : the texts between two quotes and between two parentheses.
* `closeQuote_eq_some_iff` : a quotation ends at the first quote behind it.
* `Closing` : a text that closes some parentheses more than it opens.
* `closing_of_closeParen` : what is closed is well nested between the parentheses that it closes.
* `balanced_iff_wellNested` : **well nested are the texts behind which nothing is open.**
-/

namespace FlowLang

namespace Enclosure

/-! ### The grammar -/

/-- What can stand between two quotes.  A backslash takes the next character with it. -/
inductive Quotation : List Char → Prop
  | nil : Quotation []
  | escape {c : Char} {cs : List Char} (h : Quotation cs) : Quotation ('\\' :: c :: cs)
  | plain {c : Char} {cs : List Char} (hb : c ≠ '\\') (hq : c ≠ '"') (h : Quotation cs) :
    Quotation (c :: cs)

/-- What can stand between two parentheses: single characters, texts in quotes, and well-nested
texts in parentheses. -/
inductive WellNested : List Char → Prop
  | nil : WellNested []
  | neutral {c : Char} {cs : List Char} (hc : Depth.Neutral c) (h : WellNested cs) :
    WellNested (c :: cs)
  | quoted {text cs : List Char} (hq : Quotation text) (h : WellNested cs) :
    WellNested ('"' :: (text ++ '"' :: cs))
  | group {text cs : List Char} (ht : WellNested text) (h : WellNested cs) :
    WellNested ('(' :: (text ++ ')' :: cs))

theorem closeQuote_eq_some_iff {cs text rest : List Char} :
    closeQuote cs = some (text, rest) ↔
      ∃ q, Quotation q ∧ text = q ++ ['"'] ∧ cs = q ++ '"' :: rest := by
  constructor
  · intro h
    fun_induction closeQuote cs generalizing text with
    | case1 => cases h
    | case2 => cases h
    | case3 c cs ih =>
      obtain ⟨⟨t, r⟩, ht, he⟩ := Option.map_eq_some_iff.1 h
      cases he
      obtain ⟨q, hq, rfl, rfl⟩ := ih ht
      exact ⟨'\\' :: c :: q, .escape hq, rfl, rfl⟩
    | case4 cs =>
      cases h
      exact ⟨[], .nil, rfl, rfl⟩
    | case5 c cs hb he hq ih =>
      have hc := ne_backslash hb he
      obtain ⟨⟨t, r⟩, ht, he'⟩ := Option.map_eq_some_iff.1 h
      cases he'
      obtain ⟨q, hq', rfl, rfl⟩ := ih ht
      exact ⟨c :: q, .plain hc hq hq', rfl, rfl⟩
  · rintro ⟨q, hq, rfl, rfl⟩
    induction hq with
    | nil => rfl
    | @escape c cs h ih => simp [closeQuote, ih]
    | @plain c cs hb hq h ih =>
      rw [List.cons_append, closeQuote_cons hb hq, ih]
      rfl

theorem Quotation.walk {n : Nat} {cs : List Char} (h : Quotation cs) :
    (Depth.quoted n).walk cs = some (.quoted n) := by
  induction h with
  | nil => rfl
  | escape h ih => exact ih
  | plain hb hq h ih =>
    rw [Depth.walk, Depth.step, if_neg hb, if_neg hq]
    exact ih

/-- Behind a well-nested text just as much is open as before it. -/
theorem WellNested.walk {n : Nat} {cs : List Char} (h : WellNested cs) :
    (Depth.inside n).walk cs = some (.inside n) := by
  induction h generalizing n with
  | nil => rfl
  | neutral hc h ih =>
    obtain ⟨ho, hc, hq⟩ := hc
    rw [Depth.walk, Depth.step, if_neg ho, if_neg hc, if_neg hq]
    exact ih
  | @quoted text cs hq h ih =>
    show (Depth.quoted n).walk (text ++ '"' :: cs) = some (.inside n)
    rw [Depth.walk_append, hq.walk]
    exact ih
  | @group text cs ht h iht ih =>
    show (Depth.inside (n + 1)).walk (text ++ ')' :: cs) = some (.inside n)
    rw [Depth.walk_append, iht]
    exact ih

/-! ### What is closed -/

/-- So many parentheses are closed in the text that it does not open, and it is well nested before,
between and behind them. -/
def Closing : Nat → List Char → Prop
  | 0, cs => WellNested cs
  | n + 1, cs => ∃ front rest, cs = front ++ ')' :: rest ∧ WellNested front ∧ Closing n rest

/-- A text may be put in front that keeps every text well nested. -/
theorem Closing.append {n : Nat} {front cs : List Char} (h : Closing n cs)
    (hf : ∀ {ds}, WellNested ds → WellNested (front ++ ds)) : Closing n (front ++ cs) := by
  cases n with
  | zero => exact hf h
  | succ n =>
    obtain ⟨inner, rest, rfl, hi, hr⟩ := h
    exact ⟨front ++ inner, rest, (List.append_assoc ..).symm, hf hi, hr⟩

theorem closing_of_closeParen {n : Nat} {cs text rest : List Char}
    (h : closeParen n cs = some (text, rest)) : Closing n text := by
  fun_induction closeParen n cs generalizing text with
  | case1 => cases h
  | case2 n cs ih =>
    obtain ⟨⟨t, r⟩, ht, he⟩ := Option.map_eq_some_iff.1 h
    cases he
    obtain ⟨inner, behind, rfl, hi, hb⟩ := ih ht
    have whole : '(' :: (inner ++ ')' :: behind) = ('(' :: (inner ++ [')'])) ++ behind := by simp
    rw [whole]
    refine hb.append fun {ds} hd => ?_
    have := WellNested.group hi hd
    simpa using this
  | case3 cs =>
    cases h
    exact WellNested.nil
  | case4 cs n ih =>
    obtain ⟨⟨t, r⟩, ht, he⟩ := Option.map_eq_some_iff.1 h
    cases he
    exact ⟨[], t, rfl, .nil, ih ht⟩
  | case5 => cases h
  | case6 n cs quote after hq _ ih =>
    obtain ⟨⟨t, r⟩, ht, he⟩ := Option.map_eq_some_iff.1 h
    cases he
    obtain ⟨q, hq', rfl, -⟩ := closeQuote_eq_some_iff.1 hq
    refine (ih ht).append fun {ds} hd => ?_
    have := WellNested.quoted hq' hd
    simpa using this
  | case7 n c cs ho hc hq ih =>
    obtain ⟨⟨t, r⟩, ht, he⟩ := Option.map_eq_some_iff.1 h
    cases he
    show Closing n ([c] ++ t)
    exact (ih ht).append fun hd => .neutral ⟨ho, hc, hq⟩ hd

/-- **Well nested are the texts behind which nothing is open.** -/
theorem balanced_iff_wellNested {cs : List Char} : Balanced cs ↔ WellNested cs := by
  constructor
  · intro h
    exact closing_of_closeParen (Depth.closeParen_of_walk h [])
  · exact fun h => h.walk

end Enclosure

end FlowLang
