import FlowLang.Proofs.Token.Lines

/-!
# Lexemes in longer lines

A lexeme ends where its own characters end, or where a character follows that does not continue it.
So what is behind it may be exchanged, as long as it does not continue the lexeme either.

* `closeQuote_append_right`, `closeParen_append_right` : an enclosure that is closed stays closed.
* `symbolRun_append_right` : a symbol before something that continues no symbol.
* `IsLexeme`, `lexeme_eq_ok_iff` : the lexemes, one rule for each first character.
* `IsLexeme.append` : a lexeme with more characters behind it.
* `IsLexeme.alone`, `IsLexeme.ends` : a lexeme with nothing behind it, and what may be behind it.
-/

namespace FlowLang

open Text

namespace Enclosure

/-! ### Enclosures -/

/-- A character that starts no escape is no backslash. -/
theorem ne_backslash {c : Char} {cs : List Char} (hb : c = '\\' → cs = [] → False)
    (he : ∀ d ds, c = '\\' → cs = d :: ds → False) : c ≠ '\\' := by
  rintro rfl
  cases cs with
  | nil => exact hb rfl rfl
  | cons d ds => exact he d ds rfl rfl

/-- A character of a quoted stretch that stands for itself. -/
theorem closeQuote_cons {c : Char} (hb : c ≠ '\\') (hq : c ≠ '"') (cs : List Char) :
    closeQuote (c :: cs) = (closeQuote cs).map fun r => (c :: r.1, r.2) := by
  rw [closeQuote.eq_5 _ _ (by simp [hb]) (by simp [hb]) hq]

theorem closeQuote_append_right {cs text rest : List Char} (h : closeQuote cs = some (text, rest))
    (more : List Char) : closeQuote (cs ++ more) = some (text, rest ++ more) := by
  fun_induction closeQuote cs generalizing text with
  | case1 => simp at h
  | case2 => simp at h
  | case3 c cs ih =>
    obtain ⟨⟨t, r⟩, ht, he⟩ := Option.map_eq_some_iff.1 h
    cases he
    simp [closeQuote, ih ht]
  | case4 cs =>
    cases h
    simp [closeQuote]
  | case5 c cs hb he hq ih =>
    obtain ⟨⟨t, r⟩, ht, he'⟩ := Option.map_eq_some_iff.1 h
    cases he'
    have hc := ne_backslash hb he
    rw [List.cons_append, closeQuote_cons hc hq, ih ht]
    rfl

/-- A character in parentheses that stands for itself. -/
theorem closeParen_cons {c : Char} (ho : c ≠ '(') (hc : c ≠ ')') (hq : c ≠ '"') (depth : Nat)
    (cs : List Char) :
    closeParen depth (c :: cs) = (closeParen depth cs).map fun r => (c :: r.1, r.2) := by
  rw [closeParen.eq_def]
  split
  · contradiction
  · cases ‹c :: cs = _›; exact absurd rfl ho
  · cases ‹c :: cs = _›; exact absurd rfl hc
  · cases ‹c :: cs = _›; exact absurd rfl hq
  · cases ‹c :: cs = _›; rfl

theorem closeParen_quote {depth : Nat} {cs text rest : List Char}
    (h : closeQuote cs = some (text, rest)) :
    closeParen depth ('"' :: cs) =
      (closeParen depth rest).map fun r => ('"' :: text ++ r.1, r.2) := by
  rw [closeParen]
  split
  next hn => rw [h] at hn; cases hn
  next he => rw [h] at he; cases he; rfl

theorem closeParen_append_right {depth : Nat} {cs text rest : List Char}
    (h : closeParen depth cs = some (text, rest)) (more : List Char) :
    closeParen depth (cs ++ more) = some (text, rest ++ more) := by
  fun_induction closeParen depth cs generalizing text with
  | case1 => simp at h
  | case2 _ cs ih =>
    obtain ⟨⟨t, r⟩, ht, he⟩ := Option.map_eq_some_iff.1 h
    cases he
    rw [List.cons_append, closeParen, ih ht]
    rfl
  | case3 cs =>
    cases h
    rw [List.cons_append, closeParen]
  | case4 cs d ih =>
    obtain ⟨⟨t, r⟩, ht, he⟩ := Option.map_eq_some_iff.1 h
    cases he
    rw [List.cons_append, closeParen, ih ht]
    rfl
  | case5 => simp at h
  | case6 _ cs q after hq _ ih =>
    obtain ⟨⟨t, r⟩, ht, he⟩ := Option.map_eq_some_iff.1 h
    cases he
    rw [List.cons_append, closeParen_quote (closeQuote_append_right hq more), ih ht]
    rfl
  | case7 _ c cs ho hc hq ih =>
    obtain ⟨⟨t, r⟩, ht, he⟩ := Option.map_eq_some_iff.1 h
    cases he
    rw [List.cons_append, closeParen_cons ho hc hq, ih ht]
    rfl

theorem closeQuote_alone {cs text rest : List Char} (h : closeQuote cs = some (text, rest)) :
    closeQuote text = some (text, []) := by
  fun_induction closeQuote cs generalizing text with
  | case1 => simp at h
  | case2 => simp at h
  | case3 c cs ih =>
    obtain ⟨⟨t, r⟩, ht, he⟩ := Option.map_eq_some_iff.1 h
    cases he
    simp [closeQuote, ih ht]
  | case4 cs =>
    cases h
    simp [closeQuote]
  | case5 c cs hb he hq ih =>
    obtain ⟨⟨t, r⟩, ht, he'⟩ := Option.map_eq_some_iff.1 h
    cases he'
    have hc := ne_backslash hb he
    rw [closeQuote_cons hc hq, ih ht]
    rfl

theorem closeParen_alone {depth : Nat} {cs text rest : List Char}
    (h : closeParen depth cs = some (text, rest)) :
    closeParen depth (text ++ [')']) = some (text, []) := by
  fun_induction closeParen depth cs generalizing text with
  | case1 => simp at h
  | case2 _ cs ih =>
    obtain ⟨⟨t, r⟩, ht, he⟩ := Option.map_eq_some_iff.1 h
    cases he
    rw [List.cons_append, closeParen, ih ht]
    rfl
  | case3 cs =>
    cases h
    rw [List.nil_append, closeParen]
  | case4 cs d ih =>
    obtain ⟨⟨t, r⟩, ht, he⟩ := Option.map_eq_some_iff.1 h
    cases he
    rw [List.cons_append, closeParen, ih ht]
    rfl
  | case5 => simp at h
  | case6 _ cs q after hq _ ih =>
    obtain ⟨⟨t, r⟩, ht, he⟩ := Option.map_eq_some_iff.1 h
    cases he
    rw [List.append_assoc, List.cons_append,
      closeParen_quote (closeQuote_append_right (closeQuote_alone hq) _), List.nil_append, ih ht]
    rfl
  | case7 _ c cs ho hc hq ih =>
    obtain ⟨⟨t, r⟩, ht, he⟩ := Option.map_eq_some_iff.1 h
    cases he
    rw [List.cons_append, closeParen_cons ho hc hq, ih ht]
    rfl

end Enclosure

/-! ### Words and symbols -/

theorem takeWhile_append_right {p : Char → Bool} (cs : List Char) {more : List Char}
    (h : ∀ c ∈ more.head?, p c = false) :
    (cs ++ more).takeWhile p = cs.takeWhile p ∧
      (cs ++ more).dropWhile p = cs.dropWhile p ++ more := by
  induction cs with
  | nil =>
    cases more with
    | nil => simp
    | cons c more => simp [h c rfl]
  | cons c cs ih =>
    rw [List.cons_append, List.takeWhile_cons, List.takeWhile_cons, List.dropWhile_cons,
      List.dropWhile_cons]
    split
    · exact ⟨by rw [ih.1], ih.2⟩
    · exact ⟨rfl, rfl⟩

theorem isWordChar_of_isGap {c : Char} (h : isGap c = true) : isWordChar c = false := by
  simp only [isGap, Bool.or_eq_true, beq_iff_eq] at h
  rcases h with rfl | rfl <;> decide

theorem isSymbolChar_of_isGap {c : Char} (h : isGap c = true) : isSymbolChar c = false := by
  simp only [isGap, Bool.or_eq_true, beq_iff_eq] at h
  rcases h with rfl | rfl <;> decide

/-- What does not continue a symbol is no `>` behind a `-` either. -/
theorem head?_ne_of_symbolRun {more : List Char} (h : (symbolRun more).1 = []) :
    (more.head? == some '>') = false := by
  cases more with
  | nil => rfl
  | cons c more =>
    rw [List.head?_cons]
    refine beq_eq_false_iff_ne.2 ?_
    rintro ⟨⟩
    have hs : isSymbolChar '>' = true := by decide
    simp [symbolRun, hs] at h

theorem symbolRun_append_right {cs more : List Char} (h : (symbolRun more).1 = []) :
    symbolRun (cs ++ more) = ((symbolRun cs).1, (symbolRun cs).2 ++ more) := by
  induction cs with
  | nil =>
    have := symbolRun_append more
    rw [h, List.nil_append] at this
    exact Prod.ext h this
  | cons c cs ih =>
    have hh : ((cs ++ more).head? == some '>') = (cs.head? == some '>') := by
      cases cs with
      | nil => exact head?_ne_of_symbolRun h
      | cons d ds => rfl
    rw [List.cons_append, symbolRun, symbolRun, hh, ih]
    split <;> rfl

/-- What is behind a symbol does not continue it. -/
theorem symbolRun_rest (cs : List Char) : (symbolRun (symbolRun cs).2).1 = [] := by
  induction cs with
  | nil => rfl
  | cons c cs ih =>
    by_cases hc : (isSymbolChar c && !(c == '-' && cs.head? == some '>')) = true
    · rw [symbolRun, if_pos hc]
      exact ih
    · rw [symbolRun, if_neg hc]
      show (symbolRun (c :: cs)).1 = []
      rw [symbolRun, if_neg hc]

/-- The characters of a symbol are a symbol by themselves. -/
theorem symbolRun_alone (cs : List Char) : symbolRun (symbolRun cs).1 = ((symbolRun cs).1, []) := by
  induction cs with
  | nil => rfl
  | cons c cs ih =>
    by_cases hc : (isSymbolChar c && !(c == '-' && cs.head? == some '>')) = true
    · have hc' : (isSymbolChar c && !(c == '-' && (symbolRun cs).1.head? == some '>')) = true := by
        cases cs with
        | nil => exact hc
        | cons d ds =>
          by_cases hd : (isSymbolChar d && !(d == '-' && ds.head? == some '>')) = true
          · rw [symbolRun, if_pos hd]
            exact hc
          · rw [symbolRun, if_neg hd]
            simp only [Bool.and_eq_true] at hc ⊢
            exact ⟨hc.1, by simp⟩
      have hr : symbolRun (c :: cs) = (c :: (symbolRun cs).1, (symbolRun cs).2) := by
        rw [symbolRun, if_pos hc]
      rw [hr, symbolRun, if_pos hc', ih]
    · rw [show symbolRun (c :: cs) = ([], c :: cs) by rw [symbolRun, if_neg hc]]
      rfl

/-! ### Lexemes -/

/-- The lexeme that starts with a character, and the characters behind that one. -/
inductive IsLexeme : Char → List Char → Lexeme → Prop
  | comment {cs} : IsLexeme '#' cs ⟨.comment, cs, []⟩
  | args {cs text rest} :
    Enclosure.closeParen 0 cs = some (text, rest) → IsLexeme '(' cs ⟨.args, text, rest⟩
  | string {cs text rest} :
    Enclosure.closeQuote cs = some (text, rest) → IsLexeme '"' cs ⟨.string, '"' :: text, rest⟩
  | arrow {cs} : IsLexeme '-' ('>' :: cs) ⟨.arrow, ['-', '>'], cs⟩
  | colon {cs} : IsLexeme ':' cs ⟨.colon, [':'], cs⟩
  | word {c cs} : isWordChar c = true →
    IsLexeme c cs ⟨.ofWord (String.ofList (c :: cs.takeWhile isWordChar)),
      c :: cs.takeWhile isWordChar, cs.dropWhile isWordChar⟩
  | symbol {c cs} : isWordChar c = false → c ∉ ['#', '(', ')', '"', ':'] →
    (c == '-' && cs.head? == some '>') = false →
    IsLexeme c cs ⟨.symbol, c :: (symbolRun cs).1, (symbolRun cs).2⟩

theorem isLexeme_of_lexeme {c : Char} {cs : List Char} {l : Lexeme} (h : lexeme c cs = .ok l) :
    IsLexeme c cs l := by
  unfold lexeme at h
  split at h
  next hc => cases h; subst hc; exact .comment
  split at h
  next hc =>
    subst hc
    split at h <;> cases h
    exact .args ‹_›
  split at h
  next => cases h
  split at h
  next hc =>
    subst hc
    split at h <;> cases h
    exact .string ‹_›
  split at h
  next hc =>
    cases h
    obtain ⟨rfl, hd⟩ := hc
    cases cs with
    | nil => cases hd
    | cons d ds => cases hd; exact .arrow
  split at h
  next hc => cases h; subst hc; exact .colon
  split at h
  next hw => cases h; exact .word hw
  next h₁ h₂ h₃ h₄ h₅ h₆ hw =>
    cases h
    refine .symbol (by simpa using hw) (by simp [*]) ?_
    simpa using h₅

theorem IsLexeme.lexeme_eq {c : Char} {cs : List Char} {l : Lexeme} (h : IsLexeme c cs l) :
    lexeme c cs = .ok l := by
  cases h with
  | comment => simp [lexeme]
  | args h => simp [lexeme, h]
  | string h => simp [lexeme, h]
  | arrow => simp [lexeme]
  | colon => simp [lexeme]
  | word hw =>
    have ne : ∀ {d : Char}, isWordChar d = false → c ≠ d := by
      rintro d hd rfl
      rw [hw] at hd
      cases hd
    have h₁ := ne (show isWordChar '#' = false by decide)
    have h₂ := ne (show isWordChar '(' = false by decide)
    have h₃ := ne (show isWordChar ')' = false by decide)
    have h₄ := ne (show isWordChar '"' = false by decide)
    have h₅ := ne (show isWordChar '-' = false by decide)
    have h₆ := ne (show isWordChar ':' = false by decide)
    simp [lexeme, h₁, h₂, h₃, h₄, h₅, h₆, hw]
  | symbol hw hc ha =>
    simp only [List.mem_cons, List.not_mem_nil, or_false, not_or] at hc
    have ha' : ¬ (c = '-' ∧ cs.head? = some '>') := by simpa using ha
    simp [lexeme, hc, ha', hw]

theorem lexeme_eq_ok_iff {c : Char} {cs : List Char} {l : Lexeme} :
    lexeme c cs = .ok l ↔ IsLexeme c cs l :=
  ⟨isLexeme_of_lexeme, IsLexeme.lexeme_eq⟩

/-- What is behind a lexeme may be exchanged for something that does not continue it. -/
theorem IsLexeme.append {c : Char} {cs more : List Char} {l : Lexeme} (h : IsLexeme c cs l)
    (hc : l.kind ≠ .comment) (hw : isWordChar c = true → ∀ d ∈ more.head?, isWordChar d = false)
    (hs : l.kind = .symbol → (symbolRun more).1 = []) :
    IsLexeme c (cs ++ more) ⟨l.kind, l.literal, l.rest ++ more⟩ := by
  cases h with
  | comment => exact absurd rfl hc
  | args h => exact .args (Enclosure.closeParen_append_right h more)
  | string h => exact .string (Enclosure.closeQuote_append_right h more)
  | arrow => exact .arrow
  | colon => exact .colon
  | word h =>
    obtain ⟨ht, hd⟩ := takeWhile_append_right cs (hw h)
    have : IsLexeme c (cs ++ more) _ := .word h
    rwa [ht, hd] at this
  | symbol h hn ha =>
    have hm := hs rfl
    have : IsLexeme c (cs ++ more) _ := .symbol h hn ?_
    · rwa [symbolRun_append_right hm] at this
    · cases cs with
      | nil => rw [List.nil_append, head?_ne_of_symbolRun hm, Bool.and_false]
      | cons d ds => exact ha

theorem IsLexeme.eq_arrow {c : Char} {cs : List Char} {l : Lexeme} (h : IsLexeme c cs l)
    (hk : l.kind = .arrow) : c = '-' ∧ cs = '>' :: l.rest := by
  cases h with
  | arrow => exact ⟨rfl, rfl⟩
  | word => exact absurd hk (ofWord_ne (by simp) (by simp))
  | _ => cases hk

theorem IsLexeme.eq_colon {c : Char} {cs : List Char} {l : Lexeme} (h : IsLexeme c cs l)
    (hk : l.kind = .colon) : c = ':' := by
  cases h with
  | colon => rfl
  | word => exact absurd hk (ofWord_ne (by simp) (by simp))
  | _ => cases hk

theorem IsLexeme.eq_args {c : Char} {cs : List Char} {l : Lexeme} (h : IsLexeme c cs l)
    (hk : l.kind = .args) : c = '(' ∧ Enclosure.closeParen 0 cs = some (l.literal, l.rest) := by
  cases h with
  | args h => exact ⟨rfl, h⟩
  | word => exact absurd hk (ofWord_ne (by simp) (by simp))
  | _ => cases hk

theorem IsLexeme.eq_string {c : Char} {cs : List Char} {l : Lexeme} (h : IsLexeme c cs l)
    (hk : l.kind = .string) :
    ∃ text, l.literal = '"' :: text ∧ Enclosure.closeQuote cs = some (text, l.rest) := by
  cases h with
  | string h => exact ⟨_, rfl, h⟩
  | word => exact absurd hk (ofWord_ne (by simp) (by simp))
  | _ => cases hk

theorem IsLexeme.eq_word {c : Char} {cs : List Char} {l : Lexeme} (h : IsLexeme c cs l)
    (hk : l.kind = .ident) : l.literal ≠ [] ∧ ∀ d ∈ l.literal, isWordChar d = true := by
  cases h with
  | word h =>
    refine ⟨List.cons_ne_nil _ _, List.forall_mem_cons.2 ⟨h, fun d hd => ?_⟩⟩
    exact (List.all_eq_true.1 List.all_takeWhile) d hd
  | _ => cases hk

/-- A lexeme needs nothing behind it. -/
theorem IsLexeme.alone {c : Char} {cs : List Char} {l : Lexeme} (h : IsLexeme c cs l) :
    ∃ cs', IsLexeme c cs' ⟨l.kind, l.literal, []⟩ := by
  cases h with
  | comment => exact ⟨cs, .comment⟩
  | args h => exact ⟨_, .args (Enclosure.closeParen_alone h)⟩
  | string h => exact ⟨_, .string (Enclosure.closeQuote_alone h)⟩
  | arrow => exact ⟨_, .arrow⟩
  | colon => exact ⟨_, .colon⟩
  | word h =>
    have hall : ∀ d ∈ cs.takeWhile isWordChar, isWordChar d = true := fun d hd =>
      (List.all_eq_true.1 List.all_takeWhile) d hd
    have ht := @List.takeWhile_append_of_pos _ isWordChar _ [] hall
    have hd := @List.dropWhile_append_of_pos _ isWordChar _ [] hall
    rw [List.append_nil] at ht hd
    have : IsLexeme c (cs.takeWhile isWordChar) _ := .word h
    rw [ht, hd] at this
    exact ⟨_, by simpa using this⟩
  | symbol h hn ha =>
    refine ⟨(symbolRun cs).1, ?_⟩
    have ha' : (c == '-' && (symbolRun cs).1.head? == some '>') = false := by
      cases cs with
      | nil => exact ha
      | cons d ds =>
        by_cases hd : (isSymbolChar d && !(d == '-' && ds.head? == some '>')) = true
        · rw [symbolRun, if_pos hd]
          exact ha
        · rw [symbolRun, if_neg hd]
          simp
    have := IsLexeme.symbol h hn ha'
    rwa [symbolRun_alone] at this

/-- What is behind a lexeme does not continue it. -/
theorem IsLexeme.ends {c : Char} {cs : List Char} {l : Lexeme} (h : IsLexeme c cs l)
    (hk : l.kind ≠ .comment) :
    (isWordChar c = true → ∀ d ∈ l.rest.head?, isWordChar d = false) ∧
      (l.kind = .symbol → (symbolRun l.rest).1 = []) := by
  cases h with
  | comment => exact absurd rfl hk
  | args | string | arrow | colon => exact ⟨fun hw => absurd hw (by decide), nofun⟩
  | word h =>
    refine ⟨fun _ d hd => ?_, fun hs => absurd hs (ofWord_ne (by simp) (by simp))⟩
    have := List.head?_dropWhile_not isWordChar cs
    rw [Option.mem_def.1 hd] at this
    simpa using this
  | symbol h => exact ⟨fun hw => absurd hw (by simp [h]), fun _ => symbolRun_rest cs⟩

end FlowLang
