/-!
# Quoted and parenthesized stretches of a line

* `closeQuote` : what follows an opening quote, up to and with the closing one.  A backslash takes
  the next character with it.
* `closeParen` : what follows an opening parenthesis, up to the closing one that balances it.
  Quoted stretches are passed over whole.

Both return the stretch and the characters after it, and nothing if the line ends first.
-/

namespace FlowLang

namespace Enclosure

/-- The characters up to and with the first quote that no backslash precedes, and the rest. -/
def closeQuote : List Char → Option (List Char × List Char)
  | [] => none
  | ['\\'] => none
  | '\\' :: c :: cs => (closeQuote cs).map fun r => ('\\' :: c :: r.1, r.2)
  | '"' :: cs => some (['"'], cs)
  | c :: cs => (closeQuote cs).map fun r => (c :: r.1, r.2)

theorem closeQuote_append {cs text rest : List Char} (h : closeQuote cs = some (text, rest)) :
    text ++ rest = cs := by
  fun_induction closeQuote cs generalizing text with
  | case1 => simp at h
  | case2 => simp at h
  | case3 c cs ih =>
    obtain ⟨⟨t, r⟩, ht, he⟩ := Option.map_eq_some_iff.1 h
    cases he
    simp [ih ht]
  | case4 cs =>
    cases h
    rfl
  | case5 c cs _ _ _ ih =>
    obtain ⟨⟨t, r⟩, ht, he⟩ := Option.map_eq_some_iff.1 h
    cases he
    simp [ih ht]

theorem length_of_closeQuote {cs text rest : List Char} (h : closeQuote cs = some (text, rest)) :
    rest.length ≤ cs.length := by
  rw [← closeQuote_append h]
  simp

/-- The characters up to the parenthesis that closes the outermost of `depth + 1` open ones, and
the rest after it. -/
def closeParen (depth : Nat) : List Char → Option (List Char × List Char)
  | [] => none
  | '(' :: cs => (closeParen (depth + 1) cs).map fun r => ('(' :: r.1, r.2)
  | ')' :: cs =>
    match depth with
    | 0 => some ([], cs)
    | d + 1 => (closeParen d cs).map fun r => (')' :: r.1, r.2)
  | '"' :: cs =>
    match h : closeQuote cs with
    | none => none
    | some (text, rest) =>
      have := length_of_closeQuote h
      (closeParen depth rest).map fun r => ('"' :: text ++ r.1, r.2)
  | c :: cs => (closeParen depth cs).map fun r => (c :: r.1, r.2)
termination_by cs => cs.length

theorem closeParen_append {depth : Nat} {cs text rest : List Char}
    (h : closeParen depth cs = some (text, rest)) : text ++ ')' :: rest = cs := by
  fun_induction closeParen depth cs generalizing text with
  | case1 => simp at h
  | case2 _ cs ih =>
    obtain ⟨⟨t, r⟩, ht, he⟩ := Option.map_eq_some_iff.1 h
    cases he
    simp [ih ht]
  | case3 cs =>
    cases h
    rfl
  | case4 cs d ih =>
    obtain ⟨⟨t, r⟩, ht, he⟩ := Option.map_eq_some_iff.1 h
    cases he
    simp [ih ht]
  | case5 => simp at h
  | case6 _ cs q after hq _ ih =>
    obtain ⟨⟨t, r⟩, ht, he⟩ := Option.map_eq_some_iff.1 h
    cases he
    simp [ih ht, closeQuote_append hq]
  | case7 _ c cs _ _ _ ih =>
    obtain ⟨⟨t, r⟩, ht, he⟩ := Option.map_eq_some_iff.1 h
    cases he
    simp [ih ht]

end Enclosure

end FlowLang
