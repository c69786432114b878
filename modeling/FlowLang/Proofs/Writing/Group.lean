import FlowLang.Proofs.Writing.Basic
import FlowLang.Proofs.Writing.Piece
import FlowLang.Reading.Call

/-!
# Texts in parentheses

A text can be written in parentheses if its own parentheses and quotes are balanced.  This is so
for every text that a program keeps in parentheses, and for names and strings.

* `Depth`, `Depth.walk` : the parentheses and quotes that are open behind some characters.
* `closeParen_eq_some_iff` : a text can be closed if nothing is open behind it.
* `lexed_args_iff`, `Lexed.group_ident`, `Lexed.group_string` : texts that can be written in
  parentheses.
* `lexed_keyword` : keywords are words.
-/

namespace FlowLang

open Text

/-! ### Balanced texts -/

/-- What is open at a place of a text. -/
inductive Depth where
  /-- So many parentheses. -/
  | inside (n : Nat)
  /-- A quote inside so many parentheses. -/
  | quoted (n : Nat)
  /-- The same, right behind a backslash. -/
  | escaped (n : Nat)
deriving DecidableEq, Repr

namespace Depth

/-- What is open behind a closing parenthesis. -/
def close : Nat → Option Depth
  | 0 => none
  | n + 1 => some (inside n)

/-- What is open behind one more character, unless that closes what has not been opened. -/
def step : Depth → Char → Option Depth
  | inside n, c =>
    if c = '(' then some (inside (n + 1))
    else if c = ')' then close n
    else if c = '"' then some (quoted n)
    else some (inside n)
  | quoted n, c =>
    if c = '\\' then some (escaped n) else if c = '"' then some (inside n) else some (quoted n)
  | escaped n, _ => some (quoted n)

/-- What is open behind some characters. -/
def walk (d : Depth) : List Char → Option Depth
  | [] => some d
  | c :: cs => (d.step c).bind fun e => e.walk cs

theorem walk_append (d : Depth) (cs ds : List Char) :
    d.walk (cs ++ ds) = (d.walk cs).bind fun e => e.walk ds := by
  induction cs generalizing d with
  | nil => rfl
  | cons c cs ih =>
    rw [List.cons_append, walk, walk, Option.bind_assoc]
    congr 1
    funext e
    exact ih e

/-- A character that neither opens nor closes anything. -/
def Neutral (c : Char) : Prop := c ≠ '(' ∧ c ≠ ')' ∧ c ≠ '"'

theorem walk_neutral {n : Nat} {cs : List Char} (h : ∀ c ∈ cs, Neutral c) :
    (inside n).walk cs = some (inside n) := by
  induction cs with
  | nil => rfl
  | cons c cs ih =>
    obtain ⟨⟨ho, hc, hq⟩, h⟩ := List.forall_mem_cons.1 h
    rw [walk, step, if_neg ho, if_neg hc, if_neg hq]
    exact ih h

theorem walk_ne_inside {n m : Nat} {d : Depth} {cs : List Char}
    (hd : d = quoted n ∨ d = escaped n) (h : ∀ c ∈ cs, Neutral c) :
    d.walk cs ≠ some (inside m) := by
  induction cs generalizing d with
  | nil => rcases hd with rfl | rfl <;> simp [walk]
  | cons c cs ih =>
    obtain ⟨⟨-, -, hq⟩, h⟩ := List.forall_mem_cons.1 h
    rw [walk]
    rcases hd with rfl | rfl
    · by_cases hb : c = '\\'
      · rw [step, if_pos hb]
        exact ih (.inr rfl) h
      · rw [step, if_neg hb, if_neg hq]
        exact ih (.inl rfl) h
    · exact ih (.inl rfl) h

theorem walk_closeQuote {n : Nat} {cs text rest : List Char}
    (h : Enclosure.closeQuote cs = some (text, rest)) :
    (quoted n).walk text = some (inside n) := by
  fun_induction Enclosure.closeQuote cs generalizing text with
  | case1 => simp at h
  | case2 => simp at h
  | case3 c cs ih =>
    obtain ⟨⟨t, r⟩, ht, he⟩ := Option.map_eq_some_iff.1 h
    cases he
    show (quoted n).walk t = some (inside n)
    exact ih ht
  | case4 cs =>
    cases h
    rfl
  | case5 c cs hb he hq ih =>
    obtain ⟨⟨t, r⟩, ht, he'⟩ := Option.map_eq_some_iff.1 h
    cases he'
    have hc := Enclosure.ne_backslash hb he
    rw [walk, step, if_neg hc, if_neg hq]
    exact ih ht

theorem walk_closeParen {n : Nat} {cs text rest : List Char}
    (h : Enclosure.closeParen n cs = some (text, rest)) :
    (inside n).walk text = some (inside 0) := by
  fun_induction Enclosure.closeParen n cs generalizing text with
  | case1 => simp at h
  | case2 n cs ih =>
    obtain ⟨⟨t, r⟩, ht, he⟩ := Option.map_eq_some_iff.1 h
    cases he
    show (inside (n + 1)).walk t = some (inside 0)
    exact ih ht
  | case3 cs =>
    cases h
    rfl
  | case4 cs d ih =>
    obtain ⟨⟨t, r⟩, ht, he⟩ := Option.map_eq_some_iff.1 h
    cases he
    show (inside d).walk t = some (inside 0)
    exact ih ht
  | case5 => simp at h
  | case6 _ cs q after hq _ ih =>
    obtain ⟨⟨t, r⟩, ht, he⟩ := Option.map_eq_some_iff.1 h
    cases he
    rw [List.cons_append, walk, step, if_neg (by decide), if_neg (by decide), if_pos rfl,
      Option.bind_some, walk_append, walk_closeQuote hq]
    exact ih ht
  | case7 _ c cs ho hc hq ih =>
    obtain ⟨⟨t, r⟩, ht, he⟩ := Option.map_eq_some_iff.1 h
    cases he
    rw [walk, step, if_neg ho, if_neg hc, if_neg hq]
    exact ih ht

/-- An open quote is closed somewhere. -/
theorem exists_closeQuote {n : Nat} {cs : List Char} (h : (quoted n).walk cs = some (inside 0)) :
    ∃ text rest, cs = text ++ rest ∧ Enclosure.closeQuote text = some (text, []) ∧
      rest.length < cs.length ∧ (inside n).walk rest = some (inside 0) := by
  fun_induction Enclosure.closeQuote cs with
  | case1 => cases h
  | case2 => cases h
  | case3 c cs ih =>
    obtain ⟨text, rest, rfl, hq, hlt, hr⟩ := ih h
    refine ⟨'\\' :: c :: text, rest, rfl, ?_, Nat.lt_succ_of_lt (Nat.lt_succ_of_lt hlt), hr⟩
    simp [Enclosure.closeQuote, hq]
  | case4 cs => exact ⟨['"'], cs, rfl, rfl, by simp, h⟩
  | case5 c cs hb he hq ih =>
    have hc := Enclosure.ne_backslash hb he
    rw [walk, step, if_neg hc, if_neg hq] at h
    obtain ⟨text, rest, rfl, hq', hlt, hr⟩ := ih h
    refine ⟨c :: text, rest, rfl, ?_, Nat.lt_succ_of_lt hlt, hr⟩
    rw [Enclosure.closeQuote_cons hc hq, hq']
    rfl

theorem closeParen_of_walk {n : Nat} {text : List Char} (h : (inside n).walk text = some (inside 0))
    (rest : List Char) : Enclosure.closeParen n (text ++ ')' :: rest) = some (text, rest) := by
  induction hl : text.length using Nat.strongRecOn generalizing n text with
  | ind k ih =>
    cases text with
    | nil =>
      cases h
      rw [List.nil_append, Enclosure.closeParen]
    | cons c cs =>
      subst hl
      rw [walk, step] at h
      by_cases ho : c = '('
      · subst ho
        rw [if_pos rfl] at h
        rw [List.cons_append, Enclosure.closeParen, ih cs.length (by simp) h rfl]
        rfl
      by_cases hc : c = ')'
      · subst hc
        cases n with
        | zero => cases h
        | succ n =>
          rw [if_neg ho, if_pos rfl] at h
          rw [List.cons_append, Enclosure.closeParen, ih cs.length (by simp) h rfl]
          rfl
      by_cases hq : c = '"'
      · subst hq
        rw [if_neg ho, if_neg hc, if_pos rfl] at h
        obtain ⟨text, tail, rfl, hq', hlt, hr⟩ := exists_closeQuote h
        rw [List.cons_append, List.append_assoc,
          Enclosure.closeParen_quote (Enclosure.closeQuote_append_right hq' _), List.nil_append,
          ih tail.length (Nat.lt_succ_of_lt hlt) hr rfl]
        rfl
      · rw [if_neg ho, if_neg hc, if_neg hq] at h
        rw [List.cons_append, Enclosure.closeParen_cons ho hc hq, ih cs.length (by simp) h rfl]
        rfl

end Depth

/-- The text can be written in parentheses. -/
def Balanced (cs : List Char) : Prop := (Depth.inside 0).walk cs = some (.inside 0)

/-- A text can be closed if nothing is open behind it. -/
theorem closeParen_eq_some_iff {cs text rest : List Char} :
    Enclosure.closeParen 0 cs = some (text, rest) ↔ Balanced text ∧ cs = text ++ ')' :: rest := by
  constructor
  · intro h
    exact ⟨Depth.walk_closeParen h, (Enclosure.closeParen_append h).symm⟩
  · rintro ⟨hb, rfl⟩
    exact Depth.closeParen_of_walk hb rest

theorem Balanced.of_neutral {cs : List Char} (h : ∀ c ∈ cs, Depth.Neutral c) : Balanced cs :=
  Depth.walk_neutral h

theorem Balanced.append {cs ds : List Char} (h : Balanced cs) (h' : Balanced ds) :
    Balanced (cs ++ ds) := by
  rw [Balanced, Depth.walk_append, h]
  exact h'

/-- What is left of a balanced text without neutral characters at its start. -/
theorem Balanced.of_append_left {cs ds : List Char} (h : Balanced (cs ++ ds))
    (hc : ∀ c ∈ cs, Depth.Neutral c) : Balanced ds := by
  rw [Balanced, Depth.walk_append, Depth.walk_neutral hc] at h
  exact h

/-- What is left of a balanced text without neutral characters at its end. -/
theorem Balanced.of_append_right {cs ds : List Char} (h : Balanced (cs ++ ds))
    (hd : ∀ c ∈ ds, Depth.Neutral c) : Balanced cs := by
  rw [Balanced, Depth.walk_append] at h
  obtain ⟨e, hcs, he⟩ := Option.bind_eq_some_iff.1 h
  cases e with
  | inside n =>
    rw [Depth.walk_neutral hd] at he
    exact hcs.trans he
  | quoted n => exact absurd he (Depth.walk_ne_inside (.inl rfl) hd)
  | escaped n => exact absurd he (Depth.walk_ne_inside (.inr rfl) hd)

/-! ### Tokens -/

theorem lexed_args_iff {s : String} :
    Lexed .args s ↔ Balanced s.toList ∧ OneLine s.toList := by
  constructor
  · rintro ⟨⟨c, cs, hg, hl⟩, ho⟩
    obtain ⟨rfl, hc⟩ := hl.eq_args rfl
    exact ⟨Depth.walk_closeParen hc, ho⟩
  · rintro ⟨hb, ho⟩
    exact ⟨⟨'(', _, rfl, .args (Depth.closeParen_of_walk hb [])⟩, ho⟩

theorem neutral_of_isWordChar {c : Char} (h : isWordChar c = true) : Depth.Neutral c := by
  refine ⟨?_, ?_, ?_⟩ <;> rintro rfl <;> exact absurd h (by decide)

/-- A name in parentheses. -/
theorem Lexed.group_ident {s : String} (h : Lexed .ident s) : Lexed .args s := by
  obtain ⟨c, cs, hg, hl⟩ := h.alone
  refine lexed_args_iff.2 ⟨.of_neutral fun d hd => ?_, h.oneLine⟩
  exact neutral_of_isWordChar ((hl.eq_word rfl).2 d hd)

/-- A string in parentheses. -/
theorem Lexed.group_string {s : String} (h : Lexed .string s) : Lexed .args s := by
  obtain ⟨c, cs, hg, hl⟩ := h.alone
  obtain ⟨text, hs, hq⟩ := hl.eq_string rfl
  refine lexed_args_iff.2 ⟨?_, h.oneLine⟩
  rw [show s.toList = '"' :: text from hs]
  exact Depth.walk_closeQuote hq

/-- A word by itself. -/
theorem lexed_word {s : String} (hne : s.toList ≠ []) (hw : ∀ c ∈ s.toList, isWordChar c = true) :
    Lexed (.ofWord s) s := by
  have ho : OneLine s.toList :=
    ⟨fun hn => absurd (hw _ hn) (by decide), fun hr => absurd (hw _ hr) (by decide)⟩
  refine ⟨?_, ho⟩
  obtain ⟨c, cs, hs⟩ := List.exists_cons_of_ne_nil hne
  rw [hs] at hw
  obtain ⟨hc, hcs⟩ := List.forall_mem_cons.1 hw
  have hg : isGap c = false := by
    cases hg : isGap c with
    | false => rfl
    | true => exact absurd hc (by simp [isWordChar_of_isGap hg])
  have ht := @List.takeWhile_append_of_pos _ isWordChar _ [] hcs
  have hd := @List.dropWhile_append_of_pos _ isWordChar _ [] hcs
  rw [List.append_nil] at ht hd
  have hl : IsLexeme c cs _ := .word hc
  rw [ht, hd, List.takeWhile_nil, List.append_nil, List.dropWhile_nil, ← hs,
    String.ofList_toList] at hl
  exact ⟨c, cs, hg, hl⟩

theorem lexed_keyword (k : Keyword) : Lexed (.keyword k) k.text := by
  have hw : k.text.toList ≠ [] ∧ k.text.toList.all isWordChar = true := by
    cases k <;> decide
  have h := lexed_word hw.1 (List.all_eq_true.1 hw.2)
  rwa [TokenKind.ofWord, Keyword.ofText?_text] at h

theorem lexed_arrow : Lexed .arrow "->" := ⟨⟨'-', ['>'], rfl, .arrow⟩, by decide, by decide⟩

theorem lexed_colon : Lexed .colon ":" := ⟨⟨':', [], rfl, .colon⟩, by decide, by decide⟩

theorem getLast?_closeQuote {cs text rest : List Char}
    (h : Enclosure.closeQuote cs = some (text, rest)) : text.getLast? = some '"' := by
  fun_induction Enclosure.closeQuote cs generalizing text with
  | case1 => simp at h
  | case2 => simp at h
  | case3 c cs ih =>
    obtain ⟨⟨t, r⟩, ht, he⟩ := Option.map_eq_some_iff.1 h
    cases he
    simp [List.getLast?_cons, ih ht]
  | case4 cs =>
    cases h
    rfl
  | case5 c cs _ _ _ ih =>
    obtain ⟨⟨t, r⟩, ht, he⟩ := Option.map_eq_some_iff.1 h
    cases he
    simp [List.getLast?_cons, ih ht]

theorem unquote_quote (s : String) : Reader.unquote (Written.quote s) = s := by
  simp [Reader.unquote, Written.quote]

/-- A string has quotes around it. -/
theorem Lexed.quote_unquote {s : String} (h : Lexed .string s) :
    Written.quote (Reader.unquote s) = s := by
  obtain ⟨c, cs, hg, hl⟩ := h.alone
  obtain ⟨text, hs, hq⟩ := hl.eq_string rfl
  have hs' : s.toList = '"' :: text := hs
  have hlast := getLast?_closeQuote hq
  obtain ⟨front, rfl⟩ := List.getLast?_eq_some_iff.1 hlast
  rw [Written.quote, Reader.unquote, hs']
  simp only [List.getLast?_concat, if_true, List.dropLast_concat]
  rw [← String.toList_inj, hs']
  simp

end FlowLang
