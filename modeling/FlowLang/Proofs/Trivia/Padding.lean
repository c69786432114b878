import FlowLang.Proofs.Token.Lexeme
import FlowLang.Proofs.Trivia.Bare

/-!
# Texts with more comments and blank lines

A text can be padded with lines that have no content, and with comments behind lines that have
some.  The padded text has the same bare tokens, under other line numbers.

* `Padded` : the lines of a text and those of a padded one, with the new numbers of the lines.
* `Padded.run` : the tokens of both.
-/

namespace FlowLang

open Text

/-! ### Padding -/

/-- The line with a note at its end, before the carriage return that may end it. -/
def withNote (line note : List Char) : List Char :=
  dropReturn line ++ note ++ line.drop (dropReturn line).length

/-- The lines `b` are the lines `a` with comments at their ends and lines without content between
them.  The first of them have the numbers `m` and `n`, and `g` gives the new number of a line. -/
inductive Padded (g : Nat → Nat) : Nat → Nat → List (List Char) → List (List Char) → Prop
  | done {m n} : Padded g m n [] []
  | same {m n line a b} :
    g m = n → Padded g (m + 1) (n + 1) a b → Padded g m n (line :: a) (line :: b)
  | note {m n line gap text a b} :
    isContent (dropReturn line) = true → (∀ c ∈ gap, isGap c = true) →
    g m = n → Padded g (m + 1) (n + 1) a b →
    Padded g m n (line :: a) (withNote line (gap ++ '#' :: text) :: b)
  | trivia {m n line a b} :
    isContent (dropReturn line) = false → Padded g m (n + 1) a b → Padded g m n a (line :: b)

/-- The note is at the end of what counts of the line. -/
theorem dropReturn_withNote (line gap text : List Char) :
    ∃ text', dropReturn (withNote line (gap ++ '#' :: text)) =
      dropReturn line ++ (gap ++ '#' :: text') := by
  by_cases h : line.getLast? = some '\r'
  · obtain ⟨front, rfl⟩ := List.getLast?_eq_some_iff.1 h
    refine ⟨text, ?_⟩
    have hd : dropReturn (front ++ ['\r']) = front := by simp [dropReturn]
    rw [withNote, hd, List.drop_left, dropReturn, if_pos List.getLast?_concat, List.dropLast_concat]
  · have hd : dropReturn line = line := by rw [dropReturn, if_neg h]
    rw [withNote, hd, List.drop_length, List.append_nil]
    by_cases ht : text.getLast? = some '\r'
    · obtain ⟨front, rfl⟩ := List.getLast?_eq_some_iff.1 ht
      refine ⟨front, ?_⟩
      have he : line ++ (gap ++ '#' :: (front ++ ['\r'])) =
          line ++ (gap ++ '#' :: front) ++ ['\r'] := by simp
      rw [he, dropReturn, if_pos List.getLast?_concat, List.dropLast_concat]
    · refine ⟨text, ?_⟩
      rw [dropReturn, if_neg]
      cases text with
      | nil => simp
      | cons c cs => simpa using ht

/-! ### Tokens of a line with a note -/

/-- The tokens leave the same bare tokens, whatever is behind them. -/
def SameBare (ts us : List Token) : Prop :=
  ∀ g b later, bareTokens g b (us ++ later) = bareTokens g b (ts ++ later)

theorem SameBare.cons {ts us : List Token} (h : SameBare ts us) (t : Token) :
    SameBare (t :: ts) (t :: us) := fun g b later => by
  simp only [List.cons_append, bareTokens, h g]

theorem lineTokens_note (line column : Nat) {gap : List Char} (text : List Char)
    (h : ∀ c ∈ gap, isGap c = true) :
    ∃ t, lineTokens line column (gap ++ '#' :: text) = .ok [t] ∧ t.kind = .comment := by
  induction gap generalizing column with
  | nil =>
    refine ⟨Lexeme.token ⟨.comment, text, []⟩ line column, ?_, rfl⟩
    rw [List.nil_append]
    exact (lineTokens_eq_ok_iff (by decide)).2
      ⟨_, [], IsLexeme.comment.lexeme_eq, by rw [lineTokens], rfl⟩
  | cons c gap ih =>
    obtain ⟨hc, h⟩ := List.forall_mem_cons.1 h
    rw [List.cons_append, lineTokens_gap hc]
    exact ih _ h

/-- A note continues no word and no symbol. -/
theorem note_ends {gap : List Char} (text : List Char) (h : ∀ c ∈ gap, isGap c = true) :
    (∀ d ∈ (gap ++ '#' :: text).head?, isWordChar d = false) ∧
      (symbolRun (gap ++ '#' :: text)).1 = [] := by
  cases gap with
  | nil =>
    have hs : isSymbolChar '#' = false := by decide
    have hw : isWordChar '#' = false := by decide
    simp [symbolRun, hs, hw]
  | cons c gap =>
    have hc := h c List.mem_cons_self
    simp [symbolRun, isSymbolChar_of_isGap hc, isWordChar_of_isGap hc]

theorem lineTokens_append_note {line column : Nat} {cs gap : List Char} {ts : List Token}
    (text : List Char) (h : lineTokens line column cs = .ok ts) (hg : ∀ c ∈ gap, isGap c = true) :
    ∃ us, lineTokens line column (cs ++ (gap ++ '#' :: text)) = .ok us ∧ SameBare ts us := by
  induction h using lineTokens_induction with
  | @nil column =>
    obtain ⟨t, ht, hk⟩ := lineTokens_note line column text hg
    exact ⟨[t], ht, fun g b later => bareTokens_comment hk⟩
  | gap hc _ ih =>
    rw [List.cons_append, lineTokens_gap hc]
    exact ih
  | @token column c cs l rest hc hlex hrest ih =>
    have hl := isLexeme_of_lexeme hlex
    by_cases hk : l.kind = .comment
    · -- the note becomes part of the comment
      cases hl with
      | comment =>
        rw [lineTokens] at hrest
        cases hrest
        refine ⟨_, (lineTokens_eq_ok_iff hc).2
          ⟨_, [], IsLexeme.comment.lexeme_eq, by rw [lineTokens], rfl⟩, fun g b later => ?_⟩
        exact (bareTokens_comment rfl).trans (bareTokens_comment rfl).symm
      | word => exact absurd hk (ofWord_ne (by simp) (by simp))
      | args | string | arrow | colon | symbol => cases hk
    · obtain ⟨hw, hs⟩ := note_ends text hg
      obtain ⟨us, hus, hsame⟩ := ih
      exact ⟨_, (lineTokens_eq_ok_iff hc).2
        ⟨_, us, (hl.append hk (fun _ => hw) fun _ => hs).lexeme_eq, hus, rfl⟩, hsame.cons _⟩

theorem SameBare.append_left {ts us : List Token} (h : SameBare ts us) (l : List Token) :
    SameBare (l ++ ts) (l ++ us) := by
  induction l with
  | nil => exact h
  | cons t l ih => exact ih.cons t

/-! ### Tokens of padded lines -/

/-- A line under another number, and what is behind it. -/
theorem bareTokens_line {g : Nat → Nat} {t t' : Token} (ht : t.kind = .newline)
    (ht' : t'.kind = .newline) {ts us : List Token}
    (h : bareTokens id false us = bareTokens g false ts) (b : Bool) (l : List Token) :
    bareTokens id b (l.map (Token.relocate (Position.renumber g)) ++ t' :: us) =
      bareTokens g b (l ++ t :: ts) := by
  induction l generalizing b with
  | nil =>
    cases b with
    | true => exact (bareTokens_newline ht').trans (h ▸ (bareTokens_newline ht).symm)
    | false => exact (bareTokens_blank ht').trans (h ▸ (bareTokens_blank ht).symm)
  | cons u l ih =>
    have hu : (u.relocate (Position.renumber g)).bare id = u.bare g := by
      unfold Token.bare
      rw [Token.kind_relocate]
      split <;> rfl
    simp only [List.map_cons, List.cons_append, bareTokens, Token.kind_relocate, hu, ih]

theorem exists_newline_of_line {i j : Indentation} {number : Nat} {text : List Char}
    {ts : List Token} (h : i.line number text = .ok (ts, j)) :
    ∃ l t, ts = l ++ [t] ∧ t.kind = .newline := by
  cases hc : isContent text with
  | false =>
    rw [Indentation.line_of_trivia hc] at h
    cases h
    unfold Indentation.triviaTokens
    split
    · exact ⟨[], _, rfl, rfl⟩
    · exact ⟨[_], _, rfl, rfl⟩
  | true =>
    obtain ⟨_, marks, tokens, -, -, -, rfl⟩ := (Indentation.line_eq_ok_iff hc).1 h
    exact ⟨marks ++ tokens, _, by rw [List.append_assoc], rfl⟩

/-- The gap before a line does not change with what is added behind its content. -/
theorem gap_append {text : List Char} (h : isContent text = true) (more : List Char) :
    (text ++ more).takeWhile isGap = text.takeWhile isGap ∧
      (text ++ more).dropWhile isGap = text.dropWhile isGap ++ more ∧
      isContent (text ++ more) = true := by
  have hd : ∀ l : List Char, (∀ c ∈ l, isGap c = true) →
      (l ++ text.dropWhile isGap ++ more).takeWhile isGap = l ∧
        (l ++ text.dropWhile isGap ++ more).dropWhile isGap = text.dropWhile isGap ++ more := by
    intro l hl
    obtain ⟨c, cs, hd, hg, -⟩ := Indentation.takeWhile_isGap_spec h
    rw [hd, List.append_assoc, List.takeWhile_append_of_pos hl, List.dropWhile_append_of_pos hl]
    simp [hg]
  have ht := hd (text.takeWhile isGap) fun c hc => (List.all_eq_true.1 List.all_takeWhile) c hc
  rw [List.takeWhile_append_dropWhile] at ht
  refine ⟨ht.1, ht.2, ?_⟩
  unfold isContent at h ⊢
  rw [ht.2]
  cases hx : text.dropWhile isGap with
  | nil => rw [hx] at h; cases h
  | cons c cs => rw [hx] at h; exact h

theorem line_note {i j : Indentation} {number : Nat} {line gap : List Char} {ts : List Token}
    (text : List Char) (hc : isContent line = true) (hg : ∀ c ∈ gap, isGap c = true)
    (h : i.line number line = .ok (ts, j)) :
    ∃ l us t u, i.line number (line ++ (gap ++ '#' :: text)) = .ok (us ++ [u], j) ∧
      ts = l ++ [t] ∧ SameBare l us ∧ t.kind = .newline ∧ u.kind = .newline := by
  obtain ⟨i', marks, tokens, hu, ha, ht, rfl⟩ := (Indentation.line_eq_ok_iff hc).1 h
  obtain ⟨htake, hdrop, hc'⟩ := gap_append hc (gap ++ '#' :: text)
  obtain ⟨us, hus, hsame⟩ := lineTokens_append_note text ht hg
  refine ⟨marks ++ tokens, marks ++ us, .mark .newline number (line.length + 1),
    .mark .newline number ((line ++ (gap ++ '#' :: text)).length + 1), ?_,
    by rw [List.append_assoc], hsame.append_left marks, rfl, rfl⟩
  exact (Indentation.line_eq_ok_iff hc').2
    ⟨i', marks, us, by rwa [htake], by rwa [htake], by rwa [htake, hdrop], by rw [List.append_assoc]⟩

/-- A padded text has the same bare tokens, under the new numbers of the lines. -/
theorem Padded.run {g : Nat → Nat} {m n : Nat} {a b : List (List Char)} (h : Padded g m n a b)
    {i j : Indentation} {ts : List Token} (hr : i.run m (a.map dropReturn) = .ok (ts, j)) :
    ∃ us, i.run n (b.map dropReturn) = .ok (us, j) ∧
      ∀ later later', bareTokens id false later' = bareTokens g false later →
        bareTokens id false (us ++ later') = bareTokens g false (ts ++ later) := by
  induction h generalizing i ts with
  | done =>
    cases hr
    exact ⟨[], rfl, fun _ _ h => h⟩
  | same hm _ ih =>
    obtain ⟨tokens, i', rest, hline, hrest, rfl⟩ := Indentation.run_cons_eq_ok_iff.1 hr
    obtain ⟨us, hus, hbare⟩ := ih hrest
    have hline' := Indentation.line_renumber g hline
    rw [hm] at hline'
    refine ⟨_, Indentation.run_cons_eq_ok_iff.2 ⟨_, i', us, hline', hus, rfl⟩,
      fun later later' hl => ?_⟩
    obtain ⟨l, t, rfl, ht⟩ := exists_newline_of_line hline
    simp only [List.map_append, List.map_cons, List.map_nil, List.append_assoc, List.cons_append,
      List.nil_append]
    exact bareTokens_line ht (Token.kind_relocate.trans ht) (hbare later later' hl) false l
  | @note _ _ line gap text a b hc hg hm _ ih =>
    obtain ⟨tokens, i', rest, hline, hrest, rfl⟩ := Indentation.run_cons_eq_ok_iff.1 hr
    obtain ⟨us, hus, hbare⟩ := ih hrest
    have hline' := Indentation.line_renumber g hline
    rw [hm] at hline'
    obtain ⟨text', hnote⟩ := dropReturn_withNote line gap text
    obtain ⟨l', vs, t', u, hline', he, hsame, -, hu⟩ := line_note text' hc hg hline'
    rw [← hnote] at hline'
    refine ⟨_, Indentation.run_cons_eq_ok_iff.2 ⟨_, i', us, hline', hus, rfl⟩,
      fun later later' hl => ?_⟩
    obtain ⟨l, t, rfl, ht⟩ := exists_newline_of_line hline
    rw [List.map_append] at he
    obtain ⟨rfl, -⟩ := List.append_inj' he rfl
    simp only [List.append_assoc, List.cons_append, List.nil_append]
    rw [hsame id false]
    exact bareTokens_line ht hu (hbare later later' hl) false l
  | @trivia m n line a b hc _ ih =>
    obtain ⟨us, hus, hbare⟩ := ih hr
    refine ⟨_, Indentation.run_cons_eq_ok_iff.2
      ⟨_, i, us, Indentation.line_of_trivia hc i n, hus, rfl⟩, fun later later' hl => ?_⟩
    have htr : ∀ t ∈ Indentation.triviaTokens n (dropReturn line), t.kind.isTrivia = true := by
      unfold Indentation.triviaTokens
      split <;> simp [Token.mark, TokenKind.isTrivia]
    rw [List.append_assoc, bareTokens_trivia htr]
    exact hbare later later' hl

end FlowLang
