import FlowLang.Proofs.Trivia.Bare
import FlowLang.Proofs.Writing.Piece

/-!
# Clean tokens

The bare tokens of a text hold no comments, an indentation is always followed by a token of its
line, and the tokens of a line do not continue each other.

* `Clean` : such a list of tokens.
* `clean_run` : the bare tokens of the lines of a text are clean.
-/

namespace FlowLang

open Text

/-- What the second of two tokens in a row has to be. -/
structure Token.Beside (t u : Token) : Prop where
  opens : t.kind = .indent → u.kind.isText = true
  apart : t.kind.isText = true → u.kind.isText = true → t.Apart u

/-- Tokens without comments that can be written as they are. -/
structure Clean (ts : List Token) : Prop where
  lexed : ∀ t ∈ ts, t.kind.isText = true → Lexed t.kind t.literal
  bare : ∀ t ∈ ts, t.kind ≠ .comment
  beside : ts.IsChain Token.Beside

namespace Clean

variable {t : Token} {ts : List Token}

theorem nil : Clean [] := ⟨by simp, by simp, .nil⟩

theorem tail (h : Clean (t :: ts)) : Clean ts :=
  ⟨fun u hu => h.lexed u (List.mem_cons_of_mem t hu),
    fun u hu => h.bare u (List.mem_cons_of_mem t hu), h.beside.tail⟩

theorem cons (h : Clean ts) (hl : t.kind.isText = true → Lexed t.kind t.literal)
    (hc : t.kind ≠ .comment) (hb : ∀ u ∈ ts.head?, t.Beside u) : Clean (t :: ts) :=
  ⟨List.forall_mem_cons.2 ⟨hl, h.lexed⟩, List.forall_mem_cons.2 ⟨hc, h.bare⟩, h.beside.cons hb⟩

/-- A token of the layout that opens nothing may stand before every token. -/
theorem cons_layout (h : Clean ts) (ht : t.kind = .newline ∨ t.kind = .dedent) :
    Clean (t :: ts) := by
  have hn : t.kind ≠ .indent ∧ t.kind ≠ .comment ∧ t.kind.isText = false := by
    rcases ht with ht | ht <;> simp [ht, TokenKind.isText, TokenKind.isLayout]
  obtain ⟨hi, hc, hk⟩ := hn
  refine h.cons (fun hk' => absurd hk' (by simp [hk])) hc fun u _ => ⟨fun hi' => absurd hi' hi, ?_⟩
  intro hk'
  exact absurd hk' (by simp [hk])

theorem replicate_append (h : Clean ts) (ht : t.kind = .newline ∨ t.kind = .dedent) (n : Nat) :
    Clean (List.replicate n t ++ ts) := by
  induction n with
  | zero => exact h
  | succ n ih => exact ih.cons_layout ht

/-- The tokens of a line before what follows the line. -/
theorem line {l : List Token} (h : Clean ts) (hl : ∀ t ∈ l, t.kind.isText = true)
    (hlexed : ∀ t ∈ l, Lexed t.kind t.literal) (hc : l.IsChain Token.Apart) {n : Token}
    (hn : n.kind = .newline) : Clean (l ++ n :: ts) := by
  have hn' : Clean (n :: ts) := h.cons_layout (.inl hn)
  induction l with
  | nil => exact hn'
  | cons t l ih =>
    obtain ⟨ht, hl⟩ := List.forall_mem_cons.1 hl
    obtain ⟨htl, hlexed⟩ := List.forall_mem_cons.1 hlexed
    have hne : t.kind ≠ .comment ∧ t.kind ≠ .indent := by
      constructor <;> intro hk <;> simp [hk, TokenKind.isText, TokenKind.isLayout] at ht
    refine (ih hl hlexed hc.tail).cons (fun _ => htl) hne.1 fun u hu => ⟨?_, fun _ huk => ?_⟩
    · exact fun hi => absurd hi hne.2
    · cases l with
      | nil =>
        obtain rfl : n = u := by simpa using hu
        simp [hn, TokenKind.isText, TokenKind.isLayout] at huk
      | cons v l =>
        obtain rfl : v = u := by simpa using hu
        exact List.rel_of_isChain_cons_cons hc

end Clean

/-! ### Bare tokens -/

/-- The bare tokens of a line are those before its comment. -/
theorem bareTokens_lineTokens {line column : Nat} {cs : List Char} {tokens : List Token}
    (h : lineTokens line column cs = .ok tokens) {n : Token} (hn : n.kind = .newline)
    (later : List Token) :
    ∃ texts, texts <+: tokens ∧ (∀ t ∈ texts, t.kind.isText = true) ∧
      (∀ t ∈ tokens.head?, t.kind.isText = true → texts ≠ []) ∧
      ∀ b, (b = true ∨ texts ≠ []) → bareTokens id b (tokens ++ n :: later) =
        texts ++ .mark .newline 0 0 :: bareTokens id false later := by
  induction h using lineTokens_induction with
  | nil =>
    refine ⟨[], List.nil_prefix, by simp, by simp, fun b hb => ?_⟩
    obtain rfl : b = true := by simpa using hb
    exact bareTokens_newline hn
  | gap _ _ ih => exact ih
  | @token column _ _ l _ _ hlex hlater ih =>
    obtain hk | ⟨hk, rfl⟩ := isText_or_last hlex hlater
    · obtain ⟨texts, hp, htext, -, hbare⟩ := ih
      refine ⟨l.token line column :: texts, List.cons_prefix_cons.2 ⟨rfl, hp⟩,
        List.forall_mem_cons.2 ⟨hk, htext⟩, by simp, fun b _ => ?_⟩
      rw [List.cons_append, bareTokens_text hk, hbare true (.inl rfl)]
      rfl
    · -- nothing is behind a comment
      have hk' : (l.token line column).kind.isText = false := by
        show l.kind.isText = false
        rw [hk]
        rfl
      refine ⟨[], List.nil_prefix, by simp, by simp [hk'], fun b hb => ?_⟩
      obtain rfl : b = true := by simpa using hb
      exact (bareTokens_comment hk).trans (bareTokens_newline hn)

/-- The bare tokens of a line are clean. -/
theorem clean_line {i j : Indentation} {number : Nat} {text : List Char} {ts later : List Token}
    (hi : i.Sound) (h : i.line number text = .ok (ts, j)) (ho : OneLine text)
    (hl : Clean (bareTokens id false later)) : Clean (bareTokens id false (ts ++ later)) := by
  cases hc : isContent text with
  | false =>
    rw [Indentation.line_of_trivia hc] at h
    cases h
    have htr : ∀ t ∈ Indentation.triviaTokens number text, t.kind.isTrivia = true := by
      unfold Indentation.triviaTokens
      split <;> simp [Token.mark, TokenKind.isTrivia]
    rwa [bareTokens_trivia htr]
  | true =>
    obtain ⟨i', marks, tokens, hu, ha, ht, rfl⟩ := (Indentation.line_eq_ok_iff hc).1 h
    obtain ⟨c, cs, hd, hg, hne⟩ := Indentation.takeWhile_isGap_spec hc
    obtain ⟨hchain, hlexed⟩ := lineTokens_apart ht
      (ho.mono (List.dropWhile_sublist _).subset)
    obtain ⟨texts, hp, htext, hfirst, hbare⟩ := bareTokens_lineTokens ht
      (n := .mark .newline number (text.length + 1)) rfl later
    have hsome : texts ≠ [] := by
      rw [hd] at ht
      obtain ⟨k, rest, rfl, hk, -⟩ := lineTokens_cons_spec hg hne ht
      exact hfirst k rfl hk
    have hline : Clean (texts ++ .mark .newline 0 0 :: bareTokens id false later) :=
      hl.line htext (fun t ht => hlexed t (hp.subset ht)) ( List.IsChain.prefix hchain hp) rfl
    rw [List.append_assoc, List.append_assoc, List.singleton_append]
    have hi' : i'.Sound := by rw [Indentation.Sound, Indentation.levels_checkUnit hu]; exact hi
    obtain ⟨-, -, ⟨rfl, -⟩ | ⟨closed, rfl, -⟩⟩ := Indentation.adjust_eq_ok hi' ha
    · rw [List.singleton_append, bareTokens_indent rfl, hbare false (.inr hsome)]
      refine hline.cons (fun hk => by cases hk) (fun hk => by cases hk) fun u hu =>
        ⟨fun _ => ?_, fun hk => by cases hk⟩
      cases texts with
      | nil => exact absurd rfl hsome
      | cons v texts =>
        obtain rfl : v = u := by simpa using hu
        exact htext v List.mem_cons_self
    · rw [bareTokens_dedents (by simp [Token.mark]), hbare false (.inr hsome)]
      exact hline.replicate_append (.inr rfl) _

/-- The bare tokens of the lines of a text are clean. -/
theorem clean_run {i j : Indentation} {number : Nat} {texts : List (List Char)}
    {ts later : List Token} (hi : i.Sound) (h : i.run number texts = .ok (ts, j))
    (ho : ∀ text ∈ texts, OneLine text) (hl : Clean (bareTokens id false later)) :
    Clean (bareTokens id false (ts ++ later)) := by
  induction texts generalizing i number ts with
  | nil =>
    cases h
    exact hl
  | cons text texts ih =>
    obtain ⟨tokens, i', rest, hline, hrun, rfl⟩ := Indentation.run_cons_eq_ok_iff.1 h
    obtain ⟨hi', -⟩ := Indentation.laid_line hi hline
    obtain ⟨ho, hos⟩ := List.forall_mem_cons.1 ho
    rw [List.append_assoc]
    exact clean_line hi hline ho (ih hi' hrun hos)

end FlowLang
