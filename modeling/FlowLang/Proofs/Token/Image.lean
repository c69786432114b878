import FlowLang.Proofs.Recovery.Flush
import FlowLang.Proofs.Token.Words

/-!
# Tokens as an image of their line

A token says where it stands and how wide it is, so the tokens of a line can be compared with its
characters: each has its own characters under it, and between them there are only gaps.

* `Depicts` : some tokens and the characters that they stand for.
* `Depicts.skip`, `Depicts.cons` : one more gap, one more token.
* `depicts_lineTokens` : the tokens of a line depict it.
* `Indentation.line_eq` : every line is its marks, its own tokens and its end.
* `tokensOn`, `tokensOn_of_tokenize` : the tokens of a source with a given line number are those of
  the line.
-/

namespace FlowLang

/-- The tokens stand for these characters, the first of which is in this column. -/
structure Depicts (column : Nat) (tokens : List Token) (text : List Char) : Prop where
  /-- No token starts before the one before it ends. -/
  ordered : tokens.Pairwise fun t u => t.endColumn ≤ u.position.column
  /-- Every token has a character, and the tokens stay inside the text. -/
  inside : ∀ t ∈ tokens, column ≤ t.position.column ∧ t.position.column < t.endColumn ∧
    t.endColumn ≤ column + text.length
  /-- The characters under a token are its own. -/
  written : ∀ t ∈ tokens,
    (text.drop (t.position.column - column)).take t.width = t.sourceText.toList
  /-- All other characters are spaces and tabs. -/
  gaps : ∀ k c, text[k]? = some c →
    (∀ t ∈ tokens, ¬ (t.position.column ≤ column + k ∧ column + k < t.endColumn)) →
    c = ' ' ∨ c = '\t'

namespace Depicts

variable {column : Nat} {tokens : List Token} {text : List Char}

theorem nil (column : Nat) : Depicts column [] [] :=
  ⟨List.Pairwise.nil, by simp, by simp, by simp⟩

/-- A gap in front of the tokens. -/
theorem skip {c : Char} (hc : Text.isGap c = true) (h : Depicts (column + 1) tokens text) :
    Depicts column tokens (c :: text) where
  ordered := h.ordered
  inside := by
    intro t ht
    have := h.inside t ht
    rw [List.length_cons]
    omega
  written := by
    intro t ht
    have hle := (h.inside t ht).1
    rw [← h.written t ht, show t.position.column - column = t.position.column - (column + 1) + 1 by
      omega, List.drop_succ_cons]
  gaps := by
    intro k d hd hout
    cases k with
    | zero =>
      cases hd
      simpa [Text.isGap] using hc
    | succ k =>
      refine h.gaps k d (by simpa using hd) fun t ht => ?_
      rw [Nat.add_right_comm, Nat.add_assoc]
      exact hout t ht

/-- A token in front of the others, with its characters. -/
theorem cons {t : Token} (ht : t.kind.isLayout = false) (hcol : t.position.column = column)
    (hpos : 0 < t.width) (h : Depicts t.endColumn tokens text) :
    Depicts column (t :: tokens) (t.sourceText.toList ++ text) := by
  have hlen : t.sourceText.toList.length = t.width := by
    rw [String.length_toList, Token.length_sourceText ht]
  have hend : t.endColumn = column + t.width := by rw [Token.endColumn, hcol]
  refine ⟨List.pairwise_cons.2 ⟨fun u hu => (h.inside u hu).1, h.ordered⟩, ?_, ?_, ?_⟩
  · intro u hu
    rw [List.length_append, hlen]
    rcases List.mem_cons.1 hu with rfl | hu
    · omega
    · have := h.inside u hu
      omega
  · intro u hu
    rcases List.mem_cons.1 hu with rfl | hu
    · rw [hcol, Nat.sub_self, List.drop_zero, ← hlen, List.take_left]
    · have hle := (h.inside u hu).1
      rw [← h.written u hu, show u.position.column - column =
        t.sourceText.toList.length + (u.position.column - t.endColumn) by omega,
        List.drop_length_add_append]
  · intro k d hd hout
    by_cases hk : k < t.width
    · -- the character is one of the token
      exact absurd ⟨by omega, by omega⟩ (hout t List.mem_cons_self)
    · rw [List.getElem?_append_right (by omega), hlen] at hd
      refine h.gaps (k - t.width) d hd fun u hu => ?_
      have := hout u (List.mem_cons_of_mem t hu)
      rwa [show t.endColumn + (k - t.width) = column + k by omega]

end Depicts

/-- The tokens of a line depict it. -/
theorem depicts_lineTokens {line column : Nat} {text : List Char} {tokens : List Token}
    (h : lineTokens line column text = .ok tokens) : Depicts column tokens text := by
  induction h using lineTokens_induction with
  | nil => exact .nil _
  | gap hg _ ih => exact ih.skip hg
  | @token column _ _ l _ _ hlex _ ih =>
    have hlt := lt_endColumn_of_lexeme hlex line column
    rw [written_eq_sourceText hlex line column]
    exact ih.cons (isLayout_of_lexeme hlex) rfl (Nat.lt_add_right_iff_pos.1 hlt)

namespace Indentation

variable {i j : Indentation} {number : Nat} {text : List Char} {texts : List (List Char)}
  {ts : List Token}

/-! ### One line -/

/-- What opens and closes levels in front of a line. -/
theorem kind_of_mem_marks {width : Nat} {marks : List Token}
    (h : i.adjust number width = .ok (marks, j)) : ∀ m ∈ marks,
      m = .mark .indent number (width + 1) ∨ m = .mark .dedent number (width + 1) := by
  unfold adjust at h
  split at h
  · cases h
    simp
  · simp only at h
    split at h <;> cases h
    simp +contextual

/-- The tokens of a line without content are its own and its end. -/
theorem triviaTokens_eq (hc : isContent text = false) (number : Nat) :
    ∃ tokens, lineTokens number 1 text = .ok tokens ∧
      triviaTokens number text = tokens ++ [.mark .newline number (text.length + 1)] := by
  rw [lineTokens_dropWhile]
  unfold isContent at hc
  unfold triviaTokens
  split at hc
  next hd => exact ⟨[], by rw [hd, lineTokens], by simp⟩
  next c cs hd =>
    obtain rfl : c = '#' := by simpa using hc
    have hlex : lexeme '#' cs = .ok ⟨.comment, cs, []⟩ := rfl
    have ht : ∀ column, lineTokens number column ('#' :: cs) =
        .ok [⟨.comment, String.ofList cs, ⟨number, column⟩⟩] := fun column =>
      (lineTokens_eq_ok_iff rfl).2 ⟨_, [], hlex, by rw [lineTokens], rfl⟩
    rw [hd, Nat.add_comm 1]
    exact ⟨_, ht _, rfl⟩

/-- The tokens of any line: what it opens or closes, its own tokens and its end. -/
theorem line_eq (h : i.line number text = .ok (ts, j)) :
    ∃ marks tokens, lineTokens number 1 text = .ok tokens ∧
      ts = marks ++ (tokens ++ [.mark .newline number (text.length + 1)]) ∧
      (∀ m ∈ marks, m.kind = .indent ∨ m.kind = .dedent) ∧
      ∀ m ∈ marks, m.literal = "" ∧
        m.position = ⟨number, (text.takeWhile Text.isGap).length + 1⟩ := by
  cases hc : isContent text with
  | false =>
    rw [line_of_trivia hc] at h
    cases h
    obtain ⟨tokens, ht, heq⟩ := triviaTokens_eq hc number
    exact ⟨[], tokens, ht, heq, by simp, by simp⟩
  | true =>
    obtain ⟨i', marks, tokens, -, ha, ht, rfl⟩ := (line_eq_ok_iff hc).1 h
    refine ⟨marks, tokens, ?_, rfl, fun m hm => ?_, fun m hm => ?_⟩
    · rw [lineTokens_dropWhile, Nat.add_comm]
      exact ht
    · rcases kind_of_mem_marks ha m hm with rfl | rfl
      · exact .inl rfl
      · exact .inr rfl
    · rcases kind_of_mem_marks ha m hm with rfl | rfl <;> exact ⟨rfl, rfl⟩

/-- Every token of a line has a column. -/
theorem column_of_mem_line (h : i.line number text = .ok (ts, j)) :
    ∀ t ∈ ts, 1 ≤ t.position.column := by
  obtain ⟨marks, tokens, ht, rfl, -, hplace⟩ := line_eq h
  intro t hmem
  rcases List.mem_append.1 hmem with hmem | hmem
  · rw [(hplace t hmem).2]
    exact Nat.le_add_left _ _
  rcases List.mem_append.1 hmem with hmem | hmem
  · exact column_le_of_mem_lineTokens ht t hmem
  · rw [List.mem_singleton.1 hmem]
    exact Nat.le_add_left _ _

end Indentation

/-! ### All lines -/

/-- The tokens with this line number. -/
def tokensOn (number : Nat) (tokens : List Token) : List Token :=
  tokens.filter fun t => t.position.line == number

theorem tokensOn_append (number : Nat) (ts us : List Token) :
    tokensOn number (ts ++ us) = tokensOn number ts ++ tokensOn number us :=
  List.filter_append ..

theorem tokensOn_eq_self {number : Nat} {ts : List Token}
    (h : ∀ t ∈ ts, t.position.line = number) : tokensOn number ts = ts :=
  List.filter_eq_self.2 fun t ht => by simpa using h t ht

theorem tokensOn_eq_nil {number : Nat} {ts : List Token}
    (h : ∀ t ∈ ts, t.position.line ≠ number) : tokensOn number ts = [] :=
  List.filter_eq_nil_iff.2 fun t ht => by simpa using h t ht

namespace Indentation

variable {i j : Indentation} {number : Nat} {texts : List (List Char)} {ts : List Token}

/-- The tokens of some lines with the number of one of them are those of this line. -/
theorem tokensOn_of_run (h : i.run number texts = .ok (ts, j)) {k : Nat} {text : List Char}
    (hk : texts[k]? = some text) :
    ∃ i' j', line i' (number + k) text = .ok (tokensOn (number + k) ts, j') := by
  induction texts generalizing i number ts k with
  | nil => simp at hk
  | cons first texts ih =>
    obtain ⟨tokens, i', later, hline, hrun, rfl⟩ := run_cons_eq_ok_iff.1 h
    have hfirst := line_of_mem_line hline
    have hlater := line_of_mem_run hrun
    rw [tokensOn_append]
    cases k with
    | zero =>
      cases hk
      have none : tokensOn (number + 0) later = [] :=
        tokensOn_eq_nil fun t ht => by
          have := hlater t ht
          omega
      rw [none, List.append_nil, Nat.add_zero, tokensOn_eq_self hfirst]
      exact ⟨i, i', hline⟩
    | succ k =>
      have none : tokensOn (number + (k + 1)) tokens = [] :=
        tokensOn_eq_nil fun t ht => by
          have := hfirst t ht
          omega
      rw [none, List.nil_append, show number + (k + 1) = number + 1 + k by omega]
      exact ih hrun (by simpa using hk)

end Indentation

/-- The tokens of a source with the number of a line are those of the line; behind those of the
last line the open levels are closed. -/
theorem tokensOn_of_tokenize {source : String} {tokens : List Token}
    (h : tokenize source = .ok tokens) {k : Nat} {text : List Char}
    (hk : (sourceLines source.toList)[k]? = some text) :
    ∃ i j us after, Indentation.line i (k + 1) text = .ok (us, j) ∧
      tokensOn (k + 1) tokens = us ++ after ∧
      ∀ t ∈ after, t.kind = .dedent ∨ t.kind = .eof := by
  obtain ⟨ts, j, hrun, rfl⟩ := tokenize_eq_ok_iff.1 h
  obtain ⟨i', j', hline⟩ := Indentation.tokensOn_of_run hrun hk
  rw [Nat.add_comm 1 k] at hline
  refine ⟨i', j', _, _, hline, tokensOn_append _ _ _, fun t ht => ?_⟩
  have hm := (List.mem_filter.1 ht).1
  unfold Indentation.finish at hm
  rcases List.mem_append.1 hm with hm | hm
  · obtain ⟨_, -, rfl⟩ := List.mem_map.1 hm
    exact .inl rfl
  · rw [List.mem_singleton.1 hm]
    exact .inr rfl

/-- The tokens with this line number that stand for characters. -/
def wordsOn (number : Nat) (tokens : List Token) : List Token :=
  (tokensOn number tokens).filter fun t => !t.kind.isLayout

/-- The tokens of a source with the number of a line are those of the line, and one that ends it. -/
theorem wordsOn_of_tokenize {source : String} {tokens : List Token}
    (h : tokenize source = .ok tokens) {k : Nat} {text : List Char}
    (hk : (sourceLines source.toList)[k]? = some text) :
    lineTokens (k + 1) 1 text = .ok (wordsOn (k + 1) tokens) ∧
      (tokensOn (k + 1) tokens).filter (fun t => t.kind == .newline) =
        [.mark .newline (k + 1) (text.length + 1)] := by
  obtain ⟨i, j, us, after, hline, htokens, hafter⟩ := tokensOn_of_tokenize h hk
  obtain ⟨marks, words, hw, rfl, hmarks, -⟩ := Indentation.line_eq hline
  have hwords := (lineTokens_ordered hw).1
  have hlayout : ∀ t ∈ words, t.kind.isLayout = false := fun t ht => (hwords t ht).1
  rw [wordsOn, htokens]
  simp only [List.filter_append]
  -- What opens and closes levels is neither a word nor the end of a line.
  have hm : marks.filter (fun t => !t.kind.isLayout) = [] ∧
      marks.filter (fun t => t.kind == .newline) = [] := by
    simp only [List.filter_eq_nil_iff]
    constructor <;> intro t ht <;> rcases hmarks t ht with hk | hk <;>
      simp [hk, TokenKind.isLayout]
  have ha : after.filter (fun t => !t.kind.isLayout) = [] ∧
      after.filter (fun t => t.kind == .newline) = [] := by
    simp only [List.filter_eq_nil_iff]
    constructor <;> intro t ht <;> rcases hafter t ht with hk | hk <;>
      simp [hk, TokenKind.isLayout]
  have hown : words.filter (fun t => !t.kind.isLayout) = words :=
    List.filter_eq_self.2 fun t ht => by simp [hlayout t ht]
  have hnone : words.filter (fun t => t.kind == .newline) = [] := by
    refine List.filter_eq_nil_iff.2 fun t ht hn => ?_
    have := hlayout t ht
    rw [beq_iff_eq.1 hn] at this
    cases this
  rw [hm.1, hm.2, ha.1, ha.2, hown, hnone]
  exact ⟨by simpa [Token.mark, TokenKind.isLayout] using hw, by simp [Token.mark]⟩

/-- The tokens of a source with the number of a line depict it, and one of them ends it. -/
theorem depicts_of_tokenize {source : String} {tokens : List Token}
    (h : tokenize source = .ok tokens) {k : Nat} {text : List Char}
    (hk : (sourceLines source.toList)[k]? = some text) :
    Depicts 1 (wordsOn (k + 1) tokens) text ∧
      (tokensOn (k + 1) tokens).filter (fun t => t.kind == .newline) =
        [.mark .newline (k + 1) (text.length + 1)] :=
  (wordsOn_of_tokenize h hk).imp_left depicts_lineTokens

/-- Every token is on a line of the source. -/
theorem line_of_mem_tokenize {source : String} {tokens : List Token}
    (h : tokenize source = .ok tokens) : ∀ t ∈ tokens,
      1 ≤ t.position.line ∧ t.position.line ≤ (sourceLines source.toList).length := by
  obtain ⟨ts, j, hrun, rfl⟩ := tokenize_eq_ok_iff.1 h
  have hsome : 1 ≤ (splitLines source.toList).length := List.length_pos_iff.2 (splitLines_ne_nil _)
  intro t ht
  rw [sourceLines, List.length_map]
  rcases List.mem_append.1 ht with ht | ht
  · have := Indentation.line_of_mem_run hrun t ht
    rw [List.length_map] at this
    omega
  · have hline : t.position.line = (splitLines source.toList).length := by
      unfold Indentation.finish at ht
      rcases List.mem_append.1 ht with hm | hm
      · obtain ⟨_, -, rfl⟩ := List.mem_map.1 hm
        rfl
      · rw [List.mem_singleton.1 hm]
        rfl
    omega

end FlowLang
