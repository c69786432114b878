import FlowLang.Proofs.Recovery.Flush
import FlowLang.Proofs.Token.Lexeme
import FlowLang.Reading.Line
import Mathlib.Data.List.Chain

/-!
# Lines made of pieces

A line is a sequence of tokens with spaces before some of them.  If every token is one by itself
and none continues the one before, the tokens of the line are those tokens.

* `OneLine` : characters without ends of lines.
* `Lexed` : a text that is a token of some kind by itself.
* `Piece`, `spell`, `place` : a token with the spaces before it; the characters and the tokens of
  some pieces.
* `Piece.Apart` : the second piece does not continue the first one.
* `lineTokens_spell` : the tokens of a line made of pieces.
* `lineTokens_apart` : every line is made of pieces.
-/

namespace FlowLang

open Text Reader

/-! ### Pieces -/

/-- The characters can stand in one line, wherever it ends. -/
def OneLine (cs : List Char) : Prop := '\n' ∉ cs ∧ '\r' ∉ cs

theorem OneLine.mono {cs ds : List Char} (h : OneLine cs) (hs : ds ⊆ cs) : OneLine ds :=
  ⟨fun hn => h.1 (hs hn), fun hr => h.2 (hs hr)⟩

theorem oneLine_append {cs ds : List Char} : OneLine (cs ++ ds) ↔ OneLine cs ∧ OneLine ds := by
  simp only [OneLine, List.mem_append, not_or]
  exact and_and_and_comm

/-- The text is a token of this kind by itself. -/
structure Lexed (kind : TokenKind) (literal : String) : Prop where
  alone : ∃ c cs, isGap c = false ∧ IsLexeme c cs ⟨kind, literal.toList, []⟩
  oneLine : OneLine literal.toList

/-- A token and the number of spaces before it. -/
structure Piece where
  gap : Nat
  kind : TokenKind
  literal : String

namespace Piece

/-- The characters of the token. -/
def chars (p : Piece) : List Char := Lexeme.written ⟨p.kind, p.literal.toList, []⟩

/-- The second token does not continue the first one. -/
def Apart (p q : Piece) : Prop :=
  q.gap = 0 →
    (∀ c ∈ p.chars.head?, isWordChar c = true → ∀ d ∈ q.chars.head?, isWordChar d = false) ∧
    (p.kind = .symbol → q.kind = .arrow ∨ ∀ d ∈ q.chars.head?, isSymbolChar d = false)

end Piece

/-- The characters of some pieces. -/
def spell : List Piece → List Char
  | [] => []
  | p :: ps => List.replicate p.gap ' ' ++ (p.chars ++ spell ps)

@[simp] theorem spell_nil : spell [] = [] := rfl

/-- The tokens of some pieces, from this column on. -/
def place (line column : Nat) : List Piece → List Token
  | [] => []
  | p :: ps =>
    ⟨p.kind, p.literal, ⟨line, column + p.gap⟩⟩ ::
      place line (column + p.gap + p.chars.length) ps

/-- The tokens as pieces, the first of them behind this many spaces. -/
def pieces (gap : Nat) : List Token → List Piece
  | [] => []
  | [t] => [⟨gap, t.kind, t.literal⟩]
  | t :: u :: ts => ⟨gap, t.kind, t.literal⟩ :: pieces (u.position.column - t.endColumn) (u :: ts)

/-- Pieces that can be written side by side. -/
structure Fitting (ps : List Piece) : Prop where
  lexed : ∀ p ∈ ps, Lexed p.kind p.literal ∧ p.kind.isText = true
  apart : ps.IsChain Piece.Apart

theorem Fitting.tail {p : Piece} {ps : List Piece} (h : Fitting (p :: ps)) : Fitting ps :=
  ⟨fun q hq => h.lexed q (List.mem_cons_of_mem p hq), h.apart.tail⟩

/-! ### Characters of a piece -/

theorem Lexed.chars_eq {p : Piece} (h : Lexed p.kind p.literal) :
    ∃ c cs, p.chars = c :: cs ∧ isGap c = false ∧ IsLexeme c cs ⟨p.kind, p.literal.toList, []⟩ := by
  obtain ⟨c, cs, hg, hl⟩ := h.alone
  exact ⟨c, cs, written_of_lexeme hl.lexeme_eq, hg, hl⟩

theorem Piece.oneLine_chars {p : Piece} (h : OneLine p.literal.toList) : OneLine p.chars := by
  obtain ⟨gap, kind, literal⟩ := p
  refine ⟨fun hn => h.1 ?_, fun hr => h.2 ?_⟩
  · unfold Piece.chars Lexeme.written at hn
    cases kind <;> simpa using hn
  · unfold Piece.chars Lexeme.written at hr
    cases kind <;> simpa using hr

theorem Fitting.oneLine {ps : List Piece} (h : Fitting ps) : OneLine (spell ps) := by
  induction ps with
  | nil => exact ⟨by simp [spell], by simp [spell]⟩
  | cons p ps ih =>
    have hp := Piece.oneLine_chars (h.lexed p List.mem_cons_self).1.oneLine
    have hgap : OneLine (List.replicate p.gap ' ') := ⟨by simp, by simp⟩
    rw [spell, oneLine_append, oneLine_append]
    exact ⟨hgap, hp, ih h.tail⟩

/-- The characters of a piece are those of its token, wherever this starts. -/
theorem Piece.chars_eq_sourceText (p : Piece) (position : Position) :
    p.chars = (Token.sourceText ⟨p.kind, p.literal, position⟩).toList := by
  rw [Piece.chars, Lexeme.written_eq _ position.line position.column, List.append_nil,
    Lexeme.token, String.ofList_toList]

/-- A text token is as wide as its characters. -/
theorem Piece.endColumn_token {p : Piece} (h : p.kind.isText = true) (line column : Nat) :
    Token.endColumn ⟨p.kind, p.literal, ⟨line, column⟩⟩ = column + p.chars.length := by
  have layout := TokenKind.isLayout_of_isText h
  rw [p.chars_eq_sourceText ⟨line, column⟩, String.length_toList, Token.length_sourceText layout]
  rfl

/-! ### From pieces to tokens -/

theorem lineTokens_spaces {line column : Nat} (n : Nat) (cs : List Char) :
    lineTokens line column (List.replicate n ' ' ++ cs) = lineTokens line (column + n) cs := by
  induction n generalizing column with
  | zero => rfl
  | succ n ih =>
    rw [List.replicate_succ, List.cons_append, lineTokens_gap (by decide), ih, Nat.add_right_comm,
      Nat.add_assoc]

/-- The next piece continues nothing. -/
theorem ends_spell {p : Piece} {ps : List Piece} (h : Fitting (p :: ps)) {c : Char} {cs : List Char}
    (hp : p.chars = c :: cs) :
    (isWordChar c = true → ∀ d ∈ (spell ps).head?, isWordChar d = false) ∧
      (p.kind = .symbol → (symbolRun (spell ps)).1 = []) := by
  cases ps with
  | nil => exact ⟨fun _ => by simp [spell], fun _ => rfl⟩
  | cons q ps =>
    obtain ⟨d, ds, hq, -, hl⟩ := Lexed.chars_eq (h.lexed q (by simp)).1
    have hapart := List.rel_of_isChain_cons_cons h.apart
    cases hg : q.gap with
    | succ n =>
      have hw : isWordChar ' ' = false := by decide
      have hs : isSymbolChar ' ' = false := by decide
      simp [spell, hg, List.replicate_succ, symbolRun, hw, hs]
    | zero =>
      obtain ⟨hw, hs⟩ := hapart hg
      simp only [hp, hq, List.head?_cons, Option.mem_def, Option.some.injEq, forall_eq'] at hw hs
      simp only [spell, hg, List.replicate_zero, List.nil_append, hq, List.cons_append,
        List.head?_cons, Option.mem_def, Option.some.injEq, forall_eq']
      refine ⟨hw, fun hk => ?_⟩
      rcases hs hk with ha | hd
      · -- an arrow ends every symbol
        obtain ⟨rfl, rfl⟩ := hl.eq_arrow ha
        simp [symbolRun]
      · simp [symbolRun, hd]

/-- The tokens of a line made of pieces. -/
theorem lineTokens_spell {ps : List Piece} (h : Fitting ps) (line column : Nat) :
    lineTokens line column (spell ps) = .ok (place line column ps) := by
  induction ps generalizing column with
  | nil => rw [spell, lineTokens, place]
  | cons p ps ih =>
    obtain ⟨hlexed, hk⟩ := h.lexed p List.mem_cons_self
    obtain ⟨c, cs, hp, hg, hl⟩ := Lexed.chars_eq hlexed
    obtain ⟨hw, hs⟩ := ends_spell h hp
    have hne : p.kind ≠ .comment := by
      intro hc
      simp [hc, TokenKind.isText] at hk
    have hl' := hl.append hne hw hs
    have hcol : Token.endColumn ⟨p.kind, String.ofList p.literal.toList, ⟨line, column + p.gap⟩⟩ =
        column + p.gap + p.chars.length := by
      rw [String.ofList_toList]
      exact Piece.endColumn_token hk line (column + p.gap)
    rw [spell, lineTokens_spaces, hp, List.cons_append]
    refine (lineTokens_eq_ok_iff hg).2 ⟨_, place line (column + p.gap + p.chars.length) ps,
      hl'.lexeme_eq, ?_, ?_⟩
    · rw [List.nil_append, Lexeme.token, hcol]
      exact ih h.tail _
    · rw [place, Lexeme.token, String.ofList_toList]

/-- The text of a line that starts with a token. -/
theorem lineText_place {p : Piece} {ps : List Piece} (h : Fitting (p :: ps)) (line column : Nat) :
    (lineText (place line column (p :: ps))).toList = p.chars ++ spell ps := by
  induction ps generalizing p column with
  | nil =>
    rw [place, place, lineText, ← p.chars_eq_sourceText, spell, List.append_nil]
  | cons q ps ih =>
    have hk := (h.lexed p List.mem_cons_self).2
    have hq := ih h.tail (column + p.gap + p.chars.length)
    rw [place] at hq
    have hgap : column + p.gap + p.chars.length + q.gap - (column + p.gap + p.chars.length) =
        q.gap := by omega
    rw [place, place, lineText, Piece.endColumn_token hk, hgap, String.toList_append,
      String.toList_append, hq, ← p.chars_eq_sourceText, String.toList_ofList, spell,
      List.append_assoc]

/-! ### From tokens to pieces -/

/-- The token as a piece behind some spaces. -/
def Token.piece (gap : Nat) (t : Token) : Piece := ⟨gap, t.kind, t.literal⟩

theorem pieces_cons (gap : Nat) (t : Token) (l : List Token) :
    ∃ ps, pieces gap (t :: l) = t.piece gap :: ps := by
  cases l <;> exact ⟨_, rfl⟩

/-- In its line the second token does not continue the first one. -/
def Token.Apart (t u : Token) : Prop :=
  (t.piece 0).Apart (u.piece (u.position.column - t.endColumn))

theorem oneLine_of_lexeme {c : Char} {cs : List Char} {l : Lexeme} (h : lexeme c cs = .ok l)
    (hcs : OneLine (c :: cs)) : OneLine l.literal ∧ OneLine l.rest := by
  rw [← written_of_lexeme h] at hcs
  unfold Lexeme.written at hcs
  constructor
  · exact hcs.mono fun d hd => by split <;> simp [hd]
  · exact hcs.mono fun d hd => by split <;> simp [hd]

theorem lexed_of_lexeme {c : Char} {cs : List Char} {l : Lexeme} (hg : isGap c = false)
    (h : IsLexeme c cs l) (hcs : OneLine (c :: cs)) (line column : Nat) :
    Lexed (l.token line column).kind (l.token line column).literal := by
  obtain ⟨cs', h'⟩ := h.alone
  refine ⟨⟨c, cs', hg, ?_⟩, ?_⟩
  · rw [Lexeme.token, String.toList_ofList]
    exact h'
  · rw [Lexeme.token, String.toList_ofList]
    exact (oneLine_of_lexeme h.lexeme_eq hcs).1

theorem head?_chars_token {c : Char} {cs : List Char} {l : Lexeme} (h : IsLexeme c cs l)
    (line column gap : Nat) : ((l.token line column).piece gap).chars.head? = some c := by
  obtain ⟨cs', h'⟩ := h.alone
  rw [Token.piece, Piece.chars, Lexeme.token, String.toList_ofList,
    written_of_lexeme h'.lexeme_eq, List.head?_cons]

/-- The first token of the rest of a line, if no space is before it. -/
theorem lineTokens_head {line column : Nat} {cs : List Char} {u : Token} {ts : List Token}
    (h : lineTokens line column cs = .ok (u :: ts)) (hc : u.position.column ≤ column) (gap : Nat) :
    ∃ d ds, cs = d :: ds ∧ (u.piece gap).chars.head? = some d ∧
      (d = '-' → ds.head? = some '>' → u.kind = .arrow) := by
  cases cs with
  | nil =>
    rw [lineTokens] at h
    cases h
  | cons d ds =>
    by_cases hg : isGap d = true
    · -- the token would be further to the right
      rw [lineTokens_gap hg] at h
      have := column_le_of_mem_lineTokens h u List.mem_cons_self
      omega
    · obtain ⟨l, later, hlex, -, he⟩ := (lineTokens_eq_ok_iff (by simpa using hg)).1 h
      obtain ⟨rfl, -⟩ := List.cons_eq_cons.1 he
      refine ⟨d, ds, rfl, head?_chars_token (isLexeme_of_lexeme hlex) line column gap, ?_⟩
      rintro rfl hd
      obtain ⟨ds', rfl⟩ : ∃ ds', ds = '>' :: ds' := by
        cases ds with
        | nil => cases hd
        | cons e es => cases hd; exact ⟨es, rfl⟩
      rw [IsLexeme.arrow.lexeme_eq] at hlex
      cases hlex
      rfl

/-- The tokens of a line do not continue each other. -/
theorem lineTokens_apart {line column : Nat} {cs : List Char} {ts : List Token}
    (h : lineTokens line column cs = .ok ts) (hcs : OneLine cs) :
    ts.IsChain Token.Apart ∧ ∀ t ∈ ts, Lexed t.kind t.literal := by
  induction h using lineTokens_induction with
  | nil => exact ⟨.nil, List.forall_mem_nil _⟩
  | gap _ _ ih => exact ih (hcs.mono (List.subset_cons_self _ _))
  | @token column c cs l rest hg hlex hrest ih =>
    obtain ⟨hchain, hlexed⟩ := ih (oneLine_of_lexeme hlex hcs).2
    have hl := isLexeme_of_lexeme hlex
    refine ⟨?_, fun t ht => ?_⟩
    · cases rest with
      | nil => simp
      | cons u rest =>
        refine List.isChain_cons_cons.2 ⟨fun hgap => ?_, hchain⟩
        -- a comment has nothing behind it
        have hk : l.kind ≠ .comment := by
          obtain ht | ⟨-, hnil⟩ := isText_or_last hlex hrest
          · exact TokenKind.ne_of_isText ht rfl
          · cases hnil
        obtain ⟨hw, hs⟩ := hl.ends hk
        obtain ⟨d, ds, hd, hu, ha⟩ := lineTokens_head hrest (Nat.le_of_sub_eq_zero hgap)
          (u.position.column - (l.token line column).endColumn)
        rw [head?_chars_token hl, hu]
        simp only [hd, List.head?_cons, Option.mem_def, Option.some.injEq, forall_eq'] at hw ⊢
        refine ⟨hw, fun hk => ?_⟩
        have hrun := hs hk
        rw [hd, symbolRun] at hrun
        by_cases hsym : isSymbolChar d = true
        · refine .inl ?_
          by_cases hda : d = '-' ∧ ds.head? = some '>'
          · exact ha hda.1 hda.2
          · rw [if_pos (by simpa [hsym, Classical.or_iff_not_imp_left] using hda)] at hrun
            cases hrun
        · exact .inr (by simpa using hsym)
    · rcases List.mem_cons.1 ht with rfl | ht
      · exact lexed_of_lexeme hg hl hcs line column
      · exact hlexed t ht

/-- The text of some tokens of a line is that of their pieces. -/
theorem spell_pieces (gap : Nat) (l : List Token) :
    spell (pieces gap l) = (if l = [] then [] else List.replicate gap ' ') ++
      (lineText l).toList := by
  induction l generalizing gap with
  | nil => rfl
  | cons t l ih =>
    have source : (t.piece gap).chars = t.sourceText.toList :=
      (t.piece gap).chars_eq_sourceText t.position
    cases l with
    | nil => simp [pieces, spell, lineText, ← source, Token.piece]
    | cons u l =>
      rw [pieces, spell, ih, lineText, String.toList_append, String.toList_append, ← source,
        String.toList_ofList]
      simp [Token.piece]

/-- The tokens of a line are pieces that fit. -/
theorem fitting_pieces {l : List Token} (h : ∀ t ∈ l, Lexed t.kind t.literal ∧ t.kind.isText = true)
    (hc : l.IsChain Token.Apart) (gap : Nat) : Fitting (pieces gap l) := by
  induction l generalizing gap with
  | nil => exact ⟨by simp [pieces], .nil⟩
  | cons t l ih =>
    obtain ⟨ht, hl⟩ := List.forall_mem_cons.1 h
    cases l with
    | nil => exact ⟨by simpa [pieces] using ht, .singleton _⟩
    | cons u l =>
      obtain ⟨ha, hc⟩ := List.isChain_cons_cons.1 hc
      have hrest := ih hl hc (u.position.column - t.endColumn)
      refine ⟨?_, ?_⟩
      · rw [pieces]
        exact List.forall_mem_cons.2 ⟨ht, hrest.lexed⟩
      · cases l with
        | nil => exact List.isChain_cons_cons.2 ⟨ha, hrest.apart⟩
        | cons v l => exact List.isChain_cons_cons.2 ⟨ha, hrest.apart⟩

end FlowLang
