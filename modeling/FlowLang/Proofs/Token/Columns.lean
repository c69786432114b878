import FlowLang.Proofs.Token.Words
import Mathlib.Data.List.TakeWhile

/-!
# Lines start in the columns of their levels

An `indent` opens a level in the column where it stands, right of the level around it, and the line
behind it starts there.  Every other line starts in the column of the innermost level that is open.

* `Stance` : where a reader of a list of tokens may stand, with the columns of the levels around.
* `Aligned` : from such a place on, every line starts in the column of its level.
* `Aligned.dedentFirst` : moving a `dedent` in front of comments keeps this.
* `aligned_of_tokenize` : the tokens of a source are aligned.
* `Standing` : a place in a list of words, and one lemma for each kind of token that is passed.
-/

namespace FlowLang

/-- Where a reader stands, with the columns of the levels around it, the innermost first. -/
inductive Stance where
  /-- Before a line. -/
  | line (levels : List Nat)
  /-- Behind an `indent`. -/
  | fresh (levels : List Nat)
  /-- Behind a token of a line. -/
  | inside (levels : List Nat)
  /-- Behind a comment. -/
  | remarked (levels : List Nat)

namespace Stance

/-- The columns of the levels. -/
def levels : Stance → List Nat
  | line l | fresh l | inside l | remarked l => l

/-- Whether the next word opens a line. -/
def opens : Stance → Bool
  | inside _ => false
  | _ => true

end Stance

open Stance

/-- From this place on, a line starts in the column of the innermost level, and an `indent` opens a
level to the right of it.  A `dedent` may also stand before a comment on a line. -/
inductive Aligned : Stance → List Token → Prop
  | done {l} : Aligned (line l) []
  | blank {l t ts} : t.kind = .newline → Aligned (line l) ts → Aligned (line l) (t :: ts)
  | remark {l t ts} : t.kind = .comment → Aligned (remarked l) ts → Aligned (line l) (t :: ts)
  | deeper {c l t ts} : t.kind = .indent → c < t.position.column →
    Aligned (fresh (t.position.column :: c :: l)) ts → Aligned (line (c :: l)) (t :: ts)
  | closing {c l t ts} : t.kind = .dedent → Aligned (line l) ts → Aligned (line (c :: l)) (t :: ts)
  | first {l t ts} : t.kind.isText = true → Aligned (inside (t.position.column :: l)) ts →
    Aligned (line (t.position.column :: l)) (t :: ts)
  | opened {l t ts} : t.kind.isText = true → t.position.column ≠ 1 →
    Aligned (inside (t.position.column :: l)) ts →
    Aligned (fresh (t.position.column :: l)) (t :: ts)
  | more {l t ts} : t.kind.isText = true → t.position.column ≠ 1 → Aligned (inside l) ts →
    Aligned (inside l) (t :: ts)
  | trailing {l t ts} : t.kind = .comment → Aligned (remarked l) ts → Aligned (inside l) (t :: ts)
  | late {c l t ts} : t.kind = .dedent → Aligned (inside l) ts → Aligned (inside (c :: l)) (t :: ts)
  | ending {l t ts} : t.kind = .newline → Aligned (line l) ts → Aligned (inside l) (t :: ts)
  | remarkEnd {l t ts} : t.kind = .newline → Aligned (line l) ts → Aligned (remarked l) (t :: ts)

/-! ### Blocks that a comment ends -/

namespace Aligned

theorem kind_ne_eof {p : Stance} {ts : List Token} (h : Aligned p ts) : ∀ t ∈ ts, t.kind ≠ .eof := by
  induction h with
  | done => simp
  | blank hk _ ih | remark hk _ ih | deeper hk _ _ ih | closing hk _ ih | trailing hk _ ih
  | late hk _ ih | ending hk _ ih | remarkEnd hk _ ih =>
    exact List.forall_mem_cons.2 ⟨by simp [hk], ih⟩
  | first ht _ ih | opened ht _ _ ih | more ht _ _ ih =>
    exact List.forall_mem_cons.2 ⟨TokenKind.ne_of_isText ht rfl, ih⟩

/-- Comments and ends of lines that reach up to a `dedent` are whole lines: they may stand before
any line. -/
theorem of_trivia_append {l later : List Token} {d : Token} {k : List Nat}
    (hl : ∀ t ∈ l, t.kind.isTrivia = true) (hd : d.kind = .dedent) :
    (Aligned (line k) (l ++ d :: later) → Aligned (line k) (d :: later) ∧
      ∀ {m rest}, Aligned (line m) rest → Aligned (line m) (l ++ rest)) ∧
    (Aligned (remarked k) (l ++ d :: later) → Aligned (line k) (d :: later) ∧
      ∀ {m rest}, Aligned (line m) rest → Aligned (remarked m) (l ++ rest)) := by
  induction l with
  | nil =>
    refine ⟨fun h => ⟨h, fun hr => hr⟩, fun h => ?_⟩
    cases h with
    | remarkEnd hk => simp [hd] at hk
  | cons t l ih =>
    obtain ⟨ht, hl⟩ := List.forall_mem_cons.1 hl
    obtain ⟨ihline, ihremarked⟩ := ih hl
    constructor
    · intro h
      cases h with
      | blank hk h => exact ⟨(ihline h).1, fun hr => .blank hk ((ihline h).2 hr)⟩
      | remark hk h => exact ⟨(ihremarked h).1, fun hr => .remark hk ((ihremarked h).2 hr)⟩
      | deeper hk | closing hk => simp [hk, TokenKind.isTrivia] at ht
      | first hx => simp [TokenKind.not_isText_of_isTrivia ht] at hx
    · intro h
      cases h with
      | remarkEnd hk h => exact ⟨(ihline h).1, fun hr => .remarkEnd hk ((ihline h).2 hr)⟩

/-- The level that a `dedent` before a line closes. -/
theorem of_dedent {k : List Nat} {d : Token} {ts : List Token} (h : Aligned (line k) (d :: ts))
    (hd : d.kind = .dedent) : ∃ c l, k = c :: l ∧ Aligned (line l) ts := by
  cases h with
  | closing _ h => exact ⟨_, _, rfl, h⟩
  | blank hk | remark hk | deeper hk => simp [hd] at hk
  | first hx => simp [hd, TokenKind.isText, TokenKind.isLayout] at hx

/-- Where a comment ends the block, the `dedent` may stand before it. -/
theorem dedentFirst {p : Stance} {ts : List Token} {column : Nat} (h : Aligned p ts)
    (hc : commentEndsBlock column ts = true) : Aligned p (dedentFirst ts) := by
  rcases dedentFirst_of_commentEndsBlock hc h.kind_ne_eof with
    ⟨-, he⟩ | ⟨l, d, later, rfl, htrivia, hk, he⟩
  · -- without a `dedent` nothing moves
    rwa [he]
  rw [he]
  cases l with
  | nil =>
    rw [List.nil_append, commentEndsBlock_of_kindOf (by simp [kindOf, hk])] at hc
    cases hc
  | cons t l =>
    have ht : t.kind = .comment := by
      simp only [List.cons_append, commentEndsBlock, Bool.and_eq_true, beq_iff_eq] at hc
      exact hc.1.1
    obtain ⟨-, hl⟩ := List.forall_mem_cons.1 htrivia
    cases h with
    | remark _ h =>
      obtain ⟨hline, hback⟩ := (of_trivia_append hl hk).2 h
      obtain ⟨c, k, rfl, hlater⟩ := hline.of_dedent hk
      exact .closing hk (.remark ht (hback hlater))
    | trailing _ h =>
      obtain ⟨hline, hback⟩ := (of_trivia_append hl hk).2 h
      obtain ⟨c, k, rfl, hlater⟩ := hline.of_dedent hk
      exact .late hk (.trailing ht (hback hlater))
    | blank hk | deeper hk | closing hk | late hk | ending hk | remarkEnd hk => simp [ht] at hk
    | first hx | opened hx | more hx => simp [ht, TokenKind.isText] at hx

end Aligned

/-! ### The tokens of a source -/

namespace Indentation

/-- The columns of the open levels. -/
def columns (i : Indentation) : List Nat := i.levels.map (· + 1) ++ [1]

theorem columns_eq (i : Indentation) : ∃ outer, i.columns = (i.width + 1) :: outer := by
  unfold columns width
  cases i.levels with
  | nil => exact ⟨_, rfl⟩
  | cons w ws => exact ⟨_, rfl⟩

variable {i j : Indentation} {number : Nat} {text : List Char} {ts later : List Token}

/-- The tokens of a line from some column behind the first on. -/
theorem aligned_lineTokens {column : Nat} {cs : List Char} {l : List Nat}
    (h : lineTokens number column cs = .ok ts) (hcol : 1 < column) {t : Token}
    (ht : t.kind = .newline) (hl : Aligned (.line l) later) :
    Aligned (.inside l) (ts ++ t :: later) := by
  induction h using lineTokens_induction with
  | nil => exact .ending ht hl
  | gap _ _ ih => exact ih (by omega)
  | @token column _ _ x _ _ hlex hlater ih =>
    have hlt := lt_endColumn_of_lexeme hlex number column
    rcases isText_or_last hlex hlater with hk | ⟨hk, rfl⟩
    · exact .more hk (Nat.ne_of_gt hcol) (ih (by omega))
    · exact .trailing hk (.remarkEnd ht hl)

/-- Closing levels in front of a line. -/
theorem aligned_dedents {column : Nat} {l : List Nat} (closed : List Nat)
    (h : Aligned (.line l) later) :
    Aligned (.line (closed.map (· + 1) ++ l))
      (closed.map (fun _ => Token.mark .dedent number column) ++ later) := by
  induction closed with
  | nil => exact h
  | cons w closed ih => exact .closing rfl ih

/-- The tokens of a line are aligned with the levels that it leaves open. -/
theorem aligned_line (h : i.line number text = .ok (ts, j)) (hl : Aligned (.line j.columns) later) :
    Aligned (.line i.columns) (ts ++ later) := by
  cases hc : isContent text with
  | false =>
    rw [line_of_trivia hc] at h
    cases h
    unfold triviaTokens
    split
    · exact .blank rfl hl
    · exact .remark rfl (.remarkEnd rfl hl)
  | true =>
    obtain ⟨i', marks, tokens, hu, ha, ht, rfl⟩ := (line_eq_ok_iff hc).1 h
    obtain ⟨c, cs, hd, hg, hne⟩ := takeWhile_isGap_spec hc
    rw [hd] at ht
    obtain ⟨x, more, hlex, hmore, rfl⟩ := (lineTokens_eq_ok_iff hg).1 ht
    have hlt := lt_endColumn_of_lexeme hlex number ((text.takeWhile Text.isGap).length + 1)
    have htext : (x.token number ((text.takeWhile Text.isGap).length + 1)).kind.isText = true := by
      rcases isText_of_lexeme hlex with ⟨hk, -⟩ | ⟨-, hc', -⟩
      · exact hk
      · exact absurd hc' hne
    have hwords := aligned_lineTokens hmore (by omega)
      (t := .mark .newline number (text.length + 1)) rfl hl
    rw [List.append_assoc, List.append_assoc, List.cons_append]
    have hcolumns : i'.columns = i.columns := by rw [columns, columns, levels_checkUnit hu]
    have hwidth : i'.width = i.width := by rw [width, width, levels_checkUnit hu]
    unfold adjust at ha
    split at ha
    next hw =>
      -- the line opens a level
      cases ha
      obtain ⟨outer, ho⟩ := i.columns_eq
      have hj : columns { i' with levels := (text.takeWhile Text.isGap).length :: i'.levels } =
          ((text.takeWhile Text.isGap).length + 1) :: i.columns := by
        rw [← hcolumns]
        rfl
      rw [hj, ho] at hwords
      rw [ho]
      refine .deeper rfl ?_ (.opened htext ?_ hwords)
      · rw [hwidth] at hw
        exact Nat.succ_lt_succ hw
      · have hpos : (x.token number ((text.takeWhile Text.isGap).length + 1)).position.column =
            (text.takeWhile Text.isGap).length + 1 := rfl
        omega
    next hw =>
      -- the line returns to a level
      simp only at ha
      split at ha
      next hj =>
        cases ha
        obtain ⟨outer, ho⟩ := columns_eq
          { i' with levels := i'.levels.dropWhile ((text.takeWhile Text.isGap).length < ·) }
        rw [hj] at ho
        rw [ho] at hwords
        have hall : i.columns =
            (i'.levels.takeWhile ((text.takeWhile Text.isGap).length < ·)).map (· + 1) ++
              ((text.takeWhile Text.isGap).length + 1) :: outer := by
          rw [← ho, ← hcolumns, columns, columns, ← List.append_assoc, ← List.map_append,
            List.takeWhile_append_dropWhile]
        rw [hall]
        exact aligned_dedents _ (.first htext hwords)
      next => cases ha

theorem aligned_run {texts : List (List Char)} (h : i.run number texts = .ok (ts, j))
    (hl : Aligned (.line j.columns) later) : Aligned (.line i.columns) (ts ++ later) := by
  induction texts generalizing i number ts with
  | nil =>
    cases h
    exact hl
  | cons text texts ih =>
    obtain ⟨tokens, i', rest, hline, hrun, rfl⟩ := run_cons_eq_ok_iff.1 h
    rw [List.append_assoc]
    exact aligned_line hline (ih hrun)

end Indentation

/-- **The lines of a source start in the columns of their levels.** -/
theorem aligned_of_tokenize {source : String} {tokens : List Token}
    (h : tokenize source = .ok tokens) : Aligned (.line [1]) (beforeEnd tokens) := by
  obtain ⟨ts, j, hrun, rfl⟩ := tokenize_eq_ok_iff.1 h
  rw [Indentation.beforeEnd_finish]
  refine Indentation.aligned_run hrun ?_
  rw [← List.append_nil (j.closing _)]
  exact Indentation.aligned_dedents _ .done

/-! ### Standing among words -/

/-- Before these tokens, at this place, among these words. -/
structure Standing (ws : List (Token × Bool)) (p : Stance) (ts : List Token) : Prop where
  aligned : Aligned p ts
  behind : words p.opens ts <:+ ws

namespace Standing

variable {ws : List (Token × Bool)} {p : Stance} {t : Token} {ts : List Token} {c : Nat}
  {l : List Nat}

theorem of_nil (h : Standing ws p []) : ∃ l, p = line l := by
  cases h.aligned
  exact ⟨_, rfl⟩

/-- Past a word of a line. -/
theorem text (h : Standing ws p (t :: ts)) (ht : t.kind.isText = true) :
    Standing ws (inside p.levels) ts := by
  have hw := h.behind
  rw [words_text ht] at hw
  refine ⟨?_, (List.suffix_cons _ _).trans hw⟩
  cases h.aligned with
  | first _ h | opened _ _ h | more _ _ h => exact h
  | blank hk | remark hk | deeper hk | closing hk | trailing hk | late hk | ending hk
  | remarkEnd hk => simp [hk, TokenKind.isText, TokenKind.isLayout] at ht

/-- The first word of a line is in the column of its level. -/
theorem exists_level (h : Standing ws (line l) (t :: ts)) (ht : t.kind.isText = true) :
    ∃ outer, l = t.position.column :: outer := by
  cases h.aligned with
  | first => exact ⟨_, rfl⟩
  | blank hk | remark hk | deeper hk | closing hk =>
    simp [hk, TokenKind.isText, TokenKind.isLayout] at ht

theorem column (h : Standing ws (line (c :: l)) (t :: ts)) (ht : t.kind.isText = true) :
    t.position.column = c := by
  obtain ⟨outer, he⟩ := h.exists_level ht
  exact (List.cons.inj he).1.symm

theorem newline (h : Standing ws p (t :: ts)) (ht : t.kind = .newline) :
    Standing ws (line p.levels) ts := by
  have hw := h.behind
  rw [words_newline ht] at hw
  refine ⟨?_, hw⟩
  cases h.aligned with
  | blank _ h | ending _ h | remarkEnd _ h => exact h
  | remark hk | deeper hk | closing hk | trailing hk | late hk => simp [ht] at hk
  | first hx | opened hx | more hx => simp [ht, TokenKind.isText, TokenKind.isLayout] at hx

theorem comment (h : Standing ws p (t :: ts)) (ht : t.kind = .comment) :
    Standing ws (remarked p.levels) ts := by
  have hw := h.behind
  rw [words_comment ht] at hw
  have hw := (List.suffix_cons _ _).trans hw
  cases h.aligned with
  | remark _ h => exact ⟨h, hw⟩
  | trailing _ h =>
    -- behind the comment the line ends, and so the next word opens a line
    refine ⟨h, ?_⟩
    cases h with
    | remarkEnd hk =>
      rw [words_newline hk] at hw ⊢
      exact hw
  | blank hk | deeper hk | closing hk | late hk | ending hk | remarkEnd hk => simp [ht] at hk
  | first hx | opened hx | more hx => simp [ht, TokenKind.isText] at hx

/-- An `indent` opens a level to the right. -/
theorem indent (h : Standing ws (line (c :: l)) (t :: ts)) (ht : t.kind = .indent) :
    c < t.position.column ∧ Standing ws (fresh (t.position.column :: c :: l)) ts := by
  have hw := h.behind
  rw [words_indent ht] at hw
  cases h.aligned with
  | deeper _ hc h => exact ⟨hc, h, hw⟩
  | blank hk | remark hk | closing hk => simp [ht] at hk
  | first hx => simp [ht, TokenKind.isText, TokenKind.isLayout] at hx

/-- A `dedent` closes a level. -/
theorem dedent (h : Standing ws (line (c :: l)) (t :: ts)) (ht : t.kind = .dedent) :
    Standing ws (line l) ts := by
  have hw := h.behind
  rw [words_dedent ht] at hw
  obtain ⟨_, _, he, h⟩ := h.aligned.of_dedent ht
  cases he
  exact ⟨h, hw⟩

/-- Behind an `indent` stands a word. -/
theorem exists_text (h : Standing ws (fresh l) ts) : ∃ t us, ts = t :: us ∧ t.kind.isText = true := by
  cases h.aligned with
  | opened ht => exact ⟨_, _, rfl, ht⟩

/-- Behind an `indent` stands a line like any other of its level. -/
theorem line_of_fresh (h : Standing ws (fresh l) ts) : Standing ws (line l) ts := by
  refine ⟨?_, h.behind⟩
  have ha := h.aligned
  cases ha with
  | opened ht _ ha => exact .first ht ha

/-- A level to the right of the innermost one is to the right of all. -/
theorem pairwise_levels {d : Nat} (hlt : c < d) (hl : (c :: l).Pairwise (· > ·)) :
    (d :: c :: l).Pairwise (· > ·) := by
  refine List.pairwise_cons.2 ⟨List.forall_mem_cons.2 ⟨hlt, fun x hx => ?_⟩, hl⟩
  exact Nat.lt_trans (List.rel_of_pairwise_cons hl hx) hlt

/-- Behind an `indent` a line of its level starts. -/
theorem opened (h : Standing ws (line l) (t :: ts)) (ht : t.kind = .indent)
    (hl : l.Pairwise (· > ·)) : ∃ outer, Standing ws (line (t.position.column :: outer)) ts ∧
      (t.position.column :: outer).Pairwise (· > ·) := by
  obtain ⟨c, outer, rfl⟩ : ∃ c outer, l = c :: outer := by
    cases h.aligned with
    | deeper | closing | first => exact ⟨_, _, rfl⟩
    | blank hk | remark hk => simp [ht] at hk
  obtain ⟨hlt, inside⟩ := h.indent ht
  exact ⟨c :: outer, inside.line_of_fresh, pairwise_levels hlt hl⟩

/-- Past any token.  The levels go on from the right to the left. -/
theorem tail (h : Standing ws p (t :: ts)) : ∃ q, Standing ws q ts ∧
    (p.levels.Pairwise (· > ·) → q.levels.Pairwise (· > ·)) := by
  have hw := h.behind
  cases h.aligned with
  | blank hk | ending hk | remarkEnd hk => exact ⟨_, h.newline hk, id⟩
  | remark hk | trailing hk => exact ⟨_, h.comment hk, id⟩
  | first ht | opened ht | more ht => exact ⟨_, h.text ht, id⟩
  | deeper hk => exact ⟨_, (h.indent hk).2, pairwise_levels (h.indent hk).1⟩
  | closing hk => exact ⟨_, h.dedent hk, List.Pairwise.of_cons⟩
  | late hk ha =>
    rw [words_dedent hk] at hw
    exact ⟨_, ⟨ha, hw⟩, List.Pairwise.of_cons⟩

/-- Only a line starts in column 1. -/
theorem line_of_column (h : Standing ws p (t :: ts)) (ht : t.kind.isText = true)
    (hc : t.position.column = 1) : ∃ l, Standing ws (line l) (t :: ts) := by
  cases h.aligned with
  | first => exact ⟨_, h⟩
  | opened _ hne | more _ hne => exact absurd hc hne
  | blank hk | remark hk | deeper hk | closing hk | trailing hk | late hk | ending hk
  | remarkEnd hk => simp [hk, TokenKind.isText, TokenKind.isLayout] at ht

theorem dropNewlines (h : Standing ws (line l) ts) :
    Standing ws (line l) (ts.dropWhile fun t => t.kind == .newline) := by
  induction ts with
  | nil => exact h
  | cons t ts ih =>
    by_cases ht : t.kind = .newline
    · rw [List.dropWhile_cons_of_pos (by simp [ht])]
      exact ih (h.newline ht)
    · rwa [List.dropWhile_cons_of_neg (by simp [ht])]

/-- Comments and ends of lines lead from a line to a line. -/
theorem dropTrivia (h : Standing ws (line l) ts ∨ Standing ws (remarked l) ts) :
    Standing ws (line l) (ts.dropWhile (·.kind.isTrivia)) := by
  induction ts with
  | nil =>
    rcases h with h | h
    · exact h
    · cases h.aligned
  | cons t ts ih =>
    by_cases ht : t.kind.isTrivia = true
    · rw [List.dropWhile_cons, if_pos ht]
      have hk : t.kind = .newline ∨ t.kind = .comment := by
        cases hk : t.kind <;> simp [hk, TokenKind.isTrivia] at ht ⊢
      rcases hk with hk | hk
      · exact ih (.inl (h.elim (·.newline hk) (·.newline hk)))
      · exact ih (.inr (h.elim (·.comment hk) (·.comment hk)))
    · rw [List.dropWhile_cons, if_neg ht]
      refine h.resolve_right fun h => ?_
      cases h.aligned with
      | remarkEnd hk => simp [hk, TokenKind.isTrivia] at ht

theorem dropText (h : Standing ws (inside l) ts) :
    Standing ws (inside l) (ts.dropWhile fun t => !Reader.endsText t.kind) := by
  induction ts with
  | nil => exact h
  | cons t ts ih =>
    by_cases ht : t.kind.isText = true
    · rw [List.dropWhile_cons, if_pos (by rwa [← TokenKind.isText_eq])]
      exact ih (h.text ht)
    · rwa [List.dropWhile_cons, if_neg (by rwa [← TokenKind.isText_eq])]

/-- Moving a `dedent` in front of the comments that end a block changes no place. -/
theorem hoist (h : Standing ws p ts) {column : Nat} (hc : commentEndsBlock column ts = true) :
    Standing ws p (dedentFirst ts) :=
  ⟨h.aligned.dedentFirst hc, (words_dedentFirst ts).symm ▸ h.behind⟩

end Standing

end FlowLang
