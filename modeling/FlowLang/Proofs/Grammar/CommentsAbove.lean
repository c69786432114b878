import FlowLang.Proofs.Grammar.HandlersAbove

/-!
# Comments above statements

A comment that is a line of its own belongs to the list of statements of the line below it, if both
are in one column, however deep the blocks are that end between them.  It is kept there, but for one
kind of place: behind options and behind cases, which end only behind all comments.

* `CommentAbove` : the source has such a comment and such a line.
* `AboveTokens.exists_at` : where its reading starts, the comment is ahead.
* `Program.AbsorbsAt` : the comment has been absorbed by what stands before its place.
* `comments_are_kept_iff_not_absorbed` : **everywhere else it is kept.**
* `comment_behind_cases_is_lost` : behind cases it need not be.
-/

namespace FlowLang

open Reader Grammar

/-- The source has a comment with this text that is a line of its own, and the next line that is
neither blank nor a comment starts in the same column: these are their positions. -/
inductive CommentAbove (source : String) : String → Position → Position → Prop
  | intro {above between below : List (List Char)} {remark line note : List Char} :
    sourceLines source.toList = above ++ remark :: (between ++ line :: below) →
    remark.dropWhile Text.isGap = '#' :: note → (∀ l ∈ between, isContent l = false) →
    isContent line = true →
    (remark.takeWhile Text.isGap).length = (line.takeWhile Text.isGap).length →
    CommentAbove source (Text.trim (String.ofList note))
      ⟨above.length + 1, (remark.takeWhile Text.isGap).length + 1⟩
      ⟨above.length + between.length + 2, (line.takeWhile Text.isGap).length + 1⟩

/-! ### Tokens of lines -/

namespace NoteAbove

variable {A : NoteAbove} {i j : Indentation} {number : Nat} {text : List Char}
  {l ts later : List Token} {b : Bool}

/-- Levels open and end before a line. -/
theorem Ahead.levels (hl : ∀ t ∈ l, t.kind = .indent ∨ t.kind = .dedent) (h : A.Ahead b ts) :
    A.Ahead b (l ++ ts) := by
  induction l with
  | nil => exact h
  | cons t l ih =>
    obtain ⟨ht, hl⟩ := List.forall_mem_cons.1 hl
    exact .level ht (ih hl)

/-- The comment is behind the line of these words. -/
theorem Ahead.words (hl : ∀ t ∈ l, t.kind.isLayout = false) (h : A.Ahead false ts) :
    A.Ahead false (l ++ ts) := by
  induction l with
  | nil => exact h
  | cons t l ih =>
    obtain ⟨ht, hl⟩ := List.forall_mem_cons.1 hl
    exact .word ht (ih hl)

theorem ahead_line (h : i.line number text = .ok (ts, j)) (ha : A.Ahead true later) :
    A.Ahead true (ts ++ later) := by
  cases hc : isContent text with
  | false =>
    rw [Indentation.line_of_trivia hc] at h
    cases h
    unfold Indentation.triviaTokens
    split
    · exact .newline rfl ha
    · exact .word rfl (.newline rfl ha)
  | true =>
    obtain ⟨_, marks, tokens, -, hadjust, ht, rfl⟩ := (Indentation.line_eq_ok_iff hc).1 h
    rw [List.append_assoc, List.append_assoc, List.singleton_append]
    refine .levels ?_ (Ahead.words (fun t h => ((lineTokens_ordered ht).1 t h).1)
      (.newline rfl ha)).mono
    cases Indentation.marks_adjust hadjust with
    | opening hm => exact List.forall_mem_singleton.2 (.inl hm)
    | closing hm => exact fun m hmem => .inr (hm m hmem)

/-- Before whole lines the comment is ahead, if it is behind them. -/
theorem ahead_run {texts : List (List Char)} (h : i.run number texts = .ok (ts, j))
    (ha : A.Ahead true later) : A.Ahead true (ts ++ later) := by
  induction texts generalizing i number ts with
  | nil =>
    cases h
    exact ha
  | cons text texts ih =>
    obtain ⟨tokens, i', rest, hline, hrun, rfl⟩ := Indentation.run_cons_eq_ok_iff.1 h
    rw [List.append_assoc]
    exact ahead_line hline (ih hrun)

/-- The marks of a line stand before its first word. -/
theorem Marked.of_marks {marks : List Token} (h : Marks marks) :
    A.Marked (marks ++ A.word :: A.more) := by
  cases h with
  | opening hm => exact .opening hm
  | closing hm =>
    refine .closing ?_
    induction marks with
    | nil => exact .here
    | cons m marks ih =>
      obtain ⟨hm, hms⟩ := List.forall_mem_cons.1 hm
      exact .dedent hm (ih hms)

theorem Over.of_trivia {trivia : List Token} (ht : ∀ t ∈ trivia, t.kind.isTrivia = true)
    (h : A.Marked ts) : A.Over (trivia ++ ts) := by
  rw [Over, pastTrivia, List.dropWhile_append_of_pos ht]
  exact h.over

end NoteAbove

/-! ### The start of a source -/

/-- Tokens with a comment above a line: those of the lines before the comment, the comment, those
before the word that opens the line, the word, and those behind it. -/
structure AboveTokens where
  lines : List Token
  note : Token
  trivia : List Token
  marks : List Token
  word : Token
  behind : List Token
  lines_run : ∃ i number texts j, Indentation.run i number texts = .ok (lines, j)
  note_kind : note.kind = .comment
  isTrivia : ∀ t ∈ trivia, t.kind.isTrivia = true
  isMarks : Marks marks
  word_isText : word.kind.isText = true
  column : note.position.column = word.position.column

namespace AboveTokens

def tokens (x : AboveTokens) : List Token :=
  x.lines ++ x.note :: (x.trivia ++ (x.marks ++ x.word :: x.behind))

variable {x : AboveTokens}

theorem moves (h : ∀ t ∈ x.tokens, t.kind ≠ .eof) : Moves x.tokens (x.word :: x.behind) := by
  have front : x.tokens = (x.lines ++ x.note :: (x.trivia ++ x.marks)) ++ x.word :: x.behind := by
    simp [tokens]
  rw [front] at h ⊢
  exact .append fun t ht => h t (List.mem_append_left _ ht)

/-- **At the start the comment is ahead.** -/
theorem exists_at (aligned : Aligned (.line [1]) x.tokens)
    (ordered : (spots x.tokens).Pairwise Position.Before) :
    ∃ A : NoteAbove, A.note = x.note ∧ A.word = x.word ∧
      A.At (words true x.tokens) x.tokens := by
  have fresh := (x.moves aligned.kind_ne_eof).ordered ordered
  rw [spots_text x.word_isText] at fresh
  let A : NoteAbove := {
    note := x.note
    word := x.word
    more := x.behind
    note_kind := x.note_kind
    word_isText := x.word_isText
    column := x.column
    fresh := fun h => (List.rel_of_pairwise_cons fresh h).ne rfl }
  have passed : A.Over (x.trivia ++ (x.marks ++ x.word :: x.behind)) :=
    .of_trivia x.isTrivia (.of_marks x.isMarks)
  obtain ⟨i, number, texts, j, hrun⟩ := x.lines_run
  refine ⟨A, rfl, rfl, .inl ⟨true, NoteAbove.ahead_run hrun (.here passed)⟩, ⟨.line [1], ?_, ?_⟩,
    ordered⟩
  · exact ⟨aligned, List.suffix_refl _⟩
  · exact List.pairwise_singleton _ _

end AboveTokens

section

variable {source text : String} {tokens : List Token} {p q : Position}

/-- The words of a source stand one behind the other. -/
theorem ordered_of_tokenize (h : tokenize source = .ok tokens) :
    (spots (beforeEnd tokens)).Pairwise Position.Before :=
  List.pairwise_map.2 (lined_of_tokenize h).ordered.2

/-- The tokens of a source with a comment above a line. -/
theorem CommentAbove.exists_aboveTokens (h : CommentAbove source text p q)
    (ht : tokenize source = .ok tokens) :
    ∃ x : AboveTokens, x.tokens = beforeEnd tokens ∧ Text.trim x.note.literal = text ∧
      x.note.position = p ∧ x.word.position = q := by
  obtain ⟨ts, j, hrun, rfl⟩ := tokenize_eq_ok_iff.1 ht
  rw [Indentation.beforeEnd_finish]
  obtain @⟨above, between, below, remark, line, note, hlines, hnote, hbetween, hline, hcolumn⟩ := h
  rw [show (splitLines source.toList).map dropReturn = _ from hlines] at hrun
  obtain ⟨front, i, _, hfront, hlater, rfl⟩ := Indentation.run_append_eq_ok_iff.1 hrun
  obtain ⟨own, i', _, hown, hbehind, rfl⟩ := Indentation.run_cons_eq_ok_iff.1 hlater
  obtain ⟨trivia, i'', _, htrivia, hbelow, rfl⟩ := Indentation.run_append_eq_ok_iff.1 hbehind
  obtain ⟨_, _, more, hword, -, rfl⟩ := Indentation.run_cons_eq_ok_iff.1 hbelow
  obtain ⟨marks, word, rest, rfl, hk, hw, hmarks⟩ := Indentation.exists_word_of_line hline hword
  rw [Indentation.line_of_remark hnote] at hown
  cases hown
  let x : AboveTokens := {
    lines := front
    note := ⟨.comment, String.ofList note,
      ⟨1 + above.length, (remark.takeWhile Text.isGap).length + 1⟩⟩
    trivia := .mark .newline (1 + above.length) (remark.length + 1) :: trivia
    marks := marks
    word := word
    behind := rest ++ more ++ j.closing (splitLines source.toList).length
    lines_run := ⟨_, _, _, _, hfront⟩
    note_kind := rfl
    isTrivia := List.forall_mem_cons.2 ⟨rfl, Indentation.isTrivia_run hbetween htrivia⟩
    isMarks := hmarks
    word_isText := hk
    column := by rw [hw, hcolumn] }
  refine ⟨x, ?_, rfl, ?_, ?_⟩
  · simp [AboveTokens.tokens, x]
  · simp [x, Nat.add_comm]
  · rw [show x.word.position = _ from hw]
    congr 1
    omega

/-- The comment at this position is missing before a statement of the block, for it has been taken
by what is read right before its place: the last one of the statements above, or a handler behind
which there are none. -/
def Program.AbsorbsAt (prog : Program) (p : Position) (block front : List Statement) : Prop :=
  Absorbing front ∨ ∃ d ∈ prog.definitions, block = d.mainBody ∧ ∃ m ∈ d.handlers, m.Absorbs p front

/-- A comment that is kept has not been absorbed. -/
theorem EndsInComment.not_absorbsAt {prog : Program} {block front : List Statement}
    (h : EndsInComment text p front) : ¬ prog.AbsorbsAt p block front := by
  rintro (habsorbing | ⟨d, -, -, m, -, habsorbs⟩)
  · exact h.not_absorbing habsorbing
  · obtain ⟨before, after, rfl, -⟩ := h
    exact habsorbs.before.asymm (habsorbs.front (.comment text p) (by simp))

/-- **A comment above a statement is kept, or it has been absorbed.**  In every source that can be
read, a comment that is a line of its own, in the column of the next line with content, stands in
the list of the statement that starts there, right above it but for more comments.  The only
exceptions are behind what is read with all comments that follow it. -/
theorem comments_are_kept_iff_not_absorbed {prog : Program} {block front back : List Statement}
    {s : Statement} (ht : tokenize source = .ok tokens) (hp : Program.ofTokens tokens = .ok prog)
    (hc : CommentAbove source text p q) (hblock : block ∈ prog.blocks)
    (he : block = front ++ s :: back) (hs : s.position = q) :
    EndsInComment text p front ↔ ¬ prog.AbsorbsAt p block front := by
  refine ⟨EndsInComment.not_absorbsAt, fun hn => ?_⟩
  obtain ⟨x, hx, rfl, rfl, rfl⟩ := hc.exists_aboveTokens ht
  obtain ⟨A, hnote, hword, hat⟩ := AboveTokens.exists_at (hx ▸ aligned_of_tokenize ht)
    (hx ▸ ordered_of_tokenize ht)
  obtain ⟨b, hb, hblock⟩ := List.mem_flatMap.1 hblock
  obtain ⟨d, hd, hb⟩ := List.mem_flatMap.1 hb
  obtain ⟨ts, rest, hm, hdefines⟩ := defines_of_mem_ofTokens hp hd
  rw [← hx] at hm
  rw [← hword] at hs
  rw [← hnote] at hn ⊢
  rcases hdefines.kept (hat.of_moves hm) hb hblock he hs with hends | habsorbing | ⟨hmain, habsorbs⟩
  · exact hends
  · exact absurd (.inl habsorbing) hn
  · exact absurd (.inr ⟨d, hd, hmain, habsorbs⟩) hn

end

/-! ### Two sources -/

/-- What the only body of a source lists, the last statement apart. -/
theorem exists_of_outline (source : String) (l : List (Bool × Position)) (e : Bool × Position)
    (h : (tokenize source).toOption.bind (fun tokens => (Program.ofTokens tokens).toOption.map
      fun prog => prog.bodies.map fun b => b.statements.map fun s => (s.isComment, s.position)) =
        some [l ++ [e]]) :
    ∃ tokens prog block front s, tokenize source = .ok tokens ∧
      Program.ofTokens tokens = .ok prog ∧ block ∈ prog.blocks ∧ block = front ++ s :: [] ∧
      front.map (fun s => (s.isComment, s.position)) = l ∧ (s.isComment, s.position) = e := by
  obtain ⟨tokens, ht, h⟩ := Option.bind_eq_some_iff.1 h
  obtain ⟨prog, hp, hbodies⟩ := Option.map_eq_some_iff.1 h
  obtain ⟨b, hb, hlist⟩ := List.map_eq_singleton_iff.1 hbodies
  obtain ⟨front, back, hblock, hfront, hback⟩ := List.map_eq_append_iff.1 hlist
  obtain ⟨s, rfl, hs⟩ := List.map_eq_singleton_iff.1 hback
  refine ⟨tokens, prog, b.statements, front, s, Except.eq_ok_of_toOption ht,
    Except.eq_ok_of_toOption hp, ?_, hblock, hfront, hs⟩
  exact List.mem_flatMap.2 ⟨b, by simp [hb], mem_blocksWithin_iff.2 (.inl rfl)⟩

/-- A comment behind a block that it ends, and another one below it in the column of the block. -/
theorem comments_are_kept_iff_not_absorbed_outdented :
    ∃ source tokens prog block front s,
      source = "workflow W():\n  if (a):\n    x\n  # note\n\n    # more\n  y\n" ∧
      tokenize source = .ok tokens ∧ Program.ofTokens tokens = .ok prog ∧
      CommentAbove source "note" ⟨4, 3⟩ ⟨7, 3⟩ ∧ block ∈ prog.blocks ∧ block = front ++ s :: [] ∧
      s.position = ⟨7, 3⟩ ∧ front.map (fun s => (s.isComment, s.position)) =
        [(false, ⟨2, 3⟩), (true, ⟨4, 3⟩), (true, ⟨6, 5⟩)] ∧
      (EndsInComment "note" ⟨4, 3⟩ front ↔ ¬ prog.AbsorbsAt ⟨4, 3⟩ block front) := by
  have above : CommentAbove "workflow W():\n  if (a):\n    x\n  # note\n\n    # more\n  y\n"
      "note" ⟨4, 3⟩ ⟨7, 3⟩ :=
    @CommentAbove.intro _ ["workflow W():".toList, "  if (a):".toList, "    x".toList]
      [[], "    # more".toList] [[]] "  # note".toList "  y".toList " note".toList
      (by rw [String.toList_ofList]; decide +kernel) (by decide +kernel) (by decide +kernel)
      (by decide +kernel) (by decide +kernel)
  obtain ⟨tokens, prog, block, front, s, ht, hp, hblock, he, hfront, hs⟩ := exists_of_outline
    "workflow W():\n  if (a):\n    x\n  # note\n\n    # more\n  y\n"
    [(false, ⟨2, 3⟩), (true, ⟨4, 3⟩), (true, ⟨6, 5⟩)] (false, ⟨7, 3⟩) (by
      -- the characters of a text are faster to evaluate than its bytes
      rw [tokenize, String.toList_ofList]
      decide +kernel)
  have hs := (Prod.mk.inj hs).2
  exact ⟨_, tokens, prog, block, front, s, rfl, ht, hp, above, hblock, he, hs, hfront,
    comments_are_kept_iff_not_absorbed ht hp above hblock he hs⟩

/-- A comment behind a statement with cases is not kept, though it is above a statement, in the
column of both. -/
theorem comment_behind_cases_is_lost :
    ¬ ∀ {source text : String} {tokens : List Token} {p q : Position} {prog : Program}
      {block front back : List Statement} {s : Statement}, tokenize source = .ok tokens →
      Program.ofTokens tokens = .ok prog → CommentAbove source text p q → block ∈ prog.blocks →
      block = front ++ s :: back → s.position = q → EndsInComment text p front := by
  intro kept
  have above : CommentAbove
      "workflow W():\n  switch (x):\n    case a:\n      foo\n  # note\n  bar\n"
      "note" ⟨5, 3⟩ ⟨6, 3⟩ :=
    @CommentAbove.intro _ ["workflow W():".toList, "  switch (x):".toList, "    case a:".toList,
      "      foo".toList] [] [[]] "  # note".toList "  bar".toList " note".toList
      (by rw [String.toList_ofList]; decide +kernel) (by decide +kernel) (by decide +kernel)
      (by decide +kernel) (by decide +kernel)
  obtain ⟨tokens, prog, block, front, s, ht, hp, hblock, he, hfront, hs⟩ := exists_of_outline
    "workflow W():\n  switch (x):\n    case a:\n      foo\n  # note\n  bar\n"
    [(false, ⟨2, 3⟩)] (false, ⟨6, 3⟩) (by
      rw [tokenize, String.toList_ofList]
      decide +kernel)
  obtain ⟨before, after, rfl, -⟩ := kept ht hp above hblock he (Prod.mk.inj hs).2
  have listed : (true, ⟨5, 3⟩) ∈ [(false, (⟨2, 3⟩ : Position))] := by
    rw [← hfront]
    exact List.mem_map.2 ⟨.comment "note" ⟨5, 3⟩, by simp, rfl⟩
  simp at listed

end FlowLang
