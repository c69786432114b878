import FlowLang.Proofs.Token.Shift
import Mathlib.Data.List.Infix

/-!
# The lines of a source

The lines that count are those with content: neither blank nor comments.

* `contentLines` : the tokens of these lines.
* `words` : all tokens with text and all comments, each with whether it opens a line.
* `Lined` : words in lines, and the lines with content among these.
* `lined_of_tokenize` : the words of a source are in its lines.
* `Lined.ordered`, `Lined.opens`, `Lined.second` : no two words have the same position, the words
  that open lines are the first tokens of the lines with content, and what is behind them is on the
  same line.
-/

namespace FlowLang

/-- The tokens of a line behind its indentation. -/
def tokensOfLine (number : Nat) (text : List Char) : List Token :=
  match lineTokens number ((text.takeWhile Text.isGap).length + 1)
      (text.dropWhile Text.isGap) with
  | .ok tokens => tokens
  | .error _ => []

/-- The tokens of the lines with these texts that have content.  The first line has this number. -/
def contentLinesFrom (number : Nat) (texts : List (List Char)) : List (List Token) :=
  (texts.zipIdx number).filterMap fun line =>
    if isContent line.1 then some (tokensOfLine line.2 line.1) else none

/-- The tokens of every line of a source that has content. -/
def contentLines (source : String) : List (List Token) :=
  contentLinesFrom 1 (sourceLines source.toList)

/-! ### Words -/

/-- The tokens with text and the comments up to the end of the input, each with whether it is the
first token of a line.  The flag tells whether a line starts here. -/
def words (opens : Bool) : List Token → List (Token × Bool)
  | [] => []
  | t :: ts =>
    match t.kind with
    | .eof => []
    | .newline => words true ts
    | .indent | .dedent => words opens ts
    | .comment => (t, false) :: words opens ts
    | _ => (t, opens) :: words false ts

section

variable {b : Bool} {t : Token} {ts : List Token}

theorem words_cons : words b (t :: ts) =
    match t.kind with
    | .eof => []
    | .newline => words true ts
    | .indent | .dedent => words b ts
    | .comment => (t, false) :: words b ts
    | _ => (t, b) :: words false ts := rfl

theorem words_text (h : t.kind.isText = true) : words b (t :: ts) = (t, b) :: words false ts := by
  rw [words_cons]
  cases hk : t.kind <;> simp [hk, TokenKind.isText, TokenKind.isLayout] at h ⊢

theorem words_comment (h : t.kind = .comment) : words b (t :: ts) = (t, false) :: words b ts := by
  rw [words_cons, h]

theorem words_newline (h : t.kind = .newline) : words b (t :: ts) = words true ts := by
  rw [words_cons, h]

theorem words_indent (h : t.kind = .indent) : words b (t :: ts) = words b ts := by
  rw [words_cons, h]

theorem words_dedent (h : t.kind = .dedent) : words b (t :: ts) = words b ts := by
  rw [words_cons, h]

theorem words_of_eof (h : kindOf ts = .eof) : words b ts = [] := by
  cases ts with
  | nil => rfl
  | cons t ts => rw [words_cons, show t.kind = .eof from h]

end

/-- A level that ends says nothing about words. -/
theorem words_drop_dedent {b : Bool} {d : Token} (hd : d.kind = .dedent) (front back : List Token) :
    words b (front ++ d :: back) = words b (front ++ back) := by
  induction front generalizing b with
  | nil => exact words_dedent hd
  | cons t front ih => simp only [List.cons_append, words_cons, ih]

theorem words_dedentFirst {b : Bool} (ts : List Token) : words b (dedentFirst ts) = words b ts := by
  unfold dedentFirst
  split
  next => rfl
  next d later h =>
    have hd : d.kind = .dedent := by
      have := List.head?_dropWhile_not (fun t : Token => t.kind != .dedent) ts
      simpa [h] using this
    rw [List.cons_append, words_dedent hd, ← words_drop_dedent hd, ← h,
      List.takeWhile_append_dropWhile]

/-- The tokens of a line behind the first one open nothing. -/
theorem words_false {l later : List Token} (h : ∀ t ∈ l, t.kind.isLayout = false) :
    words false (l ++ later) = l.map (·, false) ++ words false later := by
  induction l with
  | nil => rfl
  | cons t l ih =>
    obtain ⟨ht, hl⟩ := List.forall_mem_cons.1 h
    rw [List.cons_append, List.map_cons, List.cons_append, ← ih hl]
    by_cases hc : t.kind = .comment
    · exact words_comment hc
    · exact words_text (by simp [TokenKind.isText, ht, hc])

/-! ### Words in lines -/

/-- A position comes before another one. -/
def Position.Before (p q : Position) : Prop :=
  p.line < q.line ∨ p.line = q.line ∧ p.column < q.column

theorem Position.Before.asymm {p q : Position} (h : p.Before q) : ¬ q.Before p := by
  unfold Before at h ⊢
  omega

theorem Position.Before.ne {p q : Position} (h : p.Before q) : p ≠ q := by
  rintro rfl
  exact h.asymm h

/-- Words that are in lines, from the line with this number on, and the tokens of the lines with
content among these. -/
inductive Lined : Nat → List (List Token) → List (Token × Bool) → Prop
  | done {number : Nat} : Lined number [] []
  | blank {number : Nat} {lines : List (List Token)} {ws : List (Token × Bool)} :
    Lined (number + 1) lines ws → Lined number lines ws
  | comment {number : Nat} {lines : List (List Token)} {ws : List (Token × Bool)} {c : Token} :
    c.kind = .comment → c.position.line = number → Lined (number + 1) lines ws →
    Lined number lines ((c, false) :: ws)
  | content {number : Nat} {lines : List (List Token)} {ws : List (Token × Bool)} {t : Token}
    {more : List Token} : (∀ u ∈ t :: more, u.position.line = number) →
    (t :: more).Pairwise (fun u v => u.position.column < v.position.column) →
    Lined (number + 1) lines ws →
    Lined number ((t :: more) :: lines) ((t, true) :: more.map (·, false) ++ ws)

/-- The tokens of a line stand on it, one behind the other. -/
theorem lineTokens_ordered {line column : Nat} {cs : List Char} {tokens : List Token}
    (h : lineTokens line column cs = .ok tokens) :
    (∀ t ∈ tokens, t.kind.isLayout = false ∧ t.position.line = line) ∧
      tokens.Pairwise fun t u => t.position.column < u.position.column := by
  induction h using lineTokens_induction with
  | nil => exact ⟨List.forall_mem_nil _, .nil⟩
  | gap _ _ ih => exact ih
  | @token column _ _ l _ _ hlex hlater ih =>
    obtain ⟨hl, ho⟩ := ih
    have hlt := lt_endColumn_of_lexeme hlex line column
    exact ⟨List.forall_mem_cons.2 ⟨⟨isLayout_of_lexeme hlex, rfl⟩, hl⟩, List.pairwise_cons.2
      ⟨fun u hu => Nat.lt_of_lt_of_le hlt (column_le_of_mem_lineTokens hlater u hu), ho⟩⟩

namespace Indentation

/-- The words of a line that closes or opens levels. -/
theorem words_marks {marks : List Token} (h : Marks marks) (b : Bool) (later : List Token) :
    words b (marks ++ later) = words b later := by
  cases h with
  | opening hm => exact words_indent hm
  | closing hm =>
    induction marks with
    | nil => rfl
    | cons m marks ih =>
      obtain ⟨hm, hms⟩ := List.forall_mem_cons.1 hm
      exact (words_dedent hm).trans (ih hms)

/-- A line without content has no word, or a comment. -/
theorem words_triviaTokens (number : Nat) (text : List Char) (later : List Token) :
    words true (triviaTokens number text ++ later) = words true later ∨
      ∃ c : Token, c.kind = .comment ∧ c.position.line = number ∧
        words true (triviaTokens number text ++ later) = (c, false) :: words true later := by
  unfold triviaTokens
  split
  · exact .inl (words_newline rfl)
  next comment _ =>
    refine .inr ⟨⟨.comment, String.ofList comment,
      ⟨number, (text.takeWhile Text.isGap).length + 1⟩⟩, rfl, rfl, ?_⟩
    rw [List.cons_append, words_comment rfl, List.singleton_append, words_newline rfl]

/-- The words of the lines of a source are in these lines. -/
theorem lined_of_run {i j : Indentation} {number : Nat} {texts : List (List Char)}
    {ts later : List Token} (h : i.run number texts = .ok (ts, j)) (hl : words true later = []) :
    Lined number (contentLinesFrom number texts) (words true (ts ++ later)) := by
  induction texts generalizing i number ts with
  | nil =>
    cases h
    rw [List.nil_append, hl]
    exact .done
  | cons text texts ih =>
    obtain ⟨tokens, i', after, hline, hrun, rfl⟩ := run_cons_eq_ok_iff.1 h
    have behind := ih hrun
    unfold contentLinesFrom at behind ⊢
    rw [List.zipIdx_cons, List.filterMap_cons, List.append_assoc]
    cases hc : isContent text with
    | false =>
      rw [line_of_trivia hc] at hline
      cases hline
      simp only [Bool.false_eq_true, if_false]
      rcases words_triviaTokens number text (after ++ later) with hw | ⟨c, hk, hp, hw⟩
      · exact hw ▸ .blank behind
      · exact hw ▸ .comment hk hp behind
    | true =>
      obtain ⟨_, marks, line, -, ha, ht, rfl⟩ := (line_eq_ok_iff hc).1 hline
      obtain ⟨c, cs, hd, hg, hne⟩ := takeWhile_isGap_spec hc
      obtain ⟨t, more, rfl, htext, -⟩ := lineTokens_cons_spec hg hne (hd ▸ ht)
      obtain ⟨hall, ho⟩ := lineTokens_ordered ht
      have words_line : words true (marks ++ (t :: more ++ [.mark .newline number
          (text.length + 1)]) ++ (after ++ later)) =
            (t, true) :: more.map (·, false) ++ words true (after ++ later) := by
        rw [List.append_assoc, words_marks (marks_adjust ha), List.append_assoc, List.cons_append,
          words_text htext, words_false fun u hu => (hall u (List.mem_cons_of_mem t hu)).1,
          List.singleton_append, words_newline rfl]
        rfl
      rw [words_line]
      simp only [tokensOfLine, ht, if_true]
      exact .content (fun u hu => (hall u hu).2) ho behind

end Indentation

/-- The words of a source are in its lines. -/
theorem lined_of_tokenize {source : String} {tokens : List Token}
    (h : tokenize source = .ok tokens) :
    Lined 1 (contentLines source) (words true (beforeEnd tokens)) := by
  obtain ⟨ts, j, hrun, rfl⟩ := tokenize_eq_ok_iff.1 h
  rw [Indentation.beforeEnd_finish]
  refine Indentation.lined_of_run hrun ?_
  unfold Indentation.closing
  generalize j.levels = levels
  induction levels with
  | nil => rfl
  | cons _ levels ih => exact (words_dedent rfl).trans ih

namespace Lined

variable {number : Nat} {lines : List (List Token)} {ws : List (Token × Bool)}

/-- The words stand one behind the other. -/
theorem ordered (h : Lined number lines ws) : (∀ w ∈ ws, number ≤ w.1.position.line) ∧
    ws.Pairwise fun v w => v.1.position.Before w.1.position := by
  induction h with
  | done => simp
  | blank _ ih => exact ⟨fun w hw => Nat.le_of_succ_le (ih.1 w hw), ih.2⟩
  | @comment number _ ws _ _ hc _ ih =>
    have later : ∀ w ∈ ws, number ≤ w.1.position.line := fun w hw =>
      Nat.le_of_succ_le (ih.1 w hw)
    refine ⟨List.forall_mem_cons.2 ⟨Nat.le_of_eq hc.symm, later⟩,
      List.pairwise_cons.2 ⟨fun w hw => .inl ?_, ih.2⟩⟩
    rw [hc]
    exact ih.1 w hw
  | @content number _ ws t more hline ho _ ih =>
    have here : ∀ w ∈ (t, true) :: more.map (·, false), w.1.position.line = number := by
      obtain ⟨ht, hm⟩ := List.forall_mem_cons.1 hline
      exact List.forall_mem_cons.2 ⟨ht, List.forall_mem_map.2 hm⟩
    have same : ∀ {u v : Token}, u.position.line = number → v.position.line = number →
        u.position.column < v.position.column → u.position.Before v.position :=
      fun hu hv hc => .inr ⟨hu.trans hv.symm, hc⟩
    obtain ⟨ht, hm⟩ := List.forall_mem_cons.1 hline
    obtain ⟨hot, hom⟩ := List.pairwise_cons.1 ho
    refine ⟨fun w hw => ?_, List.pairwise_append.2 ⟨List.pairwise_cons.2 ⟨?_, ?_⟩, ih.2, ?_⟩⟩
    · rcases List.mem_append.1 hw with hw | hw
      · exact Nat.le_of_eq (here w hw).symm
      · exact Nat.le_of_succ_le (ih.1 w hw)
    · exact List.forall_mem_map.2 fun u hu => same ht (hm u hu) (hot u hu)
    · exact List.pairwise_map.2
        (hom.imp_of_mem fun hu hv hc => same (hm _ hu) (hm _ hv) hc)
    · exact fun v hv w hw => .inl (here v hv ▸ ih.1 w hw)

/-- No two words have the same position. -/
theorem nodup (h : Lined number lines ws) : (ws.map fun w => w.1.position).Nodup := by
  exact List.pairwise_map.2 (h.ordered.2.imp Position.Before.ne)

/-- The words that open lines are the first tokens of the lines with content. -/
theorem opens (h : Lined number lines ws) :
    (ws.filter Prod.snd).map Prod.fst = lines.filterMap List.head? := by
  induction h with
  | done => rfl
  | blank _ ih => exact ih
  | comment _ _ _ ih => exact ih
  | @content _ _ _ t more _ _ _ ih =>
    have none : (more.map (·, false)).filter Prod.snd = [] := by simp
    rw [List.cons_append, List.filter_cons_of_pos rfl, List.filter_append, none, List.nil_append,
      List.map_cons, ih]
    rfl

/-- Every line with content has a first token. -/
theorem ne_nil (h : Lined number lines ws) : ∀ line ∈ lines, ∃ t more, line = t :: more := by
  induction h with
  | done => simp
  | blank _ ih => exact ih
  | comment _ _ _ ih => exact ih
  | content _ _ _ ih => exact List.forall_mem_cons.2 ⟨⟨_, _, rfl⟩, ih⟩

/-- A word behind which nothing opens a line, unless it is a comment, has its line before it. -/
theorem comment_of_cons {t : Token} (h : Lined number lines ((t, false) :: ws)) :
    t.kind = .comment := by
  generalize hw : (t, false) :: ws = vs at h
  induction h with
  | done => cases hw
  | blank _ ih => exact ih hw
  | comment hk => cases hw; exact hk
  | content => cases hw

/-- What is behind the word that opens a line is on the same line, if it opens nothing and is no
comment. -/
theorem second {t u : Token} (h : Lined number lines ws) (hi : [(t, true), (u, false)] <:+: ws)
    (hu : u.kind ≠ .comment) : ∃ more, t :: u :: more ∈ lines := by
  obtain ⟨front, back, rfl⟩ := hi
  rw [List.append_assoc] at h
  generalize hw : front ++ (_ ++ back) = vs at h
  induction h generalizing front with
  | done => simp at hw
  | blank _ ih => exact ih _ hw
  | comment _ _ _ ih =>
    cases front with
    | nil => cases hw
    | cons w front => exact ih front (List.cons.inj hw).2
  | @content _ lines ws' t' more _ _ hl ih =>
    cases front with
    | nil =>
      simp only [List.cons_append, List.nil_append, List.cons.injEq, Prod.mk.injEq, and_true] at hw
      obtain ⟨rfl, hw⟩ := hw
      cases more with
      | nil =>
        rw [List.map_nil, List.nil_append] at hw
        exact absurd (comment_of_cons (hw ▸ hl)) hu
      | cons v more =>
        obtain ⟨hv, -⟩ := List.cons.inj hw
        cases hv
        exact ⟨more, List.mem_cons_self⟩
    | cons w front =>
      -- The word is on a later line: no other word of this line opens one.
      simp only [List.cons_append, List.nil_append, List.cons.injEq] at hw
      have past : ∃ front', front = more.map (·, false) ++ front' := by
        rcases List.append_eq_append_iff.1 hw.2 with ⟨mid, hm, hb⟩ | ⟨mid, hm, -⟩
        · cases mid with
          | nil => exact ⟨[], by simpa using hm.symm⟩
          | cons x mid =>
            have hx : x ∈ more.map (·, false) := hm ▸ List.mem_append_right _ List.mem_cons_self
            obtain ⟨y, -, rfl⟩ := List.mem_map.1 hx
            cases (List.cons.inj hb).1
        · exact ⟨mid, hm⟩
      obtain ⟨front', rfl⟩ := past
      rw [List.append_assoc] at hw
      obtain ⟨more', hmem⟩ := ih front' (List.append_cancel_left hw.2)
      exact ⟨more', List.mem_cons_of_mem _ hmem⟩

end Lined

end FlowLang
