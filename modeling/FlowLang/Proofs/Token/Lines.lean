import FlowLang.Proofs.Token.Laid

/-!
# The tokens of some lines

The tokens of a text are those of its lines, one after the other, and what a line needs to know of
the lines before it is in the open levels and the unit of indentation.

* `Indentation.run` : the tokens of some lines of a text, and the indentation behind them.
* `isContent` : the line holds more than a comment.
* `lineTokens_induction` : the tokens of a line, one after the other.
* `Indentation.line_eq_ok_iff` : what the tokens of a line with content are.
* `Marks`, `Indentation.exists_word_of_line` : what stands before the first word of a line.
* `Indentation.laid_run` : the tokens of some lines are well laid out.
-/

namespace FlowLang

theorem Except.bind_eq_ok_iff {ε α β : Type} {x : Except ε α} {f : α → Except ε β} {b : β} :
    (x >>= f) = .ok b ↔ ∃ a, x = .ok a ∧ f a = .ok b := by
  cases x with
  | error e => simp [bind, Except.bind]
  | ok a => simp [bind, Except.bind]

theorem Except.bind_eq_error_iff {ε α β : Type} {x : Except ε α} {f : α → Except ε β} {e : ε} :
    (x >>= f) = .error e ↔ x = .error e ∨ ∃ a, x = .ok a ∧ f a = .error e := by
  cases x with
  | error e' => simp [bind, Except.bind]
  | ok a => simp [bind, Except.bind]

theorem Except.eq_ok_of_toOption {ε α : Type} {x : Except ε α} {a : α} (h : x.toOption = some a) :
    x = .ok a := by
  cases x <;> simp_all [Except.toOption]

/-! ### Lines of a text -/

theorem splitLines_ne_nil (cs : List Char) : splitLines cs ≠ [] := by
  induction cs with
  | nil => simp [splitLines]
  | cons c cs ih =>
    unfold splitLines
    split
    · simp
    · split <;> simp

/-- A line feed separates the lines before it from those behind it. -/
theorem splitLines_append_newline (cs ds : List Char) :
    splitLines (cs ++ '\n' :: ds) = splitLines cs ++ splitLines ds := by
  induction cs with
  | nil => simp [splitLines]
  | cons c cs ih =>
    by_cases hc : c = '\n'
    · subst hc
      simp [splitLines, ih]
    · rw [List.cons_append, splitLines, splitLines, if_neg hc, if_neg hc, ih]
      cases h : splitLines cs with
      | nil => exact absurd h (splitLines_ne_nil cs)
      | cons line lines => rfl

theorem splitLines_of_not_mem {line : List Char} (h : '\n' ∉ line) : splitLines line = [line] := by
  induction line with
  | nil => rfl
  | cons c line ih =>
    have hc : c ≠ '\n' := fun hc => h (hc ▸ List.mem_cons_self)
    rw [splitLines, if_neg hc, ih fun hm => h (List.mem_cons_of_mem c hm)]

theorem splitLines_append {line cs : List Char} (h : '\n' ∉ line) :
    splitLines (line ++ '\n' :: cs) = line :: splitLines cs := by
  rw [splitLines_append_newline, splitLines_of_not_mem h]
  rfl

theorem not_mem_of_mem_splitLines {cs : List Char} : ∀ line ∈ splitLines cs, '\n' ∉ line := by
  induction cs with
  | nil => simp [splitLines]
  | cons c cs ih =>
    unfold splitLines
    split
    · simpa using ih
    next hc =>
      split
      · simp [Ne.symm hc]
      next line lines hl =>
        rw [hl] at ih
        simp only [List.mem_cons, forall_eq_or_imp, not_or] at ih ⊢
        exact ⟨⟨Ne.symm hc, ih.1⟩, ih.2⟩

theorem mem_of_mem_splitLines {cs : List Char} {c : Char} :
    ∀ line ∈ splitLines cs, c ∈ line → c ∈ cs := by
  induction cs with
  | nil => simp [splitLines]
  | cons d cs ih =>
    unfold splitLines
    split
    · intro line hl hc
      rcases List.mem_cons.1 hl with rfl | hl
      · cases hc
      · exact List.mem_cons_of_mem d (ih line hl hc)
    next =>
      split
      next hnil => simp +contextual
      next line lines hl =>
        rw [hl] at ih
        simp only [List.mem_cons, forall_eq_or_imp] at ih ⊢
        exact ⟨fun hc => hc.imp_right ih.1, fun line hl hc => .inr (ih.2 line hl hc)⟩

theorem dropReturn_of_not_mem {line : List Char} (h : '\r' ∉ line) : dropReturn line = line :=
  if_neg fun hl => h (List.mem_of_getLast? hl)

theorem mem_of_mem_dropReturn {c : Char} {line : List Char} (h : c ∈ dropReturn line) :
    c ∈ line := by
  unfold dropReturn at h
  split at h
  · exact List.dropLast_subset _ h
  · exact h

/-! ### Content -/

/-- The line holds more than a comment. -/
def isContent (text : List Char) : Bool :=
  match text.dropWhile Text.isGap with
  | [] => false
  | c :: _ => c != '#'

/-! ### Tokens of one line -/

theorem lineTokens_gap {line column : Nat} {c : Char} {cs : List Char} (h : Text.isGap c = true) :
    lineTokens line column (c :: cs) = lineTokens line (column + 1) cs := by
  rw [lineTokens, if_pos h]

theorem lineTokens_eq_ok_iff {line column : Nat} {c : Char} {cs : List Char} {tokens : List Token}
    (h : Text.isGap c = false) :
    lineTokens line column (c :: cs) = .ok tokens ↔
      ∃ l later, lexeme c cs = .ok l ∧
        lineTokens line (l.token line column).endColumn l.rest = .ok later ∧
        tokens = l.token line column :: later := by
  rw [lineTokens, if_neg (by simp [h])]
  split
  next hl => simp [hl]
  next l hl =>
    simp only [hl, Except.ok.injEq, exists_and_left, exists_eq_left']
    cases lineTokens line (l.token line column).endColumn l.rest with
    | error e => simp
    | ok later => simp [eq_comm]

/-- **The tokens of a line come one after the other**: gaps are left out, and what is none starts a
token. -/
@[elab_as_elim]
theorem lineTokens_induction {line : Nat}
    {motive : ∀ column cs tokens, lineTokens line column cs = .ok tokens → Prop}
    (nil : ∀ {column}, motive column [] [] (by rw [lineTokens]))
    (gap : ∀ {column c cs tokens} (hg : Text.isGap c = true)
      (h : lineTokens line (column + 1) cs = .ok tokens), motive (column + 1) cs tokens h →
      motive column (c :: cs) tokens ((lineTokens_gap hg).trans h))
    (token : ∀ {column c cs l later} (hg : Text.isGap c = false) (hlex : lexeme c cs = .ok l)
      (h : lineTokens line (l.token line column).endColumn l.rest = .ok later),
      motive (l.token line column).endColumn l.rest later h →
      motive column (c :: cs) (l.token line column :: later)
        ((lineTokens_eq_ok_iff hg).2 ⟨l, later, hlex, h, rfl⟩))
    {column : Nat} {cs : List Char} {tokens : List Token}
    (h : lineTokens line column cs = .ok tokens) : motive column cs tokens h := by
  match cs, h with
  | [], h =>
    have hnil := h
    rw [lineTokens] at hnil
    cases hnil
    exact nil
  | c :: cs, h =>
    cases hg : Text.isGap c with
    | true =>
      have hrest := (lineTokens_gap hg).symm.trans h
      exact gap hg hrest (lineTokens_induction nil gap token hrest)
    | false =>
      obtain ⟨l, later, hlex, hlater, rfl⟩ := (lineTokens_eq_ok_iff hg).1 h
      have shorter := length_of_lexeme hlex
      exact token hg hlex hlater (lineTokens_induction nil gap token hlater)
termination_by cs.length

theorem isText_ofWord (s : String) : (TokenKind.ofWord s).isText = true := by
  unfold TokenKind.ofWord
  split <;> rfl

/-- A lexeme is a token with text, or else a comment, which ends the line. -/
theorem isText_of_lexeme {c : Char} {cs : List Char} {l : Lexeme} (h : lexeme c cs = .ok l) :
    l.kind.isText = true ∧ c ≠ '#' ∨ l.kind = .comment ∧ c = '#' ∧ l.rest = [] := by
  unfold lexeme at h
  split at h
  next hc => cases h; exact .inr ⟨rfl, hc, rfl⟩
  next hc =>
    refine .inl ⟨?_, hc⟩
    split at h
    · split at h <;> cases h
      rfl
    split at h
    · cases h
    split at h
    · split at h <;> cases h
      rfl
    split at h
    · cases h; rfl
    split at h
    · cases h; rfl
    split at h
    · cases h; exact isText_ofWord _
    · cases h; rfl

/-- A token of a line has text, or else it is a comment, and the last one. -/
theorem isText_or_last {line column : Nat} {c : Char} {cs : List Char} {l : Lexeme}
    {later : List Token} (h : lexeme c cs = .ok l)
    (hlater : lineTokens line column l.rest = .ok later) :
    l.kind.isText = true ∨ l.kind = .comment ∧ later = [] := by
  rcases isText_of_lexeme h with ⟨hk, -⟩ | ⟨hk, -, hnil⟩
  · exact .inl hk
  · rw [hnil, lineTokens] at hlater
    cases hlater
    exact .inr ⟨hk, rfl⟩

theorem isLayout_of_lexeme {c : Char} {cs : List Char} {l : Lexeme} (h : lexeme c cs = .ok l) :
    l.kind.isLayout = false := by
  rcases isText_of_lexeme h with ⟨hk, -⟩ | ⟨hk, -⟩
  · exact TokenKind.isLayout_of_isText hk
  · rw [hk]
    rfl

/-- The characters of a lexeme are those of its token. -/
theorem written_eq_sourceText {c : Char} {cs : List Char} {l : Lexeme} (h : lexeme c cs = .ok l)
    (line column : Nat) : c :: cs = (l.token line column).sourceText.toList ++ l.rest := by
  rw [← written_of_lexeme h, l.written_eq line column]

/-- A token is as wide as the characters that it takes from its line. -/
theorem length_eq_width_add {c : Char} {cs : List Char} {l : Lexeme} (h : lexeme c cs = .ok l)
    (line column : Nat) : (c :: cs).length = (l.token line column).width + l.rest.length := by
  rw [written_eq_sourceText h line column, List.length_append, String.length_toList,
    Token.length_sourceText (isLayout_of_lexeme h)]

theorem lt_endColumn_of_lexeme {c : Char} {cs : List Char} {l : Lexeme}
    (h : lexeme c cs = .ok l) (line column : Nat) :
    column < (l.token line column).endColumn := by
  have taken := length_eq_width_add h line column
  have left := length_of_lexeme h
  rw [List.length_cons] at taken
  exact Nat.lt_add_of_pos_right (by omega)

/-- The tokens of a line from some column behind the first on. -/
theorem laid_lineTokens {line column n : Nat} {cs : List Char} {tokens : List Token}
    (h : lineTokens line column cs = .ok tokens) (hcol : 1 < column) {t : Token}
    {later : List Token} (ht : t.kind = .newline) (hl : Laid (.start n true) later) :
    Laid (.inside n) (tokens ++ t :: later) := by
  induction h using lineTokens_induction with
  | nil => exact .ending ht hl
  | gap _ _ ih => exact ih (by omega)
  | @token column _ _ l _ _ hlex hlater ih =>
    have hlt := lt_endColumn_of_lexeme hlex line column
    rcases isText_or_last hlex hlater with hk | ⟨hk, rfl⟩
    · exact .more hk (Nat.ne_of_gt hcol) (ih (by omega))
    · exact .trailing hk (.remarkEnd ht hl)

/-- The tokens of a line that starts in this column. -/
theorem laid_lineTokens_start {line column n : Nat} {b : Bool} {c : Char} {cs : List Char}
    {tokens : List Token} (h : lineTokens line column (c :: cs) = .ok tokens)
    (hg : Text.isGap c = false) (hc : c ≠ '#') (hcol : 0 < column) (hn : n = 0 ↔ column = 1)
    {t : Token} {later : List Token} (ht : t.kind = .newline) (hl : Laid (.start n true) later) :
    Laid (.start n b) (tokens ++ t :: later) ∧
      (0 < n → Laid (.fresh n) (tokens ++ t :: later)) := by
  obtain ⟨l, rest, hlex, hrest, rfl⟩ := (lineTokens_eq_ok_iff hg).1 h
  have hlt := lt_endColumn_of_lexeme hlex line column
  obtain ⟨hk, -⟩ | ⟨-, hc', -⟩ := isText_of_lexeme hlex
  · have hin := laid_lineTokens hrest (by omega) ht hl
    exact ⟨.first hk hn hin, fun h0 => .opened hk (fun h1 => by
      have : n = 0 := hn.2 h1
      omega) hin⟩
  · exact absurd hc' hc

theorem column_le_of_mem_lineTokens {line column : Nat} {cs : List Char} {tokens : List Token}
    (h : lineTokens line column cs = .ok tokens) : ∀ t ∈ tokens, column ≤ t.position.column := by
  induction h using lineTokens_induction with
  | nil => exact List.forall_mem_nil _
  | gap _ _ ih => exact fun t ht => Nat.le_of_succ_le (ih t ht)
  | @token column _ _ l _ _ hlex _ ih =>
    have hlt := lt_endColumn_of_lexeme hlex line column
    rintro t (_ | ⟨_, ht⟩)
    · exact Nat.le_refl _
    · exact Nat.le_of_lt (Nat.lt_of_lt_of_le hlt (ih t ht))

/-- The tokens of a line that starts with content. -/
theorem lineTokens_cons_spec {line column : Nat} {c : Char} {cs : List Char} {tokens : List Token}
    (hg : Text.isGap c = false) (hc : c ≠ '#') (h : lineTokens line column (c :: cs) = .ok tokens) :
    ∃ k later, tokens = k :: later ∧ k.kind.isText = true ∧ k.position = ⟨line, column⟩ ∧
      ∀ t ∈ later, column < t.position.column := by
  obtain ⟨l, later, hlex, hl, rfl⟩ := (lineTokens_eq_ok_iff hg).1 h
  have hlt := lt_endColumn_of_lexeme hlex line column
  obtain ⟨hk, -⟩ | ⟨-, hc', -⟩ := isText_of_lexeme hlex
  · exact ⟨_, later, rfl, hk, rfl, fun t ht =>
      Nat.lt_of_lt_of_le hlt (column_le_of_mem_lineTokens hl t ht)⟩
  · exact absurd hc' hc

/-- What stands before the first word of a line: it opens a level, or closes some. -/
inductive Marks : List Token → Prop
  | opening {m : Token} : m.kind = .indent → Marks [m]
  | closing {marks : List Token} : (∀ m ∈ marks, m.kind = .dedent) → Marks marks

namespace Indentation

/-! ### Lines -/

/-- The tokens of a line without content. -/
def triviaTokens (number : Nat) (text : List Char) : List Token :=
  let lineEnd := Token.mark .newline number (text.length + 1)
  match text.dropWhile Text.isGap with
  | [] => [lineEnd]
  | _ :: comment =>
    [⟨.comment, String.ofList comment, ⟨number, (text.takeWhile Text.isGap).length + 1⟩⟩, lineEnd]

theorem line_of_trivia {text : List Char} (h : isContent text = false) (i : Indentation)
    (number : Nat) : i.line number text = .ok (triviaTokens number text, i) := by
  unfold isContent at h
  unfold line triviaTokens
  split at h
  next hd => simp [hd]
  next c cs hd =>
    obtain rfl : c = '#' := by simpa using h
    simp [hd]

/-- The tokens of a line that is a comment. -/
theorem line_of_remark {text note : List Char} (h : text.dropWhile Text.isGap = '#' :: note)
    (i : Indentation) (number : Nat) :
    i.line number text = .ok ([⟨.comment, String.ofList note,
      ⟨number, (text.takeWhile Text.isGap).length + 1⟩⟩,
      .mark .newline number (text.length + 1)], i) := by
  have hc : isContent text = false := by simp [isContent, h]
  rw [line_of_trivia hc, triviaTokens, h]

/-- The tokens of a line with content are what it opens or closes, its own tokens and its end. -/
theorem line_eq_ok_iff {text : List Char} (h : isContent text = true) {i j : Indentation}
    {number : Nat} {ts : List Token} :
    i.line number text = .ok (ts, j) ↔
      ∃ i' marks tokens, i.checkUnit (text.takeWhile Text.isGap) = some i' ∧
        i'.adjust number (text.takeWhile Text.isGap).length = .ok (marks, j) ∧
        lineTokens number ((text.takeWhile Text.isGap).length + 1)
          (text.dropWhile Text.isGap) = .ok tokens ∧
        ts = marks ++ (tokens ++ [.mark .newline number (text.length + 1)]) := by
  unfold isContent at h
  unfold line
  split
  next hd => simp [hd] at h
  next hd => simp [hd] at h
  next content hne =>
    simp only
    cases hu : i.checkUnit (text.takeWhile Text.isGap) with
    | none => simp
    | some i' =>
      simp only [Option.some.injEq, exists_and_left, exists_eq_left']
      rw [Except.bind_eq_ok_iff]
      constructor
      · rintro ⟨⟨marks, j'⟩, ha, hb⟩
        obtain ⟨tokens, ht, hp⟩ := Except.bind_eq_ok_iff.1 hb
        cases hp
        exact ⟨marks, ha, tokens, ht, by simp⟩
      · rintro ⟨marks, ha, tokens, ht, rfl⟩
        exact ⟨(marks, j), ha, Except.bind_eq_ok_iff.2 ⟨tokens, ht, by
          simp [pure, Except.pure]⟩⟩

theorem takeWhile_isGap_spec {text : List Char} (h : isContent text = true) :
    ∃ c cs, text.dropWhile Text.isGap = c :: cs ∧ Text.isGap c = false ∧ c ≠ '#' := by
  unfold isContent at h
  split at h
  next => cases h
  next c cs hd =>
    refine ⟨c, cs, hd, ?_, by simpa using h⟩
    have := List.head?_dropWhile_not Text.isGap text
    simpa [hd] using this

/-! ### Open levels -/

/-- Every open level is deeper than the margin. -/
def Sound (i : Indentation) : Prop := ∀ w ∈ i.levels, 0 < w

theorem sound_start : start.Sound := by simp [Sound, start]

theorem levels_checkUnit {i i' : Indentation} {gap : List Char} (h : i.checkUnit gap = some i') :
    i'.levels = i.levels := by
  unfold checkUnit at h
  split at h
  · cases h; rfl
  · split at h <;> cases h
    rfl

theorem width_eq_zero_iff {i : Indentation} (h : i.Sound) : i.width = 0 ↔ i.levels = [] := by
  unfold width
  cases hl : i.levels with
  | nil => simp
  | cons w ws =>
    have := h w (by simp [hl])
    simp
    omega

/-- A line opens one level, or it closes some. -/
theorem marks_adjust {i j : Indentation} {number width : Nat} {marks : List Token}
    (h : i.adjust number width = .ok (marks, j)) : Marks marks := by
  unfold adjust at h
  split at h
  · cases h
    exact .opening rfl
  · simp only at h
    split at h <;> cases h
    exact .closing (List.forall_mem_map.2 fun _ _ => rfl)

/-- The first word of a line with content stands behind the indentation of the line. -/
theorem exists_word_of_line {i j : Indentation} {number : Nat} {text : List Char}
    {ts : List Token} (hc : isContent text = true) (h : i.line number text = .ok (ts, j)) :
    ∃ marks word more, ts = marks ++ word :: more ∧ word.kind.isText = true ∧
      word.position = ⟨number, (text.takeWhile Text.isGap).length + 1⟩ ∧ Marks marks := by
  obtain ⟨_, marks, tokens, -, ha, ht, rfl⟩ := (line_eq_ok_iff hc).1 h
  obtain ⟨c, cs, hd, hg, hne⟩ := takeWhile_isGap_spec hc
  obtain ⟨word, more, rfl, htext, hpos, -⟩ := lineTokens_cons_spec hg hne (hd ▸ ht)
  exact ⟨marks, word, more ++ [.mark .newline number (text.length + 1)], by simp, htext, hpos,
    marks_adjust ha⟩

/-- Closing levels in front of a line. -/
theorem laid_dedents {number column n : Nat} {b : Bool} {later : List Token} (closed : List Nat)
    (h : ∀ c, Laid (.start n c) later) :
    Laid (.start (closed.length + n) b)
      (closed.map (fun _ => Token.mark .dedent number column) ++ later) := by
  induction closed generalizing b with
  | nil => simpa using h b
  | cons w closed ih =>
    rw [List.length_cons, Nat.add_right_comm]
    exact .closing rfl ih

theorem adjust_eq_ok {i j : Indentation} {number width : Nat} {marks : List Token} (hi : i.Sound)
    (h : i.adjust number width = .ok (marks, j)) :
    j.Sound ∧ (j.levels = [] ↔ width = 0) ∧
      (marks = [.mark .indent number (width + 1)] ∧ j.levels.length = i.levels.length + 1 ∨
        ∃ closed : List Nat, marks = closed.map (fun _ => .mark .dedent number (width + 1)) ∧
          i.levels.length = closed.length + j.levels.length) := by
  unfold adjust at h
  split at h
  next hw =>
    cases h
    refine ⟨fun w hw' => ?_, by simp; omega, .inl ⟨rfl, by simp⟩⟩
    rcases List.mem_cons.1 hw' with rfl | hw'
    · omega
    · exact hi w hw'
  next hw =>
    simp only at h
    split at h
    next hj =>
      cases h
      have hs : Sound { i with levels := i.levels.dropWhile (width < ·) } := fun w hw' =>
        hi w ((List.dropWhile_sublist _).mem hw')
      refine ⟨hs, ?_, .inr ⟨_, rfl, ?_⟩⟩
      · rw [← width_eq_zero_iff hs, hj]
      · rw [← List.length_append, List.takeWhile_append_dropWhile]
    next => cases h

theorem laid_triviaTokens {n number : Nat} {b : Bool} {text : List Char} {later : List Token}
    (h : Laid (.start n b) later) : Laid (.start n b) (triviaTokens number text ++ later) := by
  unfold triviaTokens
  split
  · exact .blank rfl h
  · exact .remark rfl (.remarkEnd rfl h)

/-- The tokens of a line keep the layout, where the open levels are the blocks around. -/
theorem laid_line {i j : Indentation} {number : Nat} {text : List Char} {ts : List Token}
    (hi : i.Sound) (h : i.line number text = .ok (ts, j)) :
    j.Sound ∧ ∀ {later}, Laid (.start j.levels.length true) later →
      Laid (.start i.levels.length true) (ts ++ later) := by
  cases hc : isContent text with
  | false =>
    rw [line_of_trivia hc] at h
    cases h
    exact ⟨hi, laid_triviaTokens⟩
  | true =>
    obtain ⟨i', marks, tokens, hu, ha, ht, rfl⟩ := (line_eq_ok_iff hc).1 h
    obtain ⟨c, cs, hd, hg, hne⟩ := takeWhile_isGap_spec hc
    have hi' : i'.Sound := by rw [Sound, levels_checkUnit hu]; exact hi
    obtain ⟨hj, hz, hm⟩ := adjust_eq_ok hi' ha
    refine ⟨hj, fun {later} hl => ?_⟩
    rw [hd] at ht
    rw [levels_checkUnit hu] at hm
    have hcol : j.levels.length = 0 ↔ (text.takeWhile Text.isGap).length + 1 = 1 := by
      rw [List.length_eq_zero_iff, hz]
      omega
    have hline : ∀ b, Laid (.start j.levels.length b)
        (tokens ++ .mark .newline number (text.length + 1) :: later) := fun b =>
      (laid_lineTokens_start ht hg hne (Nat.succ_pos _) hcol
        (t := .mark .newline number (text.length + 1)) rfl hl).1
    rcases hm with ⟨rfl, hlen⟩ | ⟨closed, rfl, hlen⟩
    · have hfresh := (laid_lineTokens_start (b := true) ht hg hne (Nat.succ_pos _) hcol
        (t := .mark .newline number (text.length + 1)) rfl hl).2
      rw [hlen] at hfresh
      simpa using Laid.deeper rfl (hfresh (by omega))
    · rw [hlen, List.append_assoc, List.append_assoc]
      exact laid_dedents closed hline

/-! ### Runs of lines -/

/-- The tokens of some lines, from the one with this number on, and the indentation behind
them. -/
def run (i : Indentation) (number : Nat) :
    List (List Char) → Except LexError (List Token × Indentation)
  | [] => .ok ([], i)
  | text :: texts => do
    let (tokens, i') ← i.line number text
    let (later, j) ← i'.run (number + 1) texts
    return (tokens ++ later, j)

theorem run_cons_eq_ok_iff {i j : Indentation} {number : Nat} {text : List Char}
    {texts : List (List Char)} {ts : List Token} :
    i.run number (text :: texts) = .ok (ts, j) ↔
      ∃ tokens i' later, i.line number text = .ok (tokens, i') ∧
        i'.run (number + 1) texts = .ok (later, j) ∧ ts = tokens ++ later := by
  rw [run, Except.bind_eq_ok_iff]
  constructor
  · rintro ⟨⟨tokens, i'⟩, h, h'⟩
    obtain ⟨⟨later, j'⟩, hr, hp⟩ := Except.bind_eq_ok_iff.1 h'
    cases hp
    exact ⟨tokens, i', later, h, hr, rfl⟩
  · rintro ⟨tokens, i', later, h, hr, rfl⟩
    exact ⟨(tokens, i'), h, Except.bind_eq_ok_iff.2 ⟨(later, j), hr, rfl⟩⟩

theorem run_append_eq_ok_iff {i j : Indentation} {number : Nat} {front back : List (List Char)}
    {ts : List Token} :
    i.run number (front ++ back) = .ok (ts, j) ↔
      ∃ tokens i' later, i.run number front = .ok (tokens, i') ∧
        i'.run (number + front.length) back = .ok (later, j) ∧ ts = tokens ++ later := by
  induction front generalizing i number ts with
  | nil =>
    simp only [List.nil_append, run, Except.ok.injEq, Prod.mk.injEq, List.length_nil]
    grind
  | cons text front ih =>
    simp only [List.cons_append, run_cons_eq_ok_iff, ih, List.length_cons,
      Nat.add_right_comm number]
    constructor
    · rintro ⟨tokens, i', _, h, ⟨ts', i'', later, h', h'', rfl⟩, rfl⟩
      exact ⟨_, i'', later, ⟨tokens, i', ts', h, h', rfl⟩, h'', by simp⟩
    · rintro ⟨_, i'', later, ⟨tokens, i', ts', h, h', rfl⟩, h'', rfl⟩
      exact ⟨tokens, i', _, h, ⟨ts', i'', later, h', h'', rfl⟩, by simp⟩

/-- Lines without content have no tokens but comments and ends of lines. -/
theorem isTrivia_run {i j : Indentation} {number : Nat} {texts : List (List Char)}
    {ts : List Token} (hn : ∀ l ∈ texts, isContent l = false)
    (h : i.run number texts = .ok (ts, j)) : ∀ t ∈ ts, t.kind.isTrivia = true := by
  induction texts generalizing number ts with
  | nil =>
    cases h
    exact List.forall_mem_nil _
  | cons text texts ih =>
    obtain ⟨htext, hn⟩ := List.forall_mem_cons.1 hn
    obtain ⟨tokens, i', later, hline, hrun, rfl⟩ := run_cons_eq_ok_iff.1 h
    rw [line_of_trivia htext] at hline
    cases hline
    refine List.forall_mem_append.2 ⟨?_, ih hn hrun⟩
    unfold triviaTokens
    split <;> simp [Token.mark, TokenKind.isTrivia]

theorem lines_eq_ok_iff {i : Indentation} {number : Nat} {texts : List (List Char)}
    {ts : List Token} :
    i.lines number texts = .ok ts ↔
      ∃ tokens j, i.run number texts = .ok (tokens, j) ∧
        ts = tokens ++ j.finish (number + texts.length - 1) := by
  induction texts generalizing i number ts with
  | nil =>
    simp only [lines, run, Except.ok.injEq, Prod.mk.injEq, List.length_nil]
    grind
  | cons text texts ih =>
    rw [lines, Except.bind_eq_ok_iff]
    simp only [run_cons_eq_ok_iff, List.length_cons]
    constructor
    · rintro ⟨⟨tokens, i'⟩, h, h'⟩
      obtain ⟨later, hl, hp⟩ := Except.bind_eq_ok_iff.1 h'
      cases hp
      obtain ⟨tokens', j, hr, rfl⟩ := ih.1 hl
      exact ⟨_, j, ⟨tokens, i', tokens', h, hr, rfl⟩, by
        simp [Nat.add_right_comm number, Nat.add_assoc]⟩
    · rintro ⟨_, j, ⟨tokens, i', tokens', h, hr, rfl⟩, rfl⟩
      refine ⟨(tokens, i'), h, Except.bind_eq_ok_iff.2 ⟨_, ih.2 ⟨tokens', j, hr, rfl⟩, ?_⟩⟩
      simp [pure, Except.pure, Nat.add_right_comm number, Nat.add_assoc]

/-- The tokens of some lines keep the layout. -/
theorem laid_run {i j : Indentation} {number : Nat} {texts : List (List Char)} {ts : List Token}
    (hi : i.Sound) (h : i.run number texts = .ok (ts, j)) :
    j.Sound ∧ ∀ {later}, Laid (.start j.levels.length true) later →
      Laid (.start i.levels.length true) (ts ++ later) := by
  induction texts generalizing i number ts with
  | nil =>
    cases h
    exact ⟨hi, fun h => h⟩
  | cons text texts ih =>
    obtain ⟨tokens, i', later, hline, hrun, rfl⟩ := run_cons_eq_ok_iff.1 h
    obtain ⟨hi', hl⟩ := laid_line hi hline
    obtain ⟨hj, hl'⟩ := ih hi' hrun
    refine ⟨hj, fun h => ?_⟩
    rw [List.append_assoc]
    exact hl (hl' h)

end Indentation

end FlowLang
