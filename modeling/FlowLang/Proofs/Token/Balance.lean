import FlowLang.Proofs.Token.Levels

/-!
# Layout tokens as the lines show them

A line opens a level, or closes some, as the widths of the gaps up to it demand, and nothing else
makes it inconsistent.  So the layout tokens of a source are its block structure, and they are
balanced.

* `Marked`, `marked_of_run` : the tokens of some lines, with what each line opens or closes.
* `exists_run_iff` : lines that can be read, told without reading them.
* `lines_eq_error_iff` : an error is that of the first line that has one.
* `Bracketed`, `bracketed_run` : the tokens of some lines never close more than is open.
* `layout_follows_widths` : all of this for a source.
-/

namespace FlowLang

/-! ### Tokens of some lines -/

/-- The tokens of some lines behind lines of these widths: what each line opens or closes, its
words, and its end. -/
inductive Marked : List Nat → Nat → List (List Char) → List Token → Prop
  | done {ws : List Nat} {number : Nat} : Marked ws number [] []
  | trivia {ws : List Nat} {number : Nat} {text : List Char} {texts : List (List Char)}
    {words ts : List Token} : isContent text = false → lineTokens number 1 text = .ok words →
    Marked ws (number + 1) texts ts →
    Marked ws number (text :: texts)
      (words ++ .mark .newline number (text.length + 1) :: ts)
  | content {ws : List Nat} {number : Nat} {text : List Char} {texts : List (List Char)}
    {marks words ts : List Token} : isContent text = true →
    Adjusts ws number (gapWidth text) (.ok marks) → lineTokens number 1 text = .ok words →
    Marked (ws ++ [gapWidth text]) (number + 1) texts ts →
    Marked ws number (text :: texts)
      (marks ++ (words ++ .mark .newline number (text.length + 1) :: ts))

theorem marked_of_run {texts more : List (List Char)} {i j : Indentation} {number : Nat}
    {ts : List Token} (h : Behind texts i) (hrun : i.run number more = .ok (ts, j)) :
    Marked (widths texts) number more ts := by
  induction more generalizing texts i number ts with
  | nil =>
    cases hrun
    exact .done
  | cons text more ih =>
    obtain ⟨tokens, i', later, hline, hrun', rfl⟩ := Indentation.run_cons_eq_ok_iff.1 hrun
    have hlater := ih (h.line hline) hrun'
    rw [widths_append] at hlater
    cases hc : isContent text with
    | false =>
      rw [widths_trivia hc, List.append_nil] at hlater
      rw [Indentation.line_of_trivia hc] at hline
      cases hline
      obtain ⟨words, hw, heq⟩ := Indentation.triviaTokens_eq hc number
      rw [heq, List.append_assoc]
      exact .trivia hc hw hlater
    | true =>
      rw [widths_content hc] at hlater
      obtain ⟨i₁, marks, words, hu, ha, hw, rfl⟩ := (Indentation.line_eq_ok_iff hc).1 hline
      have hadjust := (h.levels_checkUnit hu).adjust number (gapWidth text)
      rw [gapWidth, ha] at hadjust
      rw [List.append_assoc, List.append_assoc]
      refine .content hc hadjust.1 ?_ hlater
      rw [lineTokens_dropWhile, Nat.add_comm]
      exact hw

/-! ### Lines that can be read -/

/-- No line returns to a level that is not open. -/
def Consistent (texts : List (List Char)) : Prop :=
  ∀ front text back, texts = front ++ text :: back → isContent text = true →
    ¬ Inconsistent (widths front) (gapWidth text)

/-- The words of the line can be read. -/
def Spelled (text : List Char) : Prop := ∃ words, lineTokens 1 1 text = .ok words

theorem spelled_iff {text : List Char} (line : Nat) :
    Spelled text ↔ ∃ words, lineTokens line ((text.takeWhile Text.isGap).length + 1)
      (text.dropWhile Text.isGap) = .ok words := by
  rw [Nat.add_comm, ← lineTokens_dropWhile]
  constructor
  · rintro ⟨words, h⟩
    exact ⟨_, lineTokens_renumber (fun _ => line) h⟩
  · rintro ⟨words, h⟩
    exact ⟨_, lineTokens_renumber (fun _ => 1) h⟩

theorem consistent_concat {texts : List (List Char)} {text : List Char} :
    Consistent (texts ++ [text]) ↔ Consistent texts ∧
      (isContent text = true → ¬ Inconsistent (widths texts) (gapWidth text)) := by
  constructor
  · intro h
    refine ⟨fun front l back he hc => ?_, fun hc => h texts text [] rfl hc⟩
    exact h front l (back ++ [text]) (by rw [he]; simp) hc
  · rintro ⟨h, hlast⟩ front l back he hc
    rcases List.eq_nil_or_concat back with rfl | ⟨back, x, rfl⟩
    · obtain ⟨rfl, hl⟩ := List.append_inj' he rfl
      obtain rfl := List.singleton_inj.1 hl
      exact hlast hc
    · rw [List.concat_eq_append, ← List.cons_append, ← List.append_assoc] at he
      obtain ⟨rfl, -⟩ := List.append_inj' he rfl
      exact h front l back rfl hc

namespace Behind

variable {texts : List (List Char)} {text : List Char} {i j : Indentation} {number : Nat}

theorem uniform (h : Behind texts i) : Uniform texts := by
  cases hu : i.unit? with
  | none => exact ⟨' ', (h.unit ' ').1 (.inl hu)⟩
  | some c => exact ⟨c, (h.unit c).1 (.inr hu)⟩

/-- Whether the next line can be read. -/
theorem exists_line_iff (h : Behind texts i) :
    (∃ ts j, i.line number text = .ok (ts, j)) ↔
      Uniform (texts ++ [text]) ∧
        (isContent text = true → ¬ Inconsistent (widths texts) (gapWidth text)) ∧
        Spelled text := by
  cases hc : isContent text with
  | false =>
    obtain ⟨words, hw, -⟩ := Indentation.triviaTokens_eq hc 1
    have hread : Spelled text := ⟨words, hw⟩
    obtain ⟨c, hu⟩ := h.uniform
    have huniform : Uniform (texts ++ [text]) :=
      ⟨c, indentedBy_append.2 ⟨hu, by simp [IndentedBy, hc]⟩⟩
    rw [Indentation.line_of_trivia hc]
    refine iff_of_true ⟨_, _, rfl⟩ ⟨huniform, ?_, hread⟩
    intro h
    cases h
  | true =>
    rw [← h.exists_checkUnit_iff hc, spelled_iff number]
    constructor
    · rintro ⟨ts, j, hline⟩
      obtain ⟨i', marks, words, hu, ha, hw, -⟩ := (Indentation.line_eq_ok_iff hc).1 hline
      have hadjust := ((h.levels_checkUnit hu).adjust number (gapWidth text)).1
      rw [gapWidth, ha] at hadjust
      exact ⟨⟨i', hu⟩, fun _ => hadjust.consistent, words, hw⟩
    · rintro ⟨⟨i', hu⟩, hok, words, hw⟩
      have hadjust := ((h.levels_checkUnit hu).adjust number (gapWidth text)).1
      cases ha : i'.adjust number (gapWidth text) with
      | error e =>
        rw [ha] at hadjust
        exact absurd hadjust.inconsistent.1 (hok rfl)
      | ok r => exact ⟨_, r.2, (Indentation.line_eq_ok_iff hc).2 ⟨i', r.1, words, hu, ha, hw, rfl⟩⟩

end Behind

/-- Lines can be read if one character indents them, none is inconsistent, and the words of each
can be read. -/
theorem exists_run_iff {texts : List (List Char)} :
    (∃ ts i, Indentation.start.run 1 texts = .ok (ts, i)) ↔
      Uniform texts ∧ Consistent texts ∧ ∀ text ∈ texts, Spelled text := by
  -- from the end: what is known behind the other lines tells whether the last one can be read
  induction texts using List.reverseRecOn with
  | nil =>
    refine ⟨fun _ => ⟨⟨' ', by simp [IndentedBy]⟩, ?_, by simp⟩, fun _ => ⟨_, _, rfl⟩⟩
    intro front text back he
    simp at he
  | append_singleton texts text ih =>
    rw [consistent_concat, List.forall_mem_append, List.forall_mem_singleton]
    constructor
    · rintro ⟨_, j, hrun⟩
      obtain ⟨ts, i, later, hfront, hlast, rfl⟩ := Indentation.run_append_eq_ok_iff.1 hrun
      obtain ⟨us, i', _, hline, -, -⟩ := Indentation.run_cons_eq_ok_iff.1 hlast
      obtain ⟨-, hconsistent, hwords⟩ := ih.1 ⟨ts, i, hfront⟩
      have hbehind := Behind.of_run hfront
      obtain ⟨hu, hlevel, hword⟩ := hbehind.exists_line_iff.1 ⟨us, i', hline⟩
      exact ⟨hu, ⟨hconsistent, hlevel⟩, hwords, hword⟩
    · rintro ⟨hu, ⟨hconsistent, hlevel⟩, hwords, hword⟩
      obtain ⟨c, hc⟩ := hu
      obtain ⟨ts, i, hfront⟩ := ih.2 ⟨⟨c, (indentedBy_append.1 hc).1⟩, hconsistent, hwords⟩
      have hbehind := Behind.of_run hfront
      obtain ⟨us, j, hline⟩ : ∃ us j, i.line (1 + texts.length) text = .ok (us, j) :=
        hbehind.exists_line_iff.2 ⟨⟨c, hc⟩, hlevel, hword⟩
      exact ⟨_, j, Indentation.run_append_eq_ok_iff.2 ⟨ts, i, us ++ [], hfront,
        Indentation.run_cons_eq_ok_iff.2 ⟨us, j, [], hline, rfl, rfl⟩, rfl⟩⟩

/-! ### The first line that cannot be read -/

/-- The words of a line have other errors. -/
theorem cause_of_lexeme {c : Char} {cs : List Char} {cause : LexError.Cause}
    (h : lexeme c cs = .error cause) : cause ≠ .inconsistentDedent := by
  unfold lexeme at h
  grind

theorem cause_of_lineTokens {line column : Nat} {cs : List Char} {e : LexError}
    (h : lineTokens line column cs = .error e) : e.cause ≠ .inconsistentDedent := by
  fun_induction lineTokens line column cs generalizing e with
  | case1 => cases h
  | case2 _ _ _ _ ih => exact ih h
  | case3 _ _ _ _ cause hlex =>
    cases h
    exact cause_of_lexeme hlex
  | case4 =>
    rename_i hrest ih
    cases h
    exact ih hrest
  | case5 => cases h

namespace Indentation

variable {i : Indentation} {number : Nat} {text : List Char} {texts : List (List Char)}

/-- A line with content, read step by step. -/
theorem line_of_content (h : isContent text = true) (i : Indentation) (number : Nat) :
    i.line number text =
      match i.checkUnit (text.takeWhile Text.isGap) with
      | none => .error ⟨.mixedIndentation, number, 1⟩
      | some i' => do
        let (marks, j) ← i'.adjust number (gapWidth text)
        let words ← lineTokens number (gapWidth text + 1) (text.dropWhile Text.isGap)
        return (marks ++ words ++ [.mark .newline number (text.length + 1)], j) := by
  unfold isContent at h
  unfold line
  split
  next hd => simp [hd] at h
  next hd => simp [hd] at h
  next => rfl

/-- Only its level makes a line inconsistent. -/
theorem line_eq_inconsistent_iff {p : Position} :
    i.line number text = .error ⟨.inconsistentDedent, p⟩ ↔
      isContent text = true ∧ ∃ i', i.checkUnit (text.takeWhile Text.isGap) = some i' ∧
        i'.adjust number (gapWidth text) = .error ⟨.inconsistentDedent, p⟩ := by
  cases hc : isContent text with
  | false => simp [line_of_trivia hc]
  | true =>
    rw [line_of_content hc]
    cases i.checkUnit (text.takeWhile Text.isGap) with
    | none => simp
    | some i' =>
      cases ha : i'.adjust number (gapWidth text) with
      | error e => simp [ha, bind, Except.bind]
      | ok r =>
        cases hw : lineTokens number (gapWidth text + 1) (text.dropWhile Text.isGap) with
        | error e =>
          have := cause_of_lineTokens hw
          simp [ha, bind, Except.bind]
          rintro rfl
          exact this rfl
        | ok words => simp [ha, bind, Except.bind, pure, Except.pure]

/-- An error is that of the first line that has one. -/
theorem lines_eq_error_iff {e : LexError} :
    i.lines number texts = .error e ↔
      ∃ front text back ts i', texts = front ++ text :: back ∧
        i.run number front = .ok (ts, i') ∧ i'.line (number + front.length) text = .error e := by
  induction texts generalizing i number with
  | nil => simp [lines]
  | cons first texts ih =>
    cases hline : i.line number first with
    | error e' =>
      rw [lines, hline]
      constructor
      · intro h
        obtain rfl : e' = e := by simpa [bind, Except.bind] using h
        exact ⟨[], first, texts, [], i, rfl, rfl, hline⟩
      · rintro ⟨front, text, back, ts, i', he, hrun, htext⟩
        cases front with
        | nil =>
          cases he
          cases hrun
          obtain rfl : e' = e := by simpa [hline] using htext
          rfl
        | cons f front =>
          -- the first line would have been read
          cases he
          obtain ⟨_, _, _, hfirst, -, -⟩ := run_cons_eq_ok_iff.1 hrun
          rw [hline] at hfirst
          cases hfirst
    | ok r =>
      obtain ⟨tokens, i₁⟩ := r
      have hrest : i.lines number (first :: texts) = .error e ↔
          i₁.lines (number + 1) texts = .error e := by
        rw [lines, hline]
        refine (Except.bind_eq_error_iff (x := i₁.lines (number + 1) texts)).trans ?_
        simp [pure, Except.pure]
      rw [hrest, ih]
      constructor
      · rintro ⟨front, text, back, ts, i', rfl, hrun, htext⟩
        refine ⟨first :: front, text, back, tokens ++ ts, i', rfl,
          run_cons_eq_ok_iff.2 ⟨tokens, i₁, ts, hline, hrun, rfl⟩, ?_⟩
        rwa [List.length_cons, Nat.add_comm front.length, ← Nat.add_assoc]
      · rintro ⟨front, text, back, ts, i', he, hrun, htext⟩
        cases front with
        | nil =>
          cases he
          cases hrun
          rw [List.length_nil, Nat.add_zero, hline] at htext
          cases htext
        | cons f front =>
          cases he
          obtain ⟨_, _, ts', hfirst, hrun', -⟩ := run_cons_eq_ok_iff.1 hrun
          rw [hline] at hfirst
          cases hfirst
          refine ⟨front, text, back, ts', i', rfl, hrun', ?_⟩
          rwa [List.length_cons, Nat.add_comm front.length, ← Nat.add_assoc] at htext

end Indentation

/-- **The first line that returns to no open level** makes a source inconsistent, and nothing else
does. -/
theorem tokenize_eq_inconsistent_iff {source : String} {p : Position} :
    tokenize source = .error ⟨.inconsistentDedent, p⟩ ↔
      ∃ front text back, sourceLines source.toList = front ++ text :: back ∧
        p = ⟨front.length + 1, gapWidth text + 1⟩ ∧ isContent text = true ∧
        Inconsistent (widths front) (gapWidth text) ∧ Consistent front ∧
        Uniform (front ++ [text]) ∧ ∀ line ∈ front, Spelled line := by
  rw [tokenize, Indentation.lines_eq_error_iff]
  refine exists_congr fun front => exists_congr fun text => exists_congr fun back => ?_
  constructor
  · rintro ⟨ts, i, he, hrun, hline⟩
    have hbehind := Behind.of_run hrun
    obtain ⟨hc, i', hu, ha⟩ := Indentation.line_eq_inconsistent_iff.1 hline
    obtain ⟨-, hconsistent, hwords⟩ := exists_run_iff.1 ⟨ts, i, hrun⟩
    have hadjust := ((hbehind.levels_checkUnit hu).adjust (1 + front.length) (gapWidth text)).1
    rw [ha] at hadjust
    obtain ⟨hi, hp⟩ := hadjust.inconsistent
    obtain rfl : p = ⟨1 + front.length, gapWidth text + 1⟩ := congrArg LexError.position hp
    exact ⟨he, by rw [Nat.add_comm], hc, hi, hconsistent,
      (hbehind.exists_checkUnit_iff hc).1 ⟨i', hu⟩, hwords⟩
  · rintro ⟨he, rfl, hc, hi, hconsistent, ⟨c, hu⟩, hwords⟩
    obtain ⟨ts, i, hrun⟩ :=
      exists_run_iff.2 ⟨⟨c, (indentedBy_append.1 hu).1⟩, hconsistent, hwords⟩
    have hbehind := Behind.of_run hrun
    obtain ⟨i', hu'⟩ := (hbehind.exists_checkUnit_iff hc).2 ⟨c, hu⟩
    have hadjust := ((hbehind.levels_checkUnit hu').adjust (1 + front.length) (gapWidth text)).1
    refine ⟨ts, i, he, hrun, Indentation.line_eq_inconsistent_iff.2 ⟨hc, i', hu', ?_⟩⟩
    cases ha : i'.adjust (1 + front.length) (gapWidth text) with
    | error e =>
      rw [ha] at hadjust
      rw [hadjust.inconsistent.2, Nat.add_comm]
    | ok r =>
      rw [ha] at hadjust
      exact absurd hi hadjust.consistent

/-! ### Balance -/

/-- How many of these tokens are of this kind. -/
def countOf (kind : TokenKind) (ts : List Token) : Nat := ts.countP fun t => t.kind == kind

theorem countOf_append (kind : TokenKind) (ts us : List Token) :
    countOf kind (ts ++ us) = countOf kind ts + countOf kind us :=
  List.countP_append ..

theorem countOf_eq_zero {kind : TokenKind} {ts : List Token} (h : ∀ t ∈ ts, t.kind ≠ kind) :
    countOf kind ts = 0 :=
  List.countP_eq_zero.2 fun t ht => by simpa using h t ht

/-- These tokens lead from `n` open levels to `m`, and never close more than is open. -/
structure Bracketed (n m : Nat) (ts : List Token) : Prop where
  never : ∀ front, front <+: ts → countOf .dedent front ≤ n + countOf .indent front
  total : n + countOf .indent ts = m + countOf .dedent ts

namespace Bracketed

variable {n m k : Nat} {ts us : List Token}

theorem append (h : Bracketed n m ts) (h' : Bracketed m k us) : Bracketed n k (ts ++ us) where
  never := by
    intro front hf
    -- these tokens end among the first ones, or they are all of those and some more
    rcases List.prefix_or_prefix_of_prefix hf (List.prefix_append ts us) with hp | ⟨rest, rfl⟩
    · exact h.never front hp
    · have hr := h'.never rest ((List.prefix_append_right_inj ts).1 hf)
      have := h.total
      rw [countOf_append, countOf_append]
      omega
  total := by
    have := h.total
    have := h'.total
    rw [countOf_append, countOf_append]
    omega

/-- Tokens that neither open nor close a level. -/
theorem flat (h : ∀ t ∈ ts, t.kind ≠ .indent ∧ t.kind ≠ .dedent) : Bracketed n n ts where
  never front hf := by
    rw [countOf_eq_zero fun t ht => (h t (hf.subset ht)).2]
    exact Nat.zero_le _
  total := by
    rw [countOf_eq_zero fun t ht => (h t ht).1, countOf_eq_zero fun t ht => (h t ht).2]

/-- One token that opens a level. -/
theorem indent (line column : Nat) : Bracketed n (n + 1) [.mark .indent line column] where
  never front hf := by
    have hnone : countOf .dedent front = 0 := countOf_eq_zero fun t ht => by
      rw [List.mem_singleton.1 (hf.subset ht)]
      nofun
    omega
  total := rfl

/-- Tokens that close levels. -/
theorem dedents (closed : List Nat) (line column : Nat) :
    Bracketed (closed.length + n) n (closed.map fun _ => .mark .dedent line column) where
  never front hf := by
    have hlen := hf.length_le
    rw [List.length_map] at hlen
    have : countOf .dedent front ≤ front.length := List.countP_le_length
    omega
  total := by
    have hall : countOf .dedent (closed.map fun _ => Token.mark .dedent line column) =
        closed.length := by
      rw [countOf, List.countP_map]
      exact (List.countP_eq_length.2 fun _ _ => rfl)
    rw [hall, countOf_eq_zero fun t ht => ?_]
    · omega
    · obtain ⟨_, -, rfl⟩ := List.mem_map.1 ht
      nofun

end Bracketed

namespace Indentation

variable {i j : Indentation} {number : Nat} {text : List Char} {texts : List (List Char)}
  {ts : List Token}

/-- The words of a line and its end open and close nothing. -/
theorem flat_words {line column : Nat} {words : List Token}
    (h : lineTokens line column text = .ok words) (number endColumn n : Nat) :
    Bracketed n n (words ++ [.mark .newline number endColumn]) ∧
      countOf .newline (words ++ [.mark .newline number endColumn]) = 1 := by
  have hword : ∀ t ∈ words, ∀ kind : TokenKind, kind.isLayout = true → t.kind ≠ kind := by
    rintro t ht kind hk rfl
    rw [((lineTokens_ordered h).1 t ht).1] at hk
    cases hk
  refine ⟨.flat fun t ht => ?_, ?_⟩
  · rcases List.mem_append.1 ht with ht | ht
    · exact ⟨hword t ht _ rfl, hword t ht _ rfl⟩
    · rw [List.mem_singleton.1 ht]
      exact ⟨nofun, nofun⟩
  · rw [countOf_append, countOf_eq_zero fun t ht => hword t ht _ rfl]
    rfl

/-- A line leads from the levels open before it to those open behind it, and ends once. -/
theorem bracketed_line (hi : i.Sound) (h : i.line number text = .ok (ts, j)) :
    Bracketed i.levels.length j.levels.length ts ∧ countOf .newline ts = 1 := by
  cases hc : isContent text with
  | false =>
    rw [line_of_trivia hc] at h
    cases h
    obtain ⟨words, hw, heq⟩ := triviaTokens_eq hc number
    rw [heq]
    exact flat_words hw _ _ _
  | true =>
    obtain ⟨i', marks, words, hu, ha, hw, rfl⟩ := (line_eq_ok_iff hc).1 h
    have hi' : i'.Sound := by rw [Sound, levels_checkUnit hu]; exact hi
    obtain ⟨-, -, hmarks⟩ := adjust_eq_ok hi' ha
    rw [levels_checkUnit hu] at hmarks
    obtain ⟨hflat, hend⟩ := flat_words hw number (text.length + 1) j.levels.length
    rw [countOf_append, hend]
    rcases hmarks with ⟨rfl, hlen⟩ | ⟨closed, rfl, hlen⟩
    · exact ⟨(hlen ▸ Bracketed.indent _ _).append hflat, rfl⟩
    · refine ⟨(hlen ▸ Bracketed.dedents closed _ _).append hflat, ?_⟩
      rw [countOf_eq_zero fun t ht => ?_]
      obtain ⟨_, -, rfl⟩ := List.mem_map.1 ht
      intro hk
      cases hk

/-- Some lines lead from the levels open before them to those open behind them. -/
theorem bracketed_run (hi : i.Sound) (h : i.run number texts = .ok (ts, j)) :
    Bracketed i.levels.length j.levels.length ts ∧ countOf .newline ts = texts.length := by
  induction texts generalizing i number ts with
  | nil =>
    cases h
    exact ⟨.flat (by simp), rfl⟩
  | cons text texts ih =>
    obtain ⟨tokens, i', later, hline, hrun, rfl⟩ := run_cons_eq_ok_iff.1 h
    obtain ⟨hfirst, hend⟩ := bracketed_line hi hline
    obtain ⟨hlater, hends⟩ := ih (laid_line hi hline).1 hrun
    refine ⟨hfirst.append hlater, ?_⟩
    rw [countOf_append, hend, hends, List.length_cons, Nat.add_comm]

end Indentation

/-! ### Sources -/

/-- These are the tokens of these lines, with layout tokens as the widths demand. -/
structure Structured (lines : List (List Char)) (tokens : List Token) : Prop where
  /-- Each line opens or closes what its width demands, and in the end every level is closed. -/
  marked : ∃ (ts : List Token) (closed : List Nat),
    tokens = ts ++ (closed.map fun _ => .mark .dedent lines.length 1) ++
      [.mark .eof lines.length 1] ∧
    Marked [] 1 lines ts ∧ closed.Nodup ∧ ∀ v, v ∈ closed ↔ IsOpen (widths lines) v ∧ 0 < v
  /-- No more levels are closed than have been opened. -/
  never : ∀ front, front <+: tokens → countOf .dedent front ≤ countOf .indent front
  total : countOf .indent tokens = countOf .dedent tokens
  newlines : countOf .newline tokens = lines.length
  /-- The input ends once, behind everything else. -/
  ends : ∃ front last, tokens = front ++ [last] ∧ last.kind = .eof ∧ ∀ t ∈ front, t.kind ≠ .eof

theorem structured_of_tokenize {source : String} {tokens : List Token}
    (h : tokenize source = .ok tokens) : Structured (sourceLines source.toList) tokens := by
  obtain ⟨ts, j, hrun, rfl⟩ := tokenize_eq_ok_iff.1 h
  have hlast : (splitLines source.toList).length = (sourceLines source.toList).length :=
    (List.length_map _).symm
  rw [← sourceLines] at hrun
  rw [hlast, Indentation.finish_eq]
  generalize sourceLines source.toList = lines at *
  have hbehind := Behind.of_run hrun
  obtain ⟨hbracketed, hnewlines⟩ := Indentation.bracketed_run Indentation.sound_start hrun
  have hstart : Indentation.start.levels.length = 0 := rfl
  rw [hstart] at hbracketed
  have hclosing : Bracketed j.levels.length 0 (j.closing lines.length) :=
    .dedents (n := 0) j.levels _ _
  have hend : Bracketed 0 0 [Token.mark .eof lines.length 1] := .flat fun t ht => by
    rw [List.mem_singleton.1 ht]
    constructor <;> intro hk <;> cases hk
  have hall := hbracketed.append (hclosing.append hend)
  have hnone : countOf .newline (j.closing lines.length) = 0 := countOf_eq_zero fun t ht => by
    obtain ⟨_, -, rfl⟩ := List.mem_map.1 ht
    intro hk
    cases hk
  refine ⟨⟨ts, j.levels, by rw [List.append_assoc]; rfl, marked_of_run Behind.start hrun, ?_,
    hbehind.levels.mem_iff⟩, ?_, ?_, ?_, ?_⟩
  · exact hbehind.levels.sorted.imp fun hgt => Nat.ne_of_gt hgt
  · simpa using hall.never
  · simpa using hall.total
  · rw [countOf_append, countOf_append, hnewlines, hnone]
    rfl
  · refine ⟨ts ++ j.closing lines.length, _, (List.append_assoc _ _ _).symm, rfl, fun t ht => ?_⟩
    exact (Indentation.laid_of_run hrun lines.length).kind_ne_eof t ht

/-- **Layout tokens are the block structure that the widths declare.**  A line opens or closes what
the lines before it demand, whatever comes behind; the first line that returns to no open level
makes the source inconsistent, and nothing else does; and the tokens of a source without errors are
structured throughout. -/
theorem layout_follows_widths (source : String) :
    (∀ front text back ts i i', sourceLines source.toList = front ++ text :: back →
      isContent text = true → Indentation.start.run 1 front = .ok (ts, i) →
      i.checkUnit (text.takeWhile Text.isGap) = some i' →
      Adjusts (widths front) (front.length + 1) (gapWidth text)
        ((i'.adjust (front.length + 1) (gapWidth text)).map Prod.fst)) ∧
    (∀ p, tokenize source = .error ⟨.inconsistentDedent, p⟩ ↔
      ∃ front text back, sourceLines source.toList = front ++ text :: back ∧
        p = ⟨front.length + 1, gapWidth text + 1⟩ ∧ isContent text = true ∧
        Inconsistent (widths front) (gapWidth text) ∧ Consistent front ∧
        Uniform (front ++ [text]) ∧ ∀ line ∈ front, Spelled line) ∧
    ∀ tokens, tokenize source = .ok tokens → Structured (sourceLines source.toList) tokens := by
  refine ⟨?_, fun _ => tokenize_eq_inconsistent_iff, fun _ => structured_of_tokenize⟩
  intro front text back ts i i' _ _ hrun hu
  have hbehind := Behind.of_run hrun
  exact ((hbehind.levels_checkUnit hu).adjust _ _).1

/-- Two levels that are closed at once behind a blank line, and a line between two levels. -/
theorem layout_follows_widths_steps :
    (∃ tokens, tokenize "workflow W():\n  if (a):\n      b\n\n  c" = .ok tokens ∧
      (tokens.filter fun t => t.kind == .indent || t.kind == .dedent) =
        [.mark .indent 2 3, .mark .indent 3 7, .mark .dedent 5 3, .mark .dedent 5 1] ∧
      Structured (sourceLines "workflow W():\n  if (a):\n      b\n\n  c".toList) tokens) ∧
    ∃ front text back,
      sourceLines "workflow W():\n    a\n# b\n  c".toList = front ++ text :: back ∧
      front.length = 3 ∧ Inconsistent (widths front) (gapWidth text) := by
  obtain ⟨-, -, hok⟩ := layout_follows_widths "workflow W():\n  if (a):\n      b\n\n  c"
  obtain ⟨-, herror, -⟩ := layout_follows_widths "workflow W():\n    a\n# b\n  c"
  have read : (tokenize "workflow W():\n  if (a):\n      b\n\n  c").toOption.map
      (List.filter fun t => t.kind == .indent || t.kind == .dedent) =
        some [.mark .indent 2 3, .mark .indent 3 7, .mark .dedent 5 3, .mark .dedent 5 1] := by
    decide +kernel
  obtain ⟨tokens, ht, hmarks⟩ := Option.map_eq_some_iff.1 read
  replace ht := Except.eq_ok_of_toOption ht
  refine ⟨⟨tokens, ht, hmarks, hok tokens ht⟩, ?_⟩
  have fails : tokenize "workflow W():\n    a\n# b\n  c" =
      .error ⟨.inconsistentDedent, ⟨4, 3⟩⟩ := by decide +kernel
  obtain ⟨front, text, back, he, hp, -, hi, -⟩ := (herror _).1 fails
  exact ⟨front, text, back, he, (Nat.succ.inj (congrArg Position.line hp)).symm, hi⟩

end FlowLang
