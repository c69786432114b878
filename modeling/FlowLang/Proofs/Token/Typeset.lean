import FlowLang.Proofs.Recovery.Chunks
import FlowLang.Proofs.Token.Image
import FlowLang.Proofs.Token.Lexeme
import Mathlib.Data.List.Forall2

/-!
# Tokens written where they stand

The tokens of a source hold all of it but its gaps.  Writing each of them at its line and column,
with spaces in between, gives a text with the same tokens.

* `typesetLine`, `typeset` : some tokens written where they stand.
* `Respaced` : the same characters, but for gaps that are now spaces.
* `lineTokens_typesetLine` : the tokens of a line that is written again.
* `Indentation.line_typesetLine`, `Indentation.run_typeset` : lines that are written again, behind
  others that are.
* `tokens_depict_source` : the tokens of a source are an image of it.
-/

namespace FlowLang

open Text

/-- Some tokens of a line, each written at its column; the first character is in this column. -/
def typesetLine (column : Nat) : List Token → List Char
  | [] => []
  | t :: ts =>
    List.replicate (t.position.column - column) ' ' ++
      (t.sourceText.toList ++ typesetLine t.endColumn ts)

/-- The tokens, each written at its line and column, with spaces in all gaps. -/
def typeset (tokens : List Token) : String :=
  String.ofList (joinLines ((List.range (inputEnd tokens).line).map fun k =>
    typesetLine 1 (tokensOn (k + 1) tokens)))

/-! ### Gaps -/

/-- The same characters, but for gaps that are now spaces. -/
def Respaced (cs ds : List Char) : Prop :=
  List.Forall₂ (fun c d => d = c ∨ isGap c = true ∧ d = ' ') cs ds

namespace Respaced

variable {cs ds : List Char}

theorem refl (cs : List Char) : Respaced cs cs := by
  induction cs with
  | nil => exact .nil
  | cons c cs ih => exact .cons (.inl rfl) ih

theorem append {cs' ds' : List Char} (h : Respaced cs ds) (h' : Respaced cs' ds') :
    Respaced (cs ++ cs') (ds ++ ds') :=
  List.rel_append h h'

theorem length_eq (h : Respaced cs ds) : ds.length = cs.length := (List.Forall₂.length_eq h).symm

theorem mem {d : Char} (h : Respaced cs ds) (hd : d ∈ ds) : d ∈ cs ∨ d = ' ' := by
  induction h with
  | nil => cases hd
  | cons hc _ ih =>
    rcases List.mem_cons.1 hd with rfl | hd
    · rcases hc with rfl | ⟨-, rfl⟩
      · exact .inl List.mem_cons_self
      · exact .inr rfl
    · exact (ih hd).imp_left (List.mem_cons_of_mem _)

/-- The first character, unless it is a gap. -/
theorem head {c : Char} (h : Respaced (c :: cs) ds) (hc : isGap c = false) :
    ∃ ds', ds = c :: ds' ∧ Respaced cs ds' := by
  cases h with
  | cons hd ht =>
    rcases hd with rfl | ⟨hg, -⟩
    · exact ⟨_, rfl, ht⟩
    · rw [hc] at hg
      cases hg

theorem head?_isWordChar (h : Respaced cs ds) (hw : ∀ c ∈ cs.head?, isWordChar c = false) :
    ∀ d ∈ ds.head?, isWordChar d = false := by
  cases h with
  | nil => simp
  | cons hd _ =>
    rintro d ⟨⟩
    rcases hd with rfl | ⟨-, rfl⟩
    · exact hw _ rfl
    · decide

theorem head?_eq (h : Respaced cs ds) {c : Char} (hc : isGap c = false) (hs : c ≠ ' ') :
    (ds.head? == some c) = (cs.head? == some c) := by
  cases h with
  | nil => rfl
  | @cons a d _ _ hd _ =>
    rcases hd with rfl | ⟨hg, rfl⟩
    · rfl
    · have hne : a ≠ c := by
        rintro rfl
        rw [hc] at hg
        cases hg
      simp [hne, Ne.symm hs]

/-- What continues no symbol still continues none. -/
theorem symbolRun (h : Respaced cs ds) (hs : (symbolRun cs).1 = []) :
    (FlowLang.symbolRun ds).1 = [] := by
  cases h with
  | nil => rfl
  | @cons c d cs ds hd ht =>
    rcases hd with rfl | ⟨-, rfl⟩
    · have harrow := head?_eq ht (c := '>') (by decide) (by decide)
      unfold FlowLang.symbolRun at hs ⊢
      rw [harrow]
      split at hs
      · cases hs
      next hd => rw [if_neg hd]
    · have hspace : isSymbolChar ' ' = false := by decide
      simp [FlowLang.symbolRun, hspace]

end Respaced

/-- A lexeme takes the same characters when the gaps behind it are changed. -/
theorem IsLexeme.respaced {c : Char} {cs ds : List Char} {l : Lexeme} (h : IsLexeme c cs l)
    (hr : Respaced l.rest ds) (line column : Nat) :
    ∃ cs', (l.token line column).sourceText.toList = c :: cs' ∧
      IsLexeme c (cs' ++ ds) ⟨l.kind, l.literal, ds⟩ := by
  obtain ⟨cs', h'⟩ := h.alone
  have hw := written_eq_sourceText h'.lexeme_eq line column
  rw [List.append_nil] at hw
  refine ⟨cs', hw.symm, ?_⟩
  by_cases hk : l.kind = .comment
  · -- nothing is behind a comment
    rcases isText_of_lexeme h.lexeme_eq with ⟨ht, -⟩ | ⟨-, -, hnil⟩
    · simp [hk, TokenKind.isText] at ht
    · rw [hnil] at hr
      cases hr
      rwa [List.append_nil]
  · obtain ⟨hword, hsymbol⟩ := h.ends hk
    exact h'.append hk (fun hc => hr.head?_isWordChar (hword hc)) fun hs =>
      hr.symbolRun (hsymbol hs)

/-! ### One line -/

theorem typesetLine_cons (column : Nat) (t : Token) (ts : List Token) :
    typesetLine column (t :: ts) = List.replicate (t.position.column - column) ' ' ++
      (t.sourceText.toList ++ typesetLine t.endColumn ts) := rfl

/-- Tokens further to the right are written behind spaces. -/
theorem typesetLine_add {column n : Nat} {t : Token} (h : column + n ≤ t.position.column)
    (ts : List Token) : typesetLine column (t :: ts) =
      List.replicate n ' ' ++ typesetLine (column + n) (t :: ts) := by
  rw [typesetLine_cons, typesetLine_cons, ← List.append_assoc, ← List.append_assoc,
    ← List.append_assoc, List.replicate_append_replicate,
    show t.position.column - column = n + (t.position.column - (column + n)) by omega]

/-- The tokens of a line that is written again, up to its end. -/
theorem lineTokens_typesetLine {line column : Nat} {cs : List Char} {tokens : List Token}
    (h : lineTokens line column cs = .ok tokens) :
    Respaced cs
        (typesetLine column (tokens ++ [.mark .newline line (column + cs.length)])) ∧
      lineTokens line column
          (typesetLine column (tokens ++ [.mark .newline line (column + cs.length)])) =
        .ok tokens := by
  induction h using lineTokens_induction with
  | @nil column =>
    have : typesetLine column [.mark .newline line column] = [] := by
      simp [typesetLine, Token.mark, Token.sourceText]
    rw [List.length_nil, Nat.add_zero, List.nil_append, this, lineTokens]
    exact ⟨.nil, rfl⟩
  | @gap column c cs tokens hg h ih =>
    obtain ⟨hr, ht⟩ := ih
    have hlen : column + (c :: cs).length = column + 1 + cs.length := by
      rw [List.length_cons]
      omega
    -- The first token is further to the right, be it only the end of the line.
    obtain ⟨t, ts, hts, hcol⟩ : ∃ t ts,
        tokens ++ [.mark .newline line (column + 1 + cs.length)] = t :: ts ∧
          column + 1 ≤ t.position.column := by
      cases tokens with
      | nil => exact ⟨_, [], rfl, Nat.le_add_right _ _⟩
      | cons t ts =>
        exact ⟨t, _, rfl, column_le_of_mem_lineTokens h t List.mem_cons_self⟩
    rw [hts] at hr ht
    rw [hlen, hts, typesetLine_add hcol, List.replicate_one, List.singleton_append,
      lineTokens_gap rfl]
    exact ⟨.cons (.inr ⟨hg, rfl⟩) hr, ht⟩
  | @token column c cs l rest hg hlex _ ih =>
    obtain ⟨hr, ht⟩ := ih
    have hlen : column + (c :: cs).length = (l.token line column).endColumn + l.rest.length := by
      rw [length_eq_width_add hlex line column, ← Nat.add_assoc]
      rfl
    obtain ⟨cs', hcs', hl⟩ := (isLexeme_of_lexeme hlex).respaced hr line column
    rw [hlen, List.cons_append, typesetLine_cons]
    rw [show (l.token line column).position.column - column = 0 from Nat.sub_self column,
      List.replicate_zero, List.nil_append]
    refine ⟨?_, ?_⟩
    · rw [written_eq_sourceText hlex line column]
      exact (Respaced.refl _).append hr
    · rw [hcs', List.cons_append]
      exact (lineTokens_eq_ok_iff hg).2 ⟨_, rest, hl.lexeme_eq, ht, rfl⟩

/-- Tokens without text write nothing. -/
theorem typesetLine_marks {column c : Nat} {marks : List Token} {t : Token} {ts : List Token}
    (h : ∀ m ∈ marks, m.sourceText = "" ∧ m.position.column = c ∧ m.width = 0)
    (hle : column ≤ c) (hc : c ≤ t.position.column) :
    typesetLine column (marks ++ t :: ts) = typesetLine column (t :: ts) := by
  induction marks generalizing column with
  | nil => rfl
  | cons m marks ih =>
    obtain ⟨⟨htext, hcol, hw⟩, hm⟩ := List.forall_mem_cons.1 h
    have hend : m.endColumn = c := by rw [Token.endColumn, hcol, hw, Nat.add_zero]
    have hspaces : column + (c - column) = c := by omega
    have hspread : typesetLine column (t :: ts) =
        List.replicate (c - column) ' ' ++ typesetLine c (t :: ts) := by
      rw [typesetLine_add (n := c - column) (by omega), hspaces]
    rw [List.cons_append, typesetLine_cons, htext, hcol, hend, ih hm (Nat.le_refl c), hspread]
    rfl

/-- What only closes levels and ends the input writes nothing. -/
theorem typesetLine_append {column : Nat} {ts after : List Token} (hcol : 1 ≤ column)
    (hts : ∀ t ∈ ts, 1 ≤ t.position.column)
    (h : ∀ t ∈ after, t.sourceText = "" ∧ t.position.column = 1 ∧ t.width = 0) :
    typesetLine column (ts ++ after) = typesetLine column ts := by
  induction ts generalizing column with
  | nil =>
    rw [List.nil_append]
    induction after generalizing column with
    | nil => rfl
    | cons t after ih =>
      obtain ⟨⟨htext, ht, hw⟩, hafter⟩ := List.forall_mem_cons.1 h
      rw [typesetLine_cons, htext, ht, Nat.sub_eq_zero_of_le hcol, Token.endColumn, ht, hw,
        ih hafter (Nat.le_refl 1)]
      rfl
  | cons t ts ih =>
    obtain ⟨ht, hts'⟩ := List.forall_mem_cons.1 hts
    have hend : 1 ≤ t.endColumn := Nat.le_add_right_of_le ht
    rw [List.cons_append, typesetLine_cons, typesetLine_cons, ih hend hts']

/-- Where the gap of a line that is written again ends. -/
theorem Respaced.split {text rest : List Char} (h : Respaced (text.dropWhile isGap) rest)
    (n : Nat) :
    (List.replicate n ' ' ++ rest).takeWhile isGap = List.replicate n ' ' ∧
      (List.replicate n ' ' ++ rest).dropWhile isGap = rest ∧
      isContent (List.replicate n ' ' ++ rest) = isContent text := by
  have hspaces : ∀ c ∈ List.replicate n ' ', isGap c = true := by
    intro c hc
    rw [List.eq_of_mem_replicate hc]
    rfl
  have hnext : rest.takeWhile isGap = [] ∧ rest.dropWhile isGap = rest ∧
      rest.head? = (text.dropWhile isGap).head? := by
    have hstop := List.head?_dropWhile_not isGap text
    cases hd : text.dropWhile isGap with
    | nil =>
      rw [hd] at h
      cases h
      exact ⟨rfl, rfl, rfl⟩
    | cons c cs =>
      rw [hd] at h hstop
      have hc : isGap c = false := by simpa using hstop
      obtain ⟨ds, rfl, -⟩ := h.head hc
      exact ⟨List.takeWhile_cons_of_neg (by simp [hc]), List.dropWhile_cons_of_neg (by simp [hc]),
        rfl⟩
  obtain ⟨htake, hdrop, hhead⟩ := hnext
  have hdrop' : (List.replicate n ' ' ++ rest).dropWhile isGap = rest := by
    rw [List.dropWhile_append_of_pos hspaces, hdrop]
  refine ⟨by rw [List.takeWhile_append_of_pos hspaces, htake, List.append_nil], hdrop', ?_⟩
  unfold isContent
  rw [hdrop']
  cases hd : text.dropWhile isGap with
  | nil =>
    rw [hd] at hhead
    rw [List.head?_eq_none_iff.1 hhead]
  | cons c cs =>
    rw [hd] at hhead
    obtain ⟨ds, rfl⟩ := List.head?_eq_some_iff.1 hhead
    rfl

/-! ### All lines -/

namespace Indentation

variable {i j i' : Indentation} {number : Nat} {text : List Char} {texts : List (List Char)}
  {ts : List Token}

/-- A line that is written again: spaces, and then its tokens where they were. -/
theorem typesetLine_of_line (h : i.line number text = .ok (ts, j)) :
    ∃ tokens rest, lineTokens number ((text.takeWhile isGap).length + 1)
        (text.dropWhile isGap) = .ok tokens ∧
      typesetLine 1 ts = List.replicate (text.takeWhile isGap).length ' ' ++ rest ∧
      Respaced (text.dropWhile isGap) rest ∧
      lineTokens number ((text.takeWhile isGap).length + 1) rest = .ok tokens := by
  obtain ⟨marks, tokens, ht, rfl, hkind, hplace⟩ := line_eq h
  rw [lineTokens_dropWhile, Nat.add_comm 1] at ht
  obtain ⟨hr, hrest⟩ := lineTokens_typesetLine ht
  generalize hgap : (text.takeWhile isGap).length = gap at *
  have hlen : text.length + 1 = gap + 1 + (text.dropWhile isGap).length := by
    rw [← hgap, Nat.add_right_comm, ← List.length_append, List.takeWhile_append_dropWhile]
  rw [← hlen] at hr hrest
  refine ⟨tokens, _, ht, ?_, hr, hrest⟩
  -- the first of the words and the end of the line stands behind the gap
  obtain ⟨t, more, hmore, hcol⟩ : ∃ t more,
      tokens ++ [.mark .newline number (text.length + 1)] = t :: more ∧
        gap + 1 ≤ t.position.column := by
    cases tokens with
    | nil => exact ⟨_, [], rfl, by simp only [Token.mark]; omega⟩
    | cons t more => exact ⟨t, _, rfl, column_le_of_mem_lineTokens ht t List.mem_cons_self⟩
  have hmarks : ∀ m ∈ marks, m.sourceText = "" ∧ m.position.column = gap + 1 ∧ m.width = 0 := by
    intro m hm
    obtain ⟨hl, hp⟩ := hplace m hm
    rcases hkind m hm with hk | hk <;>
      simp [Token.sourceText, Token.width, TokenKind.isLayout, hk, hl, hp]
  rw [hmore, typesetLine_marks hmarks (by omega) hcol,
    typesetLine_add (n := gap) (by omega), Nat.add_comm 1]

/-- A line that is written again has the same tokens, behind lines that are written again. -/
theorem line_typesetLine (h : i.line number text = .ok (ts, j)) (ha : Admits ' ' i i') :
    (∀ c ∈ typesetLine 1 ts, c ∈ text ∨ c = ' ') ∧
      ∃ j', i'.line number (typesetLine 1 ts) = .ok (ts, j') ∧ Admits ' ' j j' := by
  obtain ⟨tokens, rest, ht, hline, hr, hrest⟩ := typesetLine_of_line h
  obtain ⟨htake, hdrop, hcontent⟩ := hr.split (text.takeWhile isGap).length
  have hlen : (typesetLine 1 ts).length = text.length := by
    rw [hline, List.length_append, List.length_replicate, hr.length_eq, ← List.length_append,
      List.takeWhile_append_dropWhile]
  rw [← hline] at htake hdrop hcontent
  refine ⟨fun c hc => ?_, ?_⟩
  · rw [hline] at hc
    rcases List.mem_append.1 hc with hc | hc
    · exact .inr (List.eq_of_mem_replicate hc)
    · exact (hr.mem hc).imp_left fun hm => (List.dropWhile_sublist _).mem hm
  · have hgap : ((typesetLine 1 ts).takeWhile isGap).length = (text.takeWhile isGap).length := by
      rw [htake, List.length_replicate]
    cases hc : isContent text with
    | false =>
      rw [line_of_trivia hc] at h
      cases h
      -- Both lines are their own tokens and an end in the same column.
      obtain ⟨us, hus, heq⟩ := triviaTokens_eq hc number
      obtain ⟨us', hus', heq'⟩ := triviaTokens_eq (hcontent.trans hc) number
      rw [lineTokens_dropWhile, Nat.add_comm 1, ht] at hus
      rw [lineTokens_dropWhile, hgap, hdrop, Nat.add_comm 1, hrest] at hus'
      cases hus
      cases hus'
      refine ⟨i', ?_, ha⟩
      rw [line_of_trivia (hcontent.trans hc), heq', hlen, ← heq]
    | true =>
      obtain ⟨i₁, marks, us, hu, hadjust, hus, rfl⟩ := (line_eq_ok_iff hc).1 h
      rw [ht] at hus
      cases hus
      have hspaces : ∀ d ∈ (typesetLine 1 (marks ++ (tokens ++ [.mark .newline number
          (text.length + 1)]))).takeWhile isGap, d = ' ' := by
        rw [htake]
        exact fun d hd => List.eq_of_mem_replicate hd
      obtain ⟨j₁, hu', ha₁⟩ := checkUnit_of_admits ha hspaces
      have ha' : Admits ' ' i₁ j₁ := ⟨ha₁.1.trans (levels_checkUnit hu).symm, ha₁.2⟩
      obtain ⟨j', hadjust', hj⟩ := adjust_of_admits ha' hadjust
      refine ⟨j', (line_eq_ok_iff (hcontent.trans hc)).2 ⟨j₁, marks, tokens, hu', ?_, ?_, ?_⟩, hj⟩
      · rw [hgap]
        exact hadjust'
      · rw [hgap, hdrop]
        exact hrest
      · rw [hlen]

/-- Lines that are written again have the same tokens. -/
theorem run_typeset (h : i.run number texts = .ok (ts, j)) (ha : Admits ' ' i i') :
    (∀ k < texts.length, ∀ c ∈ typesetLine 1 (tokensOn (number + k) ts),
      (∃ text ∈ texts, c ∈ text) ∨ c = ' ') ∧
      ∃ j', i'.run number ((List.range texts.length).map fun k =>
        typesetLine 1 (tokensOn (number + k) ts)) = .ok (ts, j') ∧ Admits ' ' j j' := by
  induction texts generalizing i i' number ts with
  | nil =>
    cases h
    exact ⟨by simp, i', rfl, ha⟩
  | cons text texts ih =>
    obtain ⟨tokens, i₁, later, hline, hrun, rfl⟩ := run_cons_eq_ok_iff.1 h
    obtain ⟨hchars, i₁', hline', ha₁⟩ := line_typesetLine hline ha
    obtain ⟨hmore, j', hrun', hj⟩ := ih hrun ha₁
    -- the tokens of the first line are those with its number, and no later one has it
    have hfirst : tokensOn (number + 0) (tokens ++ later) = tokens := by
      rw [Nat.add_zero, tokensOn_append, tokensOn_eq_self (line_of_mem_line hline),
        tokensOn_eq_nil fun t ht => Nat.ne_of_gt (line_of_mem_run hrun t ht).1, List.append_nil]
    have hnext : ∀ k, tokensOn (number + (k + 1)) (tokens ++ later) =
        tokensOn (number + 1 + k) later := by
      intro k
      have hno : ∀ t ∈ tokens, t.position.line ≠ number + (k + 1) := by
        intro t ht
        rw [line_of_mem_line hline t ht]
        omega
      rw [tokensOn_append, tokensOn_eq_nil hno, List.nil_append, Nat.add_assoc, Nat.add_comm 1]
    refine ⟨fun k hk c hc => ?_, j', ?_, hj⟩
    · cases k with
      | zero =>
        rw [hfirst] at hc
        exact (hchars c hc).imp_left fun hm => ⟨text, List.mem_cons_self, hm⟩
      | succ k =>
        rw [hnext] at hc
        exact (hmore k (Nat.lt_of_succ_lt_succ hk) c hc).imp_left fun ⟨l, hl, hm⟩ =>
          ⟨l, List.mem_cons_of_mem text hl, hm⟩
    · rw [List.length_cons, List.range_succ_eq_map, List.map_cons, List.map_map, hfirst]
      refine run_cons_eq_ok_iff.2 ⟨tokens, i₁', later, hline', ?_, rfl⟩
      simpa only [Function.comp_def, Nat.succ_eq_add_one, hnext] using hrun'

end Indentation

/-- What is written of a line in the end. -/
theorem typesetLine_tokensOn {source : String} {ts : List Token} {j : Indentation}
    (hrun : Indentation.start.run 1 ((splitLines source.toList).map dropReturn) = .ok (ts, j))
    {k : Nat} (hk : k < (splitLines source.toList).length) (last : Nat) :
    typesetLine 1 (tokensOn (k + 1) (ts ++ j.finish last)) =
      typesetLine 1 (tokensOn (1 + k) ts) := by
  obtain ⟨i', j', hline⟩ := Indentation.tokensOn_of_run hrun
    (List.getElem?_eq_getElem (i := k) (by rwa [List.length_map]))
  rw [Nat.add_comm k, tokensOn_append]
  refine typesetLine_append (Nat.le_refl 1) (Indentation.column_of_mem_line hline) fun t ht => ?_
  have hm := (List.mem_filter.1 ht).1
  unfold Indentation.finish at hm
  rcases List.mem_append.1 hm with hm | hm
  · obtain ⟨_, -, rfl⟩ := List.mem_map.1 hm
    exact ⟨rfl, rfl, rfl⟩
  · rw [List.mem_singleton.1 hm]
    exact ⟨rfl, rfl, rfl⟩

/-- The text of the tokens of a source has the same tokens. -/
theorem tokenize_typeset {source : String} {tokens : List Token}
    (h : tokenize source = .ok tokens) (hr : '\r' ∉ source.toList) :
    tokenize (typeset tokens) = .ok tokens := by
  obtain ⟨ts, j, hrun, rfl⟩ := tokenize_eq_ok_iff.1 h
  have hstart : Indentation.Admits ' ' .start .start := ⟨rfl, .inl rfl⟩
  obtain ⟨hchars, j', hrun', hlevels, -⟩ := Indentation.run_typeset hrun hstart
  generalize hlast : (splitLines source.toList).length = last at *
  rw [List.length_map, hlast] at hchars hrun'
  set lines := (List.range last).map fun k => typesetLine 1 (tokensOn (1 + k) ts) with hlines
  have htypeset : typeset (ts ++ j.finish last) = String.ofList (joinLines lines) := by
    rw [typeset, Indentation.inputEnd_finish, hlines]
    congr 2
    refine List.map_congr_left fun k hk => ?_
    exact typesetLine_tokensOn hrun (hlast ▸ List.mem_range.1 hk) last
  -- No line has a character that would end it.
  have hclean : ∀ line ∈ lines, '\n' ∉ line ∧ '\r' ∉ line := by
    intro line hline
    obtain ⟨k, hk, rfl⟩ := List.mem_map.1 hline
    have hfrom := hchars k (List.mem_range.1 hk)
    have outside : ∀ c : Char, c ≠ ' ' → (∀ text ∈ (splitLines source.toList).map dropReturn,
        c ∉ text) → c ∉ typesetLine 1 (tokensOn (1 + k) ts) := by
      intro c hc hout hmem
      rcases hfrom c hmem with ⟨text, htext, hm⟩ | rfl
      · exact hout text htext hm
      · exact hc rfl
    refine ⟨outside '\n' (by decide) ?_, outside '\r' (by decide) ?_⟩
    · intro text htext hm
      obtain ⟨line, hline, rfl⟩ := List.mem_map.1 htext
      exact not_mem_of_mem_splitLines line hline (mem_of_mem_dropReturn hm)
    · intro text htext hm
      obtain ⟨line, hline, rfl⟩ := List.mem_map.1 htext
      exact hr (mem_of_mem_splitLines line hline (mem_of_mem_dropReturn hm))
  have hne : lines ≠ [] := by
    have hpos := List.length_pos_iff.2 (splitLines_ne_nil source.toList)
    rw [hlast] at hpos
    exact List.ne_nil_of_length_pos (by rw [hlines, List.length_map, List.length_range]; exact hpos)
  have hsplit : splitLines (String.ofList (joinLines lines)).toList = lines := by
    rw [String.toList_ofList]
    exact splitLines_joinLines hne fun line hline => (hclean line hline).1
  have hreturn : lines.map dropReturn = lines :=
    (List.map_congr_left fun line hline => dropReturn_of_not_mem (hclean line hline).2).trans
      (List.map_id _)
  rw [htypeset]
  refine tokenize_eq_ok_iff.2 ⟨ts, j', ?_, ?_⟩
  · rw [hsplit, hreturn]
    exact hrun'
  · rw [hsplit, hlines, List.length_map, List.length_range]
    unfold Indentation.finish
    rw [hlevels]

/-- **The tokens of a source are an image of it**: in every line they stand in order, without
overlapping, over the characters that they say, and everything else there is a gap; one token ends
the line behind its last character.  Written where they stand they are the tokens of what is
written. -/
theorem tokens_depict_source {source : String} {tokens : List Token}
    (h : tokenize source = .ok tokens) :
    (∀ t ∈ tokens,
      1 ≤ t.position.line ∧ t.position.line ≤ (sourceLines source.toList).length) ∧
    (∀ k text, (sourceLines source.toList)[k]? = some text →
      Depicts 1 (wordsOn (k + 1) tokens) text ∧
        (tokensOn (k + 1) tokens).filter (fun t => t.kind == .newline) =
          [.mark .newline (k + 1) (text.length + 1)]) ∧
    ('\r' ∉ source.toList → tokenize (typeset tokens) = .ok tokens) :=
  ⟨line_of_mem_tokenize h, fun _ _ hk => depicts_of_tokenize h hk, tokenize_typeset h⟩

/-- Tabs are written as spaces where they are gaps, but not in strings and comments. -/
theorem tokens_depict_source_tabs :
    ∃ tokens, tokenize "workflow W():\n\tx\t-> \"a\tb\"  \n\n\t# c\td" = .ok tokens ∧
      typeset tokens = "workflow W():\n x -> \"a\tb\"  \n\n # c\td" ∧
      tokenize (typeset tokens) = .ok tokens ∧
      Depicts 1 (wordsOn 2 tokens) "\tx\t-> \"a\tb\"  ".toList := by
  have read : (tokenize "workflow W():\n\tx\t-> \"a\tb\"  \n\n\t# c\td").toOption.map typeset =
      some "workflow W():\n x -> \"a\tb\"  \n\n # c\td" := by decide +kernel
  obtain ⟨tokens, ht, hw⟩ := Option.map_eq_some_iff.1 read
  replace ht := Except.eq_ok_of_toOption ht
  obtain ⟨-, hlines, hagain⟩ := tokens_depict_source ht
  refine ⟨tokens, ht, hw, hagain (by decide +kernel), (hlines 1 _ ?_).1⟩
  decide +kernel

end FlowLang
