import FlowLang.Proofs.Token.Shift
import FlowLang.Proofs.Trivia.Bare
import FlowLang.Proofs.Writing.Basic
import FlowLang.Proofs.Writing.Piece

/-!
# Layout of the written form

The lines of the written form open and close levels of four spaces.  Their bare tokens, without
line numbers, are known from the lines alone, whatever is before them.

* `plainTokens` : the bare tokens without line numbers.
* `Indentation.AtLevel` : the state between two lines of the written form.
* `Spells` : the plain tokens of some lines, the levels inside them closed.
* `Spells.append`, `Spells.headed` … : lines behind each other, and blocks.
-/

namespace FlowLang

open Text

/-! ### Levels -/

/-- The bare tokens without line numbers. -/
def plainTokens : Bool → List Token → List Token := bareTokens fun _ => 0

/-- The end of a line, as a plain token. -/
def plainNewline : Token := .mark .newline 0 0

/-- The start of a block, as a plain token. -/
def plainIndent : Token := .mark .indent 0 0

/-- The end of a block, as a plain token. -/
def plainDedent : Token := .mark .dedent 0 0

/-- What opens or closes levels between a line at level `m` and one at level `n`. -/
def shift (m n : Nat) : List Token :=
  if m < n then [plainIndent] else List.replicate (m - n) plainDedent

/-- The widths of the open levels of the written form. -/
def levelWidths : Nat → List Nat
  | 0 => []
  | n + 1 => 4 * (n + 1) :: levelWidths n

theorem levelWidths_above {m n : Nat} (h : n ≤ m) :
    (levelWidths m).dropWhile (4 * n < ·) = levelWidths n ∧
      ((levelWidths m).takeWhile (4 * n < ·)).length = m - n := by
  induction m with
  | zero =>
    obtain rfl : n = 0 := by omega
    exact ⟨rfl, rfl⟩
  | succ m ih =>
    rw [levelWidths]
    by_cases hn : n ≤ m
    · obtain ⟨hd, ht⟩ := ih hn
      have hlt : 4 * n < 4 * (m + 1) := by omega
      rw [List.dropWhile_cons, List.takeWhile_cons, if_pos (decide_eq_true hlt),
        if_pos (decide_eq_true hlt), List.length_cons, ht]
      exact ⟨hd, by omega⟩
    · obtain rfl : n = m + 1 := by omega
      rw [List.dropWhile_cons, List.takeWhile_cons, if_neg (by simp), if_neg (by simp), levelWidths]
      exact ⟨rfl, by simp⟩

namespace Indentation

/-- Between two lines of the written form, the first of them in `n` blocks. -/
structure AtLevel (n : Nat) (i : Indentation) : Prop where
  levels : i.levels = levelWidths n
  unit? : i.unit? = none ∨ i.unit? = some ' '

theorem atLevel_start : AtLevel 0 start := ⟨rfl, .inl rfl⟩

variable {m n : Nat} {i : Indentation}

theorem AtLevel.width (h : i.AtLevel m) : i.width = 4 * m := by
  rw [Indentation.width, h.levels]
  cases m <;> rfl

theorem AtLevel.checkUnit (h : i.AtLevel m) (k : Nat) :
    ∃ i', i.checkUnit (List.replicate k ' ') = some i' ∧ i'.AtLevel m := by
  cases k with
  | zero => exact ⟨i, rfl, h⟩
  | succ k =>
    refine ⟨{ i with unit? := some ' ' }, ?_, h.levels, .inr rfl⟩
    rw [List.replicate_succ, Indentation.checkUnit, if_pos]
    rcases h.unit? with hu | hu <;> simp [hu]

theorem AtLevel.adjust (h : i.AtLevel m) (hn : n ≤ m + 1) (number : Nat) :
    ∃ marks j, i.adjust number (4 * n) = .ok (marks, j) ∧ j.AtLevel n ∧
      (∀ t ∈ marks, t.kind ≠ .comment) ∧
        ∀ later, plainTokens false (marks ++ later) = shift m n ++ plainTokens false later := by
  unfold Indentation.adjust
  rw [h.width, h.levels]
  by_cases hlt : m < n
  · obtain rfl : n = m + 1 := by omega
    rw [if_pos (by omega), shift, if_pos hlt]
    exact ⟨_, _, rfl, ⟨rfl, h.unit?⟩, by simp [Token.mark], fun later => bareTokens_indent rfl⟩
  · obtain ⟨hd, ht⟩ := levelWidths_above (show n ≤ m by omega)
    have hj : AtLevel n { i with levels := (levelWidths m).dropWhile (4 * n < ·) } := ⟨hd, h.unit?⟩
    rw [if_neg (by omega), shift, if_neg hlt]
    simp only
    rw [if_pos hj.width]
    have hdedents : ∀ t ∈ ((levelWidths m).takeWhile (4 * n < ·)).map
        (fun _ => Token.mark .dedent number (4 * n + 1)), t.kind = .dedent := by
      intro t hm
      obtain ⟨_, -, rfl⟩ := List.mem_map.1 hm
      rfl
    refine ⟨_, _, rfl, hj, fun t hm => ?_, fun later => ?_⟩
    · rw [hdedents t hm]
      decide
    · rw [plainTokens, bareTokens_dedents hdedents, List.length_map, ht]
      rfl

end Indentation

/-! ### One line -/

theorem plainTokens_place (number column : Nat) {ps : List Piece} (h : Fitting ps)
    (later : List Token) : plainTokens true (place number column ps ++ later) =
      place 0 column ps ++ plainTokens true later := by
  induction ps generalizing column with
  | nil => rfl
  | cons p ps ih =>
    have hk := (h.lexed p List.mem_cons_self).2
    rw [place, List.cons_append, plainTokens, bareTokens_text hk]
    exact congrArg _ (ih _ h.tail)

theorem isText_of_mem_place {number column : Nat} {ps : List Piece} (h : Fitting ps) {t : Token}
    (ht : t ∈ place number column ps) : t.kind.isText = true := by
  induction ps generalizing column with
  | nil => cases ht
  | cons p ps ih =>
    rw [place] at ht
    rcases List.mem_cons.1 ht with rfl | ht
    · exact (h.lexed p List.mem_cons_self).2
    · exact ih h.tail ht

/-- Pieces for a line: the first of them starts the line. -/
structure FittingLine (ps : List Piece) : Prop where
  fitting : Fitting ps
  starts : ∃ p ps', ps = p :: ps' ∧ p.gap = 0

/-- A line starts with a character that is no space and no `#`. -/
theorem FittingLine.spell_cons {ps : List Piece} (h : FittingLine ps) :
    ∃ c cs, spell ps = c :: cs ∧ isGap c = false ∧ c ≠ '#' := by
  obtain ⟨p, ps', rfl, hgap⟩ := h.starts
  obtain ⟨hlexed, hk⟩ := h.fitting.lexed p List.mem_cons_self
  obtain ⟨c, cs, hp, hg, hl⟩ := Lexed.chars_eq hlexed
  refine ⟨c, cs ++ spell ps', by rw [spell, hgap, hp]; rfl, hg, ?_⟩
  rintro rfl
  have := hl.lexeme_eq
  rw [lexeme, if_pos rfl] at this
  have hc : TokenKind.comment = p.kind := congrArg Lexeme.kind (Except.ok.inj this)
  rw [← hc] at hk
  cases hk

/-- The tokens of a line made of pieces. -/
theorem line_of_fitting {m n : Nat} (number : Nat) {i : Indentation} {text : String}
    {ps : List Piece} (h : FittingLine ps) (ht : text.toList = spell ps) (hi : i.AtLevel m)
    (hn : n ≤ m + 1) :
    ∃ us j, i.line number (WrittenLine.indented ⟨n, text⟩) = .ok (us, j) ∧ j.AtLevel n ∧
      (∀ u ∈ us, u.kind ≠ .comment) ∧ ∀ later, plainTokens false (us ++ later) =
        shift m n ++ (place 0 (4 * n + 1) ps ++ plainNewline :: plainTokens false later) := by
  obtain ⟨c, cs, hs, hg, hc⟩ := h.spell_cons
  have hgap : ∀ d ∈ List.replicate (4 * n) ' ', isGap d = true := by
    intro d hd
    rw [List.eq_of_mem_replicate hd]
    rfl
  have htake : (WrittenLine.indented ⟨n, text⟩).takeWhile isGap = List.replicate (4 * n) ' ' := by
    rw [WrittenLine.indented, ht, hs, List.takeWhile_append_of_pos hgap,
      List.takeWhile_cons_of_neg (by simp [hg]), List.append_nil]
  have hdrop : (WrittenLine.indented ⟨n, text⟩).dropWhile isGap = spell ps := by
    rw [WrittenLine.indented, ht, hs, List.dropWhile_append_of_pos hgap,
      List.dropWhile_cons_of_neg (by simp [hg])]
  have hcontent : isContent (WrittenLine.indented ⟨n, text⟩) = true := by
    rw [isContent, hdrop, hs]
    simpa using hc
  obtain ⟨i', hu, hi'⟩ := hi.checkUnit (4 * n)
  obtain ⟨marks, j, ha, hj, hmc, hm⟩ := hi'.adjust hn number
  have hlen : (List.replicate (4 * n) ' ').length = 4 * n := List.length_replicate
  refine ⟨_, j, (Indentation.line_eq_ok_iff hcontent).2 ⟨i', marks,
    place number (4 * n + 1) ps, ?_, ?_, ?_, rfl⟩, hj, ?_, fun later => ?_⟩
  · rw [htake, hu]
  · rw [htake, hlen, ha]
  · rw [htake, hlen, hdrop]
    exact lineTokens_spell h.fitting number (4 * n + 1)
  · intro u hu
    rcases List.mem_append.1 hu with hu | hu
    · exact hmc u hu
    · rcases List.mem_append.1 hu with hu | hu
      · intro hk
        simpa [hk, TokenKind.isText] using isText_of_mem_place h.fitting hu
      · simp [List.mem_singleton.1 hu, Token.mark]
  · obtain ⟨p, ps', rfl, -⟩ := h.starts
    have first := (h.fitting.lexed p List.mem_cons_self).2
    rw [List.append_assoc, hm, List.append_assoc, place, List.cons_append, plainTokens,
      bareTokens_text first, List.singleton_append]
    congr 1
    rw [place, List.cons_append]
    refine congrArg _ ((plainTokens_place number _ h.fitting.tail _).trans ?_)
    rw [plainTokens, bareTokens_newline rfl]
    rfl

/-! ### Several lines -/

/-- Lines that lead from level `m` to level `m'`, with tokens that are these plain ones. -/
def Leads (m : Nat) (lines : List WrittenLine) (m' : Nat) (ts : List Token) : Prop :=
  ∀ number i, Indentation.AtLevel m i →
    ∃ us j, i.run number (lines.map WrittenLine.indented) = .ok (us, j) ∧ j.AtLevel m' ∧
      (∀ u ∈ us, u.kind ≠ .comment) ∧
        ∀ later, plainTokens false (us ++ later) = ts ++ plainTokens false later

/-- The plain tokens of lines at level `n` and deeper, where the deeper levels are closed. -/
structure Spells (n : Nat) (lines : List WrittenLine) (ts : List Token) : Prop where
  leads : ∀ m, n ≤ m + 1 → (lines = [] → n ≤ m) →
    ∃ m' us, n ≤ m' ∧ Leads m lines m' us ∧ us ++ shift m' n = shift m n ++ ts
  nothing : lines = [] → ts = []
  starts : lines ≠ [] → (kindOf ts).isText = true
  oneLine : ∀ l ∈ lines, OneLine l.indented

/-- The plain tokens of the lines behind a line at level `n`, where the deeper levels are closed. -/
structure Nested (n : Nat) (lines : List WrittenLine) (ts : List Token) : Prop where
  leads : ∃ m' us, n ≤ m' ∧ Leads n lines m' us ∧ us ++ shift m' n = ts
  oneLine : ∀ l ∈ lines, OneLine l.indented

theorem Leads.nil (m : Nat) : Leads m [] m [] := fun _ i hi =>
  ⟨[], i, rfl, hi, by simp, fun _ => rfl⟩

theorem Leads.append {m m' m'' : Nat} {lines lines' : List WrittenLine} {ts ts' : List Token}
    (h : Leads m lines m' ts) (h' : Leads m' lines' m'' ts') :
    Leads m (lines ++ lines') m'' (ts ++ ts') := by
  intro number i hi
  obtain ⟨us, j, hrun, hj, hc, hus⟩ := h number i hi
  obtain ⟨us', j', hrun', hj', hc', hus'⟩ :=
    h' (number + (lines.map WrittenLine.indented).length) j hj
  refine ⟨us ++ us', j', ?_, hj', List.forall_mem_append.2 ⟨hc, hc'⟩, fun later => ?_⟩
  · rw [List.map_append]
    exact Indentation.run_append_eq_ok_iff.2 ⟨us, j, us', hrun, hrun', rfl⟩
  · rw [List.append_assoc, hus, hus', List.append_assoc]

/-- One line. -/
theorem Leads.line {m n : Nat} {text : String} {ps : List Piece} (h : FittingLine ps)
    (ht : text.toList = spell ps) (hn : n ≤ m + 1) :
    Leads m [⟨n, text⟩] n (shift m n ++ (place 0 (4 * n + 1) ps ++ [plainNewline])) := by
  intro number i hi
  obtain ⟨us, j, hline, hj, hc, hus⟩ := line_of_fitting number h ht hi hn
  refine ⟨us, j, ?_, hj, hc, fun later => ?_⟩
  · exact Indentation.run_cons_eq_ok_iff.2 ⟨us, j, [], hline, rfl, by simp⟩
  · rw [hus]
    simp

theorem shift_self (n : Nat) : shift n n = [] := by
  rw [shift, if_neg (Nat.lt_irrefl n), Nat.sub_self, List.replicate_zero]

theorem shift_below {m n : Nat} (h : n + 1 ≤ m) : shift m n = shift m (n + 1) ++ [plainDedent] := by
  rw [shift, shift, if_neg (by omega), if_neg (by omega), ← List.replicate_succ']
  congr 1
  omega

variable {n : Nat} {lines lines' : List WrittenLine} {ts ts' : List Token}

theorem kindOf_append {us : List Token} (h : kindOf us ≠ .eof) (later : List Token) :
    kindOf (us ++ later) = kindOf us := by
  cases us with
  | nil => exact absurd rfl h
  | cons u us => rfl

theorem Nested.nil : Nested n [] [] where
  leads := ⟨n, [], Nat.le_refl n, .nil n, shift_self n⟩
  oneLine := by simp

/-- A block behind a line. -/
theorem Spells.nested (h : Spells (n + 1) lines ts) (hne : lines ≠ []) :
    Nested n lines (plainIndent :: (ts ++ [plainDedent])) where
  leads := by
    obtain ⟨m', us, hm, hl, hus⟩ := h.leads n (Nat.le_refl _) (absurd · hne)
    refine ⟨m', us, by omega, hl, ?_⟩
    rw [shift_below hm, ← List.append_assoc, hus, shift, if_pos (Nat.lt_succ_self n)]
    rfl
  oneLine := h.oneLine

theorem Spells.nil : Spells n [] [] where
  leads m _ hm := ⟨m, [], hm rfl, .nil m, by simp⟩
  nothing _ := rfl
  starts h := absurd rfl h
  oneLine := by simp

theorem Spells.append (h : Spells n lines ts) (h' : Spells n lines' ts') :
    Spells n (lines ++ lines') (ts ++ ts') := by
  by_cases hnil : lines = []
  · subst hnil
    obtain rfl := h.nothing rfl
    exact h'
  · refine ⟨fun m hm _ => ?_, fun h => absurd (List.append_eq_nil_iff.1 h).1 hnil, fun _ => ?_,
      List.forall_mem_append.2 ⟨h.oneLine, h'.oneLine⟩⟩
    · obtain ⟨m₁, us, hm₁, hl, hus⟩ := h.leads m hm (absurd · hnil)
      obtain ⟨m₂, us', hm₂, hl', hus'⟩ := h'.leads m₁ (by omega) fun _ => hm₁
      refine ⟨m₂, us ++ us', hm₂, hl.append hl', ?_⟩
      rw [List.append_assoc, hus', ← List.append_assoc, hus, List.append_assoc]
    · rw [kindOf_append (TokenKind.ne_of_isText (h.starts hnil) rfl)]
      exact h.starts hnil

/-- A line with what is behind it. -/
theorem Spells.headed {ps : List Piece} {text : String} (hps : FittingLine ps)
    (ht : text.toList = spell ps) (h : Nested n lines ts) :
    Spells n (⟨n, text⟩ :: lines) (place 0 (4 * n + 1) ps ++ plainNewline :: ts) where
  leads m hm _ := by
    obtain ⟨m', us, hm', hl, hus⟩ := h.leads
    refine ⟨m', _, hm', (Leads.line hps ht hm).append hl, ?_⟩
    simp [hus]
  nothing h := by cases h
  starts _ := by
    obtain ⟨p, ps', rfl, -⟩ := hps.starts
    exact (hps.fitting.lexed p List.mem_cons_self).2
  oneLine := by
    have hgap : OneLine (List.replicate (4 * n) ' ') := ⟨by simp, by simp⟩
    refine List.forall_mem_cons.2 ⟨?_, h.oneLine⟩
    rw [WrittenLine.indented, oneLine_append, ht]
    exact ⟨hgap, hps.fitting.oneLine⟩

end FlowLang
