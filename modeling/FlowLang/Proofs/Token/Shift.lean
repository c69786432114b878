import FlowLang.Proofs.Program.Relocation
import FlowLang.Proofs.Token.Lines
import FlowLang.Reading.Program

/-!
# The same lines in another place

What the tokens of a line are depends on little of what stands before it: its number shows in the
positions only, the open levels decide what it opens and closes, and the unit of indentation can
only forbid it.

* `Token.relocate` : a token in another place.
* `Indentation.run_renumber` : lines under other numbers.
* `Indentation.Freer`, `Indentation.run_of_freer` : lines behind others that say less about the
  unit.
* `Indentation.Admits` : the same levels, and a unit that allows some character.
* `Indentation.closing`, `Indentation.line_at_margin` : a line in column 1 closes every level.
-/

namespace FlowLang

/-- The token in its new place. -/
def Token.relocate (f : Position → Position) (t : Token) : Token :=
  { t with position := f t.position }

section

variable {f : Position → Position} {t : Token}

@[simp] theorem Token.kind_relocate : (t.relocate f).kind = t.kind := rfl

@[simp] theorem Token.literal_relocate : (t.relocate f).literal = t.literal := rfl

@[simp] theorem Token.position_relocate : (t.relocate f).position = f t.position := rfl

@[simp] theorem Token.width_relocate : (t.relocate f).width = t.width := rfl

end

@[simp] theorem Position.column_renumber (g : Nat → Nat) (p : Position) :
    (p.renumber g).column = p.column := rfl

@[simp] theorem Position.line_renumber (g : Nat → Nat) (p : Position) :
    (p.renumber g).line = g p.line := rfl

/-! ### Other numbers -/

theorem lineTokens_renumber (g : Nat → Nat) {line column : Nat} {cs : List Char}
    {tokens : List Token} (h : lineTokens line column cs = .ok tokens) :
    lineTokens (g line) column cs = .ok (tokens.map (Token.relocate (Position.renumber g))) := by
  induction h using lineTokens_induction with
  | nil => rw [lineTokens]; rfl
  | gap hg _ ih => exact (lineTokens_gap hg).trans ih
  | token hg hlex _ ih => exact (lineTokens_eq_ok_iff hg).2 ⟨_, _, hlex, ih, rfl⟩

theorem line_of_mem_lineTokens {line column : Nat} {cs : List Char} {tokens : List Token}
    (h : lineTokens line column cs = .ok tokens) : ∀ t ∈ tokens, t.position.line = line := by
  induction h using lineTokens_induction with
  | nil => exact List.forall_mem_nil _
  | gap _ _ ih => exact ih
  | token _ _ _ ih => exact List.forall_mem_cons.2 ⟨rfl, ih⟩

namespace Indentation

variable {i j : Indentation} {number : Nat} {text : List Char} {texts : List (List Char)}
  {ts : List Token}

theorem adjust_renumber (g : Nat → Nat) {width : Nat}
    (h : i.adjust number width = .ok (ts, j)) :
    i.adjust (g number) width = .ok (ts.map (Token.relocate (Position.renumber g)), j) := by
  unfold adjust at h ⊢
  split at h
  next hw => cases h; rw [if_pos hw]; rfl
  next hw =>
    rw [if_neg hw]
    simp only at h ⊢
    split at h
    next hj =>
      cases h
      simp only [hj, if_true, List.map_map]
      rfl
    next => cases h

theorem line_renumber (g : Nat → Nat) (h : i.line number text = .ok (ts, j)) :
    i.line (g number) text = .ok (ts.map (Token.relocate (Position.renumber g)), j) := by
  cases hc : isContent text with
  | false =>
    rw [line_of_trivia hc] at h ⊢
    cases h
    unfold triviaTokens
    split <;> rfl
  | true =>
    obtain ⟨i', marks, tokens, hu, ha, ht, rfl⟩ := (line_eq_ok_iff hc).1 h
    exact (line_eq_ok_iff hc).2 ⟨i', _, _, hu, adjust_renumber g ha, lineTokens_renumber g ht, by
      simp; rfl⟩

theorem line_of_mem_line (h : i.line number text = .ok (ts, j)) :
    ∀ t ∈ ts, t.position.line = number := by
  cases hc : isContent text with
  | false =>
    rw [line_of_trivia hc] at h
    cases h
    unfold triviaTokens
    split <;> simp [Token.mark]
  | true =>
    obtain ⟨i', marks, tokens, hu, ha, ht, rfl⟩ := (line_eq_ok_iff hc).1 h
    have hm : ∀ t ∈ marks, t.position.line = number := by
      unfold adjust at ha
      split at ha
      · cases ha; simp [Token.mark]
      · simp only at ha
        split at ha <;> cases ha
        simp +contextual [Token.mark]
    intro t hmem
    rcases List.mem_append.1 hmem with hmem | hmem
    · exact hm t hmem
    rcases List.mem_append.1 hmem with hmem | hmem
    · exact line_of_mem_lineTokens ht t hmem
    · rw [List.mem_singleton.1 hmem]; rfl

theorem run_renumber {g : Nat → Nat} {number' : Nat} (hg : ∀ k, g (number + k) = number' + k)
    (h : i.run number texts = .ok (ts, j)) :
    i.run number' texts = .ok (ts.map (Token.relocate (Position.renumber g)), j) := by
  induction texts generalizing i number number' ts with
  | nil => cases h; rfl
  | cons text texts ih =>
    obtain ⟨tokens, i', later, hline, hrun, rfl⟩ := run_cons_eq_ok_iff.1 h
    have hg' : ∀ k, g (number + 1 + k) = number' + 1 + k := fun k => by
      rw [Nat.add_assoc, hg, Nat.add_assoc]
    have hrun' := ih hg' hrun
    have hline' := line_renumber g hline
    rw [show g number = number' from hg 0] at hline'
    exact run_cons_eq_ok_iff.2 ⟨_, i', _, hline', hrun', by simp⟩

theorem line_of_mem_run (h : i.run number texts = .ok (ts, j)) :
    ∀ t ∈ ts, number ≤ t.position.line ∧ t.position.line < number + texts.length := by
  induction texts generalizing i number ts with
  | nil => cases h; simp
  | cons text texts ih =>
    obtain ⟨tokens, i', later, hline, hrun, rfl⟩ := run_cons_eq_ok_iff.1 h
    intro t ht
    rw [List.length_cons]
    rcases List.mem_append.1 ht with ht | ht
    · have := line_of_mem_line hline t ht
      omega
    · have := ih hrun t ht
      omega

/-! ### Other lines before -/

/-- The same levels are open, and no other unit is demanded. -/
def Freer (i j : Indentation) : Prop :=
  i.levels = j.levels ∧ (i.unit? = none ∨ i.unit? = j.unit?)

theorem checkUnit_of_freer {i i' j : Indentation} {gap : List Char} (hf : Freer j i)
    (h : i.checkUnit gap = some i') : ∃ j', j.checkUnit gap = some j' ∧ Freer j' i' := by
  cases gap with
  | nil =>
    cases h
    exact ⟨j, rfl, hf⟩
  | cons c cs =>
    obtain ⟨hl, hu⟩ := hf
    simp only [checkUnit, Option.ite_none_right_eq_some, Option.some.injEq, Bool.and_eq_true,
      Bool.or_eq_true, beq_iff_eq] at h ⊢
    obtain ⟨⟨ha, hc⟩, rfl⟩ := h
    refine ⟨_, ⟨⟨ha, ?_⟩, rfl⟩, hl, .inr rfl⟩
    rcases hu with hu | hu
    · exact .inl hu
    · rwa [hu]

/-- What a line opens and closes does not depend on the unit. -/
theorem adjust_of_unit {w : Nat} (h : i.adjust number w = .ok (ts, j)) (u : Option Char) :
    j.unit? = i.unit? ∧ adjust ⟨i.levels, u⟩ number w = .ok (ts, ⟨j.levels, u⟩) := by
  have hw : width ⟨i.levels, u⟩ = i.width := rfl
  unfold adjust at h ⊢
  by_cases hlt : i.width < w
  · rw [if_pos hlt] at h
    cases h
    exact ⟨rfl, if_pos (hw ▸ hlt)⟩
  · rw [if_neg hlt] at h
    rw [hw, if_neg hlt]
    by_cases hj : width { i with levels := i.levels.dropWhile (w < ·) } = w
    · rw [if_pos hj] at h
      cases h
      exact ⟨rfl, if_pos hj⟩
    · rw [if_neg hj] at h
      cases h

theorem adjust_of_freer {i i' j : Indentation} {w : Nat} (hf : Freer j i)
    (h : i.adjust number w = .ok (ts, i')) :
    ∃ j', j.adjust number w = .ok (ts, j') ∧ Freer j' i' := by
  obtain ⟨levels, unit⟩ := j
  obtain ⟨rfl, hu⟩ : levels = i.levels ∧ (unit = none ∨ unit = i.unit?) := hf
  obtain ⟨hunit, ha⟩ := adjust_of_unit h unit
  exact ⟨_, ha, rfl, hunit ▸ hu⟩

theorem line_of_freer {i i' j : Indentation} (hf : Freer j i)
    (h : i.line number text = .ok (ts, i')) :
    ∃ j', j.line number text = .ok (ts, j') ∧ Freer j' i' := by
  cases hc : isContent text with
  | false =>
    rw [line_of_trivia hc] at h
    cases h
    exact ⟨j, line_of_trivia hc _ _, hf⟩
  | true =>
    obtain ⟨i₁, marks, tokens, hu, ha, ht, rfl⟩ := (line_eq_ok_iff hc).1 h
    obtain ⟨j₁, hu', hf₁⟩ := checkUnit_of_freer hf hu
    obtain ⟨j', ha', hf'⟩ := adjust_of_freer hf₁ ha
    exact ⟨j', (line_eq_ok_iff hc).2 ⟨j₁, marks, tokens, hu', ha', ht, rfl⟩, hf'⟩

theorem run_of_freer {i i' j : Indentation} (hf : Freer j i)
    (h : i.run number texts = .ok (ts, i')) :
    ∃ j', j.run number texts = .ok (ts, j') ∧ Freer j' i' := by
  induction texts generalizing i j number ts with
  | nil =>
    cases h
    exact ⟨j, rfl, hf⟩
  | cons text texts ih =>
    obtain ⟨tokens, i₁, later, hline, hrun, rfl⟩ := run_cons_eq_ok_iff.1 h
    obtain ⟨j₁, hline', hf₁⟩ := line_of_freer hf hline
    obtain ⟨j', hrun', hf'⟩ := ih hf₁ hrun
    exact ⟨j', run_cons_eq_ok_iff.2 ⟨tokens, j₁, later, hline', hrun', rfl⟩, hf'⟩

/-- This character may indent. -/
def Allows (i : Indentation) (c : Char) : Prop := i.unit? = none ∨ i.unit? = some c

/-- The second one has the levels of the first, and this character may indent. -/
def Admits (c : Char) (i i' : Indentation) : Prop := i'.levels = i.levels ∧ i'.Allows c

theorem checkUnit_of_admits {c : Char} {i' : Indentation} {gap : List Char} (ha : Admits c i i')
    (hg : ∀ d ∈ gap, d = c) : ∃ j', i'.checkUnit gap = some j' ∧ Admits c i j' := by
  cases gap with
  | nil => exact ⟨i', rfl, ha⟩
  | cons d ds =>
    obtain ⟨rfl, hds⟩ := List.forall_mem_cons.1 hg
    have hall : ds.all (· == d) = true := List.all_eq_true.2 fun e he => beq_iff_eq.2 (hds e he)
    have hunit : (i'.unit? == none || i'.unit? == some d) = true := by
      rcases ha.2 with hu | hu <;> simp [hu]
    exact ⟨_, if_pos (by rw [hall, hunit, Bool.and_true]), ha.1, .inr rfl⟩

theorem adjust_of_admits {c : Char} {i' : Indentation} {w : Nat} (ha : Admits c i i')
    (h : i.adjust number w = .ok (ts, j)) :
    ∃ j', i'.adjust number w = .ok (ts, j') ∧ Admits c j j' := by
  obtain ⟨levels, unit⟩ := i'
  obtain ⟨rfl, hu⟩ : levels = i.levels ∧ Allows ⟨levels, unit⟩ c := ha
  exact ⟨_, (adjust_of_unit h unit).2, rfl, hu⟩

/-- The tokens that close every level in front of a line. -/
def closing (i : Indentation) (line : Nat) : List Token :=
  i.levels.map fun _ => .mark .dedent line 1

theorem finish_eq (i : Indentation) (lastLine : Nat) :
    i.finish lastLine = i.closing lastLine ++ [.mark .eof lastLine 1] := rfl

/-- A line in column 1 closes every level, and its own tokens do not depend on the lines
before. -/
theorem line_at_margin (hi : i.Sound) (hc : isContent text = true)
    (hg : text.takeWhile Text.isGap = []) (h : i.line number text = .ok (ts, j)) :
    ∃ tokens, ts = i.closing number ++ (tokens ++ [.mark .newline number (text.length + 1)]) ∧
      lineTokens number 1 text = .ok tokens ∧ j = ⟨[], i.unit?⟩ ∧
      ∀ u, line ⟨[], u⟩ number text =
        .ok (tokens ++ [.mark .newline number (text.length + 1)], ⟨[], u⟩) := by
  have hd : text.dropWhile Text.isGap = text := by
    simpa [hg] using List.takeWhile_append_dropWhile (p := Text.isGap) (l := text)
  obtain ⟨i', marks, tokens, hu, ha, ht, rfl⟩ := (line_eq_ok_iff hc).1 h
  have closes : ∀ i : Indentation, i.Sound →
      i.adjust number 0 = .ok (i.closing number, ⟨[], i.unit?⟩) := by
    intro i hi
    have hall : ∀ w ∈ i.levels, decide (0 < w) = true := by simpa [Sound] using hi
    have ht : (i.levels ++ []).takeWhile (0 < ·) = i.levels ++ [] :=
      List.takeWhile_append_of_pos hall
    have hd : (i.levels ++ []).dropWhile (0 < ·) = [] := List.dropWhile_append_of_pos hall
    rw [List.append_nil] at ht hd
    unfold adjust
    rw [if_neg (Nat.not_lt_zero _)]
    simp [ht, hd, width, closing]
  rw [hg] at hu ha ht
  rw [hd] at ht
  cases hu
  rw [List.length_nil, closes _ hi] at ha
  cases ha
  refine ⟨tokens, rfl, ht, rfl, fun u =>
    (line_eq_ok_iff hc).2 ⟨⟨[], u⟩, [], tokens, ?_, ?_, ?_, rfl⟩⟩
  · rw [hg]; rfl
  · rw [hg]; exact closes _ (by simp [Sound])
  · rw [hg, hd]; exact ht

theorem laid_closing (i : Indentation) (line : Nat) :
    Laid (.start i.levels.length true) (i.closing line) := by
  simpa [closing] using @laid_dedents line 1 0 true [] i.levels fun _ => .done

theorem laid_of_run {lines : List (List Char)} (h : start.run 1 lines = .ok (ts, j)) (last : Nat) :
    Laid (.start 0 true) (ts ++ j.closing last) :=
  (laid_run sound_start h).2 (j.laid_closing last)

theorem inputEnd_finish (tokens : List Token) (j : Indentation) (last : Nat) :
    inputEnd (tokens ++ j.finish last) = ⟨last, 1⟩ := by
  rw [finish_eq, ← List.append_assoc, inputEnd, List.getLast?_concat]
  rfl

theorem beforeEnd_finish (tokens : List Token) (j : Indentation) (last : Nat) :
    beforeEnd (tokens ++ j.finish last) = tokens ++ j.closing last := by
  rw [finish_eq, ← List.append_assoc, beforeEnd, List.getLast?_concat, List.dropLast_concat]
  rfl

end Indentation

theorem tokenize_eq_ok_iff {source : String} {tokens : List Token} :
    tokenize source = .ok tokens ↔
      ∃ ts j, Indentation.start.run 1 ((splitLines source.toList).map dropReturn) = .ok (ts, j) ∧
        tokens = ts ++ j.finish (splitLines source.toList).length := by
  rw [tokenize, sourceLines, Indentation.lines_eq_ok_iff, List.length_map, Nat.add_sub_cancel_left]

end FlowLang
