import FlowLang.Proofs.Token.Balance
import FlowLang.Proofs.Token.Image

/-!
# Positions within a text

A position is within a text if it is that of a character of one of its lines, or of the end of one.

* `Position.Within` : such positions.
* `within_of_mem_tokenize` : tokens have such positions, those without text included.
* `within_of_lexError` : so has the fault of a text that has no tokens.
-/

namespace FlowLang

/-- The position is on a character of one of these lines, or right behind the last one of it.  The
lines are counted from 1. -/
structure Position.Within (lines : List (List Char)) (p : Position) : Prop where
  line_pos : 1 ≤ p.line
  line_le : p.line ≤ lines.length
  column_pos : 1 ≤ p.column
  column_le : ∀ text, lines[p.line - 1]? = some text → p.column ≤ text.length + 1

namespace Position.Within

/-- The position is in this line. -/
theorem of_getElem? {lines : List (List Char)} {k : Nat} {text : List Char} {p : Position}
    (hk : lines[k]? = some text) (hl : p.line = k + 1) (h1 : 1 ≤ p.column)
    (hc : p.column ≤ text.length + 1) : p.Within lines where
  line_pos := by omega
  line_le := by
    have := (List.getElem?_eq_some_iff.1 hk).1
    omega
  column_pos := h1
  column_le := by
    intro text' h
    rw [hl, Nat.add_sub_cancel, hk] at h
    cases h
    exact hc

/-- The start of the last line of a text. -/
theorem last {lines : List (List Char)} (h : lines ≠ []) :
    Position.Within lines ⟨lines.length, 1⟩ where
  line_pos := List.length_pos_iff.2 h
  line_le := Nat.le_refl _
  column_pos := Nat.le_refl 1
  column_le := fun _ _ => Nat.le_add_left _ _

end Position.Within

theorem sourceLines_ne_nil (source : List Char) : sourceLines source ≠ [] := by
  rw [sourceLines, Ne, List.map_eq_nil_iff]
  exact splitLines_ne_nil source

/-! ### Lines -/

theorem length_takeWhile_isGap_le (text : List Char) :
    (text.takeWhile Text.isGap).length ≤ text.length := List.takeWhile_prefix _ |>.length_le

/-- A fault among the words of a line is at one of their characters. -/
theorem position_of_lineTokens {line column : Nat} {cs : List Char} {e : LexError}
    (h : lineTokens line column cs = .error e) :
    e.position.line = line ∧ column ≤ e.position.column ∧
      e.position.column ≤ column + cs.length := by
  fun_induction lineTokens line column cs generalizing e with
  | case1 => cases h
  | case2 column c cs _ ih =>
    have := ih h
    simp only [List.length_cons]
    omega
  | case3 =>
    cases h
    simp
  | case4 column c cs _ l hlex _ token e' hrest =>
    rename_i ih
    cases h
    have := ih hrest
    -- the token takes the characters between the columns
    have hlen := length_eq_width_add hlex line column
    have hend : token.endColumn = column + (l.token line column).width := rfl
    have hlt : column < token.endColumn := lt_endColumn_of_lexeme hlex line column
    omega
  | case5 => cases h

namespace Indentation

variable {i j : Indentation} {number : Nat} {text : List Char} {ts : List Token}

/-- No token of a line is behind its end. -/
theorem column_le_of_mem_line (h : i.line number text = .ok (ts, j)) :
    ∀ t ∈ ts, t.position.column ≤ text.length + 1 := by
  obtain ⟨marks, tokens, ht, rfl, -, hplace⟩ := line_eq h
  intro t hmem
  rcases List.mem_append.1 hmem with hmem | hmem
  · rw [(hplace t hmem).2]
    exact Nat.succ_le_succ (length_takeWhile_isGap_le text)
  rcases List.mem_append.1 hmem with hmem | hmem
  · have := (depicts_lineTokens ht).inside t hmem
    omega
  · rw [List.mem_singleton.1 hmem]
    exact Nat.le_refl _

/-- The fault of a line is in this line. -/
theorem position_of_line {e : LexError} (h : i.line number text = .error e) :
    e.position.line = number ∧ 1 ≤ e.position.column ∧ e.position.column ≤ text.length + 1 := by
  have hgap := length_takeWhile_isGap_le text
  have hall : (text.takeWhile Text.isGap).length + (text.dropWhile Text.isGap).length =
      text.length := by
    rw [← List.length_append, List.takeWhile_append_dropWhile]
  cases hc : isContent text with
  | false =>
    rw [line_of_trivia hc] at h
    cases h
  | true =>
    rw [line_of_content hc] at h
    cases hu : i.checkUnit (text.takeWhile Text.isGap) with
    | none =>
      rw [hu] at h
      cases h
      exact ⟨rfl, Nat.le_refl _, Nat.le_add_left _ _⟩
    | some i' =>
      rw [hu] at h
      rcases Except.bind_eq_error_iff.1 h with ha | ⟨⟨marks, j⟩, -, h⟩
      · -- the line returns to no open level
        unfold adjust at ha
        split at ha
        · cases ha
        · simp only at ha
          split at ha <;> cases ha
          exact ⟨rfl, Nat.le_add_left _ _, Nat.succ_le_succ hgap⟩
      · rcases Except.bind_eq_error_iff.1 h with hw | ⟨words, -, h⟩
        · have := position_of_lineTokens hw
          rw [gapWidth] at this
          omega
        · cases h

end Indentation

/-! ### Texts -/

/-- **Every token is within the text**, and so is the end of the input. -/
theorem within_of_mem_tokenize {source : String} {tokens : List Token}
    (h : tokenize source = .ok tokens) :
    ∀ t ∈ tokens, t.position.Within (sourceLines source.toList) := by
  intro t ht
  obtain ⟨h1, hle⟩ := line_of_mem_tokenize h t ht
  have hk : (sourceLines source.toList)[t.position.line - 1]? =
      some (sourceLines source.toList)[t.position.line - 1] := List.getElem?_eq_getElem (by omega)
  obtain ⟨ts, j, hrun, rfl⟩ := tokenize_eq_ok_iff.1 h
  rcases List.mem_append.1 ht with hmem | hmem
  · obtain ⟨i', j', hline⟩ := Indentation.tokensOn_of_run hrun hk
    have hon : t ∈ tokensOn (1 + (t.position.line - 1)) ts :=
      List.mem_filter.2 ⟨hmem, by simp; omega⟩
    exact .of_getElem? hk (by omega) (Indentation.column_of_mem_line hline t hon)
      (Indentation.column_le_of_mem_line hline t hon)
  · -- behind the last line, everything is in column 1
    have hcol : t.position.column = 1 := by
      unfold Indentation.finish at hmem
      rcases List.mem_append.1 hmem with hm | hm
      · obtain ⟨_, -, rfl⟩ := List.mem_map.1 hm
        rfl
      · rw [List.mem_singleton.1 hm]
        rfl
    exact .of_getElem? hk (by omega) (by omega) (by omega)

/-- **A text without tokens has its fault within it.** -/
theorem within_of_lexError {source : String} {e : LexError} (h : tokenize source = .error e) :
    e.position.Within (sourceLines source.toList) := by
  obtain ⟨front, text, back, ts, i, he, -, hline⟩ := Indentation.lines_eq_error_iff.1 h
  obtain ⟨hl, h1, hc⟩ := Indentation.position_of_line hline
  have hk : (sourceLines source.toList)[front.length]? = some text := by
    rw [he, List.getElem?_append_right (Nat.le_refl _), Nat.sub_self]
    rfl
  exact .of_getElem? hk (by omega) h1 hc

end FlowLang
