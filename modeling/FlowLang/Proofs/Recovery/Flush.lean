import FlowLang.Proofs.Recovery.Resume
import FlowLang.Proofs.Token.Shift

/-!
# Lines in column 1

A token in column 1 is the first of a line that starts there, and a definition can start only at
such a token.

* `isFlushLine` : a line with content in column 1.
* `opensDefinition` : a line whose first token is a keyword of definitions in column 1.
* `Indentation.line_cases` : what these say about the tokens of the line.
-/

namespace FlowLang

/-- The line has content in column 1. -/
def isFlushLine (text : List Char) : Bool :=
  isContent text && (text.takeWhile Text.isGap).isEmpty

/-- The first token of the line can start a definition. -/
def opensDefinition (text : List Char) : Bool :=
  match lineTokens 1 1 text with
  | .ok (t :: _) => t.startsDefinition
  | _ => false

theorem lineTokens_dropWhile {line column : Nat} {cs : List Char} :
    lineTokens line column cs =
      lineTokens line (column + (cs.takeWhile Text.isGap).length) (cs.dropWhile Text.isGap) := by
  induction cs generalizing column with
  | nil => rfl
  | cons c cs ih =>
    cases hc : Text.isGap c with
    | true =>
      rw [lineTokens_gap hc, ih, List.takeWhile_cons_of_pos hc, List.dropWhile_cons_of_pos hc,
        List.length_cons, Nat.add_right_comm, Nat.add_assoc]
    | false =>
      rw [List.takeWhile_cons_of_neg (by simp [hc]), List.dropWhile_cons_of_neg (by simp [hc])]
      rfl

theorem startsDefinition_of_not_isFlush {t : Token} (h : t.isFlush = false) :
    t.startsDefinition = false := by
  cases hs : t.startsDefinition with
  | false => rfl
  | true =>
    have hk := Excerpt.Beside.kind_of_startsDefinition hs
    simp only [Token.startsDefinition, Bool.and_eq_true] at hs
    rcases hk with hk | hk <;>
      simp [Token.isFlush, hk, hs.2, TokenKind.isText, TokenKind.isLayout] at h

namespace Indentation

variable {i j : Indentation} {number : Nat} {text : List Char} {texts : List (List Char)}
  {ts : List Token}

/-- A line whose content starts further to the right has no token in column 1. -/
theorem opensDefinition_of_gap (hg : text.takeWhile Text.isGap ≠ []) :
    opensDefinition text = false := by
  unfold opensDefinition
  split
  next t later h =>
    rw [lineTokens_dropWhile] at h
    have hcol := column_le_of_mem_lineTokens h t List.mem_cons_self
    have hpos := List.length_pos_iff.2 hg
    have : t.position.column ≠ 1 := by omega
    simp [Token.startsDefinition, this]
  next => rfl

theorem opensDefinition_of_trivia (hc : isContent text = false) : opensDefinition text = false := by
  unfold isContent at hc
  unfold opensDefinition
  rw [lineTokens_dropWhile]
  split at hc
  next hd => rw [hd, lineTokens]
  next c cs hd =>
    obtain rfl : c = '#' := by simpa using hc
    have hlex : lexeme '#' cs = .ok ⟨.comment, cs, []⟩ := rfl
    rw [hd, (lineTokens_eq_ok_iff rfl).2 ⟨_, [], hlex, by rw [lineTokens], rfl⟩]
    rfl

theorem opensDefinition_eq {line : Nat} {k : Token} {later : List Token}
    (h : lineTokens line 1 text = .ok (k :: later)) :
    opensDefinition text = k.startsDefinition := by
  rw [opensDefinition, lineTokens_renumber (fun _ => 1) h]
  rfl

/-- A line with content in column 1 closes every level and starts with a token in column 1; no
other line has such a token. -/
theorem line_cases (hi : i.Sound) (h : i.line number text = .ok (ts, j)) :
    (isFlushLine text = true ∧ ∃ k later, ts = i.closing number ++ k :: later ∧
      j = ⟨[], i.unit?⟩ ∧ (∀ u, line ⟨[], u⟩ number text = .ok (k :: later, ⟨[], u⟩)) ∧
      k.isFlush = true ∧ k.position = ⟨number, 1⟩ ∧ k.startsDefinition = opensDefinition text ∧
      ∀ t ∈ later, t.isFlush = false) ∨
    isFlushLine text = false ∧ opensDefinition text = false ∧ ∀ t ∈ ts, t.isFlush = false := by
  cases hc : isContent text with
  | false =>
    right
    rw [line_of_trivia hc] at h
    cases h
    refine ⟨by simp [isFlushLine, hc], opensDefinition_of_trivia hc, ?_⟩
    unfold triviaTokens
    split <;> simp [Token.isFlush, Token.mark, TokenKind.isText, TokenKind.isLayout]
  | true =>
    obtain ⟨c, cs, hd, hgap, hne⟩ := takeWhile_isGap_spec hc
    by_cases hg : text.takeWhile Text.isGap = []
    · left
      obtain ⟨tokens, rfl, ht, rfl, hu⟩ := line_at_margin hi hc hg h
      have htext := List.takeWhile_append_dropWhile (p := Text.isGap) (l := text)
      rw [hg, hd] at htext
      replace htext : text = c :: cs := htext.symm
      rw [htext] at ht
      obtain ⟨k, later, rfl, hk, hp, hl⟩ := lineTokens_cons_spec hgap hne ht
      refine ⟨by simp [isFlushLine, hc, hg], k, _, rfl, rfl, hu, ?_, hp, ?_, ?_⟩
      · simp [Token.isFlush, hk, hp]
      · rw [htext, opensDefinition_eq ht]
      · intro t ht
        rcases List.mem_append.1 ht with ht | ht
        · exact Token.isFlush_of_column (Nat.ne_of_gt (hl t ht))
        · rw [List.mem_singleton.1 ht]
          rfl
    · right
      obtain ⟨i', marks, tokens, -, ha, ht, rfl⟩ := (line_eq_ok_iff hc).1 h
      have hpos := List.length_pos_iff.2 hg
      refine ⟨by simp [isFlushLine, hg], opensDefinition_of_gap hg, fun t hmem => ?_⟩
      rcases List.mem_append.1 hmem with hmem | hmem
      · have hm : ∀ t ∈ marks, t.kind.isText = false := by
          unfold adjust at ha
          split at ha
          · cases ha; simp [Token.mark, TokenKind.isText, TokenKind.isLayout]
          · simp only at ha
            split at ha <;> cases ha
            simp +contextual [Token.mark, TokenKind.isText, TokenKind.isLayout]
        exact Token.isFlush_of_not_isText (hm t hmem)
      rcases List.mem_append.1 hmem with hmem | hmem
      · have := column_le_of_mem_lineTokens ht t hmem
        exact Token.isFlush_of_column (by omega)
      · rw [List.mem_singleton.1 hmem]
        rfl

/-- Among the lines from one to the next that starts a definition, only the first can hold a token
that starts one. -/
theorem run_without_starts (hi : i.Sound) (ho : ∀ text ∈ texts, opensDefinition text = false)
    (h : i.run number texts = .ok (ts, j)) :
    (∀ t ∈ ts, t.startsDefinition = false) ∧ ts.any Token.isFlush = texts.any isFlushLine := by
  induction texts generalizing i number ts with
  | nil => cases h; simp
  | cons text texts ih =>
    obtain ⟨tokens, i', later, hline, hrun, rfl⟩ := run_cons_eq_ok_iff.1 h
    obtain ⟨hs, hf⟩ := ih (laid_line hi hline).1 (fun t ht => ho t (List.mem_cons_of_mem _ ht)) hrun
    have hot := ho text List.mem_cons_self
    suffices (∀ t ∈ tokens, t.startsDefinition = false) ∧
        tokens.any Token.isFlush = isFlushLine text by
      refine ⟨fun t ht => ?_, by rw [List.any_append, List.any_cons, this.2, hf]⟩
      rcases List.mem_append.1 ht with ht | ht
      · exact this.1 t ht
      · exact hs t ht
    rcases line_cases hi hline with ⟨hfl, k, rest, rfl, -, -, hk, -, hks, hrest⟩ | ⟨hfl, -, hn⟩
    · refine ⟨fun t ht => ?_, by simp [hfl, hk]⟩
      rcases List.mem_append.1 ht with ht | ht
      · obtain ⟨_, -, rfl⟩ := List.mem_map.1 ht
        rfl
      rcases List.mem_cons.1 ht with rfl | ht
      · rw [hks, hot]
      · exact startsDefinition_of_not_isFlush (hrest t ht)
    · refine ⟨fun t ht => startsDefinition_of_not_isFlush (hn t ht), ?_⟩
      rw [hfl]
      simpa [List.any_eq_false] using hn

end Indentation

end FlowLang
