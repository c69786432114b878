import FlowLang.Proofs.Joined.Sources
import FlowLang.Proofs.Token.Within

/-!
# The first lines of a text

Tokens are made line by line, and a line knows only of the lines before it.  So a text is at fault
in the first line that is at fault behind those before it, whatever follows; and the first lines of
a text have the tokens that they have in the whole text, up to the levels that are closed at the
end.

* `firstLines` : the first lines of a text, as a text of its own.
* `sourceLines_firstLines` : its lines.
* `Indentation.getLast?_run` : the tokens of some lines end with the end of a line.
* `lexing_is_local` : **errors and tokens depend only on the text up to their line.**
-/

namespace FlowLang

/-- The first `m` lines of a text, as a text of its own. -/
def firstLines (m : Nat) (source : String) : String :=
  joinSources (((splitLines source.toList).take m).map String.ofList)

/-! ### Lines -/

theorem joinedLines_map_ofList {lines : List (List Char)} (h : ∀ line ∈ lines, '\n' ∉ line) :
    joinedLines (lines.map String.ofList) = lines := by
  have single : ∀ line ∈ lines, splitLines (String.ofList line).toList = [line] := fun line hl => by
    rw [String.toList_ofList, splitLines_of_not_mem (h line hl)]
  rw [joinedLines, List.flatMap_map, List.flatMap_congr single, List.flatMap_singleton']

/-- The first lines of a text have these lines. -/
theorem sourceLines_firstLines {m : Nat} (hm : 1 ≤ m) (source : String) :
    sourceLines (firstLines m source).toList = (sourceLines source.toList).take m := by
  have hne : ((splitLines source.toList).take m).map String.ofList ≠ [] := by
    rw [Ne, List.map_eq_nil_iff, List.take_eq_nil_iff, not_or]
    exact ⟨by omega, splitLines_ne_nil _⟩
  rw [sourceLines, firstLines, splitLines_joinSources hne, joinedLines_map_ofList, sourceLines,
    List.map_take]
  exact fun line hl => not_mem_of_mem_splitLines line (List.mem_of_mem_take hl)

/-- No lines are the empty text. -/
theorem firstLines_zero (source : String) : firstLines 0 source = "" := by
  rw [firstLines, List.take_zero, List.map_nil]
  rfl

/-! ### Tokens -/

namespace Indentation

variable {i j : Indentation} {number : Nat} {texts : List (List Char)} {ts : List Token}

/-- The tokens of some lines end with the end of a line. -/
theorem getLast?_run (h : i.run number texts = .ok (ts, j)) (hne : texts ≠ []) :
    ∃ t, ts.getLast? = some t ∧ t.kind = .newline := by
  obtain ⟨front, text, rfl⟩ := (List.eq_nil_or_concat' texts).resolve_left hne
  obtain ⟨_, i', last, -, hlast, rfl⟩ := run_append_eq_ok_iff.1 h
  obtain ⟨tokens, _, _, hline, hnil, rfl⟩ := run_cons_eq_ok_iff.1 hlast
  cases hnil
  obtain ⟨marks, words, -, rfl, -⟩ := line_eq hline
  exact ⟨_, by rw [List.append_nil, ← List.append_assoc, ← List.append_assoc, List.getLast?_concat],
    rfl⟩

end Indentation

/-- Lines that have tokens have them as a text of their own. -/
theorem tokenize_firstLines {m : Nat} (hm : 1 ≤ m) {source : String} {ts : List Token}
    {j : Indentation}
    (h : Indentation.start.run 1 ((sourceLines source.toList).take m) = .ok (ts, j)) :
    ∃ last, tokenize (firstLines m source) = .ok (ts ++ j.finish last) := by
  refine ⟨_, tokenize_eq_ok_iff.2 ⟨ts, j, ?_, rfl⟩⟩
  rw [← sourceLines, sourceLines_firstLines hm]
  exact h

/-- The lines before the one that is at fault are a text with tokens. -/
theorem exists_tokenize_firstLines {source : String} {front back : List (List Char)}
    {ts : List Token} {j : Indentation} (he : sourceLines source.toList = front ++ back)
    (h : Indentation.start.run 1 front = .ok (ts, j)) :
    ∃ tokens, tokenize (firstLines front.length source) = .ok tokens := by
  by_cases hf : front = []
  · rw [hf, List.length_nil, firstLines_zero]
    exact ⟨_, tokenize_eq_ok_iff.2 ⟨_, _, rfl, rfl⟩⟩
  · have hfront : (sourceLines source.toList).take front.length = front := by
      rw [he, List.take_left]
    obtain ⟨last, ht⟩ := tokenize_firstLines (List.length_pos_iff.2 hf) (hfront.symm ▸ h)
    exact ⟨_, ht⟩

/-- **Lexing is local.**

* If a text is at fault in a line, the lines before it have tokens, and every text with the same
  lines up to this one is at fault in the same way.
* If a text has tokens, so have its first lines.  All their tokens but the final `dedent`s and the
  `eof` are those with which the tokens of the whole text begin. -/
theorem lexing_is_local (source : String) :
    (∀ e, tokenize source = .error e →
      (∃ tokens, tokenize (firstLines (e.position.line - 1) source) = .ok tokens) ∧
      ∀ other : String, (sourceLines other.toList).take e.position.line =
        (sourceLines source.toList).take e.position.line → tokenize other = .error e) ∧
    ∀ tokens, tokenize source = .ok tokens → ∀ m, 1 ≤ m → ∃ front dedents eof,
      tokenize (firstLines m source) = .ok (front ++ dedents ++ [eof]) ∧ front <+: tokens ∧
      (∃ t, front.getLast? = some t ∧ t.kind = .newline) ∧ (∀ t ∈ dedents, t.kind = .dedent) ∧
      eof.kind = .eof := by
  refine ⟨fun e h => ?_, fun tokens h m hm => ?_⟩
  · obtain ⟨front, text, back, ts, i, he, hrun, hline⟩ := Indentation.lines_eq_error_iff.1 h
    have number : e.position.line = front.length + 1 := by
      rw [(Indentation.position_of_line hline).1, Nat.add_comm]
    refine ⟨?_, fun other ho => ?_⟩
    · rw [number, Nat.add_sub_cancel]
      exact exists_tokenize_firstLines he hrun
    · -- the other text has these lines too, so it gets to the same line in the same state
      have hsame : (sourceLines other.toList).take (front.length + 1) = front ++ [text] := by
        rw [← number, ho, number, he, ← List.singleton_append, ← List.append_assoc,
          List.take_left' (by simp)]
      have hother := List.take_append_drop (front.length + 1) (sourceLines other.toList)
      rw [hsame, List.append_assoc] at hother
      exact Indentation.lines_eq_error_iff.2 ⟨front, text, _, ts, i, hother.symm, hrun, hline⟩
  · obtain ⟨ts, j, hrun, rfl⟩ := tokenize_eq_ok_iff.1 h
    rw [← sourceLines, ← List.take_append_drop m (sourceLines source.toList)] at hrun
    obtain ⟨front, i, later, hfront, -, rfl⟩ := Indentation.run_append_eq_ok_iff.1 hrun
    obtain ⟨last, ht⟩ := tokenize_firstLines hm hfront
    refine ⟨front, i.closing last, .mark .eof last 1, ?_, ?_, ?_, ?_, rfl⟩
    · rw [ht, Indentation.finish_eq, List.append_assoc]
    · exact ⟨later ++ j.finish _, (List.append_assoc ..).symm⟩
    · refine Indentation.getLast?_run hfront ?_
      rw [Ne, List.take_eq_nil_iff, not_or]
      exact ⟨by omega, sourceLines_ne_nil _⟩
    · intro t hmem
      obtain ⟨_, -, rfl⟩ := List.mem_map.1 hmem
      rfl

/-- A text that returns to no open level in its third line, with and without a fourth; and a text
with two open levels, which is cut between them. -/
theorem lexing_is_local_third_line :
    tokenize "a\n    b\n  c" = .error ⟨.inconsistentDedent, ⟨3, 3⟩⟩ ∧
      tokenize "a\n    b\n  c\n\td (" = .error ⟨.inconsistentDedent, ⟨3, 3⟩⟩ ∧
      (tokenize "a\n  b\n    c").toOption.isSome = true ∧
      ∃ front dedents eof, tokenize "a\n  b" = .ok (front ++ dedents ++ [eof]) := by
  have fault : tokenize "a\n    b\n  c" = .error ⟨.inconsistentDedent, ⟨3, 3⟩⟩ := by
    rw [tokenize, String.toList_ofList]
    decide +kernel
  have cut : firstLines 2 "a\n  b\n    c" = "a\n  b" := by decide +kernel
  have whole : (tokenize "a\n  b\n    c").toOption.isSome = true := by
    rw [tokenize, String.toList_ofList]
    decide +kernel
  refine ⟨fault, ?_, whole, ?_⟩
  · refine ((lexing_is_local _).1 _ fault).2 _ ?_
    decide +kernel
  · obtain ⟨tokens, ht⟩ := Option.isSome_iff_exists.1 whole
    obtain ⟨front, dedents, eof, h, -⟩ :=
      (lexing_is_local _).2 tokens (Except.eq_ok_of_toOption ht) 2 (by decide)
    rw [cut] at h
    exact ⟨front, dedents, eof, h⟩

end FlowLang
