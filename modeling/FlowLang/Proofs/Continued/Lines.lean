import FlowLang.Proofs.Continued.Program
import FlowLang.Proofs.Joined.Lines

/-!
# Lines that go on

Some lines of a text end with the end of a line, and perhaps with comments and blank lines before it.
There they part from the same lines with others behind them: if they can be read alone, the faults of
all lines together are behind them.

* `lineTokens_split`, `exists_trail_of_run` : the last word of some lines.
* `exists_word_of_run` : lines with content have words.
* `line_of_fault_behind` : where the faults are.
-/

namespace FlowLang

open Reader Grammar

/-! ### The last word -/

/-- The tokens of a line are words, and a comment may follow them. -/
theorem lineTokens_split {line column : Nat} {cs : List Char} {tokens : List Token}
    (h : lineTokens line column cs = .ok tokens) :
    ∃ words comment, tokens = words ++ comment ∧ (∀ t ∈ words, t.kind.isText = true) ∧
      (comment = [] ∨ ∃ c, comment = [c] ∧ c.kind = .comment) := by
  induction h using lineTokens_induction with
  | nil => exact ⟨[], [], rfl, List.forall_mem_nil _, .inl rfl⟩
  | gap _ _ ih => exact ih
  | token _ hlex hlater ih =>
    rcases isText_or_last hlex hlater with hk | ⟨hk, rfl⟩
    · obtain ⟨words, comment, rfl, hwords, hcomment⟩ := ih
      exact ⟨_ :: words, comment, rfl, List.forall_mem_cons.2 ⟨hk, hwords⟩, hcomment⟩
    · exact ⟨[], [_], rfl, List.forall_mem_nil _, .inr ⟨_, rfl, hk⟩⟩

namespace Indentation

variable {i j : Indentation} {number : Nat} {text : List Char} {texts : List (List Char)}
  {ts : List Token}

/-- The tokens of a line up to its last word, and what is behind it. -/
theorem exists_trail_of_line (h : i.line number text = .ok (ts, j)) :
    ∃ words trail, ts = words ++ trail ∧ BlankLines trail ∧ trail ≠ [] ∧
      ∀ t ∈ words.getLast?, t.kind.isText = true := by
  cases hc : isContent text with
  | false =>
    rw [line_of_trivia hc] at h
    cases h
    suffices BlankLines (triviaTokens number text) ∧ triviaTokens number text ≠ [] from
      ⟨[], _, rfl, this.1, this.2, by simp⟩
    unfold triviaTokens
    split
    · exact ⟨.blank rfl .nil, List.cons_ne_nil _ _⟩
    · exact ⟨.remark rfl rfl .nil, List.cons_ne_nil _ _⟩
  | true =>
    obtain ⟨i', marks, tokens, -, -, ht, rfl⟩ := (line_eq_ok_iff hc).1 h
    obtain ⟨c, cs, hd, hg, hne⟩ := takeWhile_isGap_spec hc
    rw [hd] at ht
    obtain ⟨k, later, rfl, hk, -⟩ := lineTokens_cons_spec hg hne ht
    obtain ⟨words, comment, hsplit, hwords, hcomment⟩ := lineTokens_split ht
    refine ⟨marks ++ words, comment ++ [.mark .newline number (text.length + 1)],
      by rw [hsplit]; simp, ?_, by simp, fun t ht => ?_⟩
    · rcases hcomment with rfl | ⟨c, rfl, hc⟩
      · exact .blank rfl .nil
      · exact .remark hc rfl .nil
    · -- the first token of the line is a word
      have hfirst : words ≠ [] := by
        rintro rfl
        rcases hcomment with rfl | ⟨c, rfl, hc⟩
        · cases hsplit
        · cases hsplit
          rw [hc] at hk
          cases hk
      rw [List.getLast?_append_of_ne_nil _ hfirst] at ht
      exact hwords t (List.mem_of_getLast? ht)

/-- The tokens of some lines up to the last word, and what is behind it. -/
theorem exists_trail_of_run (h : i.run number texts = .ok (ts, j)) :
    ∃ words trail, ts = words ++ trail ∧ BlankLines trail ∧ (texts ≠ [] → trail ≠ []) ∧
      ∀ t ∈ words.getLast?, t.kind.isText = true := by
  induction texts generalizing i number ts with
  | nil =>
    cases h
    exact ⟨[], [], rfl, .nil, fun h => absurd rfl h, by simp⟩
  | cons text texts ih =>
    obtain ⟨tokens, i', later, hline, hrun, rfl⟩ := run_cons_eq_ok_iff.1 h
    obtain ⟨words, trail, rfl, hblank, hne, hlast⟩ := exists_trail_of_line hline
    obtain ⟨words', trail', rfl, hblank', hne', hlast'⟩ := ih hrun
    by_cases hw : words' = []
    · -- the last word is in the first line, if there is one
      subst hw
      exact ⟨words, trail ++ trail', by simp, hblank.append hblank', by simp [hne], hlast⟩
    · refine ⟨words ++ trail ++ words', trail', by simp, hblank', fun _ => hne' ?_, fun t ht => ?_⟩
      · rintro rfl
        have hnil : words' ++ trail' = [] := congrArg Prod.fst (Except.ok.inj hrun).symm
        exact hw (List.append_eq_nil_iff.1 hnil).1
      · rw [List.getLast?_append_of_ne_nil _ hw] at ht
        exact hlast' t ht

/-- Lines with content have words. -/
theorem exists_word_of_run (h : i.run number texts = .ok (ts, j)) (ht : text ∈ texts)
    (hc : isContent text = true) : ∃ t ∈ ts, t.kind.isText = true := by
  obtain ⟨front, back, rfl⟩ := List.append_of_mem ht
  obtain ⟨_, i₁, _, -, hrun, rfl⟩ := run_append_eq_ok_iff.1 h
  obtain ⟨_, _, _, hline, -, rfl⟩ := run_cons_eq_ok_iff.1 hrun
  obtain ⟨_, _, tokens, -, -, htokens, rfl⟩ := (line_eq_ok_iff hc).1 hline
  obtain ⟨c, cs, hd, hg, hne⟩ := takeWhile_isGap_spec hc
  rw [hd] at htokens
  obtain ⟨k, later, rfl, hk, -⟩ := lineTokens_cons_spec hg hne htokens
  exact ⟨k, by simp, hk⟩

/-- The input does not end among the tokens of some lines. -/
theorem kind_ne_eof_of_run (hi : i.Sound) (h : i.run number texts = .ok (ts, j)) (last : Nat) :
    ∀ t ∈ ts ++ j.closing last, t.kind ≠ .eof :=
  ((laid_run hi h).2 (laid_closing j last)).kind_ne_eof

end Indentation

/-! ### The faults of more lines -/

/-- **Faults are behind lines that can be read.**  If some lines from the margin on can be read alone,
then what recovery reports of these lines with others behind them is in the others. -/
theorem line_of_fault_behind {u : Option Char} {m close last : Nat}
    {front back : List (List Char)} {ts us rest : List Token} {i j : Indentation}
    {ds : List Definition} (hne : front ≠ [])
    (hfront : Indentation.run ⟨[], u⟩ m (front.map dropReturn) = .ok (ts, i))
    (hback : i.run (m + front.length) (back.map dropReturn) = .ok (us, j))
    (hlast : m + front.length + back.length = last + 1)
    (h : DefinesAll ds (ts ++ i.closing close) rest) :
    ∀ x ∈ (recoverDefinitions ⟨last, 1⟩ (ts ++ (us ++ j.closing last))).2,
      m + front.length ≤ x.position.line := by
  obtain ⟨hi, hlaid⟩ := Indentation.laid_run (sound_margin u) hfront
  by_cases hword : ∃ text ∈ back.map dropReturn, isContent text = true
  · obtain ⟨text, htext, hc⟩ := hword
    obtain ⟨t, ht, hk⟩ := Indentation.exists_word_of_run hback htext hc
    obtain ⟨words, trail, rfl, hblank, htrail, hw⟩ := Indentation.exists_trail_of_run hfront
    let F : Fork := {
      stop := ⟨close, 1⟩
      stop' := ⟨last, 1⟩
      trail := trail
      closing := i.closing close
      later := us ++ j.closing last
      trail_ne_nil := htrail (by simpa using hne)
      blankLines := hblank
      kind_of_mem_closing := by simp [Indentation.closing, Token.mark]
      kind_of_mem_later := Indentation.kind_ne_eof_of_run hi hback last
      exists_word := ⟨t, List.mem_append_left _ ht, hk⟩ }
    have hsame : F.Same (words ++ trail ++ i.closing close)
        (words ++ trail ++ (us ++ j.closing last)) := by
      refine ⟨words, List.append_assoc .., List.append_assoc .., fun t ht => ?_, hw⟩
      exact Indentation.kind_ne_eof_of_run (sound_margin u) hfront close t (by simp [ht])
    have hpos : 0 < back.length := by
      have := List.length_pos_of_mem htext
      rwa [List.length_map] at this
    intro x hx
    rcases hsame.near_of_recoverDefinitions h x hx with hx | ⟨t, ht, hx⟩
    · rw [hx]
      show m + front.length ≤ last
      omega
    · rw [← hx]
      rcases List.mem_append.1 ht with ht | ht
      · exact (Indentation.line_of_mem_run hback t ht).1
      · obtain ⟨_, -, rfl⟩ := List.mem_map.1 ht
        show m + front.length ≤ last
        omega
  · -- comments and blank lines behind them change nothing
    have hgap : ∀ line ∈ back, isContent (dropReturn line) = false := fun line hl => by
      have := hword
      simp only [not_exists, not_and, Bool.not_eq_true] at this
      exact this _ (List.mem_map_of_mem hl)
    obtain ⟨all, hall, hbare⟩ := (padded_append_trivia hgap front m).run hfront
    have hboth : Indentation.run ⟨[], u⟩ m ((front ++ back).map dropReturn) = .ok (ts ++ us, j) := by
      rw [List.map_append]
      exact Indentation.run_append_eq_ok_iff.2 ⟨ts, i, us, hfront, by rwa [List.length_map], rfl⟩
    rw [hall] at hboth
    cases hboth
    have hsame := hbare (i.closing close) (i.closing last)
      (by rw [bareTokens_closing, bareTokens_closing])
    obtain ⟨hall', hlaid'⟩ := Indentation.laid_run (sound_margin u) hall
    have hread : recoverDefinitions ⟨close, 1⟩ (ts ++ i.closing close) = (ds, []) :=
      recoverDefinitions_eq_ok_iff.2 ⟨rest, definitions_iff.2 h⟩
    obtain ⟨es, hes, -⟩ := recoverDefinitions_of_bareTokens (hlaid (i.laid_closing close))
      (hlaid' (i.laid_closing last)) hsame ⟨last, 1⟩ hread
    rw [← List.append_assoc, hes]
    exact List.forall_mem_nil _

end FlowLang
