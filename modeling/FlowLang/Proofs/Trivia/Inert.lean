import FlowLang.Analysis
import FlowLang.Proofs.Analysis.Findings
import FlowLang.Proofs.Analysis.Modes
import FlowLang.Proofs.Trivia.Definition
import FlowLang.Proofs.Trivia.Padding

/-!
# Comments and blank lines change nothing

A text that can be read can be padded with comments and blank lines.  The padded text can be read
too, and gives the same program up to comments and line numbers, with the same errors and findings.

* `ofTokens_of_bareTokens` : two lists of tokens with the same bare tokens.
* `trivia_is_inert` : a text and a padded one.
-/

namespace FlowLang

open Reader

/-- The error in its new place. -/
def Diagnostic.relocate (f : Position → Position) (d : Diagnostic) : Diagnostic :=
  { d with position := f d.position }

theorem Diagnostic.ofResolveError_relocate (f : Position → Position) (e : ResolveError) :
    Diagnostic.ofResolveError (e.relocate f) = (Diagnostic.ofResolveError e).relocate f := by
  cases e <;> rfl

/-! ### Reading -/

/-- The definitions of a text can be read from its bare tokens, and from no others. -/
theorem definitions_of_bare {g : Nat → Nat} {tokens : List Token} (h : Laid (.start 0 true) tokens)
    (stop stop' : Position) :
    Tally (fun ds ds' _ _ => ds' = ds.map fun d => d.uncommented.relocate (Position.renumber g))
      (definitions stop tokens) (definitions stop' (bareTokens g false tokens)) :=
  definitions_bared ⟨⟨true, h⟩, rfl, Nat.lt_succ_self _⟩

theorem renumber_id : Position.renumber id = id := rfl

/-- If the bare tokens are the same, the programs are the same up to comments. -/
theorem definitions_of_bareTokens {g : Nat → Nat} {tokens tokens' : List Token}
    (hl : Laid (.start 0 true) tokens) (hl' : Laid (.start 0 true) tokens')
    (hb : bareTokens id false tokens' = bareTokens g false tokens) {stop stop' : Position}
    {ds : List Definition} {rest : List Token} (h : definitions stop tokens = .ok (ds, rest)) :
    ∃ ds' rest', definitions stop' tokens' = .ok (ds', rest') ∧
      ds'.map Definition.uncommented =
        ds.map fun d => d.uncommented.relocate (Position.renumber g) := by
  obtain ⟨bare, _, hbare, rfl⟩ := (h ▸ definitions_of_bare (g := g) hl stop stop).of_left
  have ht' := definitions_of_bare (g := id) hl' stop' stop
  rw [hb, hbare] at ht'
  obtain ⟨ds', rest', h', hds⟩ := ht'.of_right
  refine ⟨ds', rest', h', ?_⟩
  rw [hds, renumber_id]
  simp only [Definition.relocate_id]

/-! ### Texts -/

theorem bareTokens_closing (g : Nat → Nat) (j : Indentation) (last : Nat) :
    bareTokens g false (j.closing last) =
      List.replicate j.levels.length (.mark .dedent 0 0) := by
  have h := @bareTokens_dedents g [] (j.closing last)
    (by simp [Indentation.closing, Token.mark])
  rw [List.append_nil, Indentation.closing, List.length_map] at h
  exact h.trans (List.append_nil _)

/-- A padded text has tokens, and its program is the same up to comments and line numbers. -/
theorem Padded.ofTokens {g : Nat → Nat} {source source' : String} {tokens : List Token}
    {p : Program} (h : Padded g 1 1 (splitLines source.toList) (splitLines source'.toList))
    (ht : tokenize source = .ok tokens) (hp : Program.ofTokens tokens = .ok p) :
    ∃ tokens' p', tokenize source' = .ok tokens' ∧ Program.ofTokens tokens' = .ok p' ∧
      p'.uncommented = p.uncommented.relocate (Position.renumber g) := by
  obtain ⟨ts, j, hrun, rfl⟩ := tokenize_eq_ok_iff.1 ht
  obtain ⟨us, hrun', hbare⟩ := h.run hrun
  have same : bareTokens id false (us ++ j.closing (splitLines source'.toList).length) =
      bareTokens g false (ts ++ j.closing (splitLines source.toList).length) :=
    hbare _ _ (by rw [bareTokens_closing, bareTokens_closing])
  unfold Program.ofTokens at hp
  rw [Indentation.beforeEnd_finish] at hp
  split at hp
  next ds rest hds =>
    cases hp
    obtain ⟨ds', rest', hds', hd⟩ := definitions_of_bareTokens (Indentation.laid_of_run hrun _)
      (Indentation.laid_of_run hrun' _) same hds
    refine ⟨_, ⟨ds'⟩, tokenize_eq_ok_iff.2 ⟨us, j, hrun', rfl⟩, ?_, ?_⟩
    · unfold Program.ofTokens
      rw [Indentation.beforeEnd_finish, hds']
    · simp only [Program.uncommented, Program.relocate, hd, List.map_map]
      rfl
  next => cases hp

/-! ### Analyses -/

theorem analyze_of_ofTokens {source : String} {tokens : List Token} {p : Program}
    (ht : tokenize source = .ok tokens) (hp : Program.ofTokens tokens = .ok p) (mode : Mode) :
    analyze source mode = .ofProgram p [] := by
  unfold analyze
  rw [ht]
  cases mode with
  | failFast => simp only [Analysis.ofTokens, hp]
  | collectAll => simp only [Analysis.ofTokens, Program.ofTokens_eq_ok_iff.1 hp]

/-- The errors and findings of a program are those of any other one with the same definitions up to
comments, in another place. -/
theorem ofProgram_bare {f : Position → Position} {p p' : Program}
    (h : p'.uncommented = p.uncommented.relocate f) :
    (Analysis.ofProgram p' []).errors =
        (Analysis.ofProgram p []).errors.map (Diagnostic.relocate f) ∧
      (Analysis.ofProgram p' []).findings =
        (Analysis.ofProgram p []).findings.map (Finding.relocate f) := by
  have hid : ∀ e : ResolveError, e.relocate id = e := fun e => by cases e <;> rfl
  have herrors : p'.resolveErrors = p.resolveErrors.map (ResolveError.relocate f) := by
    rw [← Program.resolveErrors_bare, ← h, ← Program.relocate_id p'.uncommented,
      Program.resolveErrors_bare, List.map_id'' hid]
  have hlint : p'.lint = p.lint.map (Finding.relocate f) := by
    rw [← Program.lint_bare, ← h, ← Program.relocate_id p'.uncommented, Program.lint_bare]
    exact (List.map_id _).symm
  constructor
  · simp only [Analysis.ofProgram, List.map_nil, List.nil_append, herrors, List.map_map]
    exact List.map_congr_left fun e _ => Diagnostic.ofResolveError_relocate f e
  · simp only [Analysis.ofProgram, Program.lint_resolve, hlint]

/-- **Comments and blank lines are inert.**  If a text can be read, so can every text that has more
comments and blank lines.  Its program is the same up to comments and the numbers of the lines, and
so are its errors and findings in both modes. -/
theorem trivia_is_inert {g : Nat → Nat} {source source' : String} {tokens : List Token}
    {p : Program} (h : Padded g 1 1 (splitLines source.toList) (splitLines source'.toList))
    (ht : tokenize source = .ok tokens) (hp : Program.ofTokens tokens = .ok p) :
    ∃ tokens' p', tokenize source' = .ok tokens' ∧ Program.ofTokens tokens' = .ok p' ∧
      p'.uncommented = p.uncommented.relocate (Position.renumber g) ∧
      ∀ mode,
        (analyze source' mode).errors =
          (analyze source mode).errors.map (Diagnostic.relocate (Position.renumber g)) ∧
        (analyze source' mode).findings =
          (analyze source mode).findings.map (Finding.relocate (Position.renumber g)) := by
  obtain ⟨tokens', p', ht', hp', hsame⟩ := h.ofTokens ht hp
  refine ⟨tokens', p', ht', hp', hsame, fun mode => ?_⟩
  rw [analyze_of_ofTokens ht hp, analyze_of_ofTokens ht' hp']
  exact ofProgram_bare hsame

/-- A workflow of three lines, with a note on the first one and trivia between them. -/
theorem trivia_is_inert_notes :
    ∃ tokens p, tokenize "workflow W():\r\n  break\n  activity B()" = .ok tokens ∧
      Program.ofTokens tokens = .ok p ∧
      Padded (2 * ·) 1 1 (splitLines "workflow W():\r\n  break\n  activity B()".toList)
        (splitLines
          "# top\nworkflow W(): # note\r\n\t\n  break\n      # deep\n  activity B()".toList) ∧
      (analyze "# top\nworkflow W(): # note\r\n\t\n  break\n      # deep\n  activity B()"
        .collectAll).errors = [⟨.resolve, "undefined activity: B", ⟨6, 3⟩⟩] ∧
      (analyze "# top\nworkflow W(): # note\r\n\t\n  break\n      # deep\n  activity B()"
        .collectAll).findings =
          [⟨.outsideLoop .«break», ⟨4, 3⟩⟩, ⟨.unreachable .«break», ⟨6, 3⟩⟩] := by
  have read : ((tokenize "workflow W():\r\n  break\n  activity B()").toOption.bind
      fun ts => (Program.ofTokens ts).toOption).isSome = true := by decide +kernel
  obtain ⟨p, hread⟩ := Option.isSome_iff_exists.1 read
  obtain ⟨tokens, ht, hp⟩ := Option.bind_eq_some_iff.1 hread
  replace ht := Except.eq_ok_of_toOption ht
  replace hp := Except.eq_ok_of_toOption hp
  have hs : splitLines "workflow W():\r\n  break\n  activity B()".toList =
      ["workflow W():\r".toList, "  break".toList, "  activity B()".toList] := by decide +kernel
  have hs' : splitLines
      "# top\nworkflow W(): # note\r\n\t\n  break\n      # deep\n  activity B()".toList =
      ["# top".toList, withNote "workflow W():\r".toList (" ".toList ++ '#' :: " note".toList),
        "\t".toList, "  break".toList, "      # deep".toList, "  activity B()".toList] := by
    decide +kernel
  have hpad : Padded (2 * ·) 1 1 (splitLines "workflow W():\r\n  break\n  activity B()".toList)
      (splitLines
        "# top\nworkflow W(): # note\r\n\t\n  break\n      # deep\n  activity B()".toList) := by
    rw [hs, hs']
    have hgap : ∀ c ∈ " ".toList, Text.isGap c = true := List.all_eq_true.1 rfl
    exact .trivia (by decide +kernel) (.note (by decide +kernel) hgap rfl
      (.trivia (by decide +kernel) (.same rfl (.trivia (by decide +kernel) (.same rfl .done)))))
  obtain ⟨-, -, -, -, -, same⟩ := trivia_is_inert hpad ht hp
  obtain ⟨herrors, hfindings⟩ := same .collectAll
  exact ⟨tokens, p, ht, hp, hpad, herrors.trans (by decide +kernel),
    hfindings.trans (by decide +kernel)⟩

end FlowLang
