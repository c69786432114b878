import FlowLang.Analysis

/-!
# The two ways to read agree

Reading that stops at the first fault and reading that goes on after it are the same up to that
fault.

* `recoverDefinitions_of_definitions` : the two loops side by side, until one of them stops.
* `Program.ofTokens_eq` : reading that stops, told by reading that goes on, for every list of
  tokens.
* `agreement_of_modes` : what follows for the analysis of a source text.
-/

namespace FlowLang

/-! ### Reading tokens -/

namespace Reader

theorem nextDefinition_eq (stop : Position) (tokens : List Token) :
    nextDefinition stop tokens =
      match tokens.dropWhile (·.kind.isTrivia) with
      | [] => .ok (none, [])
      | t :: ts =>
        if t.kind = .eof then .ok (none, t :: ts)
        else (some <$> definition) stop (t :: ts) := by
  simp only [nextDefinition, skipTrivia, skipWhile, peek, bind_apply]
  cases tokens.dropWhile (·.kind.isTrivia) with
  | nil => rfl
  | cons t ts =>
    cases h : t.kind <;> simp [kindOf, h, pure_apply]

theorem definitions_eq (stop : Position) (tokens : List Token) :
    definitions stop tokens =
      match tokens.dropWhile (·.kind.isTrivia) with
      | [] => .ok ([], [])
      | t :: ts =>
        if t.kind = .eof then .ok ([], t :: ts)
        else
          match definition stop (t :: ts) with
          | .error f => .error f
          | .ok (d, rest) => ((d :: ·) <$> definitions) stop rest := by
  conv => lhs; rw [definitions, collect_eq, bind_apply, nextDefinition_eq]
  cases tokens.dropWhile (·.kind.isTrivia) with
  | nil => rfl
  | cons t ts =>
    by_cases h : t.kind = .eof
    · simp [h, pure_apply]
    · simp only [h, if_false, map_apply]
      cases definition stop (t :: ts) <;> rfl

end Reader

/-- The errors that reading with recovery reports, when reading without it ends like this. -/
theorem recoverDefinitions_of_definitions (stop : Position) (tokens : List Token) :
    match Reader.definitions stop tokens with
    | .ok (ds, _) => recoverDefinitions stop tokens = (ds, [])
    | .error f => (recoverDefinitions stop tokens).2.head? = some f.error := by
  fun_induction recoverDefinitions stop tokens with
  | case1 tokens h => rw [Reader.definitions_eq, h]
  | case2 tokens t ts h _ ht => rw [Reader.definitions_eq, h]; simp [ht]
  | case3 tokens t ts h _ ht d rest hd _ later ih =>
    rw [Reader.definitions_eq, h]
    simp only [ht, if_false, hd, Reader.map_apply]
    cases hr : Reader.definitions stop rest with
    | error f => simpa only [hr] using ih
    | ok r =>
      simp only [hr] at ih
      simp [later, ih]
  | case4 tokens t ts h _ ht fault hd _ later ih =>
    rw [Reader.definitions_eq, h]
    simp [ht, hd]

namespace Program

/-- Reading that stops at the first fault returns what reading with recovery returns, or the first
of its errors. -/
theorem ofTokens_eq (tokens : List Token) :
    ofTokens tokens =
      match (recover tokens).2 with
      | [] => .ok (recover tokens).1
      | e :: _ => .error e := by
  have h := recoverDefinitions_of_definitions (inputEnd tokens) (beforeEnd tokens)
  unfold ofTokens recover
  cases hd : Reader.definitions (inputEnd tokens) (beforeEnd tokens) with
  | ok r =>
    simp only [hd] at h
    simp [h]
  | error f =>
    simp only [hd] at h
    cases he : (recoverDefinitions (inputEnd tokens) (beforeEnd tokens)).2 with
    | nil => simp [he] at h
    | cons e later =>
      rw [he] at h
      simp_all

theorem ofTokens_eq_ok_iff {tokens : List Token} {p : Program} :
    ofTokens tokens = .ok p ↔ recover tokens = (p, []) := by
  rw [ofTokens_eq]
  obtain ⟨q, errors⟩ := recover tokens
  cases errors <;> simp

theorem head?_of_ofTokens_eq_error {tokens : List Token} {e : SyntaxError}
    (h : ofTokens tokens = .error e) : (recover tokens).2.head? = some e := by
  rw [ofTokens_eq] at h
  cases he : (recover tokens).2 with
  | nil => simp [he] at h
  | cons e' later => simpa [he] using h

end Program

/-! ### Analyzing a source text -/

namespace Analysis

/-- Both modes of reading these tokens, told by reading with recovery. -/
theorem ofTokens_failFast (tokens : List Token) :
    ofTokens .failFast tokens =
      match (Program.recover tokens).2 with
      | [] => ofTokens .collectAll tokens
      | e :: _ => failure (.ofSyntaxError e) := by
  simp only [ofTokens, Program.ofTokens_eq]
  cases h : (Program.recover tokens).2 <;> simp

/-- An error that is found after reading is none of reading. -/
theorem phase_of_mem_ofProgram {p : Program} {d : Diagnostic} (h : d ∈ (ofProgram p []).errors) :
    d.phase = .resolve := by
  simp only [ofProgram, List.map_nil, List.nil_append, List.mem_map] at h
  obtain ⟨e, -, rfl⟩ := h
  rfl

theorem phase_of_mem_collectAll {tokens : List Token} {d : Diagnostic}
    (h : d ∈ (ofTokens .collectAll tokens).errors) : d.phase ≠ .lex := by
  simp only [ofTokens, ofProgram, List.mem_append, List.mem_map] at h
  rcases h with ⟨e, -, rfl⟩ | ⟨e, -, rfl⟩ <;> simp [Diagnostic.ofSyntaxError,
    Diagnostic.ofResolveError]

theorem hasErrors_failFast (tokens : List Token) :
    (ofTokens .failFast tokens).hasErrors = (ofTokens .collectAll tokens).hasErrors := by
  rw [ofTokens_failFast]
  split
  · rfl
  next e later h =>
    -- both sides have an error already, so the findings do not matter
    simp [ofTokens, ofProgram, failure, hasErrors, h]

theorem ofTokens_eq_of_phases {tokens : List Token}
    (h : (∀ d ∈ (ofTokens .failFast tokens).errors, d.phase ≠ .parse) ∨
      ∀ d ∈ (ofTokens .collectAll tokens).errors, d.phase ≠ .parse) :
    ofTokens .failFast tokens = ofTokens .collectAll tokens := by
  rw [ofTokens_failFast] at h ⊢
  split
  · rfl
  next e later he =>
    have hf : Diagnostic.ofSyntaxError e ∈ (failure (.ofSyntaxError e)).errors :=
      List.mem_singleton_self _
    have hc : Diagnostic.ofSyntaxError e ∈ (ofTokens .collectAll tokens).errors := by
      simp [ofTokens, ofProgram, he]
    rw [he] at h
    rcases h with h | h
    · exact absurd rfl (h _ hf)
    · exact absurd rfl (h _ hc)

theorem head?_errors_collectAll {tokens : List Token} {d : Diagnostic}
    (hd : d ∈ (ofTokens .failFast tokens).errors) (hp : d.phase ≠ .resolve) :
    (ofTokens .failFast tokens).errors = [d] ∧
      (ofTokens .collectAll tokens).errors.head? = some d := by
  rw [ofTokens_failFast] at hd ⊢
  split at hd
  next he =>
    have : ofTokens .collectAll tokens = ofProgram (Program.recover tokens).1 [] := by
      simp only [ofTokens, he]
    rw [this] at hd
    exact absurd (phase_of_mem_ofProgram hd) hp
  next e later he =>
    obtain rfl : d = .ofSyntaxError e := List.mem_singleton.1 hd
    simp [failure, ofTokens, ofProgram, he]

theorem program_ofTokens_eq_none_iff {mode : Mode} {tokens : List Token} :
    (ofTokens mode tokens).program = none ↔
      ∃ d, (ofTokens mode tokens).errors = [d] ∧
        (d.phase = .lex ∨ mode = .failFast ∧ d.phase = .parse) := by
  cases mode with
  | collectAll =>
    refine iff_of_false (by simp [ofTokens, ofProgram]) ?_
    rintro ⟨d, hd, hp | ⟨⟨⟩, -⟩⟩
    exact phase_of_mem_collectAll (hd ▸ List.mem_singleton_self d) hp
  | failFast =>
    cases h : Program.ofTokens tokens with
    | error e => simp [ofTokens, h, failure, Diagnostic.ofSyntaxError]
    | ok p =>
      refine iff_of_false (by simp [ofTokens, h, ofProgram]) ?_
      rintro ⟨d, hd, hp⟩
      simp only [ofTokens, h] at hd
      have hr := phase_of_mem_ofProgram (hd ▸ List.mem_singleton_self d)
      simp [hr] at hp

end Analysis

/-- **The two ways to read agree.**  On tokens, reading that stops succeeds exactly if recovery
meets no fault, with the same program, and otherwise it stops at the first fault of recovery.  On a
source text the two analyses agree on whether anything is wrong; they are the same if the text has
no fault against the grammar; the error at which reading stops is the first one of the other
analysis; and there is no program exactly if that error is the only one. -/
theorem agreement_of_modes :
    (∀ tokens p, Program.ofTokens tokens = .ok p ↔ Program.recover tokens = (p, [])) ∧
    (∀ tokens e, Program.ofTokens tokens = .error e →
      (Program.recover tokens).2.head? = some e) ∧
    (∀ source, (analyze source .failFast).hasErrors = (analyze source .collectAll).hasErrors) ∧
    (∀ source, ((∀ d ∈ (analyze source .failFast).errors, d.phase ≠ .parse) ∨
        ∀ d ∈ (analyze source .collectAll).errors, d.phase ≠ .parse) →
      analyze source .failFast = analyze source .collectAll) ∧
    (∀ source, ∀ d ∈ (analyze source .failFast).errors, d.phase = .lex ∨ d.phase = .parse →
      (analyze source .failFast).errors = [d] ∧
        (analyze source .collectAll).errors.head? = some d) ∧
    ∀ source mode, (analyze source mode).program = none ↔
      ∃ d, (analyze source mode).errors = [d] ∧
        (d.phase = .lex ∨ mode = .failFast ∧ d.phase = .parse) := by
  refine ⟨fun _ _ => Program.ofTokens_eq_ok_iff, fun _ _ => Program.head?_of_ofTokens_eq_error,
    fun source => ?_, fun source => ?_, fun source d hd hp => ?_, fun source mode => ?_⟩
  · unfold analyze
    cases tokenize source with
    | error e => rfl
    | ok tokens => exact Analysis.hasErrors_failFast tokens
  · unfold analyze
    cases tokenize source with
    | error e => exact fun _ => rfl
    | ok tokens => exact Analysis.ofTokens_eq_of_phases
  · unfold analyze at hd ⊢
    cases h : tokenize source with
    | error e =>
      rw [h] at hd
      obtain rfl : d = .ofLexError e := List.mem_singleton.1 hd
      exact ⟨rfl, rfl⟩
    | ok tokens =>
      rw [h] at hd
      refine Analysis.head?_errors_collectAll hd ?_
      rcases hp with hp | hp <;> simp [hp]
  · unfold analyze
    cases tokenize source with
    | error e => simp [Analysis.failure, Diagnostic.ofLexError]
    | ok tokens => exact Analysis.program_ofTokens_eq_none_iff

/-- A lone word is no definition, in both modes; an activity is read alike in both. -/
theorem agreement_of_modes_word :
    (Program.ofTokens [⟨.ident, "x", ⟨1, 1⟩⟩] =
        .error ⟨.expected .definition (.text "x"), ⟨1, 1⟩⟩ ∧
      (Program.recover [⟨.ident, "x", ⟨1, 1⟩⟩]).2.head? =
        some ⟨.expected .definition (.text "x"), ⟨1, 1⟩⟩) ∧
    ((∀ d ∈ (analyze "activity A():\n  x" .failFast).errors, d.phase ≠ .parse) ∧
      analyze "activity A():\n  x" .failFast = analyze "activity A():\n  x" .collectAll) ∧
    ∃ d, (d ∈ (analyze "x" .failFast).errors ∧ d.phase = .parse) ∧
      (analyze "x" .failFast).errors = [d] ∧
      (analyze "x" .collectAll).errors.head? = some d := by
  have word : Program.ofTokens [⟨.ident, "x", ⟨1, 1⟩⟩] =
      .error ⟨.expected .definition (.text "x"), ⟨1, 1⟩⟩ := by cbv
  have clean : ∀ d ∈ (analyze "activity A():\n  x" .failFast).errors, d.phase ≠ .parse := by
    decide +kernel
  have found : ⟨.parse, "expected 'workflow' or 'activity' definition, found 'x'", ⟨1, 1⟩⟩ ∈
      (analyze "x" .failFast).errors := by decide +kernel
  exact ⟨⟨word, agreement_of_modes.2.1 _ _ word⟩,
    ⟨clean, agreement_of_modes.2.2.2.1 _ (.inl clean)⟩,
    _, ⟨found, rfl⟩, agreement_of_modes.2.2.2.2.1 _ _ found (.inr rfl)⟩

end FlowLang
