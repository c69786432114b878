import FlowLang.Proofs.Grammar.Lines

/-!
# What is read follows the grammar

Whatever a reader returns, the grammar allows it at the same tokens.

* `collect_eq_nil`, `collect_eq_cons` : the outcome of a repetition.
* `leadingComments_iff` : the comments before a block.
* `statements_sound`, `block_sound`, `branch_sound`, … : one lemma for every reader with statements
  inside, given that those follow the grammar.
* `reads_of_statement`, `defines_of_definition`, `definesAll_of_definitions` : the results.
-/

namespace FlowLang

open Reader Grammar

variable {α β : Type} {stop : Position} {ts rest : List Token} {scope : Scope}

/-! ### Repetition -/

theorem collect_eq_nil {r : Reader (Option α)} {hs : Steps r} :
    collect r hs stop ts = .ok ([], rest) ↔ r stop ts = .ok (none, rest) := by
  constructor
  · intro h
    rw [collect_eq] at h
    obtain ⟨o, mid, h₁, h⟩ := bind_eq_ok.1 h
    cases o with
    | none => cases h; exact h₁
    | some a =>
      obtain ⟨later, -, h⟩ := map_eq_ok.1 h
      cases h
  · intro h
    rw [collect_eq]
    exact bind_eq_ok.2 ⟨none, rest, h, rfl⟩

theorem collect_eq_cons {r : Reader (Option α)} {hs : Steps r} {a : α} {later : List α} :
    collect r hs stop ts = .ok (a :: later, rest) ↔
      ∃ mid, r stop ts = .ok (some a, mid) ∧ collect r hs stop mid = .ok (later, rest) := by
  constructor
  · intro h
    rw [collect_eq] at h
    obtain ⟨o, mid, h₁, h⟩ := bind_eq_ok.1 h
    cases o with
    | none => cases h
    | some b =>
      obtain ⟨later', h, he⟩ := map_eq_ok.1 h
      cases he
      exact ⟨mid, h₁, h⟩
  · rintro ⟨mid, h₁, h⟩
    rw [collect_eq]
    exact bind_eq_ok.2 ⟨some a, mid, h₁, map_eq_ok.2 ⟨later, h, rfl⟩⟩

/-! ### Comments -/

theorem leadingComment_eq_none : leadingComment stop ts = .ok (none, rest) ↔
    kindOf (pastNewlines ts) ≠ .comment ∧ rest = pastNewlines ts := by
  rw [leadingComment, skipNewlines_bind, peek_bind]
  generalize hk : kindOf (pastNewlines ts) = k
  split
  · simp [map_eq_ok]
  · rename_i hne
    simp [pure_eq_ok, show k ≠ .comment from fun h => hne h]

theorem leadingComment_eq_some {s : Statement} : leadingComment stop ts = .ok (some s, rest) ↔
    ∃ c us, c.kind = .comment ∧ pastNewlines ts = c :: us ∧ LineEnd us rest ∧
      s = .comment (Text.trim c.literal) c.position := by
  rw [leadingComment, skipNewlines_bind, peek_bind]
  generalize hk : kindOf (pastNewlines ts) = k
  split
  · simp only [map_eq_ok, commentLine_iff, Option.some.injEq]
    grind
  · rename_i hne
    refine iff_of_false (by simp [pure_eq_ok]) ?_
    rintro ⟨c, us, hc, hts, -⟩
    rw [hts, kindOf, hc] at hk
    exact hne hk.symm

theorem leadingComments_iff {l : List Statement} :
    leadingComments stop ts = .ok (l, rest) ↔ Comments l ts rest := by
  induction l generalizing ts with
  | nil =>
    rw [leadingComments, collect_eq_nil, leadingComment_eq_none]
    constructor
    · rintro ⟨hne, rfl⟩
      exact .nil hne
    · rintro ⟨hne⟩
      exact ⟨hne, rfl⟩
  | cons s later ih =>
    rw [leadingComments, collect_eq_cons]
    constructor
    · rintro ⟨mid, h, h'⟩
      obtain ⟨c, us, hc, hts, he, rfl⟩ := leadingComment_eq_some.1 h
      exact .cons hts hc he (ih.1 h')
    · rintro (_ | ⟨hts, hc, he, h⟩)
      exact ⟨_, leadingComment_eq_some.2 ⟨_, _, hc, hts, he, rfl⟩, ih.2 h⟩

/-! ### Lines of other languages -/

theorem rawLine_eq_ok {s : Statement} : rawLine stop ts = .ok (s, rest) ↔
    lineText (lineOf ts) ≠ "" ∧ LineEnd (pastLine ts) rest ∧
      s = .raw (lineText (lineOf ts)) (placeOf stop ts) := by
  rw [rawLine, here_bind, textTokens_bind]
  split
  next h => exact iff_of_false failFound_ne_ok fun h' => h'.1 h
  next h =>
    simp only [lineEnd_bind_eq_ok, pure_eq_ok]
    grind

/-! ### Blocks -/

section

variable {inner : StatementReader}

theorem nextStatement_eq_none {column : Nat} :
    nextStatement inner column stop ts = .ok (none, rest) ↔
      (kindOf (pastNewlines ts) = .dedent ∨ kindOf (pastNewlines ts) = .eof) ∧
          rest = pastNewlines ts ∨
        commentEndsBlock column (pastNewlines ts) = true ∧
          rest = dedentFirst (pastNewlines ts) := by
  have outside : ∀ {us : List Token}, kindOf us = .dedent ∨ kindOf us = .eof →
      commentEndsBlock column us = false := by
    intro us h
    cases us with
    | nil => rfl
    | cons t us => rcases h with h | h <;> simp_all [commentEndsBlock, kindOf]
  rw [nextStatement, skipNewlines_bind, peek_bind]
  generalize hk : kindOf (pastNewlines ts) = k
  split
  · simp [pure_eq_ok, outside (.inl hk)]
  · simp [pure_eq_ok, outside (.inr hk)]
  · rename_i hd he
    rw [ask_bind]
    cases hc : commentEndsBlock column (pastNewlines ts) with
    | true =>
      simp only [bind_apply, rearrange, pure_eq_ok, true_and, show k ≠ .dedent from hd,
        show k ≠ .eof from he, or_self, false_and, false_or]
    | false => simp [map_eq_ok, show k ≠ .dedent from hd, show k ≠ .eof from he]

theorem nextStatement_eq_some {column : Nat} {s : Statement} :
    nextStatement inner column stop ts = .ok (some s, rest) ↔
      kindOf (pastNewlines ts) ≠ .dedent ∧ kindOf (pastNewlines ts) ≠ .eof ∧
        commentEndsBlock column (pastNewlines ts) = false ∧
        inner.1 stop (pastNewlines ts) = .ok (s, rest) := by
  rw [nextStatement, skipNewlines_bind, peek_bind]
  generalize hk : kindOf (pastNewlines ts) = k
  split
  · simp [pure_eq_ok]
  · simp [pure_eq_ok]
  · rename_i hd he
    rw [ask_bind]
    cases hc : commentEndsBlock column (pastNewlines ts) with
    | true => simp [bind_apply, rearrange, pure_eq_ok]
    | false =>
      simp [map_eq_ok, show k ≠ .dedent from hd, show k ≠ .eof from he]

variable (hi : ∀ ⦃stop ts s rest⦄, inner.1 stop ts = .ok (s, rest) →
  Reads scope (.statement s) ts rest)
include hi

theorem statements_sound {column : Nat} {l : List Statement}
    (h : statements inner column stop ts = .ok (l, rest)) :
    Reads scope (.statements column l) ts rest := by
  induction l generalizing ts with
  | nil =>
    rw [statements, collect_eq_nil, nextStatement_eq_none] at h
    rcases h with ⟨hk, rfl⟩ | ⟨hc, rfl⟩
    · exact .noStatement hk
    · exact .outdented hc
  | cons s later ih =>
    rw [statements, collect_eq_cons] at h
    obtain ⟨mid, h, h'⟩ := h
    obtain ⟨hd, he, hc, h⟩ := nextStatement_eq_some.1 h
    exact .statementCons hd he hc (hi h) (ih h')

theorem blockLines_sound {l : List Statement} (h : blockLines inner stop ts = .ok (l, rest)) :
    Reads scope (.lines l) ts rest := by
  obtain ⟨comments, ts₁, hc, h⟩ := bind_eq_ok.1 h
  replace h := expect_bind_eq_ok.1 h
  obtain ⟨i, ts₂, hik, rfl, h⟩ := h
  obtain ⟨body, ts₃, hb, h⟩ := bind_eq_ok.1 h
  replace h := expect_bind_eq_ok.1 h
  obtain ⟨d, ts₄, hd, rfl, h⟩ := h
  obtain ⟨rfl, rfl⟩ := pure_eq_ok.1 h
  exact .lines (leadingComments_iff.1 hc) hik (statements_sound hi hb) hd

theorem block_sound {l : List Statement} (h : block inner stop ts = .ok (l, rest)) :
    Reads scope (.block l) ts rest := by
  replace h := expect_bind_eq_ok.1 h
  obtain ⟨c, ts₁, hc, rfl, h⟩ := h
  obtain ⟨ts₂, he, h⟩ := lineEnd_bind_eq_ok.1 h
  exact .block hc he (blockLines_sound hi h)

theorem optionalBlock_sound {o : Option (List Statement)}
    (h : optionalBlock inner stop ts = .ok (o, rest)) :
    Reads scope (.optionalBlock o) ts rest := by
  replace h := expect_bind_eq_ok.1 h
  obtain ⟨c, ts₁, hc, rfl, h⟩ := h
  obtain ⟨ts₂, he, h⟩ := lineEnd_bind_eq_ok.1 h
  rw [peekPastTrivia_bind] at h
  generalize hk : kindOf (pastTrivia ts₂) = k at h
  split at h
  · obtain ⟨l, hl, rfl⟩ := map_eq_ok.1 h
    exact .someBlock hc he hk (blockLines_sound hi hl)
  · rename_i hne
    obtain ⟨rfl, rfl⟩ := pure_eq_ok.1 h
    exact .noBlock hc he fun h => hne (hk.symm.trans h)

/-! ### Control flow -/

theorem elseBody_sound {o : Option (List Statement)} (h : elseBody inner stop ts = .ok (o, rest)) :
    Reads scope (.elseBody o) ts rest := by
  rw [elseBody, peekPastTrivia_bind] at h
  generalize hk : kindOf (pastTrivia ts) = k at h
  split at h
  · obtain ⟨comments, ts₁, hc, h⟩ := bind_eq_ok.1 h
    replace h := expect_bind_eq_ok.1 h
    obtain ⟨w, ts₂, hw, rfl, h⟩ := h
    rw [peek_bind] at h
    generalize hs : kindOf ts₂ = s at h
    split at h
    · obtain ⟨s, ts₃, hb, h⟩ := bind_eq_ok.1 h
      obtain ⟨rfl, rfl⟩ := pure_eq_ok.1 h
      exact .elseIf hk (leadingComments_iff.1 hc) hw hs (hi hb)
    · obtain ⟨body, ts₃, hb, h⟩ := bind_eq_ok.1 h
      obtain ⟨rfl, rfl⟩ := pure_eq_ok.1 h
      exact .elseBlock hk (leadingComments_iff.1 hc) hw (block_sound hi hb)
  · rename_i hne
    obtain ⟨rfl, rfl⟩ := pure_eq_ok.1 h
    exact .noElse fun h => hne (hk.symm.trans h)

theorem branch_sound {s : Statement} (h : branch inner stop ts = .ok (s, rest)) :
    Reads scope (.statement s) ts rest := by
  replace h := expect_bind_eq_ok.1 h
  obtain ⟨w, ts₁, hw, rfl, h⟩ := h
  replace h := args_bind_eq_ok.1 h
  obtain ⟨a, ts₂, ha, rfl, h⟩ := h
  obtain ⟨body, ts₃, hb, h⟩ := bind_eq_ok.1 h
  obtain ⟨o, ts₄, ho, h⟩ := bind_eq_ok.1 h
  obtain ⟨rfl, rfl⟩ := pure_eq_ok.1 h
  exact .branch hw ha (block_sound hi hb) (elseBody_sound hi ho)

theorem loop_sound {s : Statement} (h : loop inner stop ts = .ok (s, rest)) :
    Reads scope (.statement s) ts rest := by
  replace h := expect_bind_eq_ok.1 h
  obtain ⟨w, ts₁, hw, rfl, h⟩ := h
  obtain ⟨header, ts₂, hh, h⟩ := bind_eq_ok.1 h
  obtain ⟨body, ts₃, hb, h⟩ := bind_eq_ok.1 h
  obtain ⟨rfl, rfl⟩ := pure_eq_ok.1 h
  exact .loop hw (loopHeader_iff.1 hh) (block_sound hi hb)

omit hi in
theorem caseValue_bind_eq_ok {f : String → Reader β} {b : β} :
    (caseValue >>= f) stop ts = .ok (b, rest) ↔ ∃ v us,
      (v.kind = .args ∨ v.kind = .string ∨ v.kind = .ident) ∧ ts = v :: us ∧
        f v.literal stop us = .ok (b, rest) := by
  have value : ∀ {s : String} {us : List Token}, caseValue stop ts = .ok (s, us) ↔
      ∃ v, (v.kind = .args ∨ v.kind = .string ∨ v.kind = .ident) ∧ ts = v :: us ∧ s = v.literal := by
    intro s us
    simp only [caseValue, accept?_bind_eq_ok (k := .args) (by decide),
      accept?_bind_eq_ok (k := .string) (by decide), pure_eq_ok]
    constructor
    · rintro (⟨-, ⟨-, h⟩ | ⟨v, vs, hv, rfl, rfl, rfl⟩⟩ | ⟨v, vs, hv, rfl, rfl, rfl⟩)
      · replace h := expect_bind_eq_ok.1 h
        obtain ⟨v, vs, hv, rfl, h⟩ := h
        obtain ⟨rfl, rfl⟩ := pure_eq_ok.1 h
        exact ⟨v, .inr (.inr hv), rfl, rfl⟩
      · exact ⟨v, .inr (.inl hv), rfl, rfl⟩
      · exact ⟨v, .inl hv, rfl, rfl⟩
    · rintro ⟨v, hv | hv | hv, rfl, rfl⟩
      · exact .inr ⟨v, us, hv, rfl, rfl, rfl⟩
      · exact .inl ⟨by simp [kindOf, hv], .inr ⟨v, us, hv, rfl, rfl, rfl⟩⟩
      · exact .inl ⟨by simp [kindOf, hv], .inl ⟨by simp [kindOf, hv],
          expect_bind_eq_ok.2 ⟨v, us, hv, rfl, rfl⟩⟩⟩
  simp only [bind_eq_ok, value]
  grind

theorem switchCases_sound {l : List SwitchCase}
    (h : collect (nextCase inner) (nextCase_steps inner) stop ts = .ok (l, rest)) :
    Reads scope (.switchCases l) ts rest := by
  induction l generalizing ts with
  | nil =>
    rw [collect_eq_nil, nextCase, skipTrivia_bind, peek_bind] at h
    generalize hk : kindOf (pastTrivia ts) = k at h
    split at h
    · obtain ⟨c, -, hc⟩ := map_eq_ok.1 h
      cases hc
    · rename_i hne
      obtain ⟨-, rfl⟩ := pure_eq_ok.1 h
      exact .noSwitchCase fun h => hne (hk.symm.trans h)
  | cons c later ih =>
    obtain ⟨mid, h, h'⟩ := collect_eq_cons.1 h
    rw [nextCase, skipTrivia_bind, peek_bind] at h
    generalize hk : kindOf (pastTrivia ts) = k at h
    split at h
    · obtain ⟨c, h, hc⟩ := map_eq_ok.1 h
      cases hc
      obtain ⟨w, ts₁, hw, hts, h⟩ := expect_bind_eq_ok.1 h
      replace h := caseValue_bind_eq_ok.1 h
      obtain ⟨v, ts₂, hv, rfl, h⟩ := h
      obtain ⟨body, ts₃, hb, h⟩ := bind_eq_ok.1 h
      obtain ⟨rfl, rfl⟩ := pure_eq_ok.1 h
      exact .switchCase hts hw hv (block_sound hi hb) (ih h')
    · obtain ⟨hc, -⟩ := pure_eq_ok.1 h
      cases hc

omit hi in
theorem endOfSwitch_eq_ok {u : Unit} : endOfSwitch stop ts = .ok (u, rest) ↔
    (kindOf (pastTrivia ts) = .dedent ∨ kindOf (pastTrivia ts) = .eof) ∧ rest = pastTrivia ts := by
  rw [endOfSwitch, skipTrivia_bind, peek_bind]
  generalize hk : kindOf (pastTrivia ts) = k
  split
  · simp [pure_eq_ok]
  · simp [pure_eq_ok]
  · simp [fail_ne_ok]
  · simp [fail_ne_ok]
  · rename_i hd he _ _
    simp [failFound_ne_ok, show k ≠ .dedent from hd, show k ≠ .eof from he]

theorem fallback_sound {o : Option (List Statement)} (h : fallback inner stop ts = .ok (o, rest)) :
    Reads scope (.fallback o) ts rest := by
  rw [fallback, peek_bind] at h
  generalize hk : kindOf ts = k at h
  split at h
  · obtain ⟨rfl, rfl⟩ := pure_eq_ok.1 h
    exact .noFallback (.inl hk)
  · obtain ⟨rfl, rfl⟩ := pure_eq_ok.1 h
    exact .noFallback (.inr hk)
  · obtain ⟨w, us, rfl, hw⟩ := exists_of_kindOf hk (by decide)
    rw [skip_bind] at h
    obtain ⟨body, ts₁, hb, h⟩ := bind_eq_ok.1 h
    obtain ⟨_, ts₂, he, h⟩ := bind_eq_ok.1 h
    obtain ⟨rfl, rfl⟩ := pure_eq_ok.1 h
    obtain ⟨hend, rfl⟩ := endOfSwitch_eq_ok.1 he
    exact .fallback hw (block_sound hi hb) hend
  · exact absurd h failFound_ne_ok

theorem switch_sound {s : Statement} (h : switch inner stop ts = .ok (s, rest)) :
    Reads scope (.statement s) ts rest := by
  replace h := expect_bind_eq_ok.1 h
  obtain ⟨w, ts₁, hw, rfl, h⟩ := h
  replace h := args_bind_eq_ok.1 h
  obtain ⟨a, ts₂, ha, rfl, h⟩ := h
  replace h := expect_bind_eq_ok.1 h
  obtain ⟨c, ts₃, hc, rfl, h⟩ := h
  obtain ⟨ts₄, he, h⟩ := lineEnd_bind_eq_ok.1 h
  rw [skipTrivia_bind] at h
  obtain ⟨-, h⟩ | ⟨i, ts₅, hik, hts, h⟩ := (accept?_bind_eq_ok (by decide)).1 h
  · exact absurd h failAt_ne_ok
  · obtain ⟨cases, ts₆, hl, h⟩ := bind_eq_ok.1 h
    obtain ⟨o, ts₇, ho, h⟩ := bind_eq_ok.1 h
    replace h := expect_bind_eq_ok.1 h
    obtain ⟨d, ts₈, hd, rfl, h⟩ := h
    split at h
    · exact absurd h failAt_ne_ok
    next hne =>
      obtain ⟨rfl, rfl⟩ := pure_eq_ok.1 h
      exact .switch hw ha hc he hts hik (switchCases_sound hi hl) (fallback_sound hi ho) hd
        (by simpa using hne)

/-! ### Waiting -/

theorem caseWithBlock_sound {p : Position} {target : Reader RaceTarget} {c : RaceCase}
    (h : caseWithBlock inner p target stop ts = .ok (c, rest)) :
    ∃ t mid body, target stop ts = .ok (t, mid) ∧ Reads scope (.optionalBlock body) mid rest ∧
      c = ⟨t, body, p⟩ := by
  obtain ⟨t, mid, ht, h⟩ := bind_eq_ok.1 h
  obtain ⟨body, ts₂, hb, h⟩ := bind_eq_ok.1 h
  obtain ⟨rfl, rfl⟩ := pure_eq_ok.1 h
  exact ⟨t, mid, body, ht, optionalBlock_sound hi hb, rfl⟩

/-- A case of a race is a target with a block that may be absent, or a group. -/
theorem raceCase_sound {c : RaceCase} (h : raceCase inner stop ts = .ok (c, rest)) :
    (∃ w us target body mid, ts = w :: us ∧ Raced target (w :: us) mid ∧
      Reads scope (.optionalBlock body) mid rest ∧ c = ⟨target, body, w.position⟩) ∨
    ∃ w a us body, ts = w :: a :: us ∧ w.kind = .keyword .await ∧ a.kind = .keyword .all ∧
      Reads scope (.block body) us rest ∧ c = ⟨.awaitAll body, none, w.position⟩ := by
  rw [raceCase, here_bind, peek_bind] at h
  generalize hk : kindOf ts = k at h
  have call : caseWithBlock inner (placeOf stop ts) (.workflow <$> awaitedCall) stop ts
      = .ok (c, rest) → ∃ w us target body mid, ts = w :: us ∧ Raced target (w :: us) mid ∧
        Reads scope (.optionalBlock body) mid rest ∧ c = ⟨target, body, w.position⟩ := by
    intro h
    obtain ⟨t, mid, body, ht, hb, rfl⟩ := caseWithBlock_sound hi h
    obtain ⟨call, hcall, rfl⟩ := map_eq_ok.1 ht
    obtain ⟨hcall, hm⟩ := awaitedCall_iff.1 hcall
    obtain ⟨w, us, rfl⟩ : ∃ w us, ts = w :: us := by cases hcall; exact ⟨_, _, rfl⟩
    exact ⟨w, us, _, body, mid, rfl, .workflow hcall hm, hb, rfl⟩
  split at h
  · obtain ⟨w, us, rfl, hw⟩ := exists_of_kindOf hk (by decide)
    rw [skip_bind] at h
    obtain ⟨t, mid, body, ht, hb, rfl⟩ := caseWithBlock_sound hi h
    obtain ⟨e, he, rfl⟩ := map_eq_ok.1 ht
    exact .inl ⟨w, us, _, body, mid, rfl, .signal hw (awaitedEvent_iff.1 he), hb, rfl⟩
  · obtain ⟨w, us, rfl, hw⟩ := exists_of_kindOf hk (by decide)
    rw [skip_bind] at h
    obtain ⟨t, mid, body, ht, hb, rfl⟩ := caseWithBlock_sound hi h
    obtain ⟨e, he, rfl⟩ := map_eq_ok.1 ht
    exact .inl ⟨w, us, _, body, mid, rfl, .update hw (awaitedEvent_iff.1 he), hb, rfl⟩
  · obtain ⟨w, us, rfl, hw⟩ := exists_of_kindOf hk (by decide)
    rw [skip_bind] at h
    obtain ⟨t, mid, body, ht, hb, rfl⟩ := caseWithBlock_sound hi h
    obtain ⟨a, ha, rfl⟩ := map_eq_ok.1 ht
    obtain ⟨a, vs, hak, hus, ha⟩ := expect_bind_eq_ok.1 ha
    obtain ⟨rfl, rfl⟩ := pure_eq_ok.1 ha
    obtain rfl : us = a :: mid := hus
    exact .inl ⟨w, _, _, body, mid, rfl, .timer hw hak, hb, rfl⟩
  · obtain ⟨w, us, rfl, hw⟩ := exists_of_kindOf hk (by decide)
    obtain ⟨t, mid, body, ht, hb, rfl⟩ := caseWithBlock_sound hi h
    obtain ⟨call, hcall, rfl⟩ := map_eq_ok.1 ht
    exact .inl ⟨w, us, _, body, mid, rfl, .activity (activityCall_iff.1 hcall), hb, rfl⟩
  · exact .inl (call h)
  · exact .inl (call h)
  · exact .inl (call h)
  · exact .inl (call h)
  · obtain ⟨w, us, rfl, hw⟩ := exists_of_kindOf hk (by decide)
    rw [skip_bind] at h
    obtain ⟨a, vs, ha, hus, h⟩ := expect_bind_eq_ok.1 h
    obtain rfl : us = a :: vs := hus
    obtain ⟨body, ts₂, hb, h⟩ := bind_eq_ok.1 h
    obtain ⟨rfl, rfl⟩ := pure_eq_ok.1 h
    exact .inr ⟨w, a, vs, body, rfl, hw, ha, block_sound hi hb, rfl⟩
  · exact absurd h failFound_ne_ok

theorem raceCases_sound {l : List RaceCase}
    (h : collect (nextRaceCase inner) (nextRaceCase_steps inner) stop ts = .ok (l, rest)) :
    Reads scope (.raceCases l) ts rest := by
  induction l generalizing ts with
  | nil =>
    rw [collect_eq_nil, nextRaceCase, skipTrivia_bind, peek_bind] at h
    generalize hk : kindOf (pastTrivia ts) = k at h
    split at h
    · obtain ⟨-, rfl⟩ := pure_eq_ok.1 h
      exact .noRaceCase (.inl hk)
    · obtain ⟨-, rfl⟩ := pure_eq_ok.1 h
      exact .noRaceCase (.inr hk)
    · obtain ⟨c, -, hc⟩ := map_eq_ok.1 h
      cases hc
  | cons c later ih =>
    obtain ⟨mid, h, h'⟩ := collect_eq_cons.1 h
    rw [nextRaceCase, skipTrivia_bind, peek_bind] at h
    generalize hk : kindOf (pastTrivia ts) = k at h
    split at h
    · cases (pure_eq_ok.1 h).1
    · cases (pure_eq_ok.1 h).1
    · obtain ⟨c, h, hc⟩ := map_eq_ok.1 h
      cases hc
      obtain ⟨w, us, target, body, mid, hts, hr, hb, rfl⟩ | ⟨w, a, us, body, hts, hw, ha, hb, rfl⟩ :=
        raceCase_sound hi h
      · exact .raceCase hts hr hb (ih h')
      · exact .raceGroup hts hw ha hb (ih h')

theorem race_sound {w o : Token} {s : Statement} (hr : scope.isRestricted = false)
    (hw : w.kind = .keyword .await) (ho : o.kind = .keyword .one)
    (h : race inner w.position stop ts = .ok (s, rest)) :
    Reads scope (.statement s) (w :: o :: ts) rest := by
  replace h := expect_bind_eq_ok.1 h
  obtain ⟨c, ts₁, hc, rfl, h⟩ := h
  obtain ⟨ts₂, he, h⟩ := lineEnd_bind_eq_ok.1 h
  rw [skipTrivia_bind] at h
  obtain ⟨-, h⟩ | ⟨i, ts₃, hik, hts, h⟩ := (accept?_bind_eq_ok (by decide)).1 h
  · exact absurd h failAt_ne_ok
  · obtain ⟨cases, ts₄, hl, h⟩ := bind_eq_ok.1 h
    replace h := expect_bind_eq_ok.1 h
    obtain ⟨d, ts₅, hd, rfl, h⟩ := h
    split at h
    · exact absurd h failAt_ne_ok
    next hne =>
      obtain ⟨rfl, rfl⟩ := pure_eq_ok.1 h
      exact .awaitOne hr hw ho hc he hts hik (raceCases_sound hi hl) hd (by simpa using hne)

theorem await_sound {s : Statement} (hr : scope.isRestricted = false)
    (h : await inner stop ts = .ok (s, rest)) : Reads scope (.statement s) ts rest := by
  replace h := expect_bind_eq_ok.1 h
  obtain ⟨w, ts₁, hw, rfl, h⟩ := h
  rw [peek_bind] at h
  generalize hk : kindOf ts₁ = k at h
  have call : (do
      let call ← withOptions awaitedCall
      return Statement.await (.workflow call) w.position : Reader Statement) stop ts₁
        = .ok (s, rest) → Reads scope (.statement s) (w :: ts₁) rest := by
    intro h
    obtain ⟨call, ts₂, hcall, h⟩ := bind_eq_ok.1 h
    obtain ⟨rfl, rfl⟩ := pure_eq_ok.1 h
    obtain ⟨hcall, hm⟩ := awaitedLine_iff.1 hcall
    exact .await hr hw (.workflow hcall hm)
  split at h
  · obtain ⟨a, us, rfl, ha⟩ := exists_of_kindOf hk (by decide)
    rw [skip_bind] at h
    obtain ⟨body, ts₂, hb, h⟩ := bind_eq_ok.1 h
    obtain ⟨rfl, rfl⟩ := pure_eq_ok.1 h
    exact .awaitAll hr hw ha (block_sound hi hb)
  · obtain ⟨o, us, rfl, ho⟩ := exists_of_kindOf hk (by decide)
    rw [skip_bind] at h
    exact race_sound hi hr hw ho h
  · obtain ⟨t, us, rfl, ht⟩ := exists_of_kindOf hk (by decide)
    rw [skip_bind] at h
    obtain ⟨target, ts₂, h₁, h⟩ := bind_eq_ok.1 h
    obtain ⟨ts₃, he, h⟩ := lineEnd_bind_eq_ok.1 h
    obtain ⟨rfl, rfl⟩ := pure_eq_ok.1 h
    obtain ⟨d, h₂, rfl⟩ := map_eq_ok.1 h₁
    obtain ⟨a, vs, ha, hus, h₃⟩ := expect_bind_eq_ok.1 h₂
    obtain ⟨rfl, rfl⟩ := pure_eq_ok.1 h₃
    obtain rfl : us = a :: ts₂ := hus
    exact .await hr hw (.timer ht ha he)
  · obtain ⟨t, us, rfl, ht⟩ := exists_of_kindOf hk (by decide)
    rw [skip_bind] at h
    obtain ⟨target, ts₂, h₁, h⟩ := bind_eq_ok.1 h
    obtain ⟨ts₃, he, h⟩ := lineEnd_bind_eq_ok.1 h
    obtain ⟨rfl, rfl⟩ := pure_eq_ok.1 h
    obtain ⟨e, h₂, rfl⟩ := map_eq_ok.1 h₁
    exact .await hr hw (.signal ht (awaitedEvent_iff.1 h₂) he)
  · obtain ⟨t, us, rfl, ht⟩ := exists_of_kindOf hk (by decide)
    rw [skip_bind] at h
    obtain ⟨target, ts₂, h₁, h⟩ := bind_eq_ok.1 h
    obtain ⟨ts₃, he, h⟩ := lineEnd_bind_eq_ok.1 h
    obtain ⟨rfl, rfl⟩ := pure_eq_ok.1 h
    obtain ⟨e, h₂, rfl⟩ := map_eq_ok.1 h₁
    exact .await hr hw (.update ht (awaitedEvent_iff.1 h₂) he)
  · obtain ⟨call, ts₂, hcall, h⟩ := bind_eq_ok.1 h
    obtain ⟨rfl, rfl⟩ := pure_eq_ok.1 h
    exact .await hr hw (.activity (activityLine_iff.1 hcall))
  · exact call h
  · exact call h
  · exact call h
  · exact call h
  · exact absurd h failFound_ne_ok

/-! ### Statements -/

theorem opened_sound {o : Opening} {s : Statement} (ho : scope.opening? (kindOf ts) = some o)
    (h : opened scope inner o stop ts = .ok (s, rest)) : Reads scope (.statement s) ts rest := by
  -- What a restricted body refuses opens nothing there.
  have free : (kindOf ts).isTemporal = true → scope.isRestricted = false := by
    intro ht
    rw [Scope.opening?, ht, Bool.and_true] at ho
    split at ho
    · cases ho
    · simpa using ‹¬ scope.isRestricted = true›
  cases o with
  | activityCall =>
    obtain ⟨call, hc, rfl⟩ := map_eq_ok.1 h
    rw [activityLine_iff] at hc
    refine .activityCall (free ?_) hc
    obtain ⟨⟨hw, -⟩, -⟩ := hc
    simp [kindOf, hw, TokenKind.isTemporal, Keyword.isTemporal]
  | workflowCall =>
    obtain ⟨call, hc, rfl⟩ := map_eq_ok.1 h
    rw [workflowLine_iff] at hc
    refine .workflowCall (free ?_) hc
    obtain ⟨⟨hm, hn, hw, -⟩, -⟩ := hc
    cases hm with
    | child =>
      cases hn with
      | absent => simp [kindOf, hw, TokenKind.isTemporal, Keyword.isTemporal]
      | present hx => simp [kindOf, hx, TokenKind.isTemporal, Keyword.isTemporal]
    | spawn hx => simp [kindOf, hx, TokenKind.isTemporal, Keyword.isTemporal]
    | detach hx => simp [kindOf, hx, TokenKind.isTemporal, Keyword.isTemporal]
  | await =>
    refine await_sound hi (free ?_) h
    obtain ⟨w, us, hw, rfl, -⟩ := expect_bind_eq_ok.1 h
    simp [kindOf, hw, TokenKind.isTemporal, Keyword.isTemporal]
  | switch => exact switch_sound hi h
  | branch => exact branch_sound hi h
  | loop => exact loop_sound hi h
  | close =>
    replace h := expect_bind_eq_ok.1 h
    obtain ⟨w, us, hw, rfl, h⟩ := h
    split at h
    next hs =>
      obtain ⟨reason, ts₁, hr, h⟩ := bind_eq_ok.1 h
      obtain ⟨value, ts₂, hv, h⟩ := bind_eq_ok.1 h
      obtain ⟨ts₃, he, h⟩ := lineEnd_bind_eq_ok.1 h
      obtain ⟨rfl, rfl⟩ := pure_eq_ok.1 h
      exact .close hs hw (closeReason_iff.1 hr) (args?_iff.1 hv) he
    next => exact absurd h failAt_ne_ok
  | continueAsNew =>
    replace h := expect_bind_eq_ok.1 h
    obtain ⟨w, us, hw, rfl, h⟩ := h
    split at h
    next hs =>
      obtain ⟨value, ts₂, hv, h⟩ := bind_eq_ok.1 h
      obtain ⟨ts₃, he, h⟩ := lineEnd_bind_eq_ok.1 h
      obtain ⟨rfl, rfl⟩ := pure_eq_ok.1 h
      exact .continueAsNew hs hw (args?_iff.1 hv) he
    next => exact absurd h failAt_ne_ok
  | returnValue =>
    replace h := expect_bind_eq_ok.1 h
    obtain ⟨w, us, hw, rfl, h⟩ := h
    split at h
    next => exact absurd h failAt_ne_ok
    next hs =>
      rw [textTokens_bind] at h
      obtain ⟨ts₃, he, h⟩ := lineEnd_bind_eq_ok.1 h
      obtain ⟨rfl, rfl⟩ := pure_eq_ok.1 h
      exact .returnValue hs hw he
  | breakLoop =>
    replace h := expect_bind_eq_ok.1 h
    obtain ⟨w, us, hw, rfl, h⟩ := h
    obtain ⟨ts₃, he, h⟩ := lineEnd_bind_eq_ok.1 h
    obtain ⟨rfl, rfl⟩ := pure_eq_ok.1 h
    exact .breakLoop hw he
  | continueLoop =>
    replace h := expect_bind_eq_ok.1 h
    obtain ⟨w, us, hw, rfl, h⟩ := h
    obtain ⟨ts₃, he, h⟩ := lineEnd_bind_eq_ok.1 h
    obtain ⟨rfl, rfl⟩ := pure_eq_ok.1 h
    exact .continueLoop hw he
  | comment =>
    obtain ⟨c, us, hc, rfl, he, rfl⟩ := commentLine_iff.1 h
    exact .comment hc he
  | misplaced => exact absurd h failFound_ne_ok

omit hi in
theorem rawLine_sound {s : Statement} (hs : RawStart scope ts)
    (h : rawLine stop ts = .ok (s, rest)) : Reads scope (.statement s) ts rest := by
  obtain ⟨hne, he, rfl⟩ := rawLine_eq_ok.1 h
  cases ts with
  | nil => exact absurd rfl hne
  | cons t ts => exact .raw hs hne he

theorem statementWith_sound {s : Statement}
    (h : statementWith scope inner stop ts = .ok (s, rest)) :
    Reads scope (.statement s) ts rest := by
  rw [statementWith, peek_bind, peekSecond_bind] at h
  split at h
  next hc =>
    simp only [Bool.and_eq_true, beq_iff_eq] at hc
    exact rawLine_sound (.inl hc) h
  next =>
    cases ho : scope.opening? (kindOf ts) with
    | some o =>
      rw [ho] at h
      exact opened_sound hi ho h
    | none =>
      rw [ho] at h
      simp only at h
      split at h
      next => exact absurd h fail_ne_ok
      next hr => exact rawLine_sound (.inr ⟨ho, by simpa using hr⟩) h

end

/-- A statement with a bounded nesting follows the grammar. -/
theorem statementWithin_sound (depth : Nat) {s : Statement}
    (h : (statementWithin scope depth).1 stop ts = .ok (s, rest)) :
    Reads scope (.statement s) ts rest := by
  induction depth generalizing stop ts s rest with
  | zero => exact absurd h failFound_ne_ok
  | succ depth ih => exact statementWith_sound (fun _ _ _ _ h => ih h) h

/-- **A statement that is read follows the grammar.** -/
theorem reads_of_statement {s : Statement} (h : (statement scope).1 stop ts = .ok (s, rest)) :
    Reads scope (.statement s) ts rest :=
  statementWithin_sound (ts.length + 1) h

/-! ### Definitions -/

theorem handlerReturnType_eq_ok {word : Keyword} {name type : String} :
    handlerReturnType word name stop ts = .ok (type, rest) ↔ Arrow (some type) ts rest := by
  constructor
  · intro h
    obtain ⟨o, mid, ho, h⟩ := bind_eq_ok.1 h
    cases o with
    | none => exact absurd h fail_ne_ok
    | some type' =>
      obtain ⟨rfl, rfl⟩ := pure_eq_ok.1 h
      exact arrowTarget_iff.1 ho
  · exact fun h => bind_eq_ok.2 ⟨some type, rest, arrowTarget_iff.2 h, rfl⟩

theorem signalHandler_sound {d : SignalHandler} (h : signalHandler stop ts = .ok (d, rest)) :
    ∃ w n a body ts₁, ts = w :: n :: a :: ts₁ ∧ w.kind = .keyword .signal ∧ n.kind = .ident ∧
      a.kind = .args ∧ Reads .signal (.block body) ts₁ rest ∧
      d = ⟨n.literal, a.literal, body, w.position⟩ := by
  rw [signalHandler, head_bind_eq_ok] at h
  obtain ⟨w, n, a, ts₁, rfl, hw, hn, ha, h⟩ := h
  rw [peek_bind] at h
  generalize kindOf ts₁ = k at h
  split at h
  · exact absurd h fail_ne_ok
  · obtain ⟨body, ts₂, hb, h⟩ := bind_eq_ok.1 h
    obtain ⟨rfl, rfl⟩ := pure_eq_ok.1 h
    exact ⟨w, n, a, body, ts₁, rfl, hw, hn, ha,
      block_sound (fun _ _ _ _ => reads_of_statement) hb, rfl⟩

theorem queryHandler_sound {d : QueryHandler} (h : queryHandler stop ts = .ok (d, rest)) :
    ∃ w n a type body ts₁ ts₂, ts = w :: n :: a :: ts₁ ∧ w.kind = .keyword .query ∧
      n.kind = .ident ∧ a.kind = .args ∧ Arrow (some type) ts₁ ts₂ ∧
      Reads .query (.block body) ts₂ rest ∧ d = ⟨n.literal, a.literal, type, body, w.position⟩ := by
  rw [queryHandler, head_bind_eq_ok] at h
  obtain ⟨w, n, a, ts₁, rfl, hw, hn, ha, h⟩ := h
  obtain ⟨type, ts₂, ht, h⟩ := bind_eq_ok.1 h
  obtain ⟨body, ts₃, hb, h⟩ := bind_eq_ok.1 h
  obtain ⟨rfl, rfl⟩ := pure_eq_ok.1 h
  exact ⟨w, n, a, type, body, ts₁, ts₂, rfl, hw, hn, ha, handlerReturnType_eq_ok.1 ht,
    block_sound (fun _ _ _ _ => reads_of_statement) hb, rfl⟩

theorem updateHandler_sound {d : UpdateHandler} (h : updateHandler stop ts = .ok (d, rest)) :
    ∃ w n a type body ts₁ ts₂, ts = w :: n :: a :: ts₁ ∧ w.kind = .keyword .update ∧
      n.kind = .ident ∧ a.kind = .args ∧ Arrow (some type) ts₁ ts₂ ∧
      Reads .update (.block body) ts₂ rest ∧ d = ⟨n.literal, a.literal, type, body, w.position⟩ := by
  rw [updateHandler, head_bind_eq_ok] at h
  obtain ⟨w, n, a, ts₁, rfl, hw, hn, ha, h⟩ := h
  obtain ⟨type, ts₂, ht, h⟩ := bind_eq_ok.1 h
  obtain ⟨body, ts₃, hb, h⟩ := bind_eq_ok.1 h
  obtain ⟨rfl, rfl⟩ := pure_eq_ok.1 h
  exact ⟨w, n, a, type, body, ts₁, ts₂, rfl, hw, hn, ha, handlerReturnType_eq_ok.1 ht,
    block_sound (fun _ _ _ _ => reads_of_statement) hb, rfl⟩

theorem member_sound {column : Nat} {m : Member} {mid : List Token} {later : List Member}
    (h : member column stop ts = .ok (some m, mid)) (hl : Members column later mid rest) :
    Members column (m :: later) ts rest := by
  rw [member, skipNewlines_bind, peek_bind] at h
  generalize hk : kindOf (pastNewlines ts) = k at h
  split at h
  · rw [ask_bind] at h
    cases hc : commentEndsBlock column (pastNewlines ts) with
    | true =>
      rw [hc] at h
      cases (pure_eq_ok.1 h).1
    | false =>
      rw [hc] at h
      obtain ⟨_, h₁, ⟨⟩⟩ := map_eq_ok.1 h
      obtain ⟨s, h₂, rfl⟩ := map_eq_ok.1 h₁
      obtain ⟨c, us, hck, hts, he, rfl⟩ := commentLine_iff.1 h₂
      exact .comment hts hck hc he hl
  · obtain ⟨_, h₁, ⟨⟩⟩ := map_eq_ok.1 h
    obtain ⟨d, h₂, rfl⟩ := map_eq_ok.1 h₁
    obtain ⟨w, n, a, body, ts₁, hts, hw, hn, ha, hb, rfl⟩ := signalHandler_sound h₂
    exact .signal hts hw hn ha hb hl
  · obtain ⟨_, h₁, ⟨⟩⟩ := map_eq_ok.1 h
    obtain ⟨d, h₂, rfl⟩ := map_eq_ok.1 h₁
    obtain ⟨w, n, a, type, body, ts₁, ts₂, hts, hw, hn, ha, ht, hb, rfl⟩ := queryHandler_sound h₂
    exact .query hts hw hn ha ht hb hl
  · obtain ⟨_, h₁, ⟨⟩⟩ := map_eq_ok.1 h
    obtain ⟨d, h₂, rfl⟩ := map_eq_ok.1 h₁
    obtain ⟨w, n, a, type, body, ts₁, ts₂, hts, hw, hn, ha, ht, hb, rfl⟩ := updateHandler_sound h₂
    exact .update hts hw hn ha ht hb hl
  · cases (pure_eq_ok.1 h).1

theorem members_sound {column : Nat} {l : List Member}
    (h : collect (member column) (member_steps column) stop ts = .ok (l, rest)) :
    Members column l ts rest := by
  induction l generalizing ts with
  | nil =>
    rw [collect_eq_nil, member, skipNewlines_bind, peek_bind] at h
    generalize hk : kindOf (pastNewlines ts) = k at h
    split at h
    · rw [ask_bind] at h
      cases hc : commentEndsBlock column (pastNewlines ts) with
      | true =>
        rw [hc] at h
        obtain ⟨-, rfl⟩ := pure_eq_ok.1 h
        exact .nil (by simp [hk]) (by simp [hk]) (by simp [hk]) fun _ => hc
      | false =>
        rw [hc] at h
        obtain ⟨m, -, hm⟩ := map_eq_ok.1 h
        cases hm
    · obtain ⟨m, -, hm⟩ := map_eq_ok.1 h
      cases hm
    · obtain ⟨m, -, hm⟩ := map_eq_ok.1 h
      cases hm
    · obtain ⟨m, -, hm⟩ := map_eq_ok.1 h
      cases hm
    · rename_i hc hs hq hu
      obtain ⟨-, rfl⟩ := pure_eq_ok.1 h
      exact .nil (fun h => hs (hk.symm.trans h)) (fun h => hq (hk.symm.trans h))
        (fun h => hu (hk.symm.trans h)) fun h => absurd (hk.symm.trans h) hc
  | cons m later ih =>
    obtain ⟨mid, h, h'⟩ := collect_eq_cons.1 h
    exact member_sound h (ih h')

/-- **A definition that is read follows the grammar.** -/
theorem defines_of_definition {d : Definition} (h : definition stop ts = .ok (d, rest)) :
    Defines d ts rest := by
  have body : ∀ {scope ts column l rest}, statements (statement scope) column stop ts
      = .ok (l, rest) → Reads scope (.statements column l) ts rest :=
    statements_sound fun _ _ _ _ => reads_of_statement
  rw [definition, peek_bind] at h
  generalize hk : kindOf ts = k at h
  split at h
  · obtain ⟨x, hx, rfl⟩ := map_eq_ok.1 h
    rw [workflowDefinition, head_bind_eq_ok] at hx
    obtain ⟨w, n, a, ts₁, rfl, hw, hn, ha, h⟩ := hx
    obtain ⟨type, ts₂, ht, h⟩ := bind_eq_ok.1 h
    replace h := expect_bind_eq_ok.1 h
    obtain ⟨c, ts₃, hc, rfl, h⟩ := h
    obtain ⟨ts₄, he, h⟩ := lineEnd_bind_eq_ok.1 h
    obtain ⟨comments, ts₅, hcs, h⟩ := bind_eq_ok.1 h
    replace h := expect_bind_eq_ok.1 h
    obtain ⟨i, ts₆, hi, rfl, h⟩ := h
    obtain ⟨options, ts₇, ho, h⟩ := bind_eq_ok.1 h
    obtain ⟨members, ts₈, hm, h⟩ := bind_eq_ok.1 h
    obtain ⟨l, ts₉, hb, h⟩ := bind_eq_ok.1 h
    replace h := expect_bind_eq_ok.1 h
    obtain ⟨d, ts₁₀, hd, rfl, h⟩ := h
    obtain ⟨rfl, rfl⟩ := pure_eq_ok.1 h
    exact .workflow hw hn ha (arrowTarget_iff.1 ht) hc he (leadingComments_iff.1 hcs) hi
      (definitionOptions_iff.1 ho) (members_sound hm) (body hb) hd
  · obtain ⟨x, hx, rfl⟩ := map_eq_ok.1 h
    rw [activityDefinition, head_bind_eq_ok] at hx
    obtain ⟨w, n, a, ts₁, rfl, hw, hn, ha, h⟩ := hx
    obtain ⟨type, ts₂, ht, h⟩ := bind_eq_ok.1 h
    replace h := expect_bind_eq_ok.1 h
    obtain ⟨c, ts₃, hc, rfl, h⟩ := h
    obtain ⟨ts₄, he, h⟩ := lineEnd_bind_eq_ok.1 h
    obtain ⟨comments, ts₅, hcs, h⟩ := bind_eq_ok.1 h
    replace h := expect_bind_eq_ok.1 h
    obtain ⟨i, ts₆, hi, rfl, h⟩ := h
    obtain ⟨options, ts₇, ho, h⟩ := bind_eq_ok.1 h
    obtain ⟨l, ts₉, hb, h⟩ := bind_eq_ok.1 h
    replace h := expect_bind_eq_ok.1 h
    obtain ⟨d, ts₁₀, hd, rfl, h⟩ := h
    obtain ⟨rfl, rfl⟩ := pure_eq_ok.1 h
    exact .activity hw hn ha (arrowTarget_iff.1 ht) hc he (leadingComments_iff.1 hcs) hi
      (definitionOptions_iff.1 ho) (body hb) hd
  · exact absurd h failFound_ne_ok

/-- **Definitions that are read follow the grammar.** -/
theorem definesAll_of_definitions {l : List Definition} (h : definitions stop ts = .ok (l, rest)) :
    DefinesAll l ts rest := by
  induction l generalizing ts with
  | nil =>
    rw [definitions, collect_eq_nil, nextDefinition, skipTrivia_bind, peek_bind] at h
    generalize hk : kindOf (pastTrivia ts) = k at h
    split at h
    · obtain ⟨-, rfl⟩ := pure_eq_ok.1 h
      exact .nil hk
    · obtain ⟨d, -, hd⟩ := map_eq_ok.1 h
      cases hd
  | cons d later ih =>
    rw [definitions, collect_eq_cons] at h
    obtain ⟨mid, h, h'⟩ := h
    rw [nextDefinition, skipTrivia_bind, peek_bind] at h
    generalize hk : kindOf (pastTrivia ts) = k at h
    split at h
    · cases (pure_eq_ok.1 h).1
    · rename_i hne
      obtain ⟨d, h, hd⟩ := map_eq_ok.1 h
      cases hd
      exact .cons (fun h => hne (hk.symm.trans h)) (defines_of_definition h) (ih h')

end FlowLang
