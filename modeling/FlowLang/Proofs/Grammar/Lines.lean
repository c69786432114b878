import FlowLang.Proofs.Grammar.Basic

/-!
# Parts of lines follow the grammar

The readers of parts of lines return just what the grammar says.

* `bind_kindOf`, `expect_eq_ok`, `accept?_eq_none`, `accept?_eq_some` : the elementary readers.
* `lineEnd_iff`, `arrowTarget_iff`, `activityCall_iff`, `workflowCall_iff`, `callOptions_iff`, … : one
  equivalence for every reader of a part of a line.
-/

namespace FlowLang

open Reader Grammar

variable {α β : Type} {stop : Position} {ts rest : List Token}

/-- The first token is of this kind, so there is one. -/
theorem exists_of_kindOf {k : TokenKind} (h : kindOf ts = k) (hk : k ≠ .eof) :
    ∃ t us, ts = t :: us ∧ t.kind = k := by
  cases ts with
  | nil => exact absurd h.symm hk
  | cons t us => exact ⟨t, us, rfl, h⟩

/-- Nothing is passed over in front of a token of another kind. -/
theorem dropWhile_of_kindOf {p : TokenKind → Bool} (h : p (kindOf ts) = false) :
    (ts.dropWhile fun t => p t.kind) = ts := by
  cases ts with
  | nil => rfl
  | cons t ts => exact List.dropWhile_cons_of_neg (by simpa [kindOf] using h)

theorem pastTrivia_cons {t : Token} (h : t.kind.isTrivia = true) :
    pastTrivia (t :: ts) = pastTrivia ts := List.dropWhile_cons_of_pos h

theorem pastTrivia_eq (h : (kindOf ts).isTrivia = false) : pastTrivia ts = ts :=
  dropWhile_of_kindOf h

theorem pastNewlines_eq (h : (kindOf ts).isTrivia = false) : pastNewlines ts = ts := by
  refine dropWhile_of_kindOf (p := (· == .newline)) ?_
  cases hk : kindOf ts <;> simp_all [TokenKind.isTrivia]

/-! ### Elementary readers -/

namespace Reader

theorem peek_bind (f : TokenKind → Reader β) :
    (peek >>= f) stop ts = f (kindOf ts) stop ts := rfl

theorem peekSecond_bind (f : TokenKind → Reader β) :
    (peekSecond >>= f) stop ts = f (kindOf ts.tail) stop ts := rfl

theorem peekPastTrivia_bind (f : TokenKind → Reader β) :
    (peekPastTrivia >>= f) stop ts = f (kindOf (pastTrivia ts)) stop ts := rfl

theorem here_bind (f : Position → Reader β) :
    (here >>= f) stop ts = f (placeOf stop ts) stop ts := rfl

theorem skip_bind (f : Unit → Reader β) : (skip >>= f) stop ts = f () stop ts.tail := rfl

theorem skipNewlines_bind (f : Unit → Reader β) :
    (skipNewlines >>= f) stop ts = f () stop (pastNewlines ts) := rfl

theorem skipTrivia_bind (f : Unit → Reader β) :
    (skipTrivia >>= f) stop ts = f () stop (pastTrivia ts) := rfl

theorem textTokens_bind (f : List Token → Reader β) :
    (textTokens >>= f) stop ts = f (lineOf ts) stop (pastLine ts) := rfl

theorem ask_bind (p : List Token → Bool) (f : Bool → Reader β) :
    (ask p >>= f) stop ts = f (p ts) stop ts := rfl

theorem pure_eq_ok {a b : α} : (pure a : Reader α) stop ts = .ok (b, rest) ↔ b = a ∧ rest = ts := by
  rw [pure_apply]
  simp [eq_comm]

theorem fail_ne_ok {cause : SyntaxError.Cause} {a : α} :
    (fail cause : Reader α) stop ts ≠ .ok (a, rest) := fun h => by cases h

theorem failAt_ne_ok {position : Position} {cause : SyntaxError.Cause} {a : α} :
    (failAt position cause : Reader α) stop ts ≠ .ok (a, rest) := fun h => by cases h

theorem failFound_ne_ok {cause : Found → SyntaxError.Cause} {a : α} :
    (failFound cause : Reader α) stop ts ≠ .ok (a, rest) := fun h => by cases h

theorem map_eq_ok {f : α → β} {r : Reader α} {b : β} :
    (f <$> r) stop ts = .ok (b, rest) ↔ ∃ a, r stop ts = .ok (a, rest) ∧ b = f a := by
  rw [map_apply]
  cases h : r stop ts with
  | error e => simp
  | ok p =>
    obtain ⟨a, mid⟩ := p
    constructor
    · rintro ⟨⟩
      exact ⟨a, rfl, rfl⟩
    · rintro ⟨_, ⟨⟩, rfl⟩
      rfl

theorem expect_eq_ok {k : TokenKind} {what : Expected} {t : Token} :
    expect k what stop ts = .ok (t, rest) ↔ t.kind = k ∧ ts = t :: rest := by
  cases ts with
  | nil => simp [expect]
  | cons u us =>
    by_cases hk : u.kind = k
    · rw [show expect k what stop (u :: us) = .ok (u, us) from if_pos hk]
      simp only [Except.ok.injEq, Prod.mk.injEq, List.cons.injEq]
      constructor
      · rintro ⟨rfl, rfl⟩
        exact ⟨hk, rfl, rfl⟩
      · rintro ⟨-, rfl, rfl⟩
        exact ⟨rfl, rfl⟩
    · rw [show expect k what stop (u :: us) = _ from if_neg hk]
      constructor
      · exact fun h => by cases h
      · rintro ⟨h, h'⟩
        cases h'
        exact absurd h hk

theorem accept?_eq_some {k : TokenKind} {t : Token} :
    accept? k stop ts = .ok (some t, rest) ↔ t.kind = k ∧ ts = t :: rest := by
  cases ts with
  | nil => simp [accept?]
  | cons u us =>
    by_cases hk : u.kind = k
    · rw [show accept? k stop (u :: us) = .ok (some u, us) from if_pos hk]
      simp only [Except.ok.injEq, Prod.mk.injEq, Option.some.injEq, List.cons.injEq]
      constructor
      · rintro ⟨rfl, rfl⟩
        exact ⟨hk, rfl, rfl⟩
      · rintro ⟨-, rfl, rfl⟩
        exact ⟨rfl, rfl⟩
    · rw [show accept? k stop (u :: us) = .ok (none, u :: us) from if_neg hk]
      constructor
      · exact fun h => by cases h
      · rintro ⟨h, h'⟩
        cases h'
        exact absurd h hk

theorem accept?_eq_none {k : TokenKind} (hk : k ≠ .eof) :
    accept? k stop ts = .ok (none, rest) ↔ kindOf ts ≠ k ∧ rest = ts := by
  cases ts with
  | nil => simp [accept?, kindOf, hk.symm, eq_comm]
  | cons u us =>
    by_cases h : u.kind = k
    · rw [show accept? k stop (u :: us) = .ok (some u, us) from if_pos h]
      simp [kindOf, h]
    · rw [show accept? k stop (u :: us) = .ok (none, u :: us) from if_neg h]
      simp [kindOf, h, eq_comm]

/-- What follows a token that may be absent. -/
theorem accept?_bind_eq_ok {k : TokenKind} (hk : k ≠ .eof) {f : Option Token → Reader β} {b : β} :
    (accept? k >>= f) stop ts = .ok (b, rest) ↔
      kindOf ts ≠ k ∧ f none stop ts = .ok (b, rest) ∨
        ∃ t ts', t.kind = k ∧ ts = t :: ts' ∧ f (some t) stop ts' = .ok (b, rest) := by
  rw [bind_eq_ok]
  constructor
  · rintro ⟨o, mid, h, h'⟩
    cases o with
    | none =>
      obtain ⟨hne, rfl⟩ := (accept?_eq_none hk).1 h
      exact .inl ⟨hne, h'⟩
    | some t =>
      obtain ⟨ht, rfl⟩ := accept?_eq_some.1 h
      exact .inr ⟨t, mid, ht, rfl, h'⟩
  · rintro (⟨hne, h⟩ | ⟨t, mid, ht, rfl, h⟩)
    · exact ⟨none, ts, (accept?_eq_none hk).2 ⟨hne, rfl⟩, h⟩
    · exact ⟨some t, mid, accept?_eq_some.2 ⟨ht, rfl⟩, h⟩

theorem expect_bind_eq_ok {k : TokenKind} {what : Expected} {f : Token → Reader β} {b : β} :
    (expect k what >>= f) stop ts = .ok (b, rest) ↔
      ∃ t ts', t.kind = k ∧ ts = t :: ts' ∧ f t stop ts' = .ok (b, rest) := by
  rw [bind_eq_ok]
  simp only [expect_eq_ok, and_assoc]

end Reader

/-! ### Words and ends of lines -/

theorem name_bind_eq_ok {what : Expected} {f : String → Reader β} {b : β} :
    (name what >>= f) stop ts = .ok (b, rest) ↔
      ∃ t ts', t.kind = .ident ∧ ts = t :: ts' ∧ f t.literal stop ts' = .ok (b, rest) := by
  simp only [bind_eq_ok, name, expect_eq_ok, pure_eq_ok]
  grind

theorem args_bind_eq_ok {what : Expected} {f : String → Reader β} {b : β} :
    (args what >>= f) stop ts = .ok (b, rest) ↔
      ∃ t ts', t.kind = .args ∧ ts = t :: ts' ∧ f t.literal stop ts' = .ok (b, rest) := by
  simp only [bind_eq_ok, args, expect_eq_ok, pure_eq_ok]
  grind

/-- A reserved word with a name and parameters behind it. -/
theorem head_bind_eq_ok {word : Keyword} {what what' what'' : Expected}
    {f : Token → String → String → Reader β} {b : β} :
    (do
      let w ← expect (.keyword word) what
      let n ← name what'
      let a ← args what''
      f w n a : Reader β) stop ts = .ok (b, rest) ↔
      ∃ w n a ts', ts = w :: n :: a :: ts' ∧ w.kind = .keyword word ∧ n.kind = .ident ∧
        a.kind = .args ∧ f w n.literal a.literal stop ts' = .ok (b, rest) := by
  simp only [expect_bind_eq_ok, name_bind_eq_ok, args_bind_eq_ok]
  constructor
  · rintro ⟨w, _, hw, rfl, n, _, hn, rfl, a, ts', ha, rfl, h⟩
    exact ⟨w, n, a, ts', rfl, hw, hn, ha, h⟩
  · rintro ⟨w, n, a, ts', rfl, hw, hn, ha, h⟩
    exact ⟨w, _, hw, rfl, n, _, hn, rfl, a, ts', ha, rfl, h⟩

/-- The end of a line behind the comment that may stand before it. -/
def lineBreak : Reader Unit := do
  match ← peek with
  | .newline => skip
  | .eof => return
  | _ => failFound .trailing

theorem lineBreak_iff {u : Unit} : lineBreak stop ts = .ok (u, rest) ↔
    (∃ n, n.kind = .newline ∧ ts = n :: rest) ∨ kindOf ts = .eof ∧ rest = ts := by
  rw [lineBreak, peek_bind]
  generalize hk : kindOf ts = k
  split
  · obtain ⟨n, us, rfl, hn⟩ := exists_of_kindOf hk (by decide)
    simp only [skip, List.tail_cons, Except.ok.injEq, Prod.mk.injEq, true_and, reduceCtorEq,
      false_and, or_false, List.cons.injEq]
    constructor
    · rintro rfl
      exact ⟨n, hn, rfl, rfl⟩
    · rintro ⟨_, -, -, rfl⟩
      rfl
  · simp [pure_eq_ok]
    rintro n hn rfl
    cases hn.symm.trans hk
  · rename_i hn he
    refine iff_of_false failFound_ne_ok ?_
    rintro (⟨n, h, rfl⟩ | ⟨h, -⟩)
    · exact hn (hk.symm.trans h)
    · exact he h

theorem lineEnd_iff {u : Unit} : lineEnd stop ts = .ok (u, rest) ↔ LineEnd ts rest := by
  rw [show lineEnd = (do let _ ← accept? .comment; lineBreak) from rfl,
    accept?_bind_eq_ok (by decide)]
  simp only [lineBreak_iff]
  constructor
  · rintro (⟨hc, ⟨n, hn, rfl⟩ | ⟨he, rfl⟩⟩ | ⟨c, us, hc, rfl, ⟨n, hn, rfl⟩ | ⟨he, rfl⟩⟩)
    · exact .line hn
    · exact .input he
    · exact .commentLine hc hn
    · exact .commentInput hc he
  · intro h
    cases h with
    | line hn => exact .inl ⟨by simp [kindOf, hn], .inl ⟨_, hn, rfl⟩⟩
    | input he => exact .inl ⟨by simp [he], .inr ⟨he, rfl⟩⟩
    | commentLine hc hn => exact .inr ⟨_, _, hc, rfl, .inl ⟨_, hn, rfl⟩⟩
    | commentInput hc he => exact .inr ⟨_, _, hc, rfl, .inr ⟨he, rfl⟩⟩

theorem lineEnd_bind_eq_ok {f : Unit → Reader β} {b : β} :
    (lineEnd >>= f) stop ts = .ok (b, rest) ↔
      ∃ ts', LineEnd ts ts' ∧ f () stop ts' = .ok (b, rest) := by
  rw [bind_eq_ok]
  exact ⟨fun ⟨_, ts', h, h'⟩ => ⟨ts', lineEnd_iff.1 h, h'⟩,
    fun ⟨ts', h, h'⟩ => ⟨(), ts', lineEnd_iff.2 h, h'⟩⟩

/-! ### Targets, values and calls -/

theorem arrowTarget_iff {target : ArrowTarget} {o : Option String} :
    arrowTarget target stop ts = .ok (o, rest) ↔ Arrow o ts rest := by
  have named : ∀ {us : List Token}, (do
      let t ← expect .ident (.arrowTarget target)
      return some t.literal : Reader (Option String)) stop us = .ok (o, rest) ↔
      ∃ x, x.kind = .ident ∧ us = x :: rest ∧ o = some x.literal := by
    intro us
    simp only [expect_bind_eq_ok, pure_eq_ok]
    grind
  simp only [arrowTarget, accept?_bind_eq_ok (k := .arrow) (by decide),
    accept?_bind_eq_ok (k := .args) (by decide), pure_eq_ok, named]
  constructor
  · rintro (⟨ha, rfl, rfl⟩ | ⟨a, us, ha, rfl, ⟨-, x, hx, rfl, rfl⟩ | ⟨x, vs, hx, rfl, rfl, rfl⟩⟩)
    · exact .absent ha
    · exact .present ha (.inr hx)
    · exact .present ha (.inl hx)
  · intro h
    cases h with
    | absent ha => exact .inl ⟨ha, rfl, rfl⟩
    | @present _ a x ha hx =>
      refine .inr ⟨a, _, ha, rfl, ?_⟩
      rcases hx with hx | hx
      · exact .inr ⟨x, _, hx, rfl, rfl, rfl⟩
      · exact .inl ⟨by simp [kindOf, hx], x, hx, rfl, rfl⟩

theorem args?_iff {o : Option String} :
    args? stop ts = .ok (o, rest) ↔ OptionalArgs o ts rest := by
  simp only [args?, accept?_bind_eq_ok (k := .args) (by decide), pure_eq_ok]
  constructor
  · rintro (⟨ha, rfl, rfl⟩ | ⟨a, us, ha, rfl, rfl, rfl⟩)
    · exact .absent ha
    · exact .present ha
  · intro h
    cases h with
    | absent ha => exact .inl ⟨ha, rfl, rfl⟩
    | present ha => exact .inr ⟨_, _, ha, rfl, rfl, rfl⟩

theorem callMode_iff {mode : CallMode} : callMode stop ts = .ok (mode, rest) ↔ Mode mode ts rest := by
  simp only [callMode, accept?_bind_eq_ok (k := .keyword .spawn) (by decide),
    accept?_bind_eq_ok (k := .keyword .detach) (by decide), pure_eq_ok]
  constructor
  · rintro (⟨hs, ⟨hd, rfl, rfl⟩ | ⟨w, us, hw, rfl, rfl, rfl⟩⟩ | ⟨w, us, hw, rfl, rfl, rfl⟩)
    · exact .child hs hd
    · exact .detach hw
    · exact .spawn hw
  · intro h
    cases h with
    | child hs hd => exact .inl ⟨hs, .inl ⟨hd, rfl, rfl⟩⟩
    | spawn hw => exact .inr ⟨_, _, hw, rfl, rfl, rfl⟩
    | detach hw => exact .inl ⟨by simp [kindOf, hw], .inr ⟨_, _, hw, rfl, rfl, rfl⟩⟩

theorem nexusName_iff {o : Option String} :
    nexusName stop ts = .ok (o, rest) ↔ Nexus o ts rest := by
  simp only [nexusName, accept?_bind_eq_ok (k := .keyword .nexus) (by decide), expect_bind_eq_ok,
    pure_eq_ok]
  constructor
  · rintro (⟨hn, rfl, rfl⟩ | ⟨w, us, hw, rfl, s, vs, hs, rfl, rfl, rfl⟩)
    · exact .absent hn
    · exact .present hw hs
  · intro h
    cases h with
    | absent hn => exact .inl ⟨hn, rfl, rfl⟩
    | present hw hs => exact .inr ⟨_, _, hw, rfl, _, _, hs, rfl, rfl, rfl⟩

theorem activityCall_iff {call : ActivityCall} :
    activityCall stop ts = .ok (call, rest) ↔ CallsActivity call ts rest := by
  rw [activityCall, head_bind_eq_ok]
  constructor
  · rintro ⟨w, n, a, _, rfl, hw, hn, ha, h⟩
    obtain ⟨o, _, ho, h⟩ := bind_eq_ok.1 h
    obtain ⟨rfl, rfl⟩ := pure_eq_ok.1 h
    exact .intro hw hn ha (arrowTarget_iff.1 ho)
  · rintro @⟨_, _, w, n, a, o, hw, hn, ha, ho⟩
    exact ⟨w, n, a, _, rfl, hw, hn, ha, bind_eq_ok.2 ⟨o, _, arrowTarget_iff.2 ho, rfl⟩⟩

theorem workflowCall_iff {call : WorkflowCall} :
    workflowCall stop ts = .ok (call, rest) ↔ CallsWorkflow call ts rest := by
  rw [workflowCall, here_bind]
  constructor
  · intro h
    obtain ⟨mode, ts₁, hm, h⟩ := bind_eq_ok.1 h
    obtain ⟨nexus, ts₂, hx, h⟩ := bind_eq_ok.1 h
    obtain ⟨w, n, a, ts₃, rfl, hw, hn, ha, h⟩ := head_bind_eq_ok.1 h
    rw [here_bind] at h
    obtain ⟨result, ts₄, hr, h⟩ := bind_eq_ok.1 h
    split at h
    · exact absurd h failAt_ne_ok
    next hd =>
      obtain ⟨rfl, rfl⟩ := pure_eq_ok.1 h
      have hres : mode = .detach → result = none := fun e => by simpa [e] using hd
      rw [callMode_iff] at hm
      rw [nexusName_iff] at hx
      cases ts with
      | nil =>
        cases hm with
        | child => cases hx
      | cons t ts => exact .intro hm hx hw hn ha (arrowTarget_iff.1 hr) hres
  · rintro @⟨_, _, _, _, t, w, n, a, mode, nexus, result, hm, hx, hw, hn, ha, hr, hd⟩
    refine bind_eq_ok.2 ⟨mode, _, callMode_iff.2 hm, bind_eq_ok.2 ⟨nexus, _, nexusName_iff.2 hx,
      head_bind_eq_ok.2 ⟨w, n, a, _, rfl, hw, hn, ha, ?_⟩⟩⟩
    rw [here_bind]
    refine bind_eq_ok.2 ⟨result, _, arrowTarget_iff.2 hr, ?_⟩
    rw [if_neg fun h => by simp [hd h.1] at h]
    rfl

theorem callOptions_iff {o : Option String} :
    callOptions stop ts = .ok (o, rest) ↔ Options o ts rest := by
  rw [callOptions, peekPastTrivia_bind]
  generalize hk : kindOf (pastTrivia ts) = k
  constructor
  · intro h
    split at h
    · rw [skipTrivia_bind, peekSecond_bind] at h
      obtain ⟨i, us, hi, hik⟩ := exists_of_kindOf hk (by decide)
      rw [hi] at h
      generalize hs : kindOf (i :: us).tail = s at h
      split at h
      · obtain ⟨w, vs, hw, hwk⟩ := exists_of_kindOf hs (by decide)
        obtain rfl : us = w :: vs := hw
        rw [skip_bind, skip_bind] at h
        simp only [List.tail_cons, args_bind_eq_ok, lineEnd_bind_eq_ok, skipTrivia_bind] at h
        obtain ⟨a, ts₁, ha, rfl, ts₂, he, h⟩ := h
        rw [accept?_bind_eq_ok (by decide)] at h
        obtain ⟨-, h⟩ | ⟨d, ts₃, hd, hts, h⟩ := h
        · exact absurd h fail_ne_ok
        · obtain ⟨rfl, rfl⟩ := pure_eq_ok.1 h
          exact .present hi hik hwk ha he hts hd
      · exact absurd h fail_ne_ok
    · rename_i hne
      obtain ⟨rfl, rfl⟩ := pure_eq_ok.1 h
      exact .absent fun h => hne (hk.symm.trans h)
  · intro h
    cases h with
    | absent hne =>
      split
      next => exact absurd hk hne
      next => rfl
    | @present _ _ _ _ i w a d hi hik hwk ha he hts hd =>
      rw [hi, kindOf, hik] at hk
      subst hk
      simp only
      rw [skipTrivia_bind, peekSecond_bind, hi, List.tail_cons, kindOf, hwk]
      simp only
      rw [skip_bind, skip_bind]
      simp only [List.tail_cons, args_bind_eq_ok, lineEnd_bind_eq_ok, skipTrivia_bind]
      exact ⟨a, _, ha, rfl, _, he, (accept?_bind_eq_ok (by decide)).2 (.inr ⟨d, _, hd, hts, rfl⟩)⟩

theorem activityLine_iff {call : ActivityCall} :
    activityLine stop ts = .ok (call, rest) ↔ ActivityLine call ts rest := by
  constructor
  · intro h
    obtain ⟨call, ts₁, hc, h⟩ := bind_eq_ok.1 h
    obtain ⟨ts₂, he, h⟩ := lineEnd_bind_eq_ok.1 h
    obtain ⟨options, ts₃, ho, h⟩ := bind_eq_ok.1 h
    obtain ⟨rfl, rfl⟩ := pure_eq_ok.1 h
    exact .intro (activityCall_iff.1 hc) he (callOptions_iff.1 ho)
  · rintro @⟨_, _, _, _, call, options, hc, he, ho⟩
    exact bind_eq_ok.2 ⟨call, _, activityCall_iff.2 hc, lineEnd_bind_eq_ok.2 ⟨_, he,
      bind_eq_ok.2 ⟨options, _, callOptions_iff.2 ho, rfl⟩⟩⟩

theorem awaitedCall_iff {call : WorkflowCall} :
    awaitedCall stop ts = .ok (call, rest) ↔ CallsWorkflow call ts rest ∧ call.mode = .child := by
  rw [awaitedCall]
  constructor
  · intro h
    obtain ⟨call, ts₁, hc, h⟩ := bind_eq_ok.1 h
    split at h
    next hm =>
      obtain ⟨rfl, rfl⟩ := pure_eq_ok.1 h
      exact ⟨workflowCall_iff.1 hc, hm⟩
    next => exact absurd h failAt_ne_ok
  · rintro ⟨hc, hm⟩
    refine bind_eq_ok.2 ⟨call, rest, workflowCall_iff.2 hc, ?_⟩
    rw [if_pos hm]
    rfl

/-- A call of a workflow with its line of options. -/
theorem withOptions_eq_ok {r : Reader WorkflowCall} {call : WorkflowCall} :
    withOptions r stop ts = .ok (call, rest) ↔
      ∃ c ts₁ ts₂ options, r stop ts = .ok (c, ts₁) ∧ LineEnd ts₁ ts₂ ∧ Options options ts₂ rest ∧
        call = { c with options } := by
  constructor
  · intro h
    obtain ⟨c, ts₁, hc, h⟩ := bind_eq_ok.1 h
    obtain ⟨ts₂, he, h⟩ := lineEnd_bind_eq_ok.1 h
    obtain ⟨options, ts₃, ho, h⟩ := bind_eq_ok.1 h
    obtain ⟨rfl, rfl⟩ := pure_eq_ok.1 h
    exact ⟨c, ts₁, ts₂, options, hc, he, callOptions_iff.1 ho, rfl⟩
  · rintro ⟨c, ts₁, ts₂, options, hc, he, ho, rfl⟩
    exact bind_eq_ok.2 ⟨c, ts₁, hc, lineEnd_bind_eq_ok.2 ⟨ts₂, he,
      bind_eq_ok.2 ⟨options, rest, callOptions_iff.2 ho, rfl⟩⟩⟩

theorem workflowLine_iff {call : WorkflowCall} :
    withOptions workflowCall stop ts = .ok (call, rest) ↔ WorkflowLine call ts rest := by
  rw [withOptions_eq_ok]
  constructor
  · rintro ⟨c, _, _, options, hc, he, ho, rfl⟩
    exact .intro (workflowCall_iff.1 hc) he ho
  · rintro @⟨_, _, _, _, c, options, hc, he, ho⟩
    exact ⟨c, _, _, options, workflowCall_iff.2 hc, he, ho, rfl⟩

theorem awaitedLine_iff {call : WorkflowCall} :
    withOptions awaitedCall stop ts = .ok (call, rest) ↔
      WorkflowLine call ts rest ∧ call.mode = .child := by
  rw [withOptions_eq_ok]
  constructor
  · rintro ⟨c, _, _, options, hc, he, ho, rfl⟩
    obtain ⟨hc, hm⟩ := awaitedCall_iff.1 hc
    exact ⟨.intro hc he ho, hm⟩
  · rintro ⟨@⟨_, _, _, _, c, options, hc, he, ho⟩, hm⟩
    exact ⟨c, _, _, options, awaitedCall_iff.2 ⟨hc, hm⟩, he, ho, rfl⟩

theorem awaitedEvent_iff {word : Keyword} {e : AwaitedEvent} :
    awaitedEvent word stop ts = .ok (e, rest) ↔ Event e ts rest := by
  rw [awaitedEvent, here_bind, name_bind_eq_ok]
  constructor
  · rintro ⟨n, us, hn, rfl, h⟩
    obtain ⟨binding, _, hb, h⟩ := bind_eq_ok.1 h
    obtain ⟨rfl, rfl⟩ := pure_eq_ok.1 h
    exact .intro hn (arrowTarget_iff.1 hb)
  · rintro @⟨_, _, n, binding, hn, hb⟩
    exact ⟨n, _, hn, rfl, bind_eq_ok.2 ⟨binding, _, arrowTarget_iff.2 hb, rfl⟩⟩

theorem loopHeader_iff {header : LoopHeader} :
    loopHeader stop ts = .ok (header, rest) ↔ LoopHead header ts rest := by
  rw [loopHeader, accept?_bind_eq_ok (by decide)]
  constructor
  · rintro (⟨ha, h⟩ | ⟨a, us, ha, rfl, h⟩)
    · obtain ⟨rfl, rfl⟩ := pure_eq_ok.1 h
      exact .forever ha
    · simp only at h
      cases ht : LoopHeader.ofText a.literal with
      | ok header' =>
        rw [ht] at h
        obtain ⟨rfl, rfl⟩ := pure_eq_ok.1 h
        exact .text ha ht
      | error cause =>
        rw [ht] at h
        exact absurd h failAt_ne_ok
  · intro h
    cases h with
    | forever ha => exact .inl ⟨ha, rfl⟩
    | text ha ht =>
      refine .inr ⟨_, _, ha, rfl, ?_⟩
      simp only [ht]
      rfl

theorem closeReason_iff {reason : CloseReason} :
    closeReason stop ts = .ok (reason, rest) ↔ Reason reason ts rest := by
  simp only [closeReason, accept?_bind_eq_ok (k := .keyword .completed) (by decide),
    accept?_bind_eq_ok (k := .keyword .failed) (by decide), pure_eq_ok]
  constructor
  · rintro (⟨hc, ⟨hf, rfl, rfl⟩ | ⟨w, us, hw, rfl, rfl, rfl⟩⟩ | ⟨w, us, hw, rfl, rfl, rfl⟩)
    · exact .unstated hc hf
    · exact .failed hw
    · exact .completed hw
  · intro h
    cases h with
    | unstated hc hf => exact .inl ⟨hc, .inl ⟨hf, rfl, rfl⟩⟩
    | completed hw => exact .inr ⟨_, _, hw, rfl, rfl, rfl⟩
    | failed hw => exact .inl ⟨by simp [kindOf, hw], .inr ⟨_, _, hw, rfl, rfl, rfl⟩⟩

/-! ### Comments and options -/

theorem commentLine_iff {s : Statement} : commentLine stop ts = .ok (s, rest) ↔
    ∃ c us, c.kind = .comment ∧ ts = c :: us ∧ LineEnd us rest ∧
      s = .comment (Text.trim c.literal) c.position := by
  simp only [commentLine, expect_bind_eq_ok, lineEnd_bind_eq_ok, pure_eq_ok]
  grind

theorem definitionOptions_iff {o : Option String} :
    definitionOptions stop ts = .ok (o, rest) ↔ DefinitionOptions o ts rest := by
  rw [definitionOptions, peek_bind]
  generalize hk : kindOf ts = k
  constructor
  · intro h
    split at h
    · rw [peekSecond_bind] at h
      obtain ⟨w, us, rfl, hw⟩ := exists_of_kindOf hk (by decide)
      generalize hs : kindOf (w :: us).tail = s at h
      split at h
      · obtain ⟨rfl, rfl⟩ := pure_eq_ok.1 h
        exact .absent (.inr hs)
      · rw [skip_bind] at h
        simp only [List.tail_cons, args_bind_eq_ok, lineEnd_bind_eq_ok, pure_eq_ok] at h
        obtain ⟨a, us, ha, rfl, _, he, rfl, rfl⟩ := h
        exact .present hw ha he
    · rename_i hne
      obtain ⟨rfl, rfl⟩ := pure_eq_ok.1 h
      exact .absent (.inl fun h => hne (hk.symm.trans h))
  · intro h
    split
    · rw [peekSecond_bind]
      cases h with
      | absent hne =>
        have hs : kindOf ts.tail = .symbol := hne.resolve_left fun h => h hk
        rw [hs]
        rfl
      | @present _ _ w a hw ha he =>
        rw [List.tail_cons, kindOf, ha]
        simp only
        rw [skip_bind]
        simp only [List.tail_cons, args_bind_eq_ok, lineEnd_bind_eq_ok, pure_eq_ok]
        exact ⟨a, _, ha, rfl, _, he, rfl, rfl⟩
    · rename_i hne
      cases h with
      | absent => rfl
      | present hw ha he => exact absurd (hk.symm.trans hw) hne

end FlowLang
