import FlowLang.Proofs.Trivia.Line

/-!
# Blocks without comments

Between two lines only the reader of the full tokens has something to pass over.  Where it returns a
comment, the reader of the bare tokens does nothing.

* `AtHead` : before a line, at a token that is neither a comment nor the end of a line.
* `Bares` : the readers of single statements, with the comments among them.
* `statements_bared`, `block_bared`, `optionalBlock_bared` : the statements of a block.
-/

namespace FlowLang

open Reader

/-- Before a line of a block, at a token that is no trivia. -/
def AtHead (g : Nat → Nat) (n size : Nat) (ts us : List Token) : Prop :=
  (kindOf ts).isTrivia = false ∧ Before g n size ts us

section

variable {g : Nat → Nat} {n size : Nat} {t : Token} {ts us : List Token}

theorem AtHead.kindOf_eq (h : AtHead g n size ts us) : kindOf us = kindOf ts := by
  rw [h.2.bare, kindOf_bareTokens h.1]

theorem Before.dropTrivia (h : Before g n size ts us) :
    AtHead g n size (ts.dropWhile fun t => t.kind.isTrivia) us := by
  obtain ⟨⟨b, hl⟩, hb, hs⟩ := h
  refine ⟨isTrivia_kindOf_dropWhile ts, ⟨b, Laid.dropTrivia (.inl hl)⟩, ?_, hs⟩
  rw [hb, bareTokens_dropWhile (p := TokenKind.isTrivia) fun _ h => h]

theorem Before.dropNewlines (h : Before g n size ts us) :
    Before g n size (ts.dropWhile fun t => t.kind == .newline) us := by
  obtain ⟨⟨b, hl⟩, hb, hs⟩ := h
  refine ⟨⟨b, Laid.dropNewlines hl⟩, ?_, hs⟩
  rw [hb, bareTokens_dropWhile (p := (· == .newline)) fun k hk => by rw [beq_iff_eq.1 hk]; rfl]

/-- The reader of the bare tokens has nothing to pass over. -/
theorem Before.dropWhile_eq {p : TokenKind → Bool} (h : Before g n size ts us)
    (hp : ∀ k, p k = true → k.isTrivia = true) : (us.dropWhile fun t => p t.kind) = us := by
  rw [h.bare, dropWhile_bareTokens hp]

theorem Before.isTrivia_kindOf (h : Before g n size ts us) : (kindOf us).isTrivia = false := by
  rw [h.bare, kindOf_bareTokens_false]
  exact isTrivia_kindOf_dropWhile ts

/-- A line with a token is one that has been entered. -/
theorem AtHead.within (h : AtHead g (n + 1) size ts us) (ht : (kindOf ts).isText = true) :
    AtText g (n + 1) size ts us := by
  obtain ⟨-, ⟨b, hl⟩, hb, hs⟩ := h
  cases hl with
  | first hx hc hl =>
    refine ⟨ht, .more hx (by simpa using hc) hl, ?_, hs⟩
    rw [hb, bareTokens_text hx, bareTokens_text hx]
  | blank hk | remark hk | deeper hk | closing hk =>
    simp [kindOf, hk, TokenKind.isText, TokenKind.isLayout] at ht

/-- A line that has been entered at a token of a block may be read from its start. -/
theorem AtText.atHead (h : AtText g (n + 1) size ts us) : AtHead g (n + 1) size ts us := by
  obtain ⟨ht, hl, hb, hs⟩ := h
  cases ts with
  | nil => exact absurd rfl (Laid.ne_nil_inside hl)
  | cons t ts =>
    refine ⟨?_, ⟨true, Laid.start_of_inside hl ht⟩, ?_, hs⟩
    · exact TokenKind.isTrivia_of_isText ht
    · rw [hb, bareTokens_text (show t.kind.isText = true from ht),
        bareTokens_text (show t.kind.isText = true from ht)]

/-- Into a block, at its first token. -/
theorem AtHead.indent (h : AtHead g n size ts us) (ht : kindOf ts = .indent) :
    ∃ t ts' us', ts = t :: ts' ∧ us = .mark .indent 0 0 :: us' ∧ t.kind = .indent ∧
      AtText g (n + 1) size ts' us' := by
  obtain ⟨-, ⟨b, hl⟩, rfl, hs⟩ := h
  cases hl with
  | deeper hk hl =>
    rw [bareTokens_indent hk] at hs ⊢
    refine ⟨_, _, _, rfl, rfl, hk, ?_⟩
    cases hl with
    | opened hx hc hl =>
      rw [bareTokens_text hx] at hs ⊢
      exact ⟨hx, .more hx hc hl, by rw [bareTokens_text hx], Nat.lt_of_succ_lt hs⟩
  | done => cases ht
  | first hx => simp [kindOf] at ht; simp [ht, TokenKind.isText, TokenKind.isLayout] at hx
  | blank hk | remark hk | closing hk => simp [kindOf, hk] at ht

/-- Out of a block. -/
theorem AtHead.dedent (h : AtHead g (n + 1) size ts us) (ht : kindOf ts = .dedent) :
    ∃ t ts' us', ts = t :: ts' ∧ us = .mark .dedent 0 0 :: us' ∧ t.kind = .dedent ∧
      Before g n size ts' us' := by
  obtain ⟨-, ⟨b, hl⟩, rfl, hs⟩ := h
  cases hl with
  | closing hk hl =>
    rw [bareTokens_dedent hk] at hs ⊢
    exact ⟨_, _, _, rfl, rfl, hk, ⟨_, hl⟩, rfl, Nat.lt_of_succ_lt hs⟩
  | first hx => simp [kindOf] at ht; simp [ht, TokenKind.isText, TokenKind.isLayout] at hx
  | blank hk | remark hk | deeper hk => simp [kindOf, hk] at ht

end

variable {g : Nat → Nat} {n size : Nat} {α β : Type}

/-! ### Between lines -/

theorem skipTrivia_bared :
    Bared (Before g n size) skipTrivia skipTrivia fun _ _ ts us => AtHead g n size ts us :=
  fun _ _ ts us hi => by
    simp only [Tally, skipTrivia, skipWhile]
    rw [hi.dropWhile_eq (p := TokenKind.isTrivia) fun _ h => h]
    exact hi.dropTrivia

theorem peekPastTrivia_bared {f f' : TokenKind → Reader β}
    {W : β → β → List Token → List Token → Prop}
    (h : ∀ k, Bared (fun ts us => kindOf (ts.dropWhile (·.kind.isTrivia)) = k ∧
      Before g n size ts us) (f k) (f' k) W) :
    Bared (Before g n size) (peekPastTrivia >>= f) (peekPastTrivia >>= f') W := by
  intro stop stop' ts us hi
  show Tally W (f (kindOf (ts.dropWhile (·.kind.isTrivia))) stop ts)
    (f' (kindOf (us.dropWhile (·.kind.isTrivia))) stop' us)
  rw [hi.dropWhile_eq (p := TokenKind.isTrivia) fun _ h => h, hi.dropTrivia.kindOf_eq]
  exact h _ ⟨rfl, hi⟩

theorem peek_head_bind {f f' : TokenKind → Reader β} {W : β → β → List Token → List Token → Prop}
    {I : List Token → List Token → Prop} (hI : ∀ ts us, I ts us → AtHead g n size ts us)
    (h : ∀ k, Bared (fun ts us => kindOf ts = k ∧ I ts us) (f k) (f' k) W) :
    Bared I (peek >>= f) (peek >>= f') W := by
  intro stop stop' ts us hi
  show Tally W (f (kindOf ts) stop ts) (f' (kindOf us) stop' us)
  rw [(hI _ _ hi).kindOf_eq]
  exact h _ ⟨rfl, hi⟩

/-- The `indent` before a block. -/
theorem expect_indent_bared {what : Expected} :
    Bared (AtHead g n size) (expect .indent what) (expect .indent what) fun _ _ ts us =>
      AtText g (n + 1) size ts us := by
  intro stop stop' ts us hi
  by_cases ht : kindOf ts = .indent
  · obtain ⟨t, ts, us, rfl, rfl, hk, h⟩ := hi.indent ht
    rw [expect_apply_ok hk, expect_apply_ok (Token.kind_mark .indent 0 0)]
    exact h
  · obtain ⟨f, hf⟩ := expect_apply_error what stop ts ht
    obtain ⟨f', hf'⟩ := expect_apply_error what stop' us
      (hi.kindOf_eq.symm ▸ ht : kindOf us ≠ .indent)
    rw [hf, hf']
    trivial

/-- The `dedent` behind a block. -/
theorem expect_dedent_bared {what : Expected} :
    Bared (AtHead g (n + 1) size) (expect .dedent what) (expect .dedent what) fun _ _ ts us =>
      Before g n size ts us := by
  intro stop stop' ts us hi
  by_cases ht : kindOf ts = .dedent
  · obtain ⟨t, ts, us, rfl, rfl, hk, h⟩ := hi.dedent ht
    rw [expect_apply_ok hk, expect_apply_ok (Token.kind_mark .dedent 0 0)]
    exact h
  · obtain ⟨f, hf⟩ := expect_apply_error what stop ts ht
    obtain ⟨f', hf'⟩ := expect_apply_error what stop' us
      (hi.kindOf_eq.symm ▸ ht : kindOf us ≠ .dedent)
    rw [hf, hf']
    trivial

/-- A token of a line in a block, before which only trivia may stand. -/
theorem expect_head_bared {k : TokenKind} {what : Expected} (hk : k.isText = true) :
    Bared (AtHead g (n + 1) size) (expect k what) (expect k what) fun _ _ ts us =>
      Within g (n + 1) size ts us := by
  intro stop stop' ts us hi
  by_cases ht : kindOf ts = k
  · have := @expect_bared g (n + 1) size k what hk stop stop' ts us (hi.within (ht ▸ hk)).2
    unfold Tally at this ⊢
    split at this
    · exact this.2
    · trivial
    · exact this
  · obtain ⟨f, hf⟩ := expect_apply_error what stop ts ht
    obtain ⟨f', hf'⟩ := expect_apply_error what stop' us
      (hi.kindOf_eq.symm ▸ ht : kindOf us ≠ k)
    rw [hf, hf']
    trivial

/-- An `indent` that may be absent. -/
theorem accept?_indent_bared {f f' : Option Token → Reader β}
    {W : β → β → List Token → List Token → Prop}
    (hn : Bared (AtHead g n size) (f none) (f' none) W)
    (hs : ∀ t t', Bared (AtText g (n + 1) size) (f (some t)) (f' (some t')) W) :
    Bared (AtHead g n size) (accept? .indent >>= f) (accept? .indent >>= f') W := by
  intro stop stop' ts us hi
  rw [bind_apply, bind_apply]
  by_cases ht : kindOf ts = .indent
  · obtain ⟨t, ts, us, rfl, rfl, hk, h⟩ := hi.indent ht
    rw [accept?_apply_some hk, accept?_apply_some (Token.kind_mark .indent 0 0)]
    exact hs _ _ h
  · rw [accept?_apply_none ts ht, accept?_apply_none us (hi.kindOf_eq.symm ▸ ht : kindOf us ≠ .indent)]
    exact hn hi

/-- A `dedent` that may be absent. -/
theorem accept?_dedent_bared {f f' : Option Token → Reader β}
    {W : β → β → List Token → List Token → Prop}
    (hn : Bared (AtHead g (n + 1) size) (f none) (f' none) W)
    (hs : ∀ t t', Bared (Before g n size) (f (some t)) (f' (some t')) W) :
    Bared (AtHead g (n + 1) size) (accept? .dedent >>= f) (accept? .dedent >>= f') W := by
  intro stop stop' ts us hi
  rw [bind_apply, bind_apply]
  by_cases ht : kindOf ts = .dedent
  · obtain ⟨t, ts, us, rfl, rfl, hk, h⟩ := hi.dedent ht
    rw [accept?_apply_some hk, accept?_apply_some (Token.kind_mark .dedent 0 0)]
    exact hs _ _ h
  · rw [accept?_apply_none ts ht, accept?_apply_none us (hi.kindOf_eq.symm ▸ ht : kindOf us ≠ .dedent)]
    exact hn hi

/-- A token of a line that has been looked at. -/
theorem skip_bared {I : List Token → List Token → Prop}
    (hI : ∀ ts us, I ts us → AtText g n size ts us) :
    Bared I skip skip fun _ _ ts us => Within g n size ts us := by
  intro stop stop' ts us hi
  obtain ⟨ht, hw⟩ := hI _ _ hi
  rcases hw.cases with ⟨t, ts, us, size', rfl, rfl, -, rfl, hw'⟩ | hend
  · exact hw'.mono (Nat.le_succ _)
  · rw [hend.isText_kindOf] at ht
    cases ht

/-! ### Options of calls -/

/-- The token behind an `indent`, and the one behind a token of a line.  They differ only where
neither has a text. -/
theorem peekSecond_bared {f f' : TokenKind → Reader β} {W : β → β → List Token → List Token → Prop}
    {I : List Token → List Token → Prop} (hI : ∀ ts us, I ts us → AtHead g (n + 1) size ts us)
    (hd : ∀ ts us, I ts us → kindOf ts ≠ .dedent)
    (h : ∀ k k', k.isText = true ∧ k' = k ∨ k.isText = false ∧ k'.isText = false →
      Bared I (f k) (f' k') W) :
    Bared I (peekSecond >>= f) (peekSecond >>= f') W := by
  intro stop stop' ts us hi
  have hh := hI _ _ hi
  refine h (kindOf ts.tail) (kindOf us.tail) ?_ hi
  by_cases hk : kindOf ts = .indent
  · obtain ⟨t, ts, us, rfl, rfl, -, hx⟩ := hh.indent hk
    exact .inl ⟨hx.1, hx.atHead.kindOf_eq⟩
  · have ht : (kindOf ts).isText = true := by
      have htr := hh.1
      have he : kindOf ts ≠ .eof := by
        obtain ⟨-, ⟨b, hl⟩, -⟩ := hh
        exact kindOf_ne_eof hl (Laid.ne_nil_start hl)
      have := hd _ _ hi
      cases hx : kindOf ts <;>
        simp_all [TokenKind.isText, TokenKind.isLayout, TokenKind.isTrivia]
    obtain ⟨-, hw⟩ := hh.within ht
    rcases hw.cases with ⟨t, ts, us, size', rfl, rfl, -, -, hw'⟩ | hend
    · rcases hw'.cases with ⟨u, ts, us, _, rfl, rfl, hu, -, -⟩ | hend
      · exact .inl ⟨hu, rfl⟩
      · exact .inr ⟨hend.isText_kindOf, by rw [List.tail_cons, hend.2]; rfl⟩
    · rw [hend.isText_kindOf] at ht
      cases ht

theorem skip_indent_bared :
    Bared (fun ts us => kindOf ts = .indent ∧ AtHead g n size ts us) skip skip fun _ _ ts us =>
      AtText g (n + 1) size ts us := by
  rintro stop stop' ts us ⟨ht, hi⟩
  obtain ⟨t, ts, us, rfl, rfl, -, h⟩ := hi.indent ht
  exact h

theorem callOptions_bared :
    Bared (Before g (n + 1) size) callOptions callOptions fun o o' ts us =>
      o' = id o ∧ Before g (n + 1) size ts us := by
  refine peekPastTrivia_bared fun k => ?_
  split
  · refine Bared.bind (V := fun _ _ ts us => kindOf ts = .indent ∧ AtHead g (n + 1) size ts us)
      (fun stop stop' ts us hi => ?_) fun _ _ => ?_
    · have := @skipTrivia_bared g (n + 1) size stop stop' ts us hi.2
      exact ⟨hi.1, this⟩
    refine peekSecond_bared (fun _ _ h => h.2) (fun _ _ h => by simp [h.1]) fun k k' hk => ?_
    rcases hk with ⟨-, rfl⟩ | ⟨hk, hk'⟩
    · split
      · refine skip_indent_bared.bind fun _ _ => (skip_bared fun _ _ h => h).bind fun _ _ => ?_
        refine args_bared.bind_eq fun _ => lineEnd_bared.bind fun _ _ => ?_
        refine skipTrivia_bared.bind fun _ _ => accept?_dedent_bared .fail fun _ _ => ?_
        exact .pure fun _ _ h => ⟨rfl, h⟩
      · exact .fail
    · cases k <;> cases k' <;> simp [TokenKind.isText, TokenKind.isLayout] at hk hk' <;> exact .fail
  · exact .pure fun _ _ h => ⟨rfl, h.2⟩

theorem activityLine_bared :
    Bared (Within g (n + 1) size) activityLine activityLine fun c c' ts us =>
      c' = c.relocate (Position.renumber g) ∧ Before g (n + 1) size ts us := by
  refine activityCall_bared.bind_eq fun _ => lineEnd_bared.bind fun _ _ => ?_
  exact callOptions_bared.bind_eq fun _ => .pure fun _ _ hi => ⟨rfl, hi⟩

theorem withOptions_bared {r : Reader WorkflowCall}
    (h : Bared (AtText g (n + 1) size) r r fun c c' ts us =>
      c' = c.relocate (Position.renumber g) ∧ Within g (n + 1) size ts us) :
    Bared (AtText g (n + 1) size) (withOptions r) (withOptions r) fun c c' ts us =>
      c' = c.relocate (Position.renumber g) ∧ Before g (n + 1) size ts us := by
  refine h.bind_eq fun _ => lineEnd_bared.bind fun _ _ => ?_
  exact callOptions_bared.bind_eq fun _ => .pure fun _ _ hi => ⟨rfl, hi⟩

/-! ### Comments -/

/-- A comment on a line of its own is read, and no bare token with it. -/
theorem commentLine_before {ts us : List Token} (stop : Position) (h : Before g n size ts us)
    (hk : kindOf ts = .comment) :
    ∃ s rest, commentLine stop ts = .ok (s, rest) ∧ s.isComment = true ∧
      Before g n size rest us := by
  obtain ⟨⟨b, hl⟩, rfl, hs⟩ := h
  cases hl with
  | @remark _ _ t _ ht hl =>
    cases hl with
    | remarkEnd hn hl =>
      rw [bareTokens_comment ht, bareTokens_blank hn] at hs ⊢
      refine ⟨.comment (Text.trim t.literal) t.position, _, ?_, rfl, ⟨_, hl⟩, rfl, hs⟩
      rw [commentLine, bind_apply, expect_apply_ok ht]
      simp only [bind_apply, lineEnd_apply_newline hn]
      rfl
  | done => cases hk
  | first hx => simp [kindOf] at hk; simp [hk, TokenKind.isText] at hx
  | blank hx | deeper hx | closing hx => simp [kindOf, hx] at hk

theorem skipNewlines_apply (stop : Position) (ts : List Token) :
    skipNewlines stop ts = .ok ((), ts.dropWhile fun t => t.kind == .newline) := rfl

theorem kindOf_dropNewlines (ts : List Token) :
    kindOf (ts.dropWhile fun t => t.kind == .newline) ≠ .newline := by
  cases hd : ts.dropWhile fun t => t.kind == .newline with
  | nil => simp [kindOf]
  | cons t ts' => simpa [hd, kindOf] using List.head?_dropWhile_not (·.kind == .newline) ts

theorem Before.dropNewlines_eq {ts us : List Token} (h : Before g n size ts us) :
    (us.dropWhile fun t => t.kind == .newline) = us :=
  h.dropWhile_eq (p := (· == .newline)) fun k hk => by rw [beq_iff_eq.1 hk]; rfl

/-- The statement that is read from the bare tokens, unless it is a comment. -/
def Statement.bare? (g : Nat → Nat) (s : Statement) : Option Statement :=
  if s.isComment then none else some (s.uncommented.relocate (Position.renumber g))

theorem filterMap_bare? (l : List Statement) :
    l.filterMap (Statement.bare? g) =
      (uncommentedAll l).map (Statement.relocate (Position.renumber g)) := by
  induction l with
  | nil => simp
  | cons s l ih =>
    rw [List.filterMap_cons, ih, Statement.bare?]
    cases hs : s.isComment <;> simp [hs]

/-- Comments before a block are read, and no bare tokens with them. -/
theorem leadingComments_bared :
    Bared (Before g n size) leadingComments leadingComments fun cs cs' ts us =>
      cs' = cs.filterMap (Statement.bare? g) ∧ AtHead g n size ts us := by
  refine Bared.collect fun stop stop' ts us hi => ?_
  have hb := hi.dropNewlines
  have hnl := kindOf_dropNewlines ts
  have hbare : leadingComment stop' us = .ok (none, us) := by
    have ht := hi.isTrivia_kindOf
    simp only [leadingComment, bind_apply, skipNewlines_apply, hi.dropNewlines_eq, peek]
    generalize kindOf us = k at ht
    cases k <;> first | rfl | cases ht
  by_cases hk : kindOf (ts.dropWhile fun t => t.kind == .newline) = .comment
  · obtain ⟨s, rest, hc, hs, hrest⟩ := commentLine_before stop hb hk
    refine .inl ⟨s, rest, ?_, by simp [Statement.bare?, hs], hrest⟩
    simp only [leadingComment, bind_apply, skipNewlines_apply, peek, hk, map_apply, hc]
  · refine .inr ?_
    have hnone : leadingComment stop ts =
        .ok (none, ts.dropWhile fun t => t.kind == .newline) := by
      simp only [leadingComment, bind_apply, skipNewlines_apply, peek]
      rfl
    rw [hnone, hbare]
    exact ⟨TokenKind.isTrivia_of_ne hnl hk, hb⟩

/-! ### Statements of a block -/

section

variable {inner : StatementReader} {column : Nat} {stop : Position} {ts : List Token}

theorem nextStatement_end (h : kindOf (ts.dropWhile fun t => t.kind == .newline) = .dedent) :
    nextStatement inner column stop ts =
      .ok (none, ts.dropWhile fun t => t.kind == .newline) := by
  simp only [nextStatement, bind_apply, skipNewlines_apply, peek, h]
  rfl

theorem nextStatement_comment
    (h : commentEndsBlock column (ts.dropWhile fun t => t.kind == .newline) = true) :
    nextStatement inner column stop ts =
      .ok (none, dedentFirst (ts.dropWhile fun t => t.kind == .newline)) := by
  have hk : kindOf (ts.dropWhile fun t => t.kind == .newline) = .comment := by
    refine Classical.byContradiction fun hk => ?_
    rw [commentEndsBlock_of_kindOf hk] at h
    cases h
  simp only [nextStatement, bind_apply, skipNewlines_apply, peek, hk, ask, h]
  rfl

theorem nextStatement_inner
    (h : commentEndsBlock column (ts.dropWhile fun t => t.kind == .newline) = false)
    (hd : kindOf (ts.dropWhile fun t => t.kind == .newline) ≠ .dedent)
    (he : kindOf (ts.dropWhile fun t => t.kind == .newline) ≠ .eof) :
    nextStatement inner column stop ts =
      (some <$> inner.1) stop (ts.dropWhile fun t => t.kind == .newline) := by
  simp only [nextStatement, bind_apply, skipNewlines_apply, peek, ask, h]

end

/-- The readers of single statements do the same up to comments, if fewer than so many bare tokens
are left. -/
structure Bares (g : Nat → Nat) (size : Nat) (inner inner' : StatementReader) : Prop where
  reads : ∀ n, Bared (fun ts us => kindOf ts ≠ .dedent ∧ AtHead g (n + 1) size ts us)
    inner.1 inner'.1 fun s s' ts us =>
      (s.isComment = false ∧ s' = s.uncommented.relocate (Position.renumber g)) ∧
        Before g (n + 1) size ts us
  comment : ∀ {n ts us stop}, Before g (n + 1) size ts us → kindOf ts = .comment →
    inner.1 stop ts = commentLine stop ts

variable {inner inner' : StatementReader}

/-- In a block, a `dedent` may be moved in front of comments. -/
theorem Before.dedentFirst {column : Nat} {ts us : List Token} (h : Before g (n + 1) size ts us)
    (hc : commentEndsBlock column ts = true) :
    AtHead g (n + 1) size (dedentFirst ts) us ∧ kindOf us = .dedent := by
  obtain ⟨⟨b, hl⟩, rfl, hs⟩ := h
  obtain ⟨l, d, later, rfl, hl', hd⟩ := exists_dedent_of_commentEndsBlock hl hc
  obtain ⟨d', rest, he, hd', hrest⟩ := hl.dedentFirst hc
  rw [he]
  rw [dedentFirst_append hl' hd] at he
  cases he
  rw [bareTokens_trivia hl', bareTokens_dedent hd] at hs ⊢
  refine ⟨⟨by simp [kindOf, hd, TokenKind.isTrivia], ⟨b, .closing hd hrest⟩, ?_, hs⟩, rfl⟩
  rw [bareTokens_dedent hd, bareTokens_trivia hl']

theorem statements_bared (h : Bares g size inner inner') (column column' : Nat) :
    Bared (Before g (n + 1) size) (statements inner column) (statements inner' column')
      fun l l' ts us => l' = l.filterMap (Statement.bare? g) ∧ AtHead g (n + 1) size ts us := by
  refine Bared.collect fun stop stop' ts us hi => ?_
  have hb := hi.dropNewlines
  have hnl := kindOf_dropNewlines ts
  have heof : kindOf (ts.dropWhile fun t => t.kind == .newline) ≠ .eof := by
    obtain ⟨⟨b, hl⟩, -⟩ := hb
    exact kindOf_ne_eof hl (Laid.ne_nil_start hl)
  have bare_end : kindOf us = .dedent → nextStatement inner' column' stop' us = .ok (none, us) := by
    intro hk
    refine (nextStatement_end ?_).trans ?_ <;> rw [hi.dropNewlines_eq]
    exact hk
  by_cases hk : kindOf (ts.dropWhile fun t => t.kind == .newline) = .comment
  · cases hc : commentEndsBlock column (ts.dropWhile fun t => t.kind == .newline) with
    | true =>
      obtain ⟨hat, hd⟩ := hb.dedentFirst hc
      exact .inr (by rw [nextStatement_comment hc, bare_end hd]; exact hat)
    | false =>
      -- a comment is read, and the bare tokens remain
      obtain ⟨s, rest, hs, hcomment, hrest⟩ := commentLine_before stop hb hk
      refine .inl ⟨s, rest, ?_, by simp [Statement.bare?, hcomment], hrest⟩
      rw [nextStatement_inner hc (by simp [hk]) heof, map_apply, h.comment hb hk, hs]
  · have hat : AtHead g (n + 1) size (ts.dropWhile fun t => t.kind == .newline) us := by
      exact ⟨TokenKind.isTrivia_of_ne hnl hk, hb⟩
    have hkus := hat.kindOf_eq
    refine .inr ?_
    by_cases hd : kindOf (ts.dropWhile fun t => t.kind == .newline) = .dedent
    · rw [nextStatement_end hd, bare_end (hkus.trans hd)]
      exact hat
    · have hus : kindOf (us.dropWhile fun t => t.kind == .newline) =
          kindOf (ts.dropWhile fun t => t.kind == .newline) := by rw [hi.dropNewlines_eq, hkus]
      rw [nextStatement_inner (commentEndsBlock_of_kindOf hk) hd heof,
        nextStatement_inner (commentEndsBlock_of_kindOf (hus ▸ hk)) (hus ▸ hd) (hus ▸ heof),
        hi.dropNewlines_eq]
      refine (h.reads n).map (fun s s' ts us hs => ?_) ⟨hd, hat⟩
      exact ⟨by simp [Statement.bare?, hs.1.1, hs.1.2], hs.2⟩

/-! ### Blocks -/

theorem blockLines_bared (h : Bares g size inner inner') :
    Bared (Before g n size) (blockLines inner) (blockLines inner') fun l l' ts us =>
      l' = (uncommentedAll l).map (Statement.relocate (Position.renumber g)) ∧
        Before g n size ts us := by
  refine leadingComments_bared.bind_eq fun cs => expect_indent_bared.bind fun o o' => ?_
  refine ((statements_bared h _ _).pre fun _ _ h => h.atHead.2).bind_eq fun l => ?_
  refine expect_dedent_bared.bind fun _ _ => .pure fun _ _ hi => ⟨?_, hi⟩
  rw [← filterMap_bare?, List.filterMap_append]

theorem block_bared (h : Bares g size inner inner') :
    Bared (Within g n size) (block inner) (block inner') fun l l' ts us =>
      l' = (uncommentedAll l).map (Statement.relocate (Position.renumber g)) ∧
        Before g n size ts us :=
  (expect_bared rfl).bind fun _ _ => .of_fact fun _ => lineEnd_bared.bind fun _ _ =>
    blockLines_bared h

theorem optionalBlock_bared (h : Bares g size inner inner') :
    Bared (Within g n size) (optionalBlock inner) (optionalBlock inner') fun o o' ts us =>
      o' = (uncommentedOptional o).map (List.map (Statement.relocate (Position.renumber g))) ∧
        Before g n size ts us := by
  refine (expect_bared rfl).bind fun _ _ => .of_fact fun _ => lineEnd_bared.bind fun _ _ => ?_
  refine peekPastTrivia_bared fun k => ?_
  split
  · refine ((blockLines_bared h).pre fun _ _ h => h.2).map fun _ _ _ _ h => ⟨?_, h.2⟩
    rw [h.1]
    simp
  · exact .pure fun _ _ h => ⟨by simp, h.2⟩

end FlowLang
