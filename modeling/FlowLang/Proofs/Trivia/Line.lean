import FlowLang.Proofs.Recovery.Line
import FlowLang.Proofs.Trivia.Bare

/-!
# Lines without comments

In a line the next token and the next bare token are the same, or the line ends: then a comment may
stand before the end, but no bare one.

* `Within`, `Before` : in a line, and before a line, of a block of some depth.
* `expect_bared`, `name_bared`, `lineEnd_bared` … : the readers of the parts of a line and of calls.
-/

namespace FlowLang

open Reader

/-! ### Places -/

/-- In a line of a block, with fewer than so many bare tokens left. -/
structure Within (g : Nat → Nat) (depth size : Nat) (ts us : List Token) : Prop where
  laid : Laid (.inside depth) ts
  bare : us = bareTokens g true ts
  short : us.length < size

/-- Before a line of a block, with fewer than so many bare tokens left. -/
structure Before (g : Nat → Nat) (depth size : Nat) (ts us : List Token) : Prop where
  laid : ∃ b, Laid (.start depth b) ts
  bare : us = bareTokens g false ts
  short : us.length < size

section

variable {g : Nat → Nat} {n size size' : Nat} {t : Token} {ts us : List Token}

theorem Within.mono (h : Within g n size ts us) (hs : size ≤ size') : Within g n size' ts us :=
  ⟨h.laid, h.bare, Nat.lt_of_lt_of_le h.short hs⟩

theorem Before.mono (h : Before g n size ts us) (hs : size ≤ size') : Before g n size' ts us :=
  ⟨h.laid, h.bare, Nat.lt_of_lt_of_le h.short hs⟩

/-- The line is at its end, perhaps up to a comment. -/
def AtEnd (ts us : List Token) : Prop :=
  (kindOf ts = .comment ∨ kindOf ts = .newline) ∧ kindOf us = .newline

/-- A line goes on with a token, or is at its end. -/
theorem Within.cases (h : Within g n size ts us) :
    (∃ t ts' us' size', ts = t :: ts' ∧ us = t.relocate (Position.renumber g) :: us' ∧
      t.kind.isText = true ∧ size = size' + 1 ∧ Within g n size' ts' us') ∨ AtEnd ts us := by
  obtain ⟨hl, rfl, hs⟩ := h
  cases hl with
  | more ht _ hl =>
    rw [bareTokens_text ht] at hs ⊢
    cases size with
    | zero => exact absurd hs (Nat.not_lt_zero _)
    | succ size => exact .inl ⟨_, _, _, _, rfl, rfl, ht, rfl, hl, rfl, Nat.lt_of_succ_lt_succ hs⟩
  | trailing ht hl =>
    rw [bareTokens_comment ht]
    cases hl with
    | remarkEnd hn => exact .inr ⟨.inl ht, by rw [bareTokens_newline hn]; rfl⟩
  | ending ht => exact .inr ⟨.inr ht, by rw [bareTokens_newline ht]; rfl⟩

theorem AtEnd.isText_kindOf (h : AtEnd ts us) : (kindOf ts).isText = false := by
  rcases h.1 with hk | hk <;> rw [hk] <;> rfl

theorem kindOf_ne_of_isText {k : TokenKind} (h : (kindOf ts).isText = false)
    (hk : k.isText = true) : kindOf ts ≠ k := by
  rintro rfl
  simp [h] at hk

/-- A token that is not there is not taken. -/
theorem accept?_apply_none (ts : List Token) {k : TokenKind} {stop : Position}
    (h : kindOf ts ≠ k) : accept? k stop ts = .ok (none, ts) := by
  cases ts with
  | nil => rfl
  | cons t ts => exact if_neg h

theorem accept?_apply_some {k : TokenKind} {stop : Position} (h : t.kind = k) :
    accept? k stop (t :: ts) = .ok (some t, ts) :=
  if_pos h

theorem expect_apply_error {k : TokenKind} (what : Expected) (stop : Position) (ts : List Token)
    (h : kindOf ts ≠ k) : ∃ f, expect k what stop ts = .error f := by
  cases ts with
  | nil => exact ⟨_, rfl⟩
  | cons t ts => exact ⟨_, if_neg h⟩

theorem expect_apply_ok {k : TokenKind} {what : Expected} {stop : Position} (h : t.kind = k) :
    expect k what stop (t :: ts) = .ok (t, ts) :=
  if_pos h

end

variable {g : Nat → Nat} {n size : Nat} {α β : Type} {I : List Token → List Token → Prop}

/-! ### Tokens of a line -/

/-- The first token of a statement: fewer bare tokens are left than before. -/
theorem expect_first_bared {k : TokenKind} {what : Expected} (hk : k.isText = true) :
    Bared (Within g n (size + 1)) (expect k what) (expect k what) fun t t' ts us =>
      (t' = t.relocate (Position.renumber g) ∧ t.kind = k) ∧ Within g n size ts us := by
  intro stop stop' ts us hi
  rcases hi.cases with ⟨t, ts, us, size', rfl, rfl, -, hs, hi⟩ | hend
  · cases hs
    by_cases ht : t.kind = k
    · rw [expect_apply_ok ht, expect_apply_ok (show (t.relocate _).kind = k from ht)]
      exact ⟨⟨rfl, ht⟩, hi⟩
    · obtain ⟨f, hf⟩ := expect_apply_error what stop (t :: ts) ht
      obtain ⟨f', hf'⟩ := expect_apply_error what stop'
        (t.relocate (Position.renumber g) :: us) ht
      rw [hf, hf']
      trivial
  · obtain ⟨f, hf⟩ := expect_apply_error what stop ts
      (kindOf_ne_of_isText hend.isText_kindOf hk)
    obtain ⟨f', hf'⟩ := expect_apply_error what stop' us
      (kindOf_ne_of_isText (by rw [hend.2]; rfl) hk)
    rw [hf, hf']
    trivial

theorem expect_bared {k : TokenKind} {what : Expected} (hk : k.isText = true) :
    Bared (Within g n size) (expect k what) (expect k what) fun t t' ts us =>
      (t' = t.relocate (Position.renumber g) ∧ t.kind = k) ∧ Within g n size ts us := by
  cases size with
  | zero => exact .of_false fun _ _ h => Nat.not_lt_zero _ h.short
  | succ size =>
    exact (expect_first_bared hk).post fun _ _ _ _ h => ⟨h.1, h.2.mono (Nat.le_succ size)⟩

theorem accept?_bared {k : TokenKind} (hk : k.isText = true) {f f' : Option Token → Reader β}
    {W : β → β → List Token → List Token → Prop}
    (hn : Bared (Within g n size) (f none) (f' none) W)
    (hs : ∀ t, Bared (Within g n size) (f (some t))
      (f' (some (t.relocate (Position.renumber g)))) W) :
    Bared (Within g n size) (accept? k >>= f) (accept? k >>= f') W := by
  intro stop stop' ts us hi
  rw [bind_apply, bind_apply]
  rcases hi.cases with ⟨t, ts, us, size', rfl, rfl, -, rfl, hi'⟩ | hend
  · by_cases ht : t.kind = k
    · rw [accept?_apply_some ht, accept?_apply_some (show (t.relocate _).kind = k from ht)]
      exact hs t (hi'.mono (Nat.le_succ size'))
    · rw [accept?_apply_none (t :: ts) ht,
        accept?_apply_none (t.relocate (Position.renumber g) :: us) ht]
      exact hn hi
  · rw [accept?_apply_none ts (kindOf_ne_of_isText hend.isText_kindOf hk),
      accept?_apply_none us (kindOf_ne_of_isText (by rw [hend.2]; rfl) hk)]
    exact hn hi

/-- The kind of the next token.  At the end of a line, a comment may stand before it. -/
theorem peek_within_bind {f f' : TokenKind → Reader β} {W : β → β → List Token → List Token → Prop}
    (h : ∀ k, Bared (fun ts us => kindOf ts = k ∧ Within g n size ts us) (f k) (f' k) W)
    (hend : Bared (Within g n size) (f .comment) (f' .newline) W) :
    Bared (Within g n size) (peek >>= f) (peek >>= f') W := by
  intro stop stop' ts us hi
  show Tally W (f (kindOf ts) stop ts) (f' (kindOf us) stop' us)
  rcases hi.cases with ⟨t, ts, us, size', rfl, rfl, -, rfl, -⟩ | ⟨hk | hk, hk'⟩
  · exact h t.kind ⟨rfl, hi⟩
  · rw [hk, hk']
    exact hend hi
  · rw [hk']
    exact hk ▸ h _ ⟨rfl, hi⟩

theorem name_bared {what : Expected} :
    Bared (Within g n size) (name what) (name what) fun s s' ts us =>
      s' = id s ∧ Within g n size ts us :=
  (expect_bared rfl).bind fun _ _ => .of_fact fun h => .pure fun _ _ hi => ⟨by rw [h.1]; rfl, hi⟩

theorem args_bared {what : Expected} :
    Bared (Within g n size) (args what) (args what) fun s s' ts us =>
      s' = id s ∧ Within g n size ts us :=
  (expect_bared rfl).bind fun _ _ => .of_fact fun h => .pure fun _ _ hi => ⟨by rw [h.1]; rfl, hi⟩

theorem args?_bared :
    Bared (Within g n size) args? args? fun s s' ts us => s' = id s ∧ Within g n size ts us :=
  accept?_bared rfl (.pure fun _ _ h => ⟨rfl, h⟩) fun _ => .pure fun _ _ h => ⟨rfl, h⟩

theorem arrowTarget_bared {target : ArrowTarget} :
    Bared (Within g n size) (arrowTarget target) (arrowTarget target) fun s s' ts us =>
      s' = id s ∧ Within g n size ts us := by
  refine accept?_bared rfl (.pure fun _ _ h => ⟨rfl, h⟩) fun _ => ?_
  refine accept?_bared rfl ?_ fun _ => .pure fun _ _ h => ⟨rfl, h⟩
  exact (expect_bared rfl).bind fun _ _ => .of_fact fun h =>
    .pure fun _ _ hi => ⟨by rw [h.1]; rfl, hi⟩

/-! ### Ends of lines -/

theorem lineEnd_apply_newline {t : Token} {ts : List Token} {stop : Position}
    (h : t.kind = .newline) : lineEnd stop (t :: ts) = .ok ((), ts) := by
  simp [lineEnd, bind_apply, accept?, peek, kindOf, skip, h]

theorem lineEnd_apply_comment {t u : Token} {ts : List Token} {stop : Position}
    (ht : t.kind = .comment) (hu : u.kind = .newline) :
    lineEnd stop (t :: u :: ts) = .ok ((), ts) := by
  simp [lineEnd, bind_apply, accept?, peek, kindOf, skip, ht, hu]

theorem lineEnd_apply_error {t : Token} (ts : List Token) (stop : Position)
    (h : t.kind.isText = true) : ∃ f, lineEnd stop (t :: ts) = .error f := by
  have hc : t.kind ≠ .comment := by rintro hk; simp [hk, TokenKind.isText] at h
  rw [lineEnd, bind_apply, accept?_apply_none (t :: ts) hc]
  cases hk : t.kind <;>
    simp_all [bind_apply, peek, kindOf, failFound, TokenKind.isText, TokenKind.isLayout]

/-- The end of a line. -/
theorem lineEnd_bared :
    Bared (Within g n size) lineEnd lineEnd fun _ _ ts us => Before g n size ts us := by
  rintro stop stop' ts us ⟨hl, rfl, hs⟩
  cases hl with
  | more ht _ hl =>
    obtain ⟨f, hf⟩ := lineEnd_apply_error _ stop ht
    rw [hf, bareTokens_text ht]
    obtain ⟨f', hf'⟩ := lineEnd_apply_error (t := Token.relocate (Position.renumber g) _)
      (bareTokens g true _) stop' ht
    rw [hf']
    trivial
  | trailing ht hl =>
    cases hl with
    | remarkEnd hn hl =>
      rw [bareTokens_comment ht, bareTokens_newline hn] at hs ⊢
      rw [lineEnd_apply_comment ht hn, lineEnd_apply_newline rfl]
      exact ⟨⟨_, hl⟩, rfl, Nat.lt_of_succ_lt hs⟩
  | ending hn hl =>
    rw [bareTokens_newline hn] at hs ⊢
    rw [lineEnd_apply_newline hn, lineEnd_apply_newline rfl]
    exact ⟨⟨_, hl⟩, rfl, Nat.lt_of_succ_lt hs⟩

/-- The rest of a line up to its end. -/
theorem textTokens_bared :
    Bared (Within g n size) textTokens textTokens fun l l' ts us =>
      l' = l.map (Token.relocate (Position.renumber g)) ∧ Within g n size ts us := by
  intro stop stop' ts us hi
  simp only [Tally, textTokens]
  induction ts generalizing us size with
  | nil => exact absurd rfl (Laid.ne_nil_inside hi.laid)
  | cons t ts ih =>
    rcases hi.cases with ⟨t, ts', us', size', he, rfl, ht, rfl, hi'⟩ | hend
    · cases he
      obtain ⟨h, hw⟩ := ih hi'
      have hk : endsText t.kind = false := by simpa [TokenKind.isText_eq] using ht
      simp only [List.takeWhile_cons, List.dropWhile_cons, Token.kind_relocate, hk, Bool.not_false,
        if_true, List.map_cons, h, true_and]
      exact hw.mono (Nat.le_succ _)
    · have hk : endsText t.kind = true := by
        rcases hend.1 with hk | hk <;> rw [show t.kind = _ from hk] <;> rfl
      have hk' : us.takeWhile (fun t => !endsText t.kind) = [] ∧
          us.dropWhile (fun t => !endsText t.kind) = us := by
        cases us with
        | nil => simp
        | cons u us => simp [show u.kind = _ from hend.2, endsText]
      simp only [List.takeWhile_cons, List.dropWhile_cons, hk, Bool.not_true, hk',
        Bool.false_eq_true, if_false, List.map_nil, true_and]
      exact hi

theorem lineText_renumber (l : List Token) :
    lineText (l.map (Token.relocate (Position.renumber g))) = lineText l :=
  lineText_congr (by rw [List.map_map]; rfl)

/-! ### Calls -/

/-- In a line, at a token. -/
def AtText (g : Nat → Nat) (n size : Nat) (ts us : List Token) : Prop :=
  (kindOf ts).isText = true ∧ Within g n size ts us

theorem here_bared :
    Bared (AtText g n size) here here fun p p' ts us =>
      p' = p.renumber g ∧ Within g n size ts us := by
  intro stop stop' ts us hi
  refine ⟨?_, hi.2⟩
  rcases hi.2.cases with ⟨t, ts, us, size', rfl, rfl, -, -, -⟩ | hend
  · rfl
  · exact absurd hi.1 (by rw [hend.isText_kindOf]; exact Bool.false_ne_true)

/-- A position that only shows where reading stops. -/
theorem here_unused :
    Bared (Within g n size) here here fun _ _ ts us => Within g n size ts us :=
  fun _ _ _ _ hi => hi

theorem activityCall_bared :
    Bared (Within g n size) activityCall activityCall fun c c' ts us =>
      c' = c.relocate (Position.renumber g) ∧ Within g n size ts us := by
  refine (expect_bared rfl).bind fun _ _ => .of_fact fun h => ?_
  refine name_bared.bind_eq fun _ => args_bared.bind_eq fun _ => ?_
  refine arrowTarget_bared.bind_eq fun _ => .pure fun _ _ hi => ⟨?_, hi⟩
  rw [h.1]
  rfl

theorem callMode_bared :
    Bared (Within g n size) callMode callMode fun m m' ts us =>
      m' = id m ∧ Within g n size ts us := by
  refine accept?_bared rfl ?_ fun _ => .pure fun _ _ h => ⟨rfl, h⟩
  exact accept?_bared rfl (.pure fun _ _ h => ⟨rfl, h⟩) fun _ => .pure fun _ _ h => ⟨rfl, h⟩

theorem nexusName_bared :
    Bared (Within g n size) nexusName nexusName fun m m' ts us =>
      m' = id m ∧ Within g n size ts us := by
  refine accept?_bared rfl (.pure fun _ _ h => ⟨rfl, h⟩) fun _ => ?_
  exact (expect_bared rfl).bind fun _ _ => .of_fact fun h => .pure fun _ _ hi =>
    ⟨by rw [h.1]; rfl, hi⟩

theorem workflowCall_bared :
    Bared (AtText g n size) workflowCall workflowCall fun c c' ts us =>
      c' = c.relocate (Position.renumber g) ∧ Within g n size ts us := by
  refine here_bared.bind fun p p' => .of_fact fun hp => ?_
  refine callMode_bared.bind_eq fun m => nexusName_bared.bind_eq fun _ => ?_
  refine (expect_bared rfl).bind fun _ _ => .of_fact fun _ => ?_
  refine name_bared.bind_eq fun _ => args_bared.bind_eq fun _ => ?_
  refine here_unused.bind fun q q' => arrowTarget_bared.bind_eq fun r => ?_
  simp only [id_eq]
  split
  · exact .failAt
  · exact .pure fun _ _ hi => ⟨by rw [hp]; rfl, hi⟩

theorem awaitedCall_bared :
    Bared (AtText g n size) awaitedCall awaitedCall fun c c' ts us =>
      c' = c.relocate (Position.renumber g) ∧ Within g n size ts us := by
  refine workflowCall_bared.bind fun c c' => .of_fact fun h => ?_
  have hm : c'.mode = c.mode := by rw [h]; rfl
  rw [hm]
  split
  · exact .pure fun _ _ hi => ⟨h, hi⟩
  · exact .failAt

theorem awaitedEvent_bared {event : Keyword} :
    Bared (Within g n size) (awaitedEvent event) (awaitedEvent event) fun c c' ts us =>
      c' = c.relocate (Position.renumber g) ∧ Within g n size ts us := by
  have text : Bared (AtText g n size) (awaitedEvent event) (awaitedEvent event)
      fun c c' ts us => c' = c.relocate (Position.renumber g) ∧ Within g n size ts us := by
    refine here_bared.bind fun p p' => .of_fact fun hp => ?_
    refine name_bared.bind_eq fun _ => arrowTarget_bared.bind_eq fun _ => ?_
    exact .pure fun _ _ hi => ⟨by rw [hp]; rfl, hi⟩
  intro stop stop' ts us hi
  by_cases ht : (kindOf ts).isText = true
  · exact text ⟨ht, hi⟩
  · -- there is no name
    rcases hi.cases with ⟨t, ts, us, size', rfl, rfl, hx, -, -⟩ | hend
    · exact absurd hx ht
    · obtain ⟨f, hf⟩ := expect_apply_error (k := .ident) (.name event) stop ts
        (kindOf_ne_of_isText hend.isText_kindOf rfl)
      obtain ⟨f', hf'⟩ := expect_apply_error (k := .ident) (.name event) stop' us
        (kindOf_ne_of_isText (by rw [hend.2]; rfl) rfl)
      simp only [awaitedEvent, here, name, bind_apply, hf, hf']
      trivial

end FlowLang
