import FlowLang.Proofs.Recovery.Line

/-!
# Calls in an excerpt

The readers of calls go on side by side.  Behind the line of a call they look for a block, past
comments and ends of lines; in a block there is always a token to be found.
-/

namespace FlowLang

open Reader

/-! ### Steps between lines -/

section

variable {n size : Nat} {F : List Token} {t : Token} {ts : List Token}

theorem filter_isFlush_dropWhile {p : TokenKind → Bool} (hp : ∀ k, p k = true → k.isText = false) :
    (ts.dropWhile fun t => p t.kind).filter Token.isFlush = ts.filter Token.isFlush := by
  induction ts with
  | nil => rfl
  | cons t ts ih =>
    rw [List.dropWhile_cons]
    split
    next h => rw [ih, List.filter_cons_of_neg (by simp [Token.isFlush, hp _ h])]
    next => rfl

theorem AtLine.dropTrivia (h : AtLine n size F ts) :
    AtLine n size F (ts.dropWhile fun t => t.kind.isTrivia) := by
  obtain ⟨b, hl, hs, hf⟩ := h
  refine ⟨b, Laid.dropTrivia (.inl hl), ?_, ?_⟩
  · exact Nat.lt_of_le_of_lt (List.dropWhile_sublist _).length_le hs
  · rw [filter_isFlush_dropWhile (p := TokenKind.isTrivia), hf]
    intro k hk
    exact TokenKind.not_isText_of_isTrivia hk

theorem AtLine.dropNewlines (h : AtLine n size F ts) :
    AtLine n size F (ts.dropWhile fun t => t.kind == .newline) := by
  obtain ⟨b, hl, hs, hf⟩ := h
  refine ⟨b, Laid.dropNewlines hl, ?_, ?_⟩
  · exact Nat.lt_of_le_of_lt (List.dropWhile_sublist _).length_le hs
  · rw [filter_isFlush_dropWhile (p := (· == .newline)), hf]
    intro k hk
    rw [beq_iff_eq.1 hk]
    rfl

/-- Into a block. -/
theorem AtLine.indent (h : AtLine n size F (t :: ts)) (ht : t.kind = .indent) :
    AtLine (n + 1) size F ts := by
  obtain ⟨b, h⟩ := h
  refine ⟨b, Stage.next h ?_ (Token.isFlush_of_not_isText (by rw [ht]; rfl))⟩
  cases h.laid with
  | deeper _ hl => exact Laid.start_of_fresh hl
  | first hx => simp [ht, TokenKind.isText, TokenKind.isLayout] at hx
  | blank hk | remark hk | closing hk => simp [ht] at hk

/-- Out of a block. -/
theorem AtLine.dedent (h : AtLine (n + 1) size F (t :: ts)) (ht : t.kind = .dedent) :
    Stage (.start n false) size F ts := by
  obtain ⟨b, h⟩ := h
  refine Stage.next h ?_ (Token.isFlush_of_not_isText (by rw [ht]; rfl))
  cases h.laid with
  | closing _ hl => exact hl
  | first hx => simp [ht, TokenKind.isText, TokenKind.isLayout] at hx
  | blank hk | remark hk | deeper hk => simp [ht] at hk

theorem AtLine.text (h : AtLine (n + 1) size F (t :: ts)) (ht : t.kind.isText = true) :
    InLine (n + 1) size F ts :=
  (h.inLine ht).next ht

theorem AtLine.tail_ne_nil (h : AtLine (n + 1) size F ts) (hk : kindOf ts ≠ .dedent) :
    ts.tail ≠ [] := by
  obtain ⟨b, h⟩ := h
  cases h.laid with
  | blank _ hl => exact Laid.ne_nil_start hl
  | remark _ hl => cases hl; simp
  | deeper _ hl => cases hl; simp
  | closing ht => exact absurd ht hk
  | first _ _ hl => exact Laid.ne_nil_inside hl

end

namespace Excerpt

variable {e : Excerpt} {n size : Nat} {F : List Token}

theorem skipTrivia_abreast :
    e.Abreast (AtLine n size F) skipTrivia skipTrivia fun _ _ us =>
      AtLine n size F us ∧ (kindOf us).isTrivia = false :=
  Abreast.skipWhile rfl rfl fun us h => ⟨h.dropTrivia, by
    cases hd : us.dropWhile fun t => t.kind.isTrivia with
    | nil => rfl
    | cons t ts => simpa [hd, kindOf] using List.head?_dropWhile_not (·.kind.isTrivia) us⟩

theorem skipNewlines_abreast :
    e.Abreast (AtLine n size F) skipNewlines skipNewlines fun _ _ us =>
      AtLine n size F us ∧ kindOf us ≠ .newline :=
  Abreast.skipWhile rfl rfl fun us h => ⟨h.dropNewlines, by
    cases hd : us.dropWhile fun t => t.kind == .newline with
    | nil => simp [kindOf]
    | cons t ts => simpa [hd, kindOf] using List.head?_dropWhile_not (·.kind == .newline) us⟩

/-! ### Calls -/

theorem activityCall_abreast :
    e.Abreast (InLine n size F) activityCall activityCall fun c c' us =>
      c = c'.relocate e.move ∧ InLine n size F us := by
  refine (expect_abreast rfl).bind fun _ _ => .of_fact fun h => ?_
  refine name_abreast.bind_eq fun _ => args_abreast.bind_eq fun _ => ?_
  refine arrowTarget_abreast.bind_eq fun _ => .pure fun _ hi => ⟨?_, hi⟩
  rw [ActivityCall.relocate, h.1.position (by simp [h.2])]
  rfl

theorem callMode_abreast :
    e.Abreast (InLine n size F) callMode callMode fun m m' us =>
      m = id m' ∧ InLine n size F us := by
  refine accept?_abreast rfl ?_ fun _ _ _ => .pure fun _ h => ⟨rfl, h⟩
  exact accept?_abreast rfl (.pure fun _ h => ⟨rfl, h⟩) fun _ _ _ => .pure fun _ h => ⟨rfl, h⟩

theorem nexusName_abreast :
    e.Abreast (InLine n size F) nexusName nexusName fun m m' us =>
      m = id m' ∧ InLine n size F us := by
  refine accept?_abreast rfl (.pure fun _ h => ⟨rfl, h⟩) fun _ _ _ => ?_
  exact (expect_abreast rfl).bind fun _ _ => .of_fact fun h => .pure fun _ hi =>
    ⟨by rw [h.1.literal]; rfl, hi⟩

theorem InLine.kindOf_ne_dedent {us : List Token} (h : InLine n size F us) :
    kindOf us ≠ .dedent := by
  cases h.laid with
  | more ht => rintro hk; simp [kindOf] at hk; simp [hk, TokenKind.isText, TokenKind.isLayout] at ht
  | trailing ht => simp [kindOf, ht]
  | ending ht => simp [kindOf, ht]

theorem here_abreast :
    e.Abreast (InLine n size F) here here fun p p' us =>
      (p = e.move p' ∧ e.near p) ∧ InLine n size F us :=
  (Abreast.here (fun _ h => h.ne_nil) fun _ h => InLine.kindOf_ne_dedent h).post
    fun _ _ _ h => ⟨⟨h.1, h.2.1⟩, h.2.2⟩

theorem workflowCall_abreast :
    e.Abreast (InLine n size F) workflowCall workflowCall fun c c' us =>
      (c = c'.relocate e.move ∧ e.near c.position) ∧ InLine n size F us := by
  refine here_abreast.bind fun p p' => .of_fact fun hp => ?_
  refine callMode_abreast.bind_eq fun m => nexusName_abreast.bind_eq fun _ => ?_
  refine (expect_abreast rfl).bind fun _ _ => .of_fact fun _ => ?_
  refine name_abreast.bind_eq fun _ => args_abreast.bind_eq fun _ => ?_
  refine here_abreast.bind fun q q' => .of_fact fun hq => ?_
  refine arrowTarget_abreast.bind_eq fun r => ?_
  simp only [id_eq]
  split
  · exact .failAt hq.2
  · exact .pure fun _ hi => ⟨⟨by rw [hp.1]; rfl, hp.2⟩, hi⟩

theorem awaitedCall_abreast :
    e.Abreast (InLine n size F) awaitedCall awaitedCall fun c c' us =>
      c = c'.relocate e.move ∧ InLine n size F us := by
  refine workflowCall_abreast.bind fun c c' => .of_fact fun h => ?_
  have hm : c.mode = c'.mode := by rw [h.1]; rfl
  rw [hm]
  split
  · exact .pure fun _ hi => ⟨h.1, hi⟩
  · exact .failAt h.2

theorem awaitedEvent_abreast {event : Keyword} :
    e.Abreast (InLine n size F) (awaitedEvent event) (awaitedEvent event) fun c c' us =>
      c = c'.relocate e.move ∧ InLine n size F us := by
  refine here_abreast.bind fun p p' => .of_fact fun hp => ?_
  refine name_abreast.bind_eq fun _ => arrowTarget_abreast.bind_eq fun _ => ?_
  exact .pure fun _ hi => ⟨by rw [hp.1]; rfl, hi⟩

/-! ### Options of calls -/

theorem callOptions_abreast :
    e.Abreast (AtLine (n + 1) size F) callOptions callOptions fun o o' us =>
      o = id o' ∧ AtLine (n + 1) size F us := by
  refine Abreast.peekPastTrivia_bind (fun us h => h.dropTrivia.ne_nil) fun k => ?_
  split
  · -- only the two tokens at the start of the block are seen before one of them is taken
    refine (Abreast.skipWhile (p := TokenKind.isTrivia) rfl rfl
      (J := fun us => kindOf us = .indent ∧ AtLine (n + 1) size F us)
      fun us h => ⟨h.1, h.2.dropTrivia⟩).bind fun _ _ => ?_
    refine Abreast.peekSecond_bind (fun us h => h.2.tail_ne_nil (by simp [h.1])) fun k => ?_
    split
    · refine ((Abreast.skip fun _ h => h.2.2.ne_nil).post
        (V := fun _ _ us => kindOf us = .keyword .options ∧ AtLine (n + 2) size F us) ?_).bind
          fun _ _ => ?_
      · rintro _ _ us ⟨t, hs, ht, h⟩
        exact ⟨hs, h.indent ht⟩
      refine ((Abreast.skip fun _ h => h.2.ne_nil).post
        (V := fun _ _ us => InLine (n + 2) size F us) ?_).bind fun _ _ => ?_
      · rintro _ _ us ⟨t, ht, h⟩
        exact h.text (by rw [show t.kind = _ from ht]; rfl)
      refine args_abreast.bind_eq fun _ => lineEnd_abreast.bind fun _ _ => ?_
      refine skipTrivia_abreast.bind fun _ _ => ?_
      refine Abreast.accept?_bind (fun _ h => h.1.ne_nil) .fail fun t t' _ ht => ?_
      exact .pure fun _ h => ⟨rfl, _, h.1.dedent ht⟩
    · exact .fail
  · exact .pure fun _ h => ⟨rfl, h.2⟩

theorem activityLine_abreast :
    e.Abreast (InLine (n + 1) size F) activityLine activityLine fun c c' us =>
      c = c'.relocate e.move ∧ AtLine (n + 1) size F us := by
  refine activityCall_abreast.bind_eq fun _ => lineEnd_abreast.bind fun _ _ => ?_
  exact callOptions_abreast.bind_eq fun _ => .pure fun _ hi => ⟨rfl, hi⟩

theorem withOptions_abreast {r : Reader WorkflowCall}
    (h : e.Abreast (InLine (n + 1) size F) r r fun c c' us =>
      c = c'.relocate e.move ∧ InLine (n + 1) size F us) :
    e.Abreast (InLine (n + 1) size F) (withOptions r) (withOptions r) fun c c' us =>
      c = c'.relocate e.move ∧ AtLine (n + 1) size F us := by
  refine h.bind_eq fun _ => lineEnd_abreast.bind fun _ _ => ?_
  exact callOptions_abreast.bind_eq fun _ => .pure fun _ hi => ⟨rfl, hi⟩

end Excerpt

end FlowLang
