import FlowLang.Proofs.Recovery.Excerpt

/-!
# Lines of an excerpt

Inside a line there is always a token left, so the readers of the parts of a line go on side by
side.  They take no token in column 1, which is where the lines of no block start.

* `Stage` : where the readers stand in the lines alone, with a bound for the tokens that remain
  and the tokens in column 1 among them.
* `InLine`, `AtLine` : in a line, and before a line, of a block of some depth.
-/

namespace FlowLang

open Reader

/-- A token with text in column 1. -/
def Token.isFlush (t : Token) : Bool := t.kind.isText && t.position.column == 1

/-- The readers stand at this spot, have fewer than `size` tokens left, and `flush` are those of
them in column 1. -/
structure Stage (spot : Spot) (size : Nat) (flush : List Token) (ts : List Token) : Prop where
  laid : Laid spot ts
  short : ts.length < size
  flush : ts.filter Token.isFlush = flush

/-- In a line of a block. -/
def InLine (depth size : Nat) (flush : List Token) : List Token → Prop :=
  Stage (.inside depth) size flush

/-- Before a line of a block. -/
def AtLine (depth size : Nat) (flush : List Token) (ts : List Token) : Prop :=
  ∃ b, Stage (.start depth b) size flush ts

section

variable {n size : Nat} {F : List Token} {t : Token} {ts : List Token}

theorem Token.isFlush_of_not_isText (h : t.kind.isText = false) : t.isFlush = false := by
  simp [isFlush, h]

theorem Token.isFlush_of_column (h : t.position.column ≠ 1) : t.isFlush = false := by
  simp [isFlush, h]

/-- One token further. -/
theorem Stage.next {s s' : Spot} (h : Stage s size F (t :: ts)) (hl : Laid s' ts)
    (ht : t.isFlush = false) : Stage s' size F ts where
  laid := hl
  short := Nat.lt_of_succ_lt (by simpa using h.short)
  flush := by simpa [ht] using h.flush

theorem InLine.ne_nil (h : InLine n size F ts) : ts ≠ [] := Laid.ne_nil_inside h.laid

theorem AtLine.ne_nil (h : AtLine (n + 1) size F ts) : ts ≠ [] := by
  obtain ⟨b, h⟩ := h
  exact Laid.ne_nil_start h.laid

theorem InLine.next (h : InLine n size F (t :: ts)) (ht : t.kind.isText = true) :
    InLine n size F ts := by
  refine Stage.next h (Laid.inside_of_text h.laid ht) ?_
  cases h.laid with
  | more _ hc => exact Token.isFlush_of_column hc
  | trailing hk => simp [hk, TokenKind.isText] at ht
  | ending hk => simp [hk, TokenKind.isText, TokenKind.isLayout] at ht

/-- One token further, and so many fewer are left. -/
theorem InLine.next_lt (h : InLine n (size + 1) F (t :: ts)) (ht : t.kind.isText = true) :
    InLine n size F ts where
  laid := Laid.inside_of_text h.laid ht
  short := Nat.lt_of_succ_lt_succ h.short
  flush := (h.next ht).flush

/-- In a block, a line with content may be taken up before its first token. -/
theorem AtLine.inLine (h : AtLine (n + 1) size F ts) (ht : (kindOf ts).isText = true) :
    InLine (n + 1) size F ts := by
  obtain ⟨b, hl, hs, hf⟩ := h
  refine ⟨?_, hs, hf⟩
  cases hl with
  | first hx hc hl => exact .more hx (by simpa using hc) hl
  | blank hk => simp [kindOf, hk, TokenKind.isText, TokenKind.isLayout] at ht
  | remark hk => simp [kindOf, hk, TokenKind.isText] at ht
  | deeper hk => simp [kindOf, hk, TokenKind.isText, TokenKind.isLayout] at ht
  | closing hk => simp [kindOf, hk, TokenKind.isText, TokenKind.isLayout] at ht

theorem AtLine.mono {size' : Nat} (h : AtLine n size F ts) (hs : size ≤ size') :
    AtLine n size' F ts := by
  obtain ⟨b, hl, hlt, hf⟩ := h
  exact ⟨b, hl, Nat.lt_of_lt_of_le hlt hs, hf⟩

theorem kindOf_ne_eof {s : Spot} (h : Laid s ts) (hne : ts ≠ []) : kindOf ts ≠ .eof := by
  cases ts with
  | nil => exact absurd rfl hne
  | cons t ts => exact h.kind_ne_eof t List.mem_cons_self

end

namespace Excerpt

variable {e : Excerpt} {n size : Nat} {F : List Token}

/-! ### Tokens of a line -/

theorem expect_abreast {k : TokenKind} {what : Expected} (hk : k.isText = true) :
    e.Abreast (InLine n size F) (expect k what) (expect k what) fun t t' us =>
      (e.Moved t t' ∧ t'.kind = k) ∧ InLine n size F us :=
  (Abreast.expect fun _ => InLine.ne_nil).post fun _ _ _ h => ⟨h.1, h.2.next (h.1.2 ▸ hk)⟩

/-- The first token of a statement: fewer tokens are left than before. -/
theorem expect_first {k : TokenKind} {what : Expected} (hk : k.isText = true) :
    e.Abreast (InLine n (size + 1) F) (expect k what) (expect k what) fun t t' us =>
      (e.Moved t t' ∧ t'.kind = k) ∧ InLine n size F us :=
  (Abreast.expect fun _ => InLine.ne_nil).post fun _ _ _ h => ⟨h.1, h.2.next_lt (h.1.2 ▸ hk)⟩

theorem accept?_abreast {β : Type} {k : TokenKind} (hk : k.isText = true)
    {f f' : Option Token → Reader β} {W : β → β → List Token → Prop}
    (hn : e.Abreast (InLine n size F) (f none) (f' none) W)
    (hs : ∀ t t', e.Moved t t' → e.Abreast (InLine n size F) (f (some t)) (f' (some t')) W) :
    e.Abreast (InLine n size F) (accept? k >>= f) (accept? k >>= f') W :=
  Abreast.accept?_bind (fun _ => InLine.ne_nil) (hn.pre fun _ h => h.2) fun t t' hm ht =>
    (hs t t' hm).pre fun _ h => h.next (ht ▸ hk)

theorem name_abreast {what : Expected} :
    e.Abreast (InLine n size F) (name what) (name what) fun s s' us =>
      s = id s' ∧ InLine n size F us :=
  (expect_abreast rfl).bind fun _ _ => .of_fact fun h => .pure fun _ hi => ⟨h.1.literal, hi⟩

theorem args_abreast {what : Expected} :
    e.Abreast (InLine n size F) (args what) (args what) fun s s' us =>
      s = id s' ∧ InLine n size F us :=
  (expect_abreast rfl).bind fun _ _ => .of_fact fun h => .pure fun _ hi => ⟨h.1.literal, hi⟩

theorem args?_abreast :
    e.Abreast (InLine n size F) args? args? fun s s' us => s = id s' ∧ InLine n size F us :=
  accept?_abreast rfl (.pure fun _ h => ⟨rfl, h⟩) fun _ _ hm =>
    .pure fun _ h => ⟨congrArg some hm.literal, h⟩

theorem arrowTarget_abreast {target : ArrowTarget} :
    e.Abreast (InLine n size F) (arrowTarget target) (arrowTarget target) fun s s' us =>
      s = id s' ∧ InLine n size F us := by
  refine accept?_abreast rfl (.pure fun _ h => ⟨rfl, h⟩) fun _ _ _ => ?_
  refine accept?_abreast rfl ?_ fun _ _ hm => .pure fun _ h => ⟨congrArg some hm.literal, h⟩
  exact (expect_abreast rfl).bind fun _ _ => .of_fact fun h =>
    .pure fun _ hi => ⟨congrArg some h.1.literal, hi⟩

/-! ### Ends of lines -/

/-- Only the end of the line may follow, or else the line goes on. -/
theorem newline_abreast {I : List Token → Prop}
    (hI : ∀ us, I us → Stage (.inside n) size F us ∨ ∃ b, Stage (.remarked n b) size F us) :
    e.Abreast I
      (do match ← peek with | .newline => skip | .eof => return | _ => failFound .trailing)
      (do match ← peek with | .newline => skip | .eof => return | _ => failFound .trailing)
      fun _ _ us => AtLine n size F us := by
  have hne : ∀ us, I us → us ≠ [] := by
    intro us hi
    rcases hI us hi with h | ⟨b, h⟩ <;> cases h.laid <;> simp
  refine Abreast.peek_bind hne fun k => ?_
  split
  · refine (Abreast.skip fun us h => hne us h.2).post fun _ _ us h => ?_
    obtain ⟨t, hk, hi⟩ := h
    have ht : t.isFlush = false := Token.isFlush_of_not_isText (by
      rw [show t.kind = .newline from hk]; rfl)
    rcases hI _ hi with h | ⟨b, h⟩
    · cases h.laid with
      | ending _ hl => exact ⟨true, h.next hl ht⟩
      | more hx => simp [show t.kind = .newline from hk, TokenKind.isText, TokenKind.isLayout] at hx
      | trailing hx => simp [show t.kind = .newline from hk] at hx
    · cases h.laid with
      | remarkEnd _ hl => exact ⟨b, h.next hl ht⟩
  · refine .of_false fun us h => ?_
    rcases hI _ h.2 with h' | ⟨b, h'⟩ <;> exact kindOf_ne_eof h'.laid (hne _ h.2) h.1
  · exact .failFound

theorem lineEnd_abreast :
    e.Abreast (InLine n size F) lineEnd lineEnd fun _ _ us => AtLine n size F us := by
  refine Abreast.accept?_bind (fun _ => InLine.ne_nil) ?_ fun t t' _ ht => ?_
  · exact newline_abreast fun _ h => .inl h.2
  · refine newline_abreast fun us h => .inr ⟨true, ?_⟩
    refine Stage.next h ?_ (Token.isFlush_of_not_isText (by rw [ht]; rfl))
    cases h.laid with
    | trailing _ hl => exact hl
    | more hx => simp [ht, TokenKind.isText] at hx
    | ending hx => simp [ht] at hx

theorem lineEnd_remarked :
    e.Abreast (fun us => ∃ b, Stage (.remarked n b) size F us) lineEnd lineEnd fun _ _ us =>
      AtLine n size F us := by
  have hne : ∀ us, (∃ b, Stage (.remarked n b) size F us) → us ≠ [] := by
    rintro us ⟨b, h⟩
    cases h.laid
    simp
  refine Abreast.accept?_bind hne ?_ fun t t' _ ht => .of_false ?_
  · exact newline_abreast fun _ h => .inr h.2
  · rintro us ⟨b, h⟩
    cases h.laid with
    | remarkEnd hk => simp [ht] at hk

/-- A comment before a line. -/
theorem commentLine_abreast :
    e.Abreast (fun us => kindOf us = .comment ∧ AtLine n size F us) commentLine commentLine
      fun s s' us => s = s'.relocate e.move ∧ AtLine n size F us := by
  have hne : ∀ us : List Token, kindOf us = .comment ∧ AtLine n size F us → us ≠ [] := by
    rintro us ⟨hk, -⟩ rfl
    cases hk
  refine (Abreast.expect hne).bind fun t t' => .of_fact fun ht => ?_
  refine Abreast.bind (Abreast.pre (@lineEnd_remarked e n size F) ?_) fun _ _ =>
    .pure fun us hi => ⟨?_, hi⟩
  · rintro us ⟨-, b, h⟩
    refine ⟨b, Stage.next h ?_ (Token.isFlush_of_not_isText (by rw [ht.2]; rfl))⟩
    cases h.laid with
    | remark _ hl => exact hl
    | first hx => simp [ht.2, TokenKind.isText] at hx
    | blank hx | deeper hx | closing hx => simp [ht.2] at hx
  · rw [Statement.relocate, ht.1.literal, ht.1.position (by simp [ht.2])]

end Excerpt

/-! ### Texts of lines -/

/-- What the text of a line depends on. -/
def Token.shape (t : Token) : TokenKind × String × Nat := (t.kind, t.literal, t.position.column)

theorem lineText_congr {ts us : List Token} (h : ts.map Token.shape = us.map Token.shape) :
    lineText ts = lineText us := by
  have one : ∀ {t u : Token}, t.shape = u.shape →
      t.sourceText = u.sourceText ∧ t.endColumn = u.endColumn ∧
        t.position.column = u.position.column := by
    intro t u h
    simp only [Token.shape, Prod.mk.injEq] at h
    simp [Token.sourceText, Token.endColumn, Token.width, h]
  fun_induction lineText ts generalizing us with
  | case1 =>
    obtain rfl := List.map_eq_nil_iff.1 h.symm
    rfl
  | case2 t =>
    obtain ⟨u, us, rfl, hu, hn⟩ := List.map_eq_cons_iff.1 h.symm
    obtain rfl := List.map_eq_nil_iff.1 hn
    exact (one hu.symm).1
  | case3 t t₂ ts ih =>
    obtain ⟨u, us, rfl, hu, hn⟩ := List.map_eq_cons_iff.1 h.symm
    obtain ⟨u₂, us, rfl, hu₂, hn₂⟩ := List.map_eq_cons_iff.1 hn
    rw [lineText, ih hn.symm, (one hu.symm).1, (one hu.symm).2.1, (one hu₂.symm).2.2]

namespace Excerpt

variable {e : Excerpt} {n size : Nat} {F : List Token}

theorem Moved.shape {t t' : Token} (h : e.Moved t t') : t.shape = t'.shape := by
  simp [Token.shape, h.kind, h.literal, h.column]

theorem textTokens_abreast :
    e.Abreast (InLine n size F) textTokens textTokens fun l l' us =>
      l.map Token.shape = l'.map Token.shape ∧ InLine n size F us := by
  intro ts us hb hi
  simp only [Agree, textTokens]
  induction hb with
  | nil => exact absurd rfl hi.ne_nil
  | @cons t t' ts us hm hb ih =>
    rw [List.takeWhile_cons, List.takeWhile_cons, List.dropWhile_cons, List.dropWhile_cons, hm.kind]
    cases hk : endsText t'.kind with
    | true => exact ⟨.cons hm hb, rfl, hi⟩
    | false =>
      have ht : t'.kind.isText = true := by rw [TokenKind.isText_eq, hk]; rfl
      obtain ⟨hb', hl, hi'⟩ := ih (hi.next ht)
      exact ⟨hb', by simpa using ⟨hm.shape, hl⟩, hi'⟩

end Excerpt

end FlowLang
