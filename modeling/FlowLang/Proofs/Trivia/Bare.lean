import FlowLang.Proofs.Program.Comments
import FlowLang.Proofs.Token.Shift
import FlowLang.Reading.Program

/-!
# Reading without comments

The bare tokens of a text are those that are left without its comments, its blank lines and the
positions of its layout.  Every reader does with them what it does with the tokens of the text,
except that it returns no comments.

* `bareTokens` : the bare tokens, under other line numbers.
* `Bared` : two readers, one for the tokens and one for the bare tokens, either both return, and
  what they return and leave corresponds, or both stop.
* `Bared.bind`, `Bared.map` … : the rules for sequences.
-/

namespace FlowLang

open Reader

/-! ### Bare tokens -/

/-- The token under another line number.  A token of the layout has no position. -/
def Token.bare (g : Nat → Nat) (t : Token) : Token :=
  if t.kind.isLayout then .mark t.kind 0 0 else t.relocate (Position.renumber g)

theorem Token.kind_mark (k : TokenKind) (line column : Nat) :
    (Token.mark k line column).kind = k := rfl

/-- The tokens without comments and blank lines.  The flag tells whether a token of the line has
been passed. -/
def bareTokens (g : Nat → Nat) (inside : Bool) : List Token → List Token
  | [] => []
  | t :: ts =>
    if t.kind = .comment then bareTokens g inside ts
    else if t.kind = .newline ∧ inside = false then bareTokens g false ts
    else t.bare g :: bareTokens g t.kind.isText ts

section

variable {g : Nat → Nat} {b : Bool} {t : Token} {ts l : List Token}

theorem bareTokens_comment (h : t.kind = .comment) :
    bareTokens g b (t :: ts) = bareTokens g b ts := by
  simp [bareTokens, h]

theorem bareTokens_blank (h : t.kind = .newline) :
    bareTokens g false (t :: ts) = bareTokens g false ts := by
  simp [bareTokens, h]

theorem bareTokens_newline (h : t.kind = .newline) :
    bareTokens g true (t :: ts) = .mark .newline 0 0 :: bareTokens g false ts := by
  simp [bareTokens, h, Token.bare, TokenKind.isText, TokenKind.isLayout]

theorem bareTokens_text (h : t.kind.isText = true) :
    bareTokens g b (t :: ts) = t.relocate (Position.renumber g) :: bareTokens g true ts := by
  have hc : t.kind ≠ .comment := TokenKind.ne_of_isText h rfl
  have hn : t.kind ≠ .newline := TokenKind.ne_of_isText h rfl
  have hl := TokenKind.isLayout_of_isText h
  simp [bareTokens, Token.bare, hc, hn, hl, h]

theorem bareTokens_indent (h : t.kind = .indent) :
    bareTokens g b (t :: ts) = .mark .indent 0 0 :: bareTokens g false ts := by
  simp [bareTokens, h, Token.bare, TokenKind.isText, TokenKind.isLayout]

theorem bareTokens_dedent (h : t.kind = .dedent) :
    bareTokens g b (t :: ts) = .mark .dedent 0 0 :: bareTokens g false ts := by
  simp [bareTokens, h, Token.bare, TokenKind.isText, TokenKind.isLayout]

theorem bareTokens_dedents (h : ∀ t ∈ l, t.kind = .dedent) :
    bareTokens g false (l ++ ts) =
      List.replicate l.length (.mark .dedent 0 0) ++ bareTokens g false ts := by
  induction l with
  | nil => rfl
  | cons t l ih =>
    obtain ⟨ht, h⟩ := List.forall_mem_cons.1 h
    rw [List.cons_append, bareTokens_dedent ht, ih h]
    rfl

/-- Comments and ends of blank lines leave nothing. -/
theorem bareTokens_trivia (h : ∀ t ∈ l, t.kind.isTrivia = true) :
    bareTokens g false (l ++ ts) = bareTokens g false ts := by
  induction l with
  | nil => rfl
  | cons t l ih =>
    obtain ⟨ht, h⟩ := List.forall_mem_cons.1 h
    rw [List.cons_append]
    cases hk : t.kind with
    | comment => rw [bareTokens_comment hk, ih h]
    | newline => rw [bareTokens_blank hk, ih h]
    | _ => simp [hk, TokenKind.isTrivia] at ht

theorem bareTokens_dropWhile {p : TokenKind → Bool}
    (hp : ∀ k, p k = true → k.isTrivia = true) :
    bareTokens g false (ts.dropWhile fun t => p t.kind) = bareTokens g false ts := by
  conv => rhs; rw [← List.takeWhile_append_dropWhile (p := fun t : Token => p t.kind) (l := ts)]
  refine (bareTokens_trivia fun t ht => hp _ ?_).symm
  exact (List.all_eq_true.1 List.all_takeWhile) t ht

theorem kindOf_bareTokens (h : (kindOf ts).isTrivia = false) :
    kindOf (bareTokens g b ts) = kindOf ts := by
  cases ts with
  | nil => rfl
  | cons t ts =>
    have hc : t.kind ≠ .comment := by rintro hk; simp [kindOf, hk, TokenKind.isTrivia] at h
    have hn : t.kind ≠ .newline := by rintro hk; simp [kindOf, hk, TokenKind.isTrivia] at h
    simp only [bareTokens, hc, hn, if_false, false_and, kindOf, Token.bare]
    split <;> rfl

theorem isTrivia_kindOf_dropWhile (ts : List Token) :
    (kindOf (ts.dropWhile (·.kind.isTrivia))).isTrivia = false := by
  cases hd : ts.dropWhile (·.kind.isTrivia) with
  | nil => rfl
  | cons t ts' => simpa [hd, kindOf] using List.head?_dropWhile_not (·.kind.isTrivia) ts

/-- The first bare token at the start of a line is the first one that is no trivia. -/
theorem kindOf_bareTokens_false :
    kindOf (bareTokens g false ts) = kindOf (ts.dropWhile (·.kind.isTrivia)) := by
  rw [← bareTokens_dropWhile (p := TokenKind.isTrivia) fun _ h => h,
    kindOf_bareTokens (isTrivia_kindOf_dropWhile ts)]

theorem dropWhile_bareTokens {p : TokenKind → Bool} (hp : ∀ k, p k = true → k.isTrivia = true) :
    (bareTokens g false ts).dropWhile (fun t => p t.kind) = bareTokens g false ts := by
  have h := isTrivia_kindOf_dropWhile ts
  rw [← kindOf_bareTokens_false (g := g)] at h
  cases hb : bareTokens g false ts with
  | nil => rfl
  | cons t ts =>
    refine List.dropWhile_cons_of_neg fun ht => ?_
    rw [hb] at h
    exact Bool.false_ne_true (h.symm.trans (hp _ ht))

end

/-! ### Readers side by side -/

/-- Both results are there and correspond, or none is. -/
def Tally {α : Type} (V : α → α → List Token → List Token → Prop) :
    Except Fault (α × List Token) → Except Fault (α × List Token) → Prop
  | .ok (a, ts), .ok (a', us) => V a a' ts us
  | .error _, .error _ => True
  | _, _ => False

theorem Tally.of_left {α : Type} {V : α → α → List Token → List Token → Prop} {a : α}
    {ts : List Token} {x : Except Fault (α × List Token)} (h : Tally V (.ok (a, ts)) x) :
    ∃ a' us, x = .ok (a', us) ∧ V a a' ts us := by
  cases x with
  | ok y => exact ⟨y.1, y.2, rfl, h⟩
  | error => exact h.elim

theorem Tally.of_right {α : Type} {V : α → α → List Token → List Token → Prop} {a' : α}
    {us : List Token} {x : Except Fault (α × List Token)} (h : Tally V x (.ok (a', us))) :
    ∃ a ts, x = .ok (a, ts) ∧ V a a' ts us := by
  cases x with
  | ok y => exact ⟨y.1, y.2, rfl, h⟩
  | error => exact h.elim

/-- From tokens and bare tokens that satisfy `I`, two readers come to results that tally. -/
def Bared {α : Type} (I : List Token → List Token → Prop) (r r' : Reader α)
    (V : α → α → List Token → List Token → Prop) : Prop :=
  ∀ ⦃stop stop' ts us⦄, I ts us → Tally V (r stop ts) (r' stop' us)

namespace Bared

variable {α β : Type} {I J : List Token → List Token → Prop} {r r' : Reader α}
  {V V' : α → α → List Token → List Token → Prop} {W : β → β → List Token → List Token → Prop}

theorem weaken (h : Bared J r r' V') (hI : ∀ ts us, I ts us → J ts us)
    (hV : ∀ a a' ts us, V' a a' ts us → V a a' ts us) : Bared I r r' V := fun stop stop' ts us hi => by
  have := @h stop stop' ts us (hI _ _ hi)
  unfold Tally at this ⊢
  split at this
  · exact hV _ _ _ _ this
  · trivial
  · exact this.elim

theorem pre (h : Bared J r r' V) (hI : ∀ ts us, I ts us → J ts us) : Bared I r r' V :=
  h.weaken hI fun _ _ _ _ h => h

theorem post (h : Bared I r r' V') (hV : ∀ a a' ts us, V' a a' ts us → V a a' ts us) :
    Bared I r r' V :=
  h.weaken (fun _ _ h => h) hV

/-- A fact that does not depend on the tokens. -/
theorem of_fact {p : Prop} (h : p → Bared I r r' V) : Bared (fun ts us => p ∧ I ts us) r r' V :=
  fun _ _ _ _ hi => h hi.1 hi.2

theorem of_false (hI : ∀ ts us, ¬ I ts us) : Bared I r r' V := fun _ _ _ _ hi => (hI _ _ hi).elim

theorem pure {a a' : α} (h : ∀ ts us, I ts us → V a a' ts us) :
    Bared I (pure a) (pure a') V :=
  fun _ _ _ _ hi => h _ _ hi

theorem bind {f f' : α → Reader β} (h : Bared I r r' V)
    (hf : ∀ a a', Bared (V a a') (f a) (f' a') W) : Bared I (r >>= f) (r' >>= f') W :=
  fun stop stop' ts us hi => by
    have := @h stop stop' ts us hi
    rw [bind_apply, bind_apply]
    unfold Tally at this
    split at this
    next h₁ h₂ => rw [h₁, h₂]; exact hf _ _ this
    next h₁ h₂ => rw [h₁, h₂]; trivial
    next => exact this.elim

/-- The value of the bare tokens is a function of the other one. -/
theorem bind_eq {f f' : α → Reader β} {k : α → α}
    (h : Bared I r r' fun a a' ts us => a' = k a ∧ J ts us)
    (hf : ∀ a, Bared J (f a) (f' (k a)) W) : Bared I (r >>= f) (r' >>= f') W :=
  h.bind fun a _ => of_fact fun h => h ▸ hf a

theorem map {f f' : α → β} (h : Bared I r r' V)
    (hf : ∀ a a' ts us, V a a' ts us → W (f a) (f' a') ts us) : Bared I (f <$> r) (f' <$> r') W :=
  h.bind fun a a' => pure (hf a a')

theorem failAt {p p' : Position} {c c' : SyntaxError.Cause} :
    Bared I (failAt p c : Reader α) (Reader.failAt p' c') V := fun _ _ _ _ _ => trivial

theorem fail {c c' : SyntaxError.Cause} :
    Bared I (fail c : Reader α) (Reader.fail c') V := fun _ _ _ _ _ => trivial

theorem failFound {c c' : Found → SyntaxError.Cause} :
    Bared I (failFound c : Reader α) (Reader.failFound c') V := fun _ _ _ _ _ => trivial

/-- The kinds of the next tokens, which may differ. -/
theorem peek_bind {f f' : TokenKind → Reader β}
    (h : ∀ k k', Bared (fun ts us => (kindOf ts = k ∧ kindOf us = k') ∧ I ts us) (f k) (f' k') W) :
    Bared I (peek >>= f) (peek >>= f') W := fun stop stop' ts us hi => by
  show Tally W (f (kindOf ts) stop ts) (f' (kindOf us) stop' us)
  exact h _ _ ⟨⟨rfl, rfl⟩, hi⟩

end Bared

/-! ### Repetition -/

section

variable {α : Type} {r : Reader (Option α)} {hr : Steps r} {stop : Position} {ts mid rest : List Token}

theorem collect_error {f : Fault} (h : r stop ts = .error f) : collect r hr stop ts = .error f := by
  rw [collect_eq, bind_apply, h]

theorem collect_none (h : r stop ts = .ok (none, rest)) : collect r hr stop ts = .ok ([], rest) := by
  rw [collect_eq, bind_apply, h]
  rfl

theorem collect_some {a : α} (h : r stop ts = .ok (some a, mid)) :
    collect r hr stop ts = ((a :: ·) <$> collect r hr) stop mid := by
  rw [collect_eq, bind_apply, h, ← collect_eq]

end

/-- Either both readers return something and may go on, or both return nothing. -/
def Proceeds {α : Type} (bare? : α → Option α) (I J : List Token → List Token → Prop) :
    Option α → Option α → List Token → List Token → Prop
  | some a, some a', ts, us => bare? a = some a' ∧ I ts us
  | none, none, ts, us => J ts us
  | _, _, _, _ => False

/-- Repetition, where the reader of the full tokens may also return something for which there are no
bare tokens. -/
theorem Bared.collect {α : Type} {bare? : α → Option α} {I J : List Token → List Token → Prop}
    {r r' : Reader (Option α)} {hr : Steps r} {hr' : Steps r'}
    (h : ∀ ⦃stop stop' ts us⦄, I ts us →
      (∃ a rest, r stop ts = .ok (some a, rest) ∧ bare? a = none ∧ I rest us) ∨
        Tally (Proceeds bare? I J) (r stop ts) (r' stop' us)) :
    Bared I (collect r hr) (Reader.collect r' hr') fun as as' ts us =>
      as' = as.filterMap bare? ∧ J ts us := by
  intro stop stop' ts us hi
  induction hn : ts.length using Nat.strongRecOn generalizing stop stop' ts us with
  | ind n ih =>
    have hrest : Bared (fun ts us => ts.length < n ∧ I ts us) (Reader.collect r hr)
        (Reader.collect r' hr') fun as as' ts us => as' = as.filterMap bare? ∧ J ts us :=
      fun _ _ _ _ hi => ih _ hi.1 hi.2 rfl
    rcases @h stop stop' ts us hi with ⟨a, rest, ha, hb, hi'⟩ | ha
    · -- only the reader of the full tokens goes on
      have := @hrest stop stop' rest us ⟨hn ▸ hr ha, hi'⟩
      rw [collect_some ha, map_apply]
      unfold Tally at this ⊢
      split at this
      next h₁ h₂ =>
        rw [h₁, h₂]
        exact ⟨by rw [this.1, List.filterMap_cons_none hb], this.2⟩
      next h₁ h₂ => rw [h₁, h₂]; trivial
      next => exact this.elim
    unfold Tally at ha
    split at ha
    next o ts' o' us' h₁ h₂ =>
      unfold Proceeds at ha
      split at ha
      next a a' =>
        have hcons : Bared (fun ts us => ts.length < n ∧ I ts us) ((a :: ·) <$> Reader.collect r hr)
            ((a' :: ·) <$> Reader.collect r' hr') fun as as' ts us =>
              as' = as.filterMap bare? ∧ J ts us :=
          hrest.map fun _ _ _ _ h => ⟨by rw [h.1, List.filterMap_cons_some ha.1], h.2⟩
        rw [collect_some h₁, collect_some h₂]
        exact hcons ⟨hn ▸ hr h₁, ha.2⟩
      next => rw [collect_none h₁, collect_none h₂]; exact ⟨rfl, ha⟩
      next => exact ha.elim
    next h₁ h₂ => rw [collect_error h₁, collect_error h₂]; trivial
    next => exact ha.elim

/-- Repetition where both readers always go on together. -/
theorem Bared.collect_map {α : Type} {k : α → α} {I J : List Token → List Token → Prop}
    {r r' : Reader (Option α)} {hr : Steps r} {hr' : Steps r'}
    (h : Bared I r r' (Proceeds (some ∘ k) I J)) :
    Bared I (Reader.collect r hr) (Reader.collect r' hr') fun as as' ts us =>
      as' = as.map k ∧ J ts us :=
  (Bared.collect fun _ _ _ _ hi => .inr (h hi)).post fun _ _ _ _ h =>
    ⟨by rw [h.1, List.filterMap_eq_map], h.2⟩

end FlowLang
