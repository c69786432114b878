import FlowLang.Reading.Line
import FlowLang.Reading.Block

/-!
# Lists that cannot be told apart

A reader sees the kind, the text and the position of the current token, the kinds of the tokens
further on up to the end of the input, and nothing behind that end.  Two lists of tokens that agree
on what is seen are read alike, if they go on to agree after every step.

* `Likeness` : a relation of this kind between lists of tokens, and the positions in sight.
* `Likeness.Blind` : from two such lists, a reader comes to the same result, and leaves two such
  lists.
* `Blind.bind`, `Blind.peek_bind` … : the rules for sequences and for the elementary readers.
-/

namespace FlowLang

open Reader

/-- Lists of tokens that cannot be told apart, each with the place of its end. -/
structure Likeness where
  /-- The end of the first list. -/
  stop : Position
  /-- The end of the second list. -/
  stop' : Position
  /-- The lists look the same, and go on to do so. -/
  Like : List Token → List Token → Prop
  /-- The positions that may come into sight. -/
  near : Position → Prop
  next : ∀ {t ts us}, Like (t :: ts) us → t.kind ≠ .eof → ∃ us', us = t :: us' ∧ Like ts us'
  ended : ∀ {ts us}, Like ts us → kindOf ts = .eof →
    kindOf us = .eof ∧ placeOf stop ts = placeOf stop' us
  in_sight : ∀ {ts us}, Like ts us → near (placeOf stop ts)
  hoist : ∀ {ts us column}, Like ts us → commentEndsBlock column ts = true →
    Like (dedentFirst ts) (dedentFirst us)

namespace Likeness

variable {K : Likeness} {ts us : List Token} {α β : Type}

/-! ### Lists that look the same -/

/-- Before the end of the input the current token is the same. -/
theorem Like.exists_cons (h : K.Like ts us) (hk : kindOf ts ≠ .eof) :
    ∃ t ts' us', ts = t :: ts' ∧ us = t :: us' ∧ K.Like ts' us' := by
  cases ts with
  | nil => exact absurd rfl hk
  | cons t ts =>
    obtain ⟨us', rfl, h'⟩ := K.next h hk
    exact ⟨t, ts, us', rfl, rfl, h'⟩

theorem Like.kindOf_eq (h : K.Like ts us) : kindOf us = kindOf ts := by
  by_cases hk : kindOf ts = .eof
  · rw [(K.ended h hk).1, hk]
  · obtain ⟨t, ts, us, rfl, rfl, -⟩ := h.exists_cons hk
    rfl

theorem Like.placeOf_eq (h : K.Like ts us) : placeOf K.stop ts = placeOf K.stop' us := by
  by_cases hk : kindOf ts = .eof
  · exact (K.ended h hk).2
  · obtain ⟨t, ts, us, rfl, rfl, -⟩ := h.exists_cons hk
    rfl

theorem found_of_eof (hk : kindOf ts = .eof) : Found.ofTokens ts = .inputEnd := by
  cases ts with
  | nil => rfl
  | cons t ts => simp [Found.ofTokens, Found.ofToken, show t.kind = .eof from hk]

theorem Like.found_eq (h : K.Like ts us) : Found.ofTokens us = Found.ofTokens ts := by
  by_cases hk : kindOf ts = .eof
  · rw [found_of_eof hk, found_of_eof (K.ended h hk).1]
  · obtain ⟨t, ts, us, rfl, rfl, -⟩ := h.exists_cons hk
    rfl

theorem Like.tail (h : K.Like ts us) (hk : kindOf ts ≠ .eof) : K.Like ts.tail us.tail := by
  obtain ⟨t, ts, us, rfl, rfl, h'⟩ := h.exists_cons hk
  exact h'

/-- At the end of the input no token is passed over that does not end it. -/
theorem span_of_eof {p : Token → Bool} (hp : ∀ t, p t = true → t.kind ≠ .eof)
    (hk : kindOf ts = .eof) : ts.takeWhile p = [] ∧ ts.dropWhile p = ts := by
  cases ts with
  | nil => exact ⟨rfl, rfl⟩
  | cons t ts =>
    have hne : ¬ p t = true := fun h => hp t h hk
    simp [hne]

/-- Tokens that are passed over, none of which ends the input, are the same in both lists. -/
theorem Like.span (h : K.Like ts us) {p : Token → Bool} (hp : ∀ t, p t = true → t.kind ≠ .eof) :
    us.takeWhile p = ts.takeWhile p ∧ K.Like (ts.dropWhile p) (us.dropWhile p) := by
  have atEnd : ∀ {ts us}, K.Like ts us → kindOf ts = .eof →
      us.takeWhile p = ts.takeWhile p ∧ K.Like (ts.dropWhile p) (us.dropWhile p) := by
    intro ts us h hk
    rw [(span_of_eof hp hk).1, (span_of_eof hp hk).2, (span_of_eof hp (K.ended h hk).1).1,
      (span_of_eof hp (K.ended h hk).1).2]
    exact ⟨rfl, h⟩
  induction ts generalizing us with
  | nil => exact atEnd h rfl
  | cons t ts ih =>
    by_cases hk : t.kind = .eof
    · exact atEnd h hk
    · obtain ⟨us, rfl, h'⟩ := K.next h hk
      rw [List.takeWhile_cons, List.takeWhile_cons, List.dropWhile_cons, List.dropWhile_cons]
      split
      · exact ⟨by rw [(ih h').1], (ih h').2⟩
      · exact ⟨rfl, h⟩

theorem Like.pastTrivia (h : K.Like ts us) :
    K.Like (ts.dropWhile (·.kind.isTrivia)) (us.dropWhile (·.kind.isTrivia)) :=
  (h.span fun t ht hk => by simp [hk, TokenKind.isTrivia] at ht).2

theorem Like.commentEndsBlock_eq (h : K.Like ts us) (column : Nat) :
    commentEndsBlock column us = commentEndsBlock column ts := by
  by_cases hk : kindOf ts = .eof
  · have none : ∀ {vs : List Token}, kindOf vs = .eof → commentEndsBlock column vs = false := by
      intro vs hv
      cases vs with
      | nil => rfl
      | cons v vs => simp [commentEndsBlock, show v.kind = .eof from hv]
    rw [none hk, none (K.ended h hk).1]
  · have past := h.pastTrivia.kindOf_eq
    obtain ⟨t, ts, us, rfl, rfl, -⟩ := h.exists_cons hk
    simp only [commentEndsBlock, past]

/-! ### Readers -/

variable (K) in
/-- The results of reading both lists are the same, and what is left looks the same. -/
def Agree (V : α → Prop) :
    Except Fault (α × List Token) → Except Fault (α × List Token) → Prop
  | .ok (a, ts), .ok (a', us) => a' = a ∧ V a ∧ K.Like ts us
  | .error f, .error f' => f'.error = f.error ∧ K.near f.position ∧ K.Like f.rest f'.rest
  | _, _ => False

variable (K) in
/-- From lists that look the same, the first of which satisfies `I`, the reader comes to the same
result, which satisfies `V` if it is a value. -/
def Blind (I : List Token → Prop) (r : Reader α) (V : α → Prop) : Prop :=
  ∀ ⦃ts us⦄, K.Like ts us → I ts → K.Agree V (r K.stop ts) (r K.stop' us)

/-- Nothing is known of a value. -/
abbrev Any {α : Type} : α → Prop := fun _ => True

namespace Blind

variable {I J : List Token → Prop} {V : α → Prop} {W : β → Prop} {r : Reader α}
  {f : α → Reader β}

/-- A reader that is blind anywhere is blind in places of some kind. -/
theorem anywhere (h : K.Blind Any r V) : K.Blind I r V := fun _ _ hl _ => h hl trivial

theorem pure {a : α} (h : V a) : K.Blind I (pure a : Reader α) V := fun _ _ hl _ => ⟨rfl, h, hl⟩

theorem failAt {p : Position} (h : K.near p) (cause : SyntaxError.Cause) :
    K.Blind I (failAt p cause : Reader α) V := fun _ _ hl _ => ⟨rfl, h, hl⟩

theorem fail (cause : SyntaxError.Cause) : K.Blind I (fail cause : Reader α) V := fun _ _ hl _ =>
  ⟨by simp [Fault.error, hl.placeOf_eq], K.in_sight hl, hl⟩

theorem failFound (cause : Found → SyntaxError.Cause) :
    K.Blind I (failFound cause : Reader α) V := fun _ _ hl _ =>
  ⟨by simp [Fault.error, hl.placeOf_eq, hl.found_eq], K.in_sight hl, hl⟩

theorem bind (hr : K.Blind I r V) (hf : ∀ a, V a → K.Blind Any (f a) W) :
    K.Blind I (r >>= f) W := by
  intro ts us hl hi
  have first := hr hl hi
  rw [bind_apply, bind_apply]
  unfold Agree at first
  split at first
  next a mid a' mid' h h' =>
    obtain ⟨rfl, hv, hl'⟩ := first
    rw [h, h']
    exact hf a' hv hl' trivial
  next h h' => rw [h, h']; exact first
  next => exact first.elim

theorem map {g : α → β} (hr : K.Blind I r V) (hg : ∀ a, V a → W (g a)) :
    K.Blind I (g <$> r) W :=
  hr.bind fun a ha => pure (hg a ha)

theorem peek_bind {f : TokenKind → Reader β}
    (hf : ∀ k, K.Blind (fun ts => I ts ∧ kindOf ts = k) (f k) W) : K.Blind I (peek >>= f) W := by
  intro ts us hl hi
  show K.Agree W (f (kindOf ts) K.stop ts) (f (kindOf us) K.stop' us)
  rw [hl.kindOf_eq]
  exact hf _ hl ⟨hi, rfl⟩

/-- The kind of the second token is seen before the end of the input; at the end it must not
matter. -/
theorem peekSecond_bind {f : TokenKind → Reader β}
    (hf : ∀ k, K.Blind (fun ts => I ts ∧ kindOf ts.tail = k) (f k) W)
    (he : ∀ ts, I ts → kindOf ts = .eof → ∀ k k', f k = f k') :
    K.Blind I (peekSecond >>= f) W := by
  intro ts us hl hi
  show K.Agree W (f (kindOf ts.tail) K.stop ts) (f (kindOf us.tail) K.stop' us)
  have same : f (kindOf us.tail) = f (kindOf ts.tail) := by
    by_cases hk : kindOf ts = .eof
    · exact he ts hi hk _ _
    · rw [(hl.tail hk).kindOf_eq]
  rw [same]
  exact hf _ hl ⟨hi, rfl⟩

theorem peekPastTrivia_bind {f : TokenKind → Reader β}
    (hf : ∀ k, K.Blind (fun ts => I ts ∧ kindOf (ts.dropWhile (·.kind.isTrivia)) = k) (f k) W) :
    K.Blind I (peekPastTrivia >>= f) W := by
  intro ts us hl hi
  show K.Agree W (f (kindOf (ts.dropWhile _)) K.stop ts) (f (kindOf (us.dropWhile _)) K.stop' us)
  rw [hl.pastTrivia.kindOf_eq]
  exact hf _ hl ⟨hi, rfl⟩

theorem ask_bind {column : Nat} {f : Bool → Reader β}
    (hf : ∀ b, K.Blind (fun ts => I ts ∧ commentEndsBlock column ts = b) (f b) W) :
    K.Blind I (ask (commentEndsBlock column) >>= f) W := by
  intro ts us hl hi
  show K.Agree W (f (commentEndsBlock column ts) K.stop ts)
    (f (commentEndsBlock column us) K.stop' us)
  rw [hl.commentEndsBlock_eq]
  exact hf _ hl ⟨hi, rfl⟩

theorem here : K.Blind I here K.near := fun _ _ hl _ => ⟨hl.placeOf_eq.symm, K.in_sight hl, hl⟩

/-- Past the current token, which does not end the input. -/
theorem skip (hi : ∀ ts, I ts → kindOf ts ≠ .eof) : K.Blind I Reader.skip Any := fun ts _ hl h =>
  ⟨rfl, trivial, hl.tail (hi ts h)⟩

/-- Past the current token, where something is known of what is behind it. -/
theorem skip_bind {f : Unit → Reader β} (hi : ∀ ts, I ts → kindOf ts ≠ .eof ∧ J ts.tail)
    (hf : K.Blind J (f ()) W) : K.Blind I (Reader.skip >>= f) W := fun ts _ hl h =>
  hf (hl.tail (hi ts h).1) (hi ts h).2

theorem skipWhile {p : TokenKind → Bool} (hp : p .eof = false) :
    K.Blind I (skipWhile p) Any := fun _ _ hl _ =>
  ⟨rfl, trivial, (hl.span fun t ht hk => by simp [hk, hp] at ht).2⟩

/-- Past comments and ends of lines, where something is known of what is behind them. -/
theorem skipTrivia_bind {f : Unit → Reader β}
    (hi : ∀ ts, I ts → J (ts.dropWhile (·.kind.isTrivia))) (hf : K.Blind J (f ()) W) :
    K.Blind I (skipTrivia >>= f) W := fun ts _ hl h => hf hl.pastTrivia (hi ts h)

theorem textTokens : K.Blind I textTokens Any := fun _ _ hl _ => by
  have passed := hl.span (p := fun t => !endsText t.kind) fun t ht hk => by simp [hk, endsText] at ht
  exact ⟨passed.1, trivial, passed.2⟩

/-- What an elementary reader does with a token of its kind, and where there is none. -/
theorem accept? {k : TokenKind} (hk : k ≠ .eof) :
    K.Blind I (accept? k) fun o => ∀ t ∈ o, t.kind = k ∧ K.near t.position := by
  intro ts us hl _
  by_cases he : kindOf ts = k
  · obtain ⟨t, ts, us, rfl, rfl, hl'⟩ := hl.exists_cons (he ▸ hk)
    simp only [Reader.accept?, show t.kind = k from he, if_true]
    exact ⟨rfl, fun u hu => by cases hu; exact ⟨he, K.in_sight hl⟩, hl'⟩
  · have none : ∀ {stop} {vs : List Token}, kindOf vs ≠ k →
        Reader.accept? k stop vs = .ok (none, vs) := by
      intro stop vs hv
      cases vs with
      | nil => rfl
      | cons v vs => simp only [Reader.accept?, show v.kind ≠ k from hv, if_false]
    rw [none he, none (hl.kindOf_eq ▸ he)]
    exact ⟨rfl, by simp, hl⟩

theorem expect {k : TokenKind} {what : Expected} (hk : k ≠ .eof) :
    K.Blind I (expect k what) fun t => t.kind = k ∧ K.near t.position := by
  intro ts us hl _
  by_cases he : kindOf ts = k
  · obtain ⟨t, ts, us, rfl, rfl, hl'⟩ := hl.exists_cons (he ▸ hk)
    simp only [Reader.expect, show t.kind = k from he, if_true]
    exact ⟨rfl, ⟨he, K.in_sight hl⟩, hl'⟩
  · have none : ∀ {stop} {vs : List Token}, kindOf vs ≠ k → Reader.expect k what stop vs =
        .error ⟨.expected what (.ofTokens vs), placeOf stop vs, vs⟩ := by
      intro stop vs hv
      cases vs with
      | nil => rfl
      | cons v vs =>
        simp only [Reader.expect, show v.kind ≠ k from hv, if_false]
        rfl
    rw [none he, none (hl.kindOf_eq ▸ he)]
    exact ⟨by simp [Fault.error, hl.placeOf_eq, hl.found_eq], K.in_sight hl, hl⟩

/-- Repetition, by induction on what is left of the first list. -/
theorem collect {r : Reader (Option α)} (hr : K.Blind Any r Any) (hs : Steps r) :
    K.Blind I (collect r hs) Any := by
  refine anywhere fun ts us hl _ => ?_
  induction hn : ts.length using Nat.strongRecOn generalizing ts us with
  | ind n ih =>
    have first := hr hl trivial
    rw [collect_eq r hs, bind_apply, bind_apply]
    unfold Agree at first
    split at first
    next o mid o' mid' h h' =>
      obtain ⟨rfl, -, hl'⟩ := first
      rw [h, h']
      cases o' with
      | none => exact ⟨rfl, trivial, hl'⟩
      | some a =>
        have later := ih mid.length (hn ▸ hs h) mid mid' hl' trivial rfl
        simp only [map_apply]
        unfold Agree at later
        split at later
        next h₂ h₂' =>
          rw [h₂, h₂', later.1]
          exact ⟨rfl, trivial, later.2.2⟩
        next h₂ h₂' => rw [h₂, h₂']; exact later
        next => exact later.elim
    next h h' => rw [h, h']; exact first
    next => exact first.elim

end Blind

end Likeness

end FlowLang
