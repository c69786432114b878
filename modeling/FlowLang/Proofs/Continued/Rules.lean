import FlowLang.Proofs.Continued.Fork
import FlowLang.Proofs.Grammar.Sound
import FlowLang.Proofs.Trivia.Block
import Mathlib.Data.List.DropRight

/-!
# Reading texts that part

A reader does the same with two texts, one of which goes on where the other one ends, up to the last
word that they have in common.  From there on it may do something else; but if the first text can be
read, then whatever fault there is in the second one is found in what only this text has.

* `Fork.Drifts` : how a reader goes on in the second text alone.
* `Fork.Forks` : a reader that returns something in the first text returns the same in the second
  one, or goes on from behind the common words, or finds a fault in what only the second text has.
* `Forks.bind`, `Forks.split` … : the rules for sequences and for the elementary readers.
-/

namespace FlowLang

open Reader Grammar

namespace Fork

variable {F : Fork} {t : Token} {ts us : List Token}

/-! ### The second text alone -/

/-- From a place of the second text that satisfies `I`, the reader comes to one that satisfies `J`, or
it finds a fault in what only this text has. -/
def Drifts {α : Type} (F : Fork) (I : List Token → Prop) (r : Reader α)
    (J : α → List Token → Prop) : Prop :=
  ∀ ⦃us⦄, I us → match r F.stop' us with
    | .ok (a, rest) => J a rest
    | .error f => F.Lost f

namespace Drifts

variable {α β : Type} {I I' : List Token → Prop} {r : Reader α} {f : α → Reader β}
  {J J' : α → List Token → Prop} {K : β → List Token → Prop}

theorem weaken (h : F.Drifts I r J) (hI : ∀ us, I' us → I us)
    (hJ : ∀ a us, J a us → J' a us) : F.Drifts I' r J' := fun us hi => by
  have := h (hI us hi)
  split at this
  next e => simpa only [e] using hJ _ _ this
  next e => simpa only [e] using this

theorem pre (h : F.Drifts I r J) (hI : ∀ us, I' us → I us) : F.Drifts I' r J :=
  h.weaken hI fun _ _ h => h

theorem post (h : F.Drifts I r J) (hJ : ∀ a us, J a us → J' a us) : F.Drifts I r J' :=
  h.weaken (fun _ h => h) hJ

theorem pure {a : α} (h : ∀ us, I us → J a us) : F.Drifts I (pure a : Reader α) J :=
  fun _ hi => h _ hi

theorem bind (h : F.Drifts I r J) (hf : ∀ a, F.Drifts (J a) (f a) K) :
    F.Drifts I (r >>= f) K := fun us hi => by
  have first := h hi
  rw [bind_apply]
  split at first
  next e => simpa only [e] using hf _ first
  next e => simpa only [e] using first

theorem map {g : α → β} (h : F.Drifts I r J) (hg : ∀ a us, J a us → K (g a) us) :
    F.Drifts I (g <$> r) K :=
  h.bind fun a => pure (hg a)

/-- Behind all common lines, every reader that is blind to the rest finds its faults in what only the
second text has. -/
theorem of_blind {V : α → Prop} (h : F.past.Blind Likeness.Any r V) :
    F.Drifts F.Past r fun _ => F.Past := fun us hu => by
  have := @h us us ⟨rfl, hu⟩ trivial
  change F.past.Agree V (r F.stop' us) (r F.stop' us) at this
  cases e : r F.stop' us with
  | ok p =>
    rw [e] at this
    exact this.2.2.2
  | error f =>
    rw [e] at this
    exact ⟨this.2.1, this.2.2.2⟩

theorem peek_bind {f : TokenKind → Reader β}
    (hf : ∀ k, F.Drifts (fun us => I us ∧ kindOf us = k) (f k) K) : F.Drifts I (peek >>= f) K :=
  fun _ hi => hf _ ⟨hi, rfl⟩

theorem peekPastTrivia_bind {f : TokenKind → Reader β} (hf : ∀ k, F.Drifts I (f k) K) :
    F.Drifts I (peekPastTrivia >>= f) K := fun _ hi => hf _ hi

theorem ask_bind {p : List Token → Bool} {f : Bool → Reader β}
    (hf : ∀ b, F.Drifts (fun us => I us ∧ p us = b) (f b) K) : F.Drifts I (ask p >>= f) K :=
  fun _ hi => hf _ ⟨hi, rfl⟩

/-- A reader that starts past ends of lines finds a comment, or is behind all common lines. -/
theorem skipNewlines_bind {f : Unit → Reader β} {V : β → Prop}
    (hb : F.past.Blind Likeness.Any (skipNewlines >>= f) V)
    (hc : F.Drifts (fun us => F.Behind us ∧ kindOf us = .comment) (f ()) K)
    (hK : ∀ b us, F.Past us → K b us) : F.Drifts F.Behind (skipNewlines >>= f) K := by
  intro us hu
  by_cases hk : kindOf (pastNewlines us) = .comment
  · exact hc ⟨hu.pastNewlines, hk⟩
  · have hpast : F.Past (pastNewlines us) := hu.pastNewlines.past_of_kindOf (by
      simp [TokenKind.isTrivia, kindOf_dropNewlines us])
    have same : (skipNewlines >>= f) F.stop' (pastNewlines us) = (skipNewlines >>= f) F.stop' us :=
      congrArg (f () F.stop') (List.dropWhile_idempotent ..)
    exact same ▸ (of_blind hb).post (fun b us => hK b us) hpast

/-- A reader that starts past comments and ends of lines is behind all common lines. -/
theorem skipTrivia_bind {f : Unit → Reader β} {V : β → Prop}
    (hb : F.past.Blind Likeness.Any (skipTrivia >>= f) V) :
    F.Drifts F.Behind (skipTrivia >>= f) fun _ => F.Past := by
  intro us hu
  have same : (skipTrivia >>= f) F.stop' (pastTrivia us) = (skipTrivia >>= f) F.stop' us :=
    congrArg (f () F.stop') (List.dropWhile_idempotent ..)
  exact same ▸ of_blind hb hu.pastTrivia

/-- Repetition, by induction on what is left. -/
theorem collect {r : Reader (Option α)} {hs : Steps r} {K : List Token → Prop}
    (h : F.Drifts I r fun o us => o.elim (K us) fun _ => I us) :
    F.Drifts I (collect r hs) fun _ => K := by
  intro us hi
  induction hn : us.length using Nat.strongRecOn generalizing us with
  | ind n ih =>
    have first := h hi
    rw [collect_eq, bind_apply]
    split at first
    next o rest e =>
      simp only [e]
      cases o with
      | none => exact first
      | some a =>
        have later := ih rest.length (hn ▸ hs e) first rfl
        simp only [map_apply]
        split at later
        next e' => simpa only [e'] using later
        next e' => simpa only [e'] using later
    next e => simpa only [e] using first

end Drifts

/-! ### Both texts -/

/-- What becomes of the second text where the first one gives `a`, with `ts` left: the same, or
something else that satisfies `P`, or a fault in what only the second text has. -/
def Outcome {α : Type} (F : Fork) (P : α → α → List Token → List Token → Prop) (a : α)
    (ts : List Token) : Except Fault (α × List Token) → Prop
  | .ok (a', us) => (a' = a ∧ F.Same ts us) ∨ P a a' ts us
  | .error f => F.Lost f

/-- Where the reader returns something in the first text, at a place that satisfies `I`, it does the
same in the second text, or it gets to a place that satisfies `P`, or it finds a fault in what only
the second text has. -/
def Forks {α : Type} (F : Fork) (I : List Token → Prop) (r : Reader α)
    (P : α → α → List Token → List Token → Prop) : Prop :=
  ∀ ⦃ts us a rest⦄, F.Same ts us → I ts → r F.stop ts = .ok (a, rest) →
    F.Outcome P a rest (r F.stop' us)

/-- The texts do not part. -/
abbrev Together {α : Type} : α → α → List Token → List Token → Prop := fun _ _ _ _ => False

/-- The texts may part, and the second one gives a value and a place that satisfy `J`. -/
abbrev Into {α : Type} (J : α → List Token → Prop) : α → α → List Token → List Token → Prop :=
  fun _ a _ us => J a us

theorem Outcome.mono {α : Type} {P P' : α → α → List Token → List Token → Prop} {a : α}
    {x : Except Fault (α × List Token)} (h : F.Outcome P a ts x)
    (hP : ∀ a' us, P a a' ts us → P' a a' ts us) : F.Outcome P' a ts x := by
  unfold Outcome at h ⊢
  split at h
  · exact h.imp_right (hP _ _)
  · exact h

theorem Outcome.of_drifts {α : Type} {I : List Token → Prop} {J : α → List Token → Prop}
    {r : Reader α} {a : α} (h : F.Drifts I r J) (hu : I us) : F.Outcome (Into J) a ts (r F.stop' us) := by
  have := h hu
  cases e : r F.stop' us with
  | ok p =>
    rw [e] at this
    exact .inr this
  | error f =>
    rw [e] at this
    exact this

namespace Forks

variable {α β : Type} {I I' L : List Token → Prop} {r : Reader α} {f : α → Reader β}
  {P P' : α → α → List Token → List Token → Prop} {Q : β → β → List Token → List Token → Prop}
  {J : α → List Token → Prop} {K : β → List Token → Prop}

theorem weaken (h : F.Forks I r P) (hI : ∀ ts, I' ts → I ts)
    (hP : ∀ a a' ts us, P a a' ts us → P' a a' ts us) : F.Forks I' r P' :=
  fun _ _ _ _ hsame hi e => (h hsame (hI _ hi) e).mono fun _ _ => hP _ _ _ _

theorem pre (h : F.Forks I r P) (hI : ∀ ts, I' ts → I ts) : F.Forks I' r P :=
  h.weaken hI fun _ _ _ _ h => h

theorem post (h : F.Forks I r P) (hP : ∀ a a' ts us, P a a' ts us → P' a a' ts us) :
    F.Forks I r P' :=
  h.weaken (fun _ h => h) hP

/-- A reader that returns nothing in the first text. -/
theorem of_error (h : ∀ ts, I ts → ∀ a rest, r F.stop ts ≠ .ok (a, rest)) : F.Forks I r P :=
  fun _ _ _ _ _ hi e => absurd e (h _ hi _ _)

theorem failAt {p : Position} {cause : SyntaxError.Cause} :
    F.Forks I (failAt p cause : Reader α) P := of_error fun _ _ _ _ e => by cases e

theorem fail {cause : SyntaxError.Cause} : F.Forks I (fail cause : Reader α) P :=
  of_error fun _ _ _ _ e => by cases e

theorem failFound {cause : Found → SyntaxError.Cause} :
    F.Forks I (failFound cause : Reader α) P := of_error fun _ _ _ _ e => by cases e

theorem pure {a : α} : F.Forks I (pure a : Reader α) P := fun _ _ _ _ hsame _ e => by
  cases e
  exact .inl ⟨rfl, hsame⟩

theorem bind (h : F.Forks I r P) (hf : ∀ a, F.Forks Likeness.Any (f a) Q)
    (hp : ∀ a a' ts us b rest, P a a' ts us → f a F.stop ts = .ok (b, rest) →
      F.Outcome Q b rest (f a' F.stop' us)) : F.Forks I (r >>= f) Q :=
  fun ts us b rest hsame hi e => by
    obtain ⟨a, mid, e₁, e₂⟩ := bind_eq_ok.1 e
    have first := h hsame hi e₁
    rw [bind_apply]
    unfold Outcome at first
    split at first
    next a' mid' e' =>
      simp only [e']
      rcases first with ⟨rfl, hmid⟩ | hp'
      · exact hf _ hmid trivial e₂
      · exact hp _ _ _ _ _ _ hp' e₂
    next e' =>
      simp only [e']
      exact first

/-- Both texts go on together. -/
theorem bind_together (h : F.Forks I r Together) (hf : ∀ a, F.Forks Likeness.Any (f a) Q) :
    F.Forks I (r >>= f) Q :=
  h.bind hf fun _ _ _ _ _ _ hp => hp.elim

/-- The texts may part, and then the second one is read on from there. -/
theorem bind_into (h : F.Forks I r (Into J)) (hf : ∀ a, F.Forks Likeness.Any (f a) (Into K))
    (hd : ∀ a, F.Drifts (J a) (f a) K) : F.Forks I (r >>= f) (Into K) :=
  h.bind hf fun _ a' _ _ _ _ hj _ => .of_drifts (hd a') hj

theorem map {g : α → β} (h : F.Forks I r P)
    (hg : ∀ a a' ts us, P a a' ts us → Q (g a) (g a') ts us) : F.Forks I (g <$> r) Q :=
  h.bind (fun _ => pure) fun a a' _ _ _ _ hp e => by
    cases e
    exact .inr (hg a a' _ _ hp)

theorem bind_pure {g : α → β} {K : List Token → Prop} (h : F.Forks I r (Into fun _ => K)) :
    F.Forks I (r >>= fun a => Pure.pure (g a)) (Into fun _ => K) :=
  h.bind_into (fun _ => pure) fun _ => Drifts.pure fun _ h => h

/-- The texts may have no common word left. -/
theorem by_spent (h : F.Forks (fun ts => I ts ∧ ¬ Spent ts) r P)
    (hs : ∀ ts us a rest, Spent ts → F.Behind us → r F.stop ts = .ok (a, rest) →
      F.Outcome P a rest (r F.stop' us)) : F.Forks I r P :=
  fun ts us a rest hsame hi e => by
    by_cases h' : Spent ts
    · exact hs ts us a rest h' (hsame.behind h') e
    · exact h hsame ⟨hi, h'⟩ e

/-- Where no common word is left, the second text is read on from there. -/
theorem split (h : F.Forks (fun ts => I ts ∧ ¬ Spent ts) r (Into J))
    (hd : F.Drifts F.Behind r J) : F.Forks I r (Into J) :=
  h.by_spent fun _ _ _ _ _ hb _ => .of_drifts hd hb

/-! ### Elementary readers -/

theorem peek_bind {f : TokenKind → Reader β}
    (hf : ∀ k, F.Forks (fun ts => I ts ∧ kindOf ts = k) (f k) Q) : F.Forks I (peek >>= f) Q :=
  fun ts us _ _ hsame hi e => by
    show F.Outcome Q _ _ (f (kindOf us) F.stop' us)
    rw [hsame.kindOf_eq]
    exact hf _ hsame ⟨hi, rfl⟩ e

/-- Behind a comment or the end of a line the kind of the second token must not matter. -/
theorem peekSecond_bind {f : TokenKind → Reader β}
    (hf : ∀ k, F.Forks (fun ts => I ts ∧ kindOf ts.tail = k) (f k) Q)
    (he : ∀ ts, I ts → (kindOf ts).isTrivia = true → ∀ k k', f k = f k') :
    F.Forks I (peekSecond >>= f) Q :=
  fun ts us _ _ hsame hi e => by
    show F.Outcome Q _ _ (f (kindOf us.tail) F.stop' us)
    have same : f (kindOf us.tail) = f (kindOf ts.tail) := by
      by_cases hk : (kindOf ts).isTrivia = true
      · exact he ts hi hk _ _
      · obtain ⟨t, ts, us, rfl, rfl, -, hnext, -⟩ := hsame.next (hsame.not_spent (by simpa using hk))
        exact congrArg f hnext.kindOf_eq
    rw [same]
    exact hf _ hsame ⟨hi, rfl⟩ e

theorem peekPastTrivia_bind {f : TokenKind → Reader β} (hi : ∀ ts, I ts → ¬ Spent ts)
    (hf : ∀ k, F.Forks (fun ts => I ts ∧ kindOf (pastTrivia ts) = k) (f k) Q) :
    F.Forks I (peekPastTrivia >>= f) Q :=
  fun ts us _ _ hsame h e => by
    show F.Outcome Q _ _ (f (kindOf (pastTrivia us)) F.stop' us)
    rw [(hsame.pastTrivia (hi ts h)).1.kindOf_eq]
    exact hf _ hsame ⟨h, rfl⟩ e

theorem ask_bind {column : Nat} {f : Bool → Reader β} (hi : ∀ ts, I ts → ¬ Spent ts)
    (hf : ∀ b, F.Forks (fun ts => I ts ∧ commentEndsBlock column ts = b) (f b) Q) :
    F.Forks I (ask (commentEndsBlock column) >>= f) Q :=
  fun ts us _ _ hsame h e => by
    show F.Outcome Q _ _ (f (commentEndsBlock column us) F.stop' us)
    rw [hsame.commentEndsBlock_eq (hi ts h)]
    exact hf _ hsame ⟨h, rfl⟩ e

theorem here : F.Forks I here Together := fun _ _ _ _ hsame _ e => by
  cases e
  obtain ⟨t, ts, us, rfl, rfl, -⟩ := hsame.exists_head
  exact .inl ⟨rfl, hsame⟩

/-- Past the current token, where something is known of what is behind it. -/
theorem skip_bind {f : Unit → Reader β}
    (hi : ∀ ts, I ts → (kindOf ts).isTrivia = false ∧ L ts.tail) (hf : F.Forks L (f ()) Q) :
    F.Forks I (Reader.skip >>= f) Q :=
  fun ts us _ _ hsame h e => by
    obtain ⟨hk, hj⟩ := hi ts h
    obtain ⟨t, ts, us, rfl, rfl, -, hnext, -⟩ := hsame.next (hsame.not_spent hk)
    exact hf hnext hj e

theorem skipNewlines_bind {f : Unit → Reader β}
    (hf : F.Forks (fun ts => ¬ Spent ts) (f ()) Q) (hi : ∀ ts, I ts → ¬ Spent ts) :
    F.Forks I (skipNewlines >>= f) Q :=
  fun ts us _ _ hsame h e => by
    obtain ⟨hpast, hs⟩ := hsame.dropWhile (p := (· == .newline))
      (fun k hk => by simp [eq_of_beq hk, TokenKind.isTrivia]) (hi ts h)
    exact hf hpast hs e

theorem skipTrivia_bind {f : Unit → Reader β} (hi : ∀ ts, I ts → ¬ Spent ts ∧ L (pastTrivia ts))
    (hf : F.Forks L (f ()) Q) : F.Forks I (skipTrivia >>= f) Q :=
  fun ts _ _ _ hsame h e => hf (hsame.pastTrivia (hi ts h).1).1 (hi ts h).2 e

theorem textTokens : F.Forks I textTokens Together := fun ts us _ _ hsame _ e => by
  cases e
  suffices lineOf us = lineOf ts ∧ F.Same (pastLine ts) (pastLine us) from .inl this
  -- by induction on the tokens of the line, none of which is a comment or the end of a line
  clear * - hsame
  induction ts generalizing us with
  | nil => exact absurd rfl hsame.kindOf_ne_eof
  | cons t ts ih =>
    by_cases ht : endsText t.kind = true
    · obtain ⟨_, _, us, ⟨rfl, rfl⟩, rfl, -⟩ := hsame.exists_head
      simp [lineOf, pastLine, ht, hsame]
    · have hk : t.kind.isTrivia = false :=
        TokenKind.isTrivia_of_isText (by simpa [TokenKind.isText_eq] using ht)
      obtain ⟨_, _, us, ⟨rfl, rfl⟩, rfl, -, hnext, -⟩ := hsame.next (hsame.not_spent hk)
      simpa [lineOf, pastLine, ht] using ih us hnext

theorem accept? {k : TokenKind} (hk : k.isTrivia = false) : F.Forks I (accept? k) Together :=
  fun ts us _ _ hsame _ e => by
    by_cases he : kindOf ts = k
    · obtain ⟨t, ts, us, rfl, rfl, -, hnext, -⟩ := hsame.next (hsame.not_spent (he ▸ hk))
      have ht : t.kind = k := he
      simp only [Reader.accept?, ht, if_true] at e ⊢
      cases e
      exact .inl ⟨rfl, hnext⟩
    · obtain ⟨t, ts, us, rfl, rfl, -⟩ := hsame.exists_head
      have ht : t.kind ≠ k := he
      simp only [Reader.accept?, ht, if_false] at e ⊢
      cases e
      exact .inl ⟨rfl, hsame⟩

theorem expect {k : TokenKind} {what : Expected} (hk : k.isTrivia = false) :
    F.Forks I (expect k what) Together :=
  fun ts us _ _ hsame _ e => by
    obtain ⟨ht, rfl⟩ := expect_eq_ok.1 e
    subst ht
    obtain ⟨_, _, us, ⟨rfl, rfl⟩, rfl, -, hnext, -⟩ := hsame.next (hsame.not_spent hk)
    rw [expect_eq_ok.2 ⟨rfl, rfl⟩]
    exact .inl ⟨rfl, hnext⟩

/-- Repetition, by induction on what the first text gives. -/
theorem collect {r : Reader (Option α)} {hs : Steps r} {J K : List Token → Prop}
    (h : F.Forks Likeness.Any r (Into fun o us => o.elim (K us) fun _ => J us))
    (hd : F.Drifts J (collect r hs) fun _ => K) :
    F.Forks I (collect r hs) (Into fun _ => K) := by
  intro ts us as rest hsame hi e
  clear hi
  -- where the texts part, the second one is read on
  have parted : ∀ {us o mid} {as : List α}, r F.stop' us = .ok (o, mid) →
      (o.elim (K mid) fun _ => J mid) →
      F.Outcome (Into fun _ => K) as rest (Reader.collect r hs F.stop' us) := by
    intro us o mid as e hk
    rw [collect_eq, bind_apply, e]
    cases o with
    | none => exact .inr hk
    | some a => exact .of_drifts (hd.map (g := (a :: ·)) fun _ _ h => h) hk
  induction as generalizing ts us with
  | nil =>
    have first := h hsame trivial (collect_eq_nil.1 e)
    cases e' : r F.stop' us with
    | error f =>
      rw [e'] at first
      rw [collect_eq, bind_apply, e']
      exact first
    | ok p =>
      obtain ⟨o, mid'⟩ := p
      rw [e'] at first
      rcases first with ⟨rfl, hrest⟩ | hk
      · rw [collect_eq_nil.2 e']
        exact .inl ⟨rfl, hrest⟩
      · exact parted e' hk
  | cons a as ih =>
    obtain ⟨mid, e₁, e₂⟩ := collect_eq_cons.1 e
    have first := h hsame trivial e₁
    cases e' : r F.stop' us with
    | error f =>
      rw [e'] at first
      rw [collect_eq, bind_apply, e']
      exact first
    | ok p =>
      obtain ⟨o, mid'⟩ := p
      rw [e'] at first
      rcases first with ⟨rfl, hmid⟩ | hk
      · have later := ih hmid e₂
        rw [collect_eq, bind_apply, e']
        cases e'' : Reader.collect r hs F.stop' mid' with
        | error f =>
          rw [e''] at later
          simp only [map_apply, e'']
          exact later
        | ok q =>
          rw [e''] at later
          simp only [map_apply, e'']
          exact later.imp_left fun h => ⟨by rw [h.1], h.2⟩
      · exact parted e' hk

/-- If the first text gives something when it starts, so does the second one. -/
theorem collect_ne_nil {r : Reader (Option α)} {hs : Steps r} {K : List Token → Prop}
    (h : F.Forks Likeness.Any r fun o o' _ _ => o.isSome = true → o'.isSome = true)
    (hc : F.Forks I (Reader.collect r hs) (Into fun _ => K)) :
    F.Forks I (Reader.collect r hs) fun as as' _ us => (as ≠ [] → as' ≠ []) ∧ K us := by
  intro ts us as rest hsame hi e
  have outcome := hc hsame hi e
  cases e' : Reader.collect r hs F.stop' us with
  | error f =>
    rw [e'] at outcome
    exact outcome
  | ok p =>
    rw [e'] at outcome
    refine outcome.imp_right fun hk => ⟨fun hne hnil => ?_, hk⟩
    obtain ⟨as', rest'⟩ := p
    obtain rfl : as' = [] := hnil
    obtain ⟨a, as, rfl⟩ := List.exists_cons_of_ne_nil hne
    obtain ⟨mid, e₁, -⟩ := collect_eq_cons.1 e
    have first := h hsame trivial e₁
    rw [collect_eq_nil.1 e'] at first
    rcases first with ⟨h, -⟩ | h
    · cases h
    · exact absurd (h rfl) (by simp)

/-- Repetition of a reader that returns nothing where no common word is left: if the first text gives
something at all, so does the second one. -/
theorem collect_next {r : Reader (Option α)} {hs : Steps r}
    (h : F.Forks (fun ts => ¬ Spent ts) r (Into fun o us => o.isSome = true ∧ F.Behind us))
    (hd : F.Drifts F.Behind r fun _ => F.Past)
    (hn : ∀ {ts o rest}, Spent ts → r F.stop ts = .ok (o, rest) → o = none) :
    F.Forks I (Reader.collect r hs) fun as as' _ us => (as ≠ [] → as' ≠ []) ∧ F.Past us := by
  have past : ∀ (o : Option α) us, F.Past us → o.elim (F.Past us) fun _ => F.Behind us := by
    rintro (- | a) us hu
    · exact hu
    · exact hu.behind
  have first : F.Forks Likeness.Any r fun o o' _ us =>
      (o.isSome = true → o'.isSome = true) ∧ o'.elim (F.Past us) fun _ => F.Behind us := by
    refine by_spent (h.weaken (fun _ h => h.2) ?_) fun ts us o rest hspent hb e => ?_
    · rintro o (- | a) ts us ⟨h, hb⟩
      · cases h
      · exact ⟨fun _ => h, hb⟩
    · rw [hn hspent e]
      exact (Outcome.of_drifts hd hb).mono fun o' us hu => ⟨nofun, past o' us hu⟩
  exact .collect_ne_nil (first.post fun _ _ _ _ h => h.1)
    (.collect (first.post fun _ _ _ _ h => h.2) (.collect (hd.post past)))

end Forks

/-! ### Readers that go on in any case -/

/-- A reader that goes on with both texts together, and with the second one alone from a place that
satisfies `J`; where it goes on with the second one alone, it comes to a place that satisfies `K`. -/
structure Continues {α : Type} (F : Fork) (J : List Token → Prop) (r : Reader α)
    (K : List Token → Prop) : Prop where
  forks : F.Forks Likeness.Any r (Into fun _ => K)
  drifts : F.Drifts J r fun _ => K

/-- The texts may part, and go on. -/
theorem Forks.bind_continues {α β : Type} {I J K : List Token → Prop} {r : Reader α}
    {f : α → Reader β} (h : F.Forks I r (Into fun _ => J)) (hf : ∀ a, F.Continues J (f a) K) :
    F.Forks I (r >>= f) (Into fun _ => K) :=
  h.bind_into (fun a => (hf a).forks) fun a => (hf a).drifts

namespace Continues

variable {α β : Type} {J K L : List Token → Prop} {r : Reader α} {f : α → Reader β}

theorem pure {a : α} (h : ∀ us, J us → K us) : F.Continues J (pure a : Reader α) K :=
  ⟨.pure, .pure h⟩

theorem bind (h : F.Continues J r K) (hf : ∀ a, F.Continues K (f a) L) :
    F.Continues J (r >>= f) L :=
  ⟨h.forks.bind_continues hf, h.drifts.bind fun a => (hf a).drifts⟩

theorem bind_pure {g : α → β} (h : F.Continues J r K) :
    F.Continues J (r >>= fun a => Pure.pure (g a)) K := h.bind fun _ => .pure fun _ h => h

theorem map {g : α → β} (h : F.Continues J r K) : F.Continues J (g <$> r) K := h.bind_pure

theorem pre (h : F.Continues K r L) (hJ : ∀ us, J us → K us) : F.Continues J r L :=
  ⟨h.forks, h.drifts.pre hJ⟩

theorem post (h : F.Continues J r K) (hK : ∀ us, K us → L us) : F.Continues J r L :=
  ⟨h.forks.post fun _ _ _ => hK, h.drifts.post fun _ => hK⟩

theorem peek_bind {f : TokenKind → Reader β} (hf : ∀ k, F.Continues J (f k) K) :
    F.Continues J (peek >>= f) K :=
  ⟨.peek_bind fun k => (hf k).forks.pre fun _ _ => trivial,
    .peek_bind fun k => (hf k).drifts.pre fun _ h => h.1⟩

theorem expect {k : TokenKind} {what : Expected} (hk : k.isTrivia = false) (he : k ≠ .eof) :
    F.Continues F.Past (expect k what) F.Past :=
  ⟨(Forks.expect hk).post fun _ _ _ _ => False.elim, .of_blind (.expect he)⟩

/-- Where the texts are together, comments and ends of lines are passed over in both; where they are
not, the second text is behind all common lines after them. -/
theorem skipTrivia_bind {f : Unit → Reader β} {V : β → Prop}
    (hb : F.past.Blind Likeness.Any (skipTrivia >>= f) V)
    (hf : F.Forks Likeness.Any (f ()) (Into fun _ => F.Past)) :
    F.Continues F.Behind (skipTrivia >>= f) F.Past :=
  have drifts : F.Drifts F.Behind (skipTrivia >>= f) fun _ => F.Past := .skipTrivia_bind hb
  ⟨.split (.skipTrivia_bind (fun _ h => ⟨h.2, trivial⟩) hf) drifts, drifts⟩

theorem peekPastTrivia_bind {f : TokenKind → Reader β} (hf : ∀ k, F.Continues F.Behind (f k) K) :
    F.Continues F.Behind (peekPastTrivia >>= f) K :=
  have drifts : F.Drifts F.Behind (peekPastTrivia >>= f) fun _ => K :=
    .peekPastTrivia_bind fun k => (hf k).drifts
  ⟨.split (.peekPastTrivia_bind (fun _ h => h.2) fun k => (hf k).forks.pre fun _ _ => trivial)
    drifts, drifts⟩

theorem collect {r : Reader (Option α)} {hs : Steps r}
    (hf : F.Forks Likeness.Any r (Into fun o us => o.elim (K us) fun _ => J us))
    (hd : F.Drifts J r fun o us => o.elim (K us) fun _ => J us) :
    F.Continues J (collect r hs) K :=
  ⟨.collect hf (.collect hd), .collect hd⟩

end Continues

end Fork

end FlowLang
