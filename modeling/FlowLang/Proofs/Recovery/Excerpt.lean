import FlowLang.Proofs.Program.Relocation
import FlowLang.Proofs.Token.Laid
import FlowLang.Reading.Program

/-!
# Reading an excerpt

Some lines of a text can be read where they stand, with other definitions behind them, or alone.
The tokens are the same in both cases up to their positions, so the readers do the same with them,
as long as they do not look at what is behind.

* `Excerpt` : the two places, and the tokens behind the lines in the larger text.
* `Excerpt.Moved`, `Excerpt.Beside` : a token, and the tokens that remain, in both places.
* `Excerpt.Abreast` : two readers, one for each place, that go on side by side: both return, and
  what they return and leave corresponds, or both stop, with corresponding tokens left.
* `Excerpt.Abreast.bind`, `Excerpt.Abreast.peek_bind` … : the rules for sequences and for the
  elementary readers.
-/

namespace FlowLang

open Reader

/-- Lines of a larger text that are also read alone. -/
structure Excerpt where
  /-- From a position in the lines alone to the position in the larger text. -/
  move : Position → Position
  /-- The positions in and right behind the lines in the larger text. -/
  near : Position → Prop
  /-- The tokens behind the lines in the larger text. -/
  behind : List Token
  /-- The end of the larger text. -/
  stop : Position
  /-- The end of the lines alone. -/
  stop' : Position
  column_move : ∀ p, (move p).column = p.column
  starts : ∀ t ∈ behind.head?, t.startsDefinition = true
  near_behind : near (placeOf stop behind)

namespace Excerpt

variable (e : Excerpt)

/-- A token in the larger text and the same one in the lines alone.  A `dedent` has the position of
the line behind it, which may be no line of the excerpt. -/
structure Moved (t t' : Token) : Prop where
  kind : t.kind = t'.kind
  literal : t.literal = t'.literal
  column : t.position.column = t'.position.column
  position : t'.kind ≠ .dedent → t.position = e.move t'.position
  near : e.near t.position
  within : t.startsDefinition = false
  ne_eof : t.kind ≠ .eof

/-- What remains to be read in the larger text, and in the lines alone. -/
inductive Beside : List Token → List Token → Prop
  | nil : Beside e.behind []
  | cons {t t' ts us} : e.Moved t t' → Beside ts us → Beside (t :: ts) (t' :: us)

/-- The results of reading in both places correspond. -/
def Agree {α : Type} (V : α → α → List Token → Prop) :
    Except Fault (α × List Token) → Except Fault (α × List Token) → Prop
  | .ok (a, ts), .ok (a', us) => e.Beside ts us ∧ V a a' us
  | .error f, .error f' => e.Beside f.rest f'.rest ∧ e.near f.position
  | _, _ => False

/-- From corresponding tokens that satisfy `I`, two readers come to corresponding results, which
satisfy `V` if there are some. -/
def Abreast {α : Type} (I : List Token → Prop) (r r' : Reader α)
    (V : α → α → List Token → Prop) : Prop :=
  ∀ ⦃ts us⦄, e.Beside ts us → I us → e.Agree V (r e.stop ts) (r' e.stop' us)

variable {e}

/-! ### Remaining tokens -/

namespace Beside

variable {ts us : List Token}

theorem kindOf_eq (h : e.Beside ts us) (hne : us ≠ []) : kindOf ts = kindOf us := by
  cases h with
  | nil => exact absurd rfl hne
  | cons hm => exact hm.kind

theorem near_placeOf (h : e.Beside ts us) : e.near (placeOf e.stop ts) := by
  cases h with
  | nil => exact e.near_behind
  | cons hm => exact hm.near

theorem tail (h : e.Beside ts us) (hne : us ≠ []) : e.Beside ts.tail us.tail := by
  cases h with
  | nil => exact absurd rfl hne
  | cons _ h => exact h

/-- The kinds of tokens that start a definition. -/
theorem kind_of_startsDefinition {t : Token} (h : t.startsDefinition = true) :
    t.kind = .keyword .workflow ∨ t.kind = .keyword .activity := by
  simp only [Token.startsDefinition, Bool.and_eq_true, Bool.or_eq_true, beq_iff_eq] at h
  exact h.1

theorem kindOf_behind (e : Excerpt) :
    kindOf e.behind = .eof ∨ kindOf e.behind = .keyword .workflow ∨
      kindOf e.behind = .keyword .activity := by
  cases hb : e.behind with
  | nil => exact .inl rfl
  | cons t ts => exact .inr (kind_of_startsDefinition (e.starts t (by simp [hb])))

/-- Passing over tokens by their kind, as long as that stops at a definition. -/
theorem dropWhile (h : e.Beside ts us) {p : TokenKind → Bool}
    (hw : p (.keyword .workflow) = false) (ha : p (.keyword .activity) = false) :
    e.Beside (ts.dropWhile fun t => p t.kind) (us.dropWhile fun t => p t.kind) := by
  induction h with
  | nil =>
    suffices e.behind.dropWhile (fun t => p t.kind) = e.behind by
      rw [this, List.dropWhile_nil]
      exact .nil
    cases hb : e.behind with
    | nil => rfl
    | cons t ts =>
      refine List.dropWhile_cons_of_neg ?_
      rcases kind_of_startsDefinition (e.starts t (by simp [hb])) with ht | ht <;> simp [ht, hw, ha]
  | @cons t t' ts us hm h ih =>
    rw [List.dropWhile_cons, List.dropWhile_cons, hm.kind]
    split
    · exact ih
    · exact .cons hm h

end Beside

/-! ### Rules -/

theorem Agree.bind {α β : Type} {r r' : Reader α} {f f' : α → Reader β}
    {V : α → α → List Token → Prop} {W : β → β → List Token → Prop} {ts us : List Token}
    (h : e.Agree V (r e.stop ts) (r' e.stop' us))
    (hf : ∀ a a', e.Abreast (V a a') (f a) (f' a') W) :
    e.Agree W ((r >>= f) e.stop ts) ((r' >>= f') e.stop' us) := by
  rw [bind_apply, bind_apply]
  unfold Agree at h
  split at h
  next a mid a' mid' h₁ h₂ => rw [h₁, h₂]; exact hf a a' h.1 h.2
  next h₁ h₂ => rw [h₁, h₂]; exact h
  next => exact h.elim

namespace Abreast

variable {α β : Type} {I J : List Token → Prop} {r r' : Reader α} {V : α → α → List Token → Prop}
  {W : β → β → List Token → Prop}

theorem weaken {V' : α → α → List Token → Prop} (h : e.Abreast J r r' V') (hI : ∀ us, I us → J us)
    (hV : ∀ a a' us, V' a a' us → V a a' us) : e.Abreast I r r' V := fun _ _ hb hi => by
  have := h hb (hI _ hi)
  unfold Agree at this ⊢
  split at this
  · exact ⟨this.1, hV _ _ _ this.2⟩
  · exact this
  · exact this.elim

theorem pre (h : e.Abreast J r r' V) (hI : ∀ us, I us → J us) : e.Abreast I r r' V :=
  h.weaken hI fun _ _ _ h => h

theorem post {V' : α → α → List Token → Prop} (h : e.Abreast I r r' V')
    (hV : ∀ a a' us, V' a a' us → V a a' us) : e.Abreast I r r' V :=
  h.weaken (fun _ h => h) hV

/-- A fact that does not depend on the tokens. -/
theorem of_fact {p : Prop} (h : p → e.Abreast I r r' V) :
    e.Abreast (fun us => p ∧ I us) r r' V := fun _ _ hb hi => h hi.1 hb hi.2

theorem of_false (hI : ∀ us, ¬ I us) : e.Abreast I r r' V := fun _ _ _ hi => (hI _ hi).elim

theorem pure {a a' : α} (h : ∀ us, I us → V a a' us) : e.Abreast I (pure a) (pure a') V :=
  fun _ _ hb hi => ⟨hb, h _ hi⟩

theorem bind {f f' : α → Reader β} (h : e.Abreast I r r' V)
    (hf : ∀ a a', e.Abreast (V a a') (f a) (f' a') W) : e.Abreast I (r >>= f) (r' >>= f') W :=
  fun _ _ hb hi => Agree.bind (h hb hi) hf

/-- A value of the larger text is a function of that of the lines alone. -/
theorem bind_eq {f f' : α → Reader β} {g : α → α} (h : e.Abreast I r r' fun a a' us => a = g a' ∧ J us)
    (hf : ∀ a', e.Abreast J (f (g a')) (f' a') W) : e.Abreast I (r >>= f) (r' >>= f') W :=
  h.bind fun _ a' => of_fact fun h => h ▸ hf a'

theorem map {f f' : α → β} (h : e.Abreast I r r' V) (hf : ∀ a a' us, V a a' us → W (f a) (f' a') us) :
    e.Abreast I (f <$> r) (f' <$> r') W :=
  h.bind fun a a' => pure (hf a a')

theorem failAt {p p' : Position} {c c' : SyntaxError.Cause} (h : e.near p) :
    e.Abreast I (failAt p c : Reader α) (Reader.failAt p' c') V := fun _ _ hb _ => ⟨hb, h⟩

theorem fail {c c' : SyntaxError.Cause} :
    e.Abreast I (fail c : Reader α) (Reader.fail c') V := fun _ _ hb _ => ⟨hb, hb.near_placeOf⟩

theorem failFound {c c' : Found → SyntaxError.Cause} :
    e.Abreast I (failFound c : Reader α) (Reader.failFound c') V := fun _ _ hb _ => ⟨hb, hb.near_placeOf⟩

end Abreast

/-! ### Elementary readers -/

namespace Abreast

variable {α β : Type} {I J : List Token → Prop} {V : α → α → List Token → Prop}
  {W : β → β → List Token → Prop}

theorem here (hne : ∀ us, I us → us ≠ []) (hd : ∀ us, I us → kindOf us ≠ .dedent) :
    e.Abreast I here here fun p p' us => p = e.move p' ∧ e.near p ∧ I us := fun ts us hb hi => by
  refine ⟨hb, ?_, hb.near_placeOf, hi⟩
  cases hb with
  | nil => exact absurd rfl (hne _ hi)
  | cons hm => exact hm.position (hd _ hi)

/-- Where a token remains, both readers see its kind. -/
theorem peek_bind {f f' : TokenKind → Reader β} (hne : ∀ us, I us → us ≠ [])
    (h : ∀ k, e.Abreast (fun us => kindOf us = k ∧ I us) (f k) (f' k) W) :
    e.Abreast I (peek >>= f) (peek >>= f') W := fun ts us hb hi => by
  show e.Agree W (f (kindOf ts) e.stop ts) (f' (kindOf us) e.stop' us)
  rw [hb.kindOf_eq (hne _ hi)]
  exact h _ hb ⟨rfl, hi⟩

theorem peekSecond_bind {f f' : TokenKind → Reader β} (hne : ∀ us, I us → us.tail ≠ [])
    (h : ∀ k, e.Abreast (fun us => kindOf us.tail = k ∧ I us) (f k) (f' k) W) :
    e.Abreast I (peekSecond >>= f) (peekSecond >>= f') W := fun ts us hb hi => by
  show e.Agree W (f (kindOf ts.tail) e.stop ts) (f' (kindOf us.tail) e.stop' us)
  have hne' : us ≠ [] := fun h => hne _ hi (by rw [h]; rfl)
  rw [(hb.tail hne').kindOf_eq (hne _ hi)]
  exact h _ hb ⟨rfl, hi⟩

theorem peekPastTrivia_bind {f f' : TokenKind → Reader β}
    (hne : ∀ us, I us → us.dropWhile (·.kind.isTrivia) ≠ [])
    (h : ∀ k, e.Abreast (fun us => kindOf (us.dropWhile (·.kind.isTrivia)) = k ∧ I us)
      (f k) (f' k) W) :
    e.Abreast I (peekPastTrivia >>= f) (peekPastTrivia >>= f') W := fun ts us hb hi => by
  show e.Agree W (f (kindOf (ts.dropWhile (·.kind.isTrivia))) e.stop ts)
    (f' (kindOf (us.dropWhile (·.kind.isTrivia))) e.stop' us)
  rw [(hb.dropWhile (p := TokenKind.isTrivia) rfl rfl).kindOf_eq (hne _ hi)]
  exact h _ hb ⟨rfl, hi⟩

theorem skip (hne : ∀ us, I us → us ≠ []) :
    e.Abreast I skip skip fun _ _ us => ∃ t, I (t :: us) := fun ts us hb hi => by
  cases hb with
  | nil => exact absurd rfl (hne _ hi)
  | @cons t t' ts us hm hb => exact ⟨hb, t', hi⟩

theorem skipWhile {p : TokenKind → Bool} (hw : p (.keyword .workflow) = false)
    (ha : p (.keyword .activity) = false) (h : ∀ us, I us → J (us.dropWhile fun t => p t.kind)) :
    e.Abreast I (Reader.skipWhile p) (Reader.skipWhile p) fun _ _ us => J us :=
  fun _ _ hb hi => ⟨hb.dropWhile hw ha, h _ hi⟩

theorem ask_bind {p : List Token → Bool} {f f' : Bool → Reader β}
    (hp : ∀ {ts us}, e.Beside ts us → I us → p ts = p us)
    (h : ∀ b, e.Abreast (fun us => p us = b ∧ I us) (f b) (f' b) W) :
    e.Abreast I (ask p >>= f) (ask p >>= f') W := fun ts us hb hi => by
  show e.Agree W (f (p ts) e.stop ts) (f' (p us) e.stop' us)
  rw [hp hb hi]
  exact h _ hb ⟨rfl, hi⟩

theorem accept?_bind {k : TokenKind} {f f' : Option Token → Reader β} (hne : ∀ us, I us → us ≠ [])
    (hn : e.Abreast (fun us => kindOf us ≠ k ∧ I us) (f none) (f' none) W)
    (hs : ∀ t t', e.Moved t t' → t'.kind = k →
      e.Abreast (fun us => I (t' :: us)) (f (some t)) (f' (some t')) W) :
    e.Abreast I (accept? k >>= f) (accept? k >>= f') W := fun ts us hb hi => by
  cases hb with
  | nil => exact absurd rfl (hne _ hi)
  | @cons t t' ts us hm hb =>
    rw [bind_apply, bind_apply]
    by_cases hk : t'.kind = k
    · simp only [accept?, hm.kind, hk, if_true]
      exact hs t t' hm hk hb hi
    · simp only [accept?, hm.kind, hk, if_false]
      exact hn (.cons hm hb) ⟨hk, hi⟩

theorem expect {k : TokenKind} {what : Expected} (hne : ∀ us, I us → us ≠ []) :
    e.Abreast I (expect k what) (expect k what) fun t t' us =>
      (e.Moved t t' ∧ t'.kind = k) ∧ I (t' :: us) := fun ts us hb hi => by
  cases hb with
  | nil => exact absurd rfl (hne _ hi)
  | @cons t t' ts us hm hb =>
    by_cases hk : t'.kind = k
    · simp only [Reader.expect, hm.kind, hk, if_true]
      exact ⟨hb, ⟨hm, hk⟩, hi⟩
    · simp only [Reader.expect, hm.kind, hk, if_false]
      exact ⟨.cons hm hb, hm.near⟩

/-- Where the lines may be at their end, a definition behind them is not taken for another
token. -/
theorem expect_layout {k : TokenKind} {what : Expected} (hw : k ≠ .keyword .workflow)
    (ha : k ≠ .keyword .activity) :
    e.Abreast I (Reader.expect k what) (Reader.expect k what) fun t t' us =>
      (e.Moved t t' ∧ t'.kind = k) ∧ I (t' :: us) := fun ts us hb hi => by
  cases hb with
  | cons hm hb =>
    exact expect (I := fun us => I us ∧ us ≠ []) (fun _ h => h.2) |>.post
      (fun _ _ _ h => ⟨h.1, h.2.1⟩) (.cons hm hb) ⟨hi, by simp⟩
  | nil =>
    obtain ⟨c, hc⟩ : ∃ c, Reader.expect k what e.stop e.behind =
        .error ⟨c, placeOf e.stop e.behind, e.behind⟩ := by
      cases hb : e.behind with
      | nil => exact ⟨_, rfl⟩
      | cons t ts =>
        have ht : t.kind ≠ k := by
          have := Beside.kind_of_startsDefinition (e.starts t (by simp [hb]))
          rcases this with h | h <;> rw [h]
          · exact hw.symm
          · exact ha.symm
        simp only [Reader.expect, ht, if_false]
        exact ⟨_, rfl⟩
    rw [hc]
    exact ⟨.nil, e.near_behind⟩

/-- The kind of the next token, which may be that of a definition behind the lines. -/
theorem peek_bind_end {f f' : TokenKind → Reader β}
    (hnil : I [] → ∀ k, k = .eof ∨ k = .keyword .workflow ∨ k = .keyword .activity →
      e.Agree W (f k e.stop e.behind) (f' .eof e.stop' []))
    (h : ∀ k, e.Abreast (fun us => us ≠ [] ∧ kindOf us = k ∧ I us) (f k) (f' k) W) :
    e.Abreast I (peek >>= f) (peek >>= f') W := fun ts us hb hi => by
  cases hb with
  | nil => exact hnil hi _ (Beside.kindOf_behind e)
  | @cons t t' ts us hm hb =>
    show e.Agree W (f t.kind e.stop (t :: ts)) (f' t'.kind e.stop' (t' :: us))
    rw [hm.kind]
    exact h _ (.cons hm hb) ⟨by simp, rfl, hi⟩

end Abreast

/-! ### Repetition -/

/-- Either both readers return something and may go on, or both return nothing. -/
def Onward {α : Type} (g : α → α) (I J : List Token → Prop) :
    Option α → Option α → List Token → Prop
  | some a, some a', us => a = g a' ∧ I us
  | none, none, us => J us
  | _, _, _ => False

theorem Abreast.collect {α : Type} {g : α → α} {I J : List Token → Prop}
    {r r' : Reader (Option α)} {hr : Steps r} {hr' : Steps r'}
    (h : e.Abreast I r r' (Onward g I J)) :
    e.Abreast I (collect r hr) (Reader.collect r' hr') fun as as' us => as = as'.map g ∧ J us := by
  intro ts us hb hi
  induction hn : us.length using Nat.strongRecOn generalizing ts us with
  | ind n ih =>
    rw [collect_eq r hr, collect_eq r' hr', bind_apply, bind_apply]
    have ha := h hb hi
    unfold Agree at ha
    split at ha
    next o ts' o' us' h₁ h₂ =>
      rw [h₁, h₂]
      obtain ⟨hb', hv⟩ := ha
      unfold Onward at hv
      split at hv
      next a a' =>
        -- both go on, with fewer tokens
        have hlt := hr' h₂
        have hrest : e.Abreast (fun vs => vs.length < n ∧ I vs) (Reader.collect r hr)
            (Reader.collect r' hr') fun as as' us => as = as'.map g ∧ J us :=
          fun _ _ hb hi => ih _ hi.1 hb hi.2 rfl
        have hcons : e.Abreast (fun vs => vs.length < n ∧ I vs) ((a :: ·) <$> Reader.collect r hr)
            ((a' :: ·) <$> Reader.collect r' hr') fun as as' us => as = as'.map g ∧ J us :=
          hrest.map fun _ _ _ h => ⟨by rw [h.1, hv.1]; rfl, h.2⟩
        exact hcons hb' ⟨hn ▸ hlt, hv.2⟩
      next => exact ⟨hb', rfl, hv⟩
      next => exact hv.elim
    next h₁ h₂ => rw [h₁, h₂]; exact ha
    next => exact ha.elim

end Excerpt

end FlowLang
