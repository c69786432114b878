import FlowLang.Proofs.Grammar.Blind
import FlowLang.Proofs.Grammar.Lines
import Mathlib.Logic.Relation

/-!
# How reading moves

Reading passes over one token after the other, never over the end of the input.  The only other
thing that it does to the tokens is to move a `dedent` in front of a comment that ends a block.

* `Move`, `Moves` : one step of this kind, and any number of them.
* `Moves.perm` : the tokens passed over and those that remain are all tokens.
* `Likeness.Blind.moves`, `Likeness.Blind.moves_error` : whether it succeeds or fails, a reader stops
  at a place that moves lead to.  The readers have been gone through as to what they are blind to.
* `Likeness.Blind.position_of_error` : faults are at tokens.
-/

namespace FlowLang

/-! ### Moves -/

/-- One step of reading: past a token, or a rearrangement at a comment that ends its block. -/
inductive Move : List Token → List Token → Prop
  | advance {t : Token} {ts : List Token} : t.kind ≠ .eof → Move (t :: ts) ts
  | hoist {ts : List Token} {column : Nat} : commentEndsBlock column ts = true →
    Move ts (dedentFirst ts)

/-- Any number of steps of reading. -/
def Moves : List Token → List Token → Prop := Relation.ReflTransGen Move

namespace Moves

variable {ts us rest : List Token}

theorem refl : Moves ts ts := Relation.ReflTransGen.refl

theorem trans (h : Moves ts us) (h' : Moves us rest) : Moves ts rest :=
  Relation.ReflTransGen.trans h h'

theorem single (h : Move ts rest) : Moves ts rest := Relation.ReflTransGen.single h

theorem advance {t : Token} (h : t.kind ≠ .eof) : Moves (t :: ts) ts := single (.advance h)

/-- On past a token of some kind. -/
theorem next {t : Token} {k : TokenKind} (h : Moves us (t :: ts)) (hk : t.kind = k)
    (hne : k ≠ .eof) : Moves us ts :=
  h.trans (advance (hk ▸ hne))

/-- Past some tokens, none of which ends the input. -/
theorem append {l ts : List Token} (h : ∀ t ∈ l, t.kind ≠ .eof) : Moves (l ++ ts) ts := by
  induction l with
  | nil => exact .refl
  | cons t l ih =>
    obtain ⟨ht, hl⟩ := List.forall_mem_cons.1 h
    exact .trans (.advance ht) (ih hl)

/-- Past all tokens of some kinds, none of which ends the input. -/
theorem dropWhile {p : Token → Bool} (h : ∀ t, p t = true → t.kind ≠ .eof) :
    Moves ts (ts.dropWhile p) := by
  induction ts with
  | nil => exact .refl
  | cons t ts ih =>
    rw [List.dropWhile_cons]
    split
    next hp => exact (advance (h t hp)).trans ih
    next => exact .refl

theorem pastNewlines : Moves ts (Grammar.pastNewlines ts) :=
  dropWhile fun t h => by simp_all

theorem pastTrivia : Moves ts (Grammar.pastTrivia ts) :=
  dropWhile fun t h hk => by simp [hk, TokenKind.isTrivia] at h

/-- The tokens that have been passed over, none of which ends the input, and the remaining ones are
the tokens at the start. -/
theorem perm (h : Moves ts rest) :
    ∃ passed : List Token, (passed ++ rest).Perm ts ∧ ∀ t ∈ passed, t.kind ≠ .eof := by
  induction h with
  | refl => exact ⟨[], .refl _, by simp⟩
  | tail _ hm ih =>
    obtain ⟨passed, hp, hk⟩ := ih
    cases hm with
    | @advance t us ht =>
      refine ⟨passed ++ [t], by simpa using hp, fun u hu => ?_⟩
      rcases List.mem_append.1 hu with hu | hu
      · exact hk u hu
      · rwa [List.mem_singleton.1 hu]
    | hoist => exact ⟨passed, ((dedentFirst_perm _).append_left passed).trans hp, hk⟩

theorem length_le (h : Moves ts rest) : rest.length ≤ ts.length := by
  obtain ⟨passed, hp, -⟩ := h.perm
  simp [← hp.length_eq]

/-- No token is made up. -/
theorem mem (h : Moves ts rest) {t : Token} (ht : t ∈ rest) : t ∈ ts := by
  obtain ⟨passed, hp, -⟩ := h.perm
  exact hp.mem_iff.1 (List.mem_append_right _ ht)

end Moves

/-! ### Readers -/

/-- One of the tokens is at this position. -/
def TokenAt (ts : List Token) (q : Position) : Prop := ∃ t ∈ ts, t.position = q

theorem TokenAt.head {t : Token} {ts : List Token} : TokenAt (t :: ts) t.position :=
  ⟨t, List.mem_cons_self, rfl⟩

theorem TokenAt.cons {t : Token} {ts : List Token} {q : Position} (h : TokenAt ts q) :
    TokenAt (t :: ts) q :=
  h.imp fun _ h => ⟨List.mem_cons_of_mem _ h.1, h.2⟩

/-- What is at a place that moves lead to has been among the tokens before. -/
theorem Moves.tokenAt {ts rest : List Token} {q : Position} (h : Moves ts rest)
    (hq : TokenAt rest q) : TokenAt ts q :=
  hq.imp fun _ hq => ⟨h.mem hq.1, hq.2⟩

/-- A list beside itself, in the places that moves lead to.  The positions of its tokens are in
sight, and that of its end. -/
def Likeness.single (start : List Token) (stop : Position) : Likeness where
  stop := stop
  stop' := stop
  Like ts us := us = ts ∧ Moves start ts
  near p := p = stop ∨ TokenAt start p
  next := by
    rintro t ts us ⟨rfl, hm⟩ ht
    exact ⟨ts, rfl, rfl, hm.trans (.advance ht)⟩
  ended := by
    rintro ts us ⟨rfl, -⟩ hk
    exact ⟨hk, rfl⟩
  in_sight := by
    rintro ts us ⟨rfl, hm⟩
    cases us with
    | nil => exact .inl rfl
    | cons t us => exact .inr ⟨t, hm.mem List.mem_cons_self, rfl⟩
  hoist := by
    rintro ts us column ⟨rfl, hm⟩ hc
    exact ⟨rfl, hm.trans (.single (.hoist hc))⟩

namespace Likeness.Blind

variable {α : Type} {r : Reader α} {V : α → Prop} {p : Position} {ts : List Token}

theorem agree (h : (single ts p).Blind Any r V) :
    (single ts p).Agree V (r p ts) (r p ts) := h ⟨rfl, .refl⟩ trivial

/-- The tokens behind what is read are a place that moves lead to. -/
theorem moves {a : α} {rest : List Token} (h : (single ts p).Blind Any r V)
    (e : r p ts = .ok (a, rest)) : Moves ts rest := by
  have := h.agree
  rw [e] at this
  exact this.2.2.2

/-- So are those at which reading fails. -/
theorem moves_error {f : Fault} (h : (single ts p).Blind Any r V) (e : r p ts = .error f) :
    Moves ts f.rest := by
  have := h.agree
  rw [e] at this
  exact this.2.2.2

/-- A fault is at a token, or at the end. -/
theorem position_of_error {f : Fault} (h : (single ts p).Blind Any r V)
    (e : r p ts = .error f) : f.position = p ∨ TokenAt ts f.position := by
  have := h.agree
  rw [e] at this
  exact this.2.1

end Likeness.Blind

end FlowLang
