import FlowLang.Reading.Block
import FlowLang.Token.Layout
import Mathlib.Data.List.TakeWhile

/-!
# The layout of a list of tokens

The tokens of a source text are in lines, and the lines in blocks.  A line holds tokens with text,
perhaps a comment behind them, and its end; a line without such tokens is blank or a comment.  An
`indent` stands right before the first token of a line and a `dedent` before a line; only lines in
no block start in column 1.

* `Spot` : where a reader of the list may stand.
* `Laid` : the list is well laid out from such a spot on.
* `Laid.dropTrivia`, `Laid.dedentFirst` : passing over comments and moving a `dedent` in front of
  them keep the layout.
-/

namespace FlowLang

/-- Tokens that are neither layout nor comments. -/
def TokenKind.isText (k : TokenKind) : Bool := !k.isLayout && k != .comment

/-- The text of a line ends at everything else. -/
theorem TokenKind.isText_eq (k : TokenKind) : k.isText = !Reader.endsText k := by
  cases k <;> rfl

theorem TokenKind.ne_of_isText {k j : TokenKind} (h : k.isText = true) (hj : j.isText = false) :
    k ≠ j := by
  rintro rfl
  exact Bool.false_ne_true (hj.symm.trans h)

theorem TokenKind.isLayout_of_isText {k : TokenKind} (h : k.isText = true) :
    k.isLayout = false := by
  cases k <;> first | rfl | cases h

theorem TokenKind.isTrivia_of_isText {k : TokenKind} (h : k.isText = true) :
    k.isTrivia = false := by
  cases k <;> first | rfl | cases h

theorem TokenKind.not_isText_of_isTrivia {k : TokenKind} (h : k.isTrivia = true) :
    k.isText = false := by
  cases k <;> first | rfl | cases h

theorem TokenKind.isText_of_isContextual {k : TokenKind} (h : k.isContextual = true) :
    k.isText = true := by
  cases k <;> first | rfl | cases h

theorem TokenKind.isTrivia_of_ne {k : TokenKind} (hn : k ≠ .newline) (hc : k ≠ .comment) :
    k.isTrivia = false := by
  cases k <;> first | rfl | contradiction

/-- A line that has some text starts with it. -/
theorem isText_of_lineText {t : Token} {ts : List Token}
    (h : Reader.lineText ((t :: ts).takeWhile fun t => !Reader.endsText t.kind) ≠ "") :
    t.kind.isText = true := by
  rw [TokenKind.isText_eq]
  cases ht : Reader.endsText t.kind with
  | false => rfl
  | true => exact absurd (by simp [ht, Reader.lineText]) h

/-- Where a reader stands.  The number is that of the blocks around it. -/
inductive Spot where
  /-- Before a line.  `opens` tells whether the line may open a block. -/
  | start (depth : Nat) (opens : Bool)
  /-- Behind an `indent`. -/
  | fresh (depth : Nat)
  /-- Behind a token of a line. -/
  | inside (depth : Nat)
  /-- Behind a comment. -/
  | remarked (depth : Nat) (opens : Bool)

open Spot

/-- The tokens are well laid out from this spot on, and every block is closed at their end. -/
inductive Laid : Spot → List Token → Prop
  | done {b} : Laid (start 0 b) []
  | blank {n b t ts} : t.kind = .newline → Laid (start n b) ts → Laid (start n b) (t :: ts)
  | remark {n b t ts} : t.kind = .comment → Laid (remarked n b) ts → Laid (start n b) (t :: ts)
  | deeper {n t ts} : t.kind = .indent → Laid (fresh (n + 1)) ts → Laid (start n true) (t :: ts)
  | closing {n b t ts} :
    t.kind = .dedent → Laid (start n false) ts → Laid (start (n + 1) b) (t :: ts)
  | first {n b t ts} : t.kind.isText = true → (n = 0 ↔ t.position.column = 1) →
    Laid (inside n) ts → Laid (start n b) (t :: ts)
  | opened {n t ts} :
    t.kind.isText = true → t.position.column ≠ 1 → Laid (inside n) ts → Laid (fresh n) (t :: ts)
  | more {n t ts} :
    t.kind.isText = true → t.position.column ≠ 1 → Laid (inside n) ts → Laid (inside n) (t :: ts)
  | trailing {n t ts} :
    t.kind = .comment → Laid (remarked n true) ts → Laid (inside n) (t :: ts)
  | ending {n t ts} : t.kind = .newline → Laid (start n true) ts → Laid (inside n) (t :: ts)
  | remarkEnd {n b t ts} :
    t.kind = .newline → Laid (start n b) ts → Laid (remarked n b) (t :: ts)

namespace Laid

/-! ### Single tokens -/

theorem ne_nil_inside {n : Nat} {ts : List Token} (h : Laid (inside n) ts) : ts ≠ [] := by
  cases h <;> simp

theorem ne_nil_start {n : Nat} {b : Bool} {ts : List Token} (h : Laid (start (n + 1) b) ts) :
    ts ≠ [] := by
  cases h <;> simp

/-- Behind an `indent` stands a line like any other of its block. -/
theorem start_of_fresh {n : Nat} {b : Bool} {ts : List Token} (h : Laid (fresh (n + 1)) ts) :
    Laid (start (n + 1) b) ts := by
  cases h with
  | opened ht hc h => exact .first ht (by simp [hc]) h

/-- The rest of a line in a block is a line, if it has a token left. -/
theorem start_of_inside {n : Nat} {b : Bool} {t : Token} {ts : List Token}
    (h : Laid (inside (n + 1)) (t :: ts)) (ht : t.kind.isText = true) :
    Laid (start (n + 1) b) (t :: ts) := by
  cases h with
  | more _ hc h => exact .first ht (by simp [hc]) h
  | trailing hk => simp [hk, TokenKind.isText] at ht
  | ending hk => simp [hk, TokenKind.isText, TokenKind.isLayout] at ht

theorem inside_of_text {n : Nat} {t : Token} {ts : List Token}
    (h : Laid (inside n) (t :: ts)) (ht : t.kind.isText = true) : Laid (inside n) ts := by
  cases h with
  | more _ _ h => exact h
  | trailing hk => simp [hk, TokenKind.isText] at ht
  | ending hk => simp [hk, TokenKind.isText, TokenKind.isLayout] at ht

theorem inside_of_start {n : Nat} {b : Bool} {t : Token} {ts : List Token}
    (h : Laid (start n b) (t :: ts)) (ht : t.kind.isText = true) : Laid (inside n) ts := by
  cases h with
  | first _ _ h => exact h
  | blank hk => simp [hk, TokenKind.isText, TokenKind.isLayout] at ht
  | remark hk => simp [hk, TokenKind.isText] at ht
  | deeper hk => simp [hk, TokenKind.isText, TokenKind.isLayout] at ht
  | closing hk => simp [hk, TokenKind.isText, TokenKind.isLayout] at ht

/-- A list that is laid out holds no end of the input. -/
theorem kind_ne_eof {p : Spot} {ts : List Token} (h : Laid p ts) : ∀ t ∈ ts, t.kind ≠ .eof := by
  induction h with
  | done => simp
  | blank hk _ ih | remark hk _ ih | deeper hk _ ih | closing hk _ ih | trailing hk _ ih
  | ending hk _ ih | remarkEnd hk _ ih =>
    rintro u (_ | ⟨_, hu⟩)
    · simp [hk]
    · exact ih u hu
  | first ht _ _ ih | opened ht _ _ ih | more ht _ _ ih =>
    rintro u (_ | ⟨_, hu⟩)
    · rintro hk
      simp [hk, TokenKind.isText, TokenKind.isLayout] at ht
    · exact ih u hu

/-! ### Comments and blank lines -/

theorem dropNewlines {n : Nat} {b : Bool} {ts : List Token} (h : Laid (start n b) ts) :
    Laid (start n b) (ts.dropWhile fun t => t.kind == .newline) := by
  induction ts with
  | nil => exact h
  | cons t ts ih =>
    by_cases ht : t.kind = .newline
    · rw [List.dropWhile_cons_of_pos (by simp [ht])]
      cases h with
      | blank _ h => exact ih h
      | first hx => simp [ht, TokenKind.isText, TokenKind.isLayout] at hx
      | remark hk | deeper hk | closing hk => simp [ht] at hk
    · rwa [List.dropWhile_cons_of_neg (by simp [ht])]

/-- Comments and ends of lines that reach up to a `dedent` are whole lines: they may stand before
any line. -/
theorem trivia_append {l later : List Token} {d : Token} (hl : ∀ t ∈ l, t.kind.isTrivia = true)
    (hd : d.kind = .dedent) {n : Nat} {b : Bool}
    (h : Laid (start n b) (l ++ d :: later) ∨ Laid (remarked n b) (l ++ d :: later)) :
    Laid (start n b) (d :: later) ∧
      ∀ {m c rest}, Laid (start m c) rest →
        (Laid (start n b) (l ++ d :: later) → Laid (start m c) (l ++ rest)) ∧
        (Laid (remarked n b) (l ++ d :: later) → Laid (remarked m c) (l ++ rest)) := by
  induction l with
  | nil =>
    have hr : ¬ Laid (remarked n b) (d :: later) := by
      intro h
      cases h with
      | remarkEnd hk => simp [hd] at hk
    exact ⟨h.resolve_right hr, fun hr' => ⟨fun _ => hr', fun h => absurd h hr⟩⟩
  | cons t l ih =>
    have hl' : ∀ u ∈ l, u.kind.isTrivia = true := fun u hu => hl u (List.mem_cons_of_mem t hu)
    have ht := hl t List.mem_cons_self
    rcases h with h | h
    · cases h with
      | blank hk h =>
        obtain ⟨hs, hm⟩ := ih hl' (.inl h)
        refine ⟨hs, fun hr => ⟨fun _ => .blank hk ((hm hr).1 h), fun h' => ?_⟩⟩
        cases h' with
        | remarkEnd hk' _ => exact .remarkEnd hk' ((hm hr).1 h)
      | remark hk h =>
        obtain ⟨hs, hm⟩ := ih hl' (.inr h)
        refine ⟨hs, fun hr => ⟨fun _ => .remark hk ((hm hr).2 h), fun h' => ?_⟩⟩
        cases h' with
        | remarkEnd hk' _ => simp [hk] at hk'
      | deeper hk | closing hk => simp [hk, TokenKind.isTrivia] at ht
      | first hx =>
        cases hk : t.kind <;>
          simp [hk, TokenKind.isTrivia, TokenKind.isText, TokenKind.isLayout] at ht hx
    · cases h with
      | remarkEnd hk h =>
        obtain ⟨hs, hm⟩ := ih hl' (.inl h)
        exact ⟨hs, fun hr => ⟨fun _ => .blank hk ((hm hr).1 h),
          fun _ => .remarkEnd hk ((hm hr).1 h)⟩⟩

theorem dropTrivia {n : Nat} {b : Bool} {ts : List Token}
    (h : Laid (start n b) ts ∨ Laid (remarked n b) ts) :
    Laid (start n b) (ts.dropWhile (·.kind.isTrivia)) := by
  induction ts with
  | nil =>
    rcases h with h | h
    · exact h
    · cases h
  | cons t ts ih =>
    by_cases ht : t.kind.isTrivia = true
    · rw [List.dropWhile_cons, if_pos ht]
      refine ih ?_
      rcases h with h | h
      · cases h with
        | blank _ h => exact .inl h
        | remark _ h => exact .inr h
        | deeper hk | closing hk => simp [hk, TokenKind.isTrivia] at ht
        | first hx =>
          cases hk : t.kind <;>
            simp [hk, TokenKind.isTrivia, TokenKind.isText, TokenKind.isLayout] at ht hx
      · cases h with
        | remarkEnd _ h => exact .inl h
    · rw [List.dropWhile_cons, if_neg ht]
      refine h.resolve_right fun h => ?_
      cases h with
      | remarkEnd hk => simp [hk, TokenKind.isTrivia] at ht

end Laid

/-! ### Blocks that a comment ends -/

/-- The first `dedent` is the one that is moved. -/
theorem dedentFirst_of_first {l later : List Token} {d : Token}
    (hl : ∀ t ∈ l, t.kind ≠ .dedent) (hd : d.kind = .dedent) :
    dedentFirst (l ++ d :: later) = d :: (l ++ later) := by
  have hne : ∀ t ∈ l, (t.kind != .dedent) = true := fun t ht => bne_iff_ne.2 (hl t ht)
  unfold dedentFirst
  rw [List.dropWhile_append_of_pos hne, List.dropWhile_cons_of_neg (by simp [hd])]
  simp [List.takeWhile_append_of_pos hne, hd]

theorem dedentFirst_append {l later : List Token} {d : Token}
    (hl : ∀ t ∈ l, t.kind.isTrivia = true) (hd : d.kind = .dedent) :
    dedentFirst (l ++ d :: later) = d :: (l ++ later) := by
  refine dedentFirst_of_first (fun t ht hk => ?_) hd
  have := hl t ht
  simp [hk, TokenKind.isTrivia] at this

/-- Nothing but a comment ends a block. -/
theorem commentEndsBlock_of_kindOf {column : Nat} {ts : List Token} (h : kindOf ts ≠ .comment) :
    commentEndsBlock column ts = false := by
  cases ts with
  | nil => rfl
  | cons t ts =>
    have ht : (t.kind == .comment) = false := by simpa using show t.kind ≠ .comment from h
    simp [commentEndsBlock, ht]

/-- Comments that end a block reach up to its `dedent`, which is moved in front of them, or up to
the end of the input. -/
theorem dedentFirst_of_commentEndsBlock {column : Nat} {ts : List Token}
    (hc : commentEndsBlock column ts = true) (hne : ∀ t ∈ ts, t.kind ≠ .eof) :
    (∀ t ∈ ts, t.kind.isTrivia = true) ∧ dedentFirst ts = ts ∨
      ∃ l d later, ts = l ++ d :: later ∧ (∀ t ∈ l, t.kind.isTrivia = true) ∧ d.kind = .dedent ∧
        dedentFirst ts = d :: (l ++ later) := by
  have htrivia : ∀ t ∈ ts.takeWhile (·.kind.isTrivia), t.kind.isTrivia = true := fun t ht =>
    (List.all_eq_true.1 List.all_takeWhile) t ht
  have hsplit := List.takeWhile_append_dropWhile (p := (·.kind.isTrivia)) (l := ts)
  cases hd : ts.dropWhile (·.kind.isTrivia) with
  | nil =>
    rw [hd, List.append_nil] at hsplit
    rw [hsplit] at htrivia
    have all : ∀ t ∈ ts, (t.kind != .dedent) = true := fun t ht => by
      have := htrivia t ht
      cases hk : t.kind <;> simp [hk, TokenKind.isTrivia] at this ⊢
    refine .inl ⟨htrivia, ?_⟩
    rw [dedentFirst, List.dropWhile_eq_nil_iff.2 all]
  | cons d later =>
    rw [hd] at hsplit
    have he : d.kind ≠ .eof := hne d (hsplit ▸ by simp)
    have hk : d.kind = .dedent := by
      cases ts with
      | nil => cases hd
      | cons t ts =>
        simp only [commentEndsBlock, hd, kindOf, Bool.and_eq_true] at hc
        split at hc <;> simp_all
    refine .inr ⟨_, d, later, hsplit.symm, htrivia, hk, ?_⟩
    rw [← dedentFirst_append htrivia hk, hsplit]

/-- In a block, the comments that end it reach up to its `dedent`. -/
theorem exists_dedent_of_commentEndsBlock {column n : Nat} {b : Bool} {ts : List Token}
    (h : Laid (start (n + 1) b) ts) (hc : commentEndsBlock column ts = true) :
    ∃ l d later, ts = l ++ d :: later ∧ (∀ t ∈ l, t.kind.isTrivia = true) ∧ d.kind = .dedent := by
  rcases dedentFirst_of_commentEndsBlock hc h.kind_ne_eof with
    ⟨htrivia, -⟩ | ⟨l, d, later, hs, hl, hd, -⟩
  · -- a block does not end without a `dedent`
    have behind := Laid.dropTrivia (.inl h)
    rw [List.dropWhile_eq_nil_iff.2 htrivia] at behind
    cases behind
  · exact ⟨l, d, later, hs, hl, hd⟩

/-- Where a comment ends the block, the `dedent` may stand before it. -/
theorem Laid.dedentFirst {column n : Nat} {b : Bool} {ts : List Token}
    (h : Laid (start (n + 1) b) ts) (hc : commentEndsBlock column ts = true) :
    ∃ d rest, dedentFirst ts = d :: rest ∧ d.kind = .dedent ∧ Laid (start n false) rest := by
  obtain ⟨l, d, later, rfl, hl, hd⟩ := exists_dedent_of_commentEndsBlock h hc
  obtain ⟨hs, hm⟩ := Laid.trivia_append hl hd (.inl h)
  refine ⟨d, l ++ later, dedentFirst_append hl hd, hd, ?_⟩
  cases hs with
  | closing _ hs => exact (hm hs).1 h
  | blank hk | remark hk | deeper hk => simp [hd] at hk
  | first hx => simp [hd, TokenKind.isText, TokenKind.isLayout] at hx

end FlowLang
