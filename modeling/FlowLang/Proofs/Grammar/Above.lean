import FlowLang.Proofs.Grammar.Order

/-!
# A comment above a line

A comment that is a line of its own, and below it the next line with content, in the same column.
Between them stand comments, blank lines, and the marks of the lower line; an `indent` or `dedent`
of it stands behind the comment, whatever level the comment is meant for.  A reader of the tokens
has not come to the comment yet, is between the two, or is past the line.

* `NoteAbove` : the comment, the first word of the line, and the tokens behind it.
* `NoteAbove.Marked`, `Over`, `Clear` : the reader is behind the comment.
* `NoteAbove.Ahead` : the comment is ahead, and no word stands before it on its line.
* `NoteAbove.Ahead.hoist`, `Ahead.lineEnd`, … : passing tokens on the way to the comment.
* `NoteAbove.Stage`, `Stage.of_moves` : there is no fourth place, wherever reading moves.
-/

namespace FlowLang

open Reader Grammar

/-- What is ahead has been ahead before. -/
theorem Moves.mem_spots {ts rest : List Token} {q : Position} (h : Moves ts rest)
    (hq : q ∈ spots rest) : q ∈ spots ts := by
  obtain ⟨passed, he, -⟩ := h.meets
  rw [he]
  exact List.mem_append_right passed hq

/-- A comment, and the line below it in its column with all that follows. -/
structure NoteAbove where
  note : Token
  /-- The first word of the line. -/
  word : Token
  /-- The tokens behind the word. -/
  more : List Token
  note_kind : note.kind = .comment
  word_isText : word.kind.isText = true
  column : note.position.column = word.position.column
  /-- The word is where no later word is. -/
  fresh : word.position ∉ spots more

namespace NoteAbove

variable {A : NoteAbove} {t : Token} {ts us rest : List Token} {b : Bool}

/-! ### Places -/

/-- Before the line stand only the ends of levels that it closes. -/
inductive Closes (A : NoteAbove) : List Token → Prop
  | here : Closes A (A.word :: A.more)
  | dedent {d : Token} {ts : List Token} : d.kind = .dedent → Closes A ts → Closes A (d :: ts)

/-- Before the line stand only its marks: the ends of levels, or the start of one. -/
inductive Marked (A : NoteAbove) : List Token → Prop
  | closing {ts : List Token} : A.Closes ts → Marked A ts
  | opening {i : Token} : i.kind = .indent → Marked A (i :: A.word :: A.more)

/-- Before the line and its marks stand only comments and blank lines. -/
def Over (A : NoteAbove) (ts : List Token) : Prop := A.Marked (pastTrivia ts)

/-- Before the line and its marks stand only blank lines. -/
def Clear (A : NoteAbove) (ts : List Token) : Prop := A.Marked (pastNewlines ts)

/-- The comment is ahead.  The flag tells whether it may be the next token; behind a word it may
not, for it is a line of its own. -/
inductive Ahead (A : NoteAbove) : Bool → List Token → Prop
  | here {ts : List Token} : A.Over ts → Ahead A true (A.note :: ts)
  | word {b : Bool} {t : Token} {ts : List Token} : t.kind.isLayout = false → Ahead A false ts →
    Ahead A b (t :: ts)
  | newline {b : Bool} {t : Token} {ts : List Token} : t.kind = .newline → Ahead A true ts →
    Ahead A b (t :: ts)
  | level {b : Bool} {t : Token} {ts : List Token} : t.kind = .indent ∨ t.kind = .dedent →
    Ahead A b ts → Ahead A b (t :: ts)

/-- The word has not been passed. -/
def Pending (A : NoteAbove) (ts : List Token) : Prop := A.word.position ∈ spots ts

/-! ### Behind the comment -/

/-- The marks of the line are no trivia. -/
theorem Marked.isTrivia_kindOf (h : A.Marked ts) : (kindOf ts).isTrivia = false := by
  cases h with
  | closing h =>
    cases h with
    | here => exact TokenKind.isTrivia_of_isText A.word_isText
    | dedent hd => simp [kindOf, hd, TokenKind.isTrivia]
  | opening hi => simp [kindOf, hi, TokenKind.isTrivia]

theorem Marked.kindOf_ne_eof (h : A.Marked ts) : kindOf ts ≠ .eof := by
  cases h with
  | closing h =>
    cases h with
    | here => exact TokenKind.ne_of_isText A.word_isText rfl
    | dedent hd => simp [kindOf, hd]
  | opening hi => simp [kindOf, hi]

/-- The first word is that of the line. -/
theorem Marked.text (h : A.Marked (t :: ts)) (ht : t.kind.isText = true) :
    t = A.word ∧ ts = A.more := by
  cases h with
  | closing h =>
    cases h with
    | here => exact ⟨rfl, rfl⟩
    | dedent hd => exact absurd hd (TokenKind.ne_of_isText ht rfl)
  | opening hi => exact absurd hi (TokenKind.ne_of_isText ht rfl)

/-- Behind an `indent` stands the line. -/
theorem Marked.indent (h : A.Marked (t :: ts)) (ht : t.kind = .indent) :
    ts = A.word :: A.more := by
  cases h with
  | closing h =>
    cases h with
    | here => exact absurd ht (TokenKind.ne_of_isText A.word_isText rfl)
    | dedent hd => simp [ht] at hd
  | opening => rfl

/-- Behind a `dedent` stand more of them, or the line. -/
theorem Marked.dedent (h : A.Marked (t :: ts)) (ht : t.kind = .dedent) : A.Marked ts := by
  cases h with
  | closing h =>
    cases h with
    | here => exact absurd ht (TokenKind.ne_of_isText A.word_isText rfl)
    | dedent _ h => exact .closing h
  | opening hi => simp [ht] at hi

theorem Marked.clear (h : A.Marked ts) : A.Clear ts := by
  rwa [Clear, pastNewlines_eq h.isTrivia_kindOf]

theorem Marked.over (h : A.Marked ts) : A.Over ts := by
  rwa [Over, pastTrivia_eq h.isTrivia_kindOf]

/-- What is behind blank lines is behind them and comments. -/
theorem pastTrivia_pastNewlines (ts : List Token) :
    pastTrivia (pastNewlines ts) = pastTrivia ts := by
  induction ts with
  | nil => rfl
  | cons t ts ih =>
    by_cases ht : t.kind = .newline
    · have hn : pastNewlines (t :: ts) = pastNewlines ts :=
        List.dropWhile_cons_of_pos (by simp [ht])
      rw [hn, ih, pastTrivia_cons (by rw [ht]; rfl)]
    · rw [pastNewlines, List.dropWhile_cons_of_neg (by simp [ht])]

theorem Clear.pastTrivia_eq (h : A.Clear ts) : pastTrivia ts = pastNewlines ts := by
  rw [← pastTrivia_pastNewlines, FlowLang.pastTrivia_eq h.isTrivia_kindOf]

theorem Clear.over (h : A.Clear ts) : A.Over ts := by
  rwa [Over, h.pastTrivia_eq]

/-- The end of a line is trivia. -/
theorem pastTrivia_of_lineEnd (h : LineEnd ts rest) : pastTrivia ts = pastTrivia rest := by
  cases h with
  | line hn => exact pastTrivia_cons (by rw [hn]; rfl)
  | input => rfl
  | commentLine hc hn => rw [pastTrivia_cons (by rw [hc]; rfl), pastTrivia_cons (by rw [hn]; rfl)]
  | commentInput hc => exact pastTrivia_cons (by rw [hc]; rfl)

theorem Over.lineEnd (h : A.Over ts) (he : LineEnd ts rest) : A.Over rest := by
  rwa [Over, ← pastTrivia_of_lineEnd he]

/-! ### The word -/

theorem Pending.of_moves (h : A.Pending rest) (hm : Moves ts rest) : A.Pending ts :=
  hm.mem_spots h

/-- The word does not stand behind itself. -/
theorem not_pending (h : Moves A.more rest) : ¬ A.Pending rest := fun hp => A.fresh (hp.of_moves h)

/-- Behind the first word the line has been come to. -/
theorem Marked.not_pending (h : A.Marked (t :: ts)) (ht : t.kind.isText = true)
    (hm : Moves ts rest) : ¬ A.Pending rest := by
  obtain ⟨-, rfl⟩ := h.text ht
  exact NoteAbove.not_pending hm

theorem Closes.pending (h : A.Closes ts) : A.Pending ts := by
  induction h with
  | here => simp [Pending, spots_text A.word_isText]
  | dedent hd _ ih => exact ih.of_moves (.advance (by simp [hd]))

theorem Marked.pending (h : A.Marked ts) : A.Pending ts := by
  cases h with
  | closing h => exact h.pending
  | opening hi => exact Closes.here.pending.of_moves (.advance (by simp [hi]))

theorem Over.pending (h : A.Over ts) : A.Pending ts := Marked.pending h |>.of_moves .pastTrivia

/-- Behind a comment that ends its block stands a `dedent`, if not the end of the input. -/
theorem kindOf_of_commentEndsBlock {column : Nat} (h : commentEndsBlock column ts = true)
    (he : kindOf (pastTrivia ts) ≠ .eof) : kindOf (pastTrivia ts) = .dedent := by
  cases ts with
  | nil => cases h
  | cons t ts =>
    simp only [commentEndsBlock, Bool.and_eq_true] at h
    split at h <;> simp_all

/-! ### On the way to the comment -/

namespace Ahead

theorem mono (h : A.Ahead b ts) : A.Ahead true ts := by
  induction h with
  | here ho => exact .here ho
  | word ht h => exact .word ht h
  | newline ht h => exact .newline ht h
  | level ht _ ih => exact .level ht ih

/-- A word or a comment is passed: it is the comment, or the comment does not follow at once. -/
theorem past_word (h : A.Ahead b (t :: ts)) (ht : t.kind.isLayout = false) :
    t = A.note ∧ A.Over ts ∨ A.Ahead false ts := by
  cases h with
  | here ho => exact .inl ⟨rfl, ho⟩
  | word _ h => exact .inr h
  | newline hk => simp [hk, TokenKind.isLayout] at ht
  | level hk => rcases hk with hk | hk <;> simp [hk, TokenKind.isLayout] at ht

theorem past_text (h : A.Ahead b (t :: ts)) (ht : t.kind.isText = true) : A.Ahead false ts := by
  rcases h.past_word (TokenKind.isLayout_of_isText ht) with ⟨rfl, -⟩ | h
  · exact absurd A.note_kind (TokenKind.ne_of_isText ht rfl)
  · exact h

/-- Past a word of some kind. -/
theorem next {k : TokenKind} (h : A.Ahead b (t :: ts)) (hk : t.kind = k) (ht : k.isText = true) :
    A.Ahead false ts := h.past_text (hk ▸ ht)

theorem past_newline (h : A.Ahead b (t :: ts)) (ht : t.kind = .newline) : A.Ahead true ts := by
  cases h with
  | here => simp [A.note_kind] at ht
  | word hk => simp [ht, TokenKind.isLayout] at hk
  | newline _ h => exact h
  | level hk => simp [ht] at hk

theorem past_level (h : A.Ahead b (t :: ts)) (ht : t.kind = .indent ∨ t.kind = .dedent) :
    A.Ahead b ts := by
  cases h with
  | here => simp [A.note_kind] at ht
  | word hk => rcases ht with ht | ht <;> simp [ht, TokenKind.isLayout] at hk
  | newline hk => simp [hk] at ht
  | level _ h => exact h

theorem kindOf_ne_eof (h : A.Ahead b ts) : kindOf ts ≠ .eof := by
  cases h with
  | here => simp [kindOf, A.note_kind]
  | word hk =>
    intro he
    simp [show Token.kind _ = .eof from he, TokenKind.isLayout] at hk
  | newline hk => simp [kindOf, hk]
  | level hk => rcases hk with hk | hk <;> simp [kindOf, hk]

theorem pastNewlines (h : A.Ahead true ts) : A.Ahead true (pastNewlines ts) := by
  induction ts with
  | nil => exact h
  | cons t ts ih =>
    by_cases ht : t.kind = .newline
    · rw [Grammar.pastNewlines, List.dropWhile_cons_of_pos (by simp [ht])]
      exact ih (h.past_newline ht)
    · rwa [Grammar.pastNewlines, List.dropWhile_cons_of_neg (by simp [ht])]

/-- Where comments are passed over, this one may be lost. -/
theorem pastTrivia (h : A.Ahead true ts) :
    A.Ahead true (pastTrivia ts) ∨ A.Marked (Grammar.pastTrivia ts) := by
  induction ts with
  | nil => exact .inl h
  | cons t ts ih =>
    cases ht : t.kind.isTrivia with
    | true =>
      have hk : t.kind = .newline ∨ t.kind = .comment := by
        cases hk : t.kind <;> simp [hk, TokenKind.isTrivia] at ht ⊢
      rw [pastTrivia_cons ht]
      rcases hk with hk | hk
      · exact ih (h.past_newline hk)
      · rcases h.past_word (by simp [hk, TokenKind.isLayout]) with ⟨-, ho⟩ | h
        · exact .inr ho
        · exact ih h.mono
    | false =>
      rw [pastTrivia_eq (show (kindOf (t :: ts)).isTrivia = false from ht)]
      exact .inl h

/-- Where an `indent` stands behind comments, they may be above the line that it indents. -/
theorem indented {i : Token} (h : A.Ahead true ts) (hts : Grammar.pastTrivia ts = i :: us)
    (hi : i.kind = .indent) : A.Ahead true us ∨ us = A.word :: A.more := by
  rcases h.pastTrivia with h | hm
  · exact .inl ((hts ▸ h).past_level (.inl hi))
  · exact .inr ((hts ▸ hm).indent hi)

/-- Past what is left of a line. -/
theorem pastLine (h : A.Ahead false ts) : A.Ahead false (pastLine ts) := by
  induction ts with
  | nil => exact h
  | cons t ts ih =>
    by_cases ht : t.kind.isText = true
    · rw [Grammar.pastLine, List.dropWhile_cons, if_pos (by rwa [← TokenKind.isText_eq])]
      exact ih (h.past_text ht)
    · rwa [Grammar.pastLine, List.dropWhile_cons, if_neg (by rwa [← TokenKind.isText_eq])]

/-- A comment behind a line is another one. -/
theorem lineEnd (h : A.Ahead false ts) (he : LineEnd ts rest) : A.Ahead true rest := by
  have past : ∀ {c us}, c.kind = .comment → A.Ahead false (c :: us) → A.Ahead false us := by
    rintro c us hc h
    cases h with
    | word _ h => exact h
    | newline hk | level hk => simp [hc] at hk
  cases he with
  | line hn => exact h.past_newline hn
  | input he => exact absurd he h.kindOf_ne_eof
  | commentLine hc hn => exact (past hc h).past_newline hn
  | commentInput hc he => exact absurd he (past hc h).kindOf_ne_eof

/-- The positions of the comment and of the word are ahead, one behind the other. -/
theorem sublist_spots (h : A.Ahead b ts) :
    [A.note.position, A.word.position].Sublist (spots ts) := by
  induction h with
  | here ho =>
    rw [spots_comment A.note_kind]
    exact .cons_cons _ (List.singleton_sublist.2 ho.pending)
  | @word _ t ts ht _ ih =>
    by_cases hc : t.kind = .comment
    · exact spots_comment hc ▸ ih.cons _
    · have text : t.kind.isText = true := by simp [TokenKind.isText, ht, hc]
      exact spots_text text ▸ ih.cons _
  | newline hk _ ih => rwa [spots_layout] <;> simp [hk, TokenKind.isText, TokenKind.isLayout]
  | level hk _ ih =>
    rcases hk with hk | hk
    all_goals rwa [spots_layout] <;> simp [hk, TokenKind.isText, TokenKind.isLayout]

theorem pending (h : A.Ahead b ts) : A.Pending ts := h.sublist_spots.subset (by simp)

/-- Up to a `dedent` behind comments nothing but trivia stands, so it closes no level for the line
below unless the comment is among them. -/
theorem drop_dedent {l later : List Token} {d : Token} (hl : ∀ t ∈ l, t.kind.isTrivia = true)
    (hd : d.kind = .dedent) (h : A.Ahead b (l ++ d :: later)) : A.Ahead b (l ++ later) := by
  induction l generalizing b with
  | nil => exact h.past_level (.inr hd)
  | cons t l ih =>
    obtain ⟨ht, htl⟩ := List.forall_mem_cons.1 hl
    rw [List.cons_append] at h ⊢
    have behind : ∀ us, Grammar.pastTrivia (l ++ us) = Grammar.pastTrivia us := fun us =>
      List.dropWhile_append_of_pos htl
    cases h with
    | here ho =>
      rw [Over, behind, FlowLang.pastTrivia_eq (by simp [kindOf, hd, TokenKind.isTrivia])] at ho
      refine .here ?_
      rw [Over, behind]
      exact (ho.dedent hd).over
    | word hk h => exact .word hk (ih htl h)
    | newline hk h => exact .newline hk (ih htl h)
    | level hk => rcases hk with hk | hk <;> simp [hk, TokenKind.isTrivia] at ht

/-- Where a comment ends its block, the `dedent` may stand before it. -/
theorem hoist {column : Nat} (h : A.Ahead b ts) (hc : commentEndsBlock column ts = true) :
    A.Ahead b (dedentFirst ts) := by
  have htrivia : ∀ t ∈ ts.takeWhile (·.kind.isTrivia), t.kind.isTrivia = true := fun t ht =>
    (List.all_eq_true.1 List.all_takeWhile) t ht
  have hsplit := List.takeWhile_append_dropWhile (p := (·.kind.isTrivia)) (l := ts)
  have hne : kindOf (Grammar.pastTrivia ts) ≠ .eof := by
    rcases h.mono.pastTrivia with h | h
    · exact h.kindOf_ne_eof
    · exact h.kindOf_ne_eof
  obtain ⟨d, later, hd, hk⟩ := exists_of_kindOf (kindOf_of_commentEndsBlock hc hne) (by decide)
  rw [show ts.dropWhile _ = d :: later from hd] at hsplit
  rw [← hsplit] at h ⊢
  generalize ts.takeWhile (·.kind.isTrivia) = l at htrivia h
  rw [dedentFirst_append htrivia hk]
  exact .level (.inr hk) (h.drop_dedent htrivia hk)

end Ahead

/-! ### Wherever reading moves -/

/-- The comment has been passed, and the word is the next one. -/
def Between (A : NoteAbove) (ts : List Token) : Prop :=
  ∃ front : List Token, ts = front ++ A.word :: A.more ∧
    ∀ t ∈ front, t.kind.isText = false ∧ t.kind ≠ .eof

theorem Closes.between (h : A.Closes ts) : A.Between ts := by
  induction h with
  | here => exact ⟨[], rfl, List.forall_mem_nil _⟩
  | @dedent d _ hd _ ih =>
    obtain ⟨front, rfl, hf⟩ := ih
    refine ⟨d :: front, rfl, List.forall_mem_cons.2 ⟨?_, hf⟩⟩
    simp [hd, TokenKind.isText, TokenKind.isLayout]

theorem Over.between (h : A.Over ts) : A.Between ts := by
  have marked : ∀ {us}, A.Marked us → A.Between us := fun h => by
    cases h with
    | closing h => exact h.between
    | @opening i hi =>
      exact ⟨[i], rfl, by simp [hi, TokenKind.isText, TokenKind.isLayout]⟩
  obtain ⟨front, he, hf⟩ := marked h
  refine ⟨ts.takeWhile (·.kind.isTrivia) ++ front, ?_,
    List.forall_mem_append.2 ⟨fun t ht => ?_, hf⟩⟩
  · rw [List.append_assoc, ← he, List.takeWhile_append_dropWhile]
  · have trivia := (List.all_eq_true.1 List.all_takeWhile) t ht
    refine ⟨TokenKind.not_isText_of_isTrivia trivia, fun he => ?_⟩
    simp [he, TokenKind.isTrivia] at trivia

/-- What is no trivia before the word is among the tokens passed up to it. -/
theorem exists_mem_of_pastTrivia {front : List Token} {k : TokenKind}
    (h : kindOf (pastTrivia (front ++ A.word :: A.more)) = k) (hk : k.isText = false) :
    ∃ t ∈ front, t.kind = k := by
  induction front with
  | nil =>
    have hw : (kindOf (A.word :: A.more)).isTrivia = false :=
      TokenKind.isTrivia_of_isText A.word_isText
    rw [List.nil_append, pastTrivia_eq hw] at h
    exact absurd h (TokenKind.ne_of_isText A.word_isText hk)
  | cons t front ih =>
    rw [List.cons_append] at h
    cases ht : t.kind.isTrivia with
    | true =>
      rw [pastTrivia_cons ht] at h
      exact (ih h).imp fun _ hu => ⟨List.mem_cons_of_mem _ hu.1, hu.2⟩
    | false =>
      rw [pastTrivia_eq (show (kindOf (t :: _)).isTrivia = false from ht)] at h
      exact ⟨t, List.mem_cons_self, h⟩

theorem Between.hoist {column : Nat} (h : A.Between ts) (hc : commentEndsBlock column ts = true) :
    A.Between (dedentFirst ts) := by
  obtain ⟨front, rfl, hf⟩ := h
  have hne : kindOf (pastTrivia (front ++ A.word :: A.more)) ≠ .eof := fun he => by
    obtain ⟨t, ht, hk⟩ := exists_mem_of_pastTrivia he rfl
    exact (hf t ht).2 hk
  obtain ⟨e, he, hk⟩ := exists_mem_of_pastTrivia (kindOf_of_commentEndsBlock hc hne) rfl
  rcases exists_first_dedent front with hnone | ⟨before, d, later, rfl, hb, hd⟩
  · exact absurd hk (hnone e he)
  · rw [List.append_assoc, List.cons_append, dedentFirst_of_first hb hd]
    refine ⟨d :: (before ++ later), by simp, ?_⟩
    simpa only [List.forall_mem_append, List.forall_mem_cons, and_left_comm] using hf

theorem Between.advance (h : A.Between (t :: ts)) :
    t.kind.isText = false ∧ A.Between ts ∨ t = A.word ∧ ts = A.more := by
  obtain ⟨front, he, hf⟩ := h
  cases front with
  | nil => exact .inr (List.cons.inj he)
  | cons u front =>
    obtain ⟨rfl, rfl⟩ := List.cons.inj he
    obtain ⟨hu, hf⟩ := List.forall_mem_cons.1 hf
    exact .inl ⟨hu.1, front, rfl, hf⟩

theorem Between.pending (h : A.Between ts) : A.Pending ts := by
  obtain ⟨front, rfl, hf⟩ := h
  induction front with
  | nil => exact Closes.here.pending
  | cons t front ih =>
    obtain ⟨ht, hf⟩ := List.forall_mem_cons.1 hf
    exact (ih hf).of_moves (.advance ht.2)

/-- Where reading may have come to: the comment is ahead, it has just been passed, or the line has
been come to as well. -/
def Stage (A : NoteAbove) (ts : List Token) : Prop :=
  (∃ b, A.Ahead b ts) ∨ A.Between ts ∨ ¬ A.Pending ts

theorem Stage.advance (h : A.Stage (t :: ts)) (ht : t.kind ≠ .eof) : A.Stage ts := by
  rcases h with ⟨b, h⟩ | h | h
  · cases h with
    | here ho => exact .inr (.inl ho.between)
    | word _ h | newline _ h | level _ h => exact .inl ⟨_, h⟩
  · rcases h.advance with ⟨-, h⟩ | ⟨-, rfl⟩
    · exact .inr (.inl h)
    · exact .inr (.inr (not_pending .refl))
  · exact .inr (.inr fun hp => h (hp.of_moves (.advance ht)))

/-- There is no fourth place. -/
theorem Stage.of_moves (h : A.Stage ts) (hm : Moves ts us) : A.Stage us := by
  induction hm with
  | refl => exact h
  | tail _ hm ih =>
    cases hm with
    | advance ht => exact ih.advance ht
    | hoist hc =>
      rcases ih with ⟨b, ih⟩ | ih | ih
      · exact .inl ⟨b, ih.hoist hc⟩
      · exact .inr (.inl (ih.hoist hc))
      · exact .inr (.inr fun hp => ih (hp.of_moves (.single (.hoist hc))))

/-- Behind a word within a line the comment is still ahead, or the line has been come to. -/
theorem Stage.text (h : A.Stage (t :: ts)) (ht : t.kind.isText = true) :
    A.Ahead false ts ∨ ¬ A.Pending ts := by
  rcases h with ⟨b, h⟩ | h | h
  · exact .inl (h.past_text ht)
  · rcases h.advance with ⟨hn, -⟩ | ⟨-, rfl⟩
    · simp [ht] at hn
    · exact .inr (not_pending .refl)
  · exact .inr fun hp => h (hp.of_moves (.advance (TokenKind.ne_of_isText ht rfl)))

end NoteAbove

end FlowLang
