import FlowLang.Proofs.Grammar.Basic
import FlowLang.Proofs.Grammar.Moves
import FlowLang.Proofs.Token.Laid
import Mathlib.Data.List.Perm.Subperm

/-!
# Texts that part

Two texts start with the same lines.  The first one ends behind them, the second one goes on.  They
have the words of these lines in common.  The comments and blank lines behind the last of these
words are in both texts too, but what they belong to depends on what follows; behind them, there is
only what the second text has alone.

* `Fork` : the tokens where two texts part.
* `Fork.Same` : what is left of both texts, with common words or right behind them.
* `Fork.Behind`, `Fork.Past` : what is left of the second text behind the common words, and behind
  the common lines.
* `Fork.Near`, `Fork.Lost` : positions and faults in what only the second text has.
-/

namespace FlowLang

open Reader Grammar

/-! ### Lines without words -/

/-- Ends of lines, some with a comment before them. -/
inductive BlankLines : List Token → Prop
  | nil : BlankLines []
  | blank {n ts} : n.kind = .newline → BlankLines ts → BlankLines (n :: ts)
  | remark {c n ts} : c.kind = .comment → n.kind = .newline → BlankLines ts →
    BlankLines (c :: n :: ts)

namespace BlankLines

variable {ts : List Token}

theorem isTrivia (h : BlankLines ts) : ∀ t ∈ ts, t.kind.isTrivia = true := by
  induction h with
  | nil => simp
  | blank hn _ ih => exact List.forall_mem_cons.2 ⟨by simp [hn, TokenKind.isTrivia], ih⟩
  | remark hc hn _ ih =>
    exact List.forall_mem_cons.2 ⟨by simp [hc, TokenKind.isTrivia],
      List.forall_mem_cons.2 ⟨by simp [hn, TokenKind.isTrivia], ih⟩⟩

theorem append {us : List Token} (h : BlankLines ts) (hu : BlankLines us) :
    BlankLines (ts ++ us) := by
  induction h with
  | nil => exact hu
  | blank hn _ ih => exact .blank hn ih
  | remark hc hn _ ih => exact .remark hc hn ih

end BlankLines

/-- Where a comment ends a block and there are words further on, there is a `dedent` before them. -/
theorem exists_dedent_before_word (front us : List Token) {column : Nat} {ts : List Token}
    (hf : ∀ t ∈ front, t.kind.isTrivia = true) (he : ∀ t ∈ ts, t.kind ≠ .eof)
    (hw : ∃ t ∈ ts, t.kind.isText = true)
    (hc : commentEndsBlock column (front ++ (ts ++ us)) = true) :
    ∃ trivia d later, ts = trivia ++ d :: later ∧ (∀ t ∈ trivia, t.kind.isTrivia = true) ∧
      d.kind = .dedent := by
  have htrivia : ∀ t ∈ ts.takeWhile (·.kind.isTrivia), t.kind.isTrivia = true := fun t ht =>
    (List.all_eq_true.1 List.all_takeWhile) t ht
  have hsplit := List.takeWhile_append_dropWhile (p := (·.kind.isTrivia)) (l := ts)
  cases hd : ts.dropWhile (·.kind.isTrivia) with
  | nil =>
    obtain ⟨t, ht, htext⟩ := hw
    rw [hd, List.append_nil] at hsplit
    rw [← hsplit] at ht
    exact absurd ((TokenKind.isTrivia_of_isText htext).symm.trans (htrivia t ht)) (by decide)
  | cons d later =>
    rw [hd] at hsplit
    refine ⟨_, d, later, hsplit.symm, htrivia, ?_⟩
    have hdk : d.kind.isTrivia = false := by
      simpa [hd] using List.head?_dropWhile_not (·.kind.isTrivia) ts
    have hpast : (front ++ (ts ++ us)).dropWhile (·.kind.isTrivia) = d :: (later ++ us) := by
      rw [List.dropWhile_append_of_pos hf, ← hsplit, List.append_assoc,
        List.dropWhile_append_of_pos htrivia, List.cons_append,
        List.dropWhile_cons_of_neg (by simp [hdk])]
    have hne : d.kind ≠ .eof := he d (hsplit ▸ by simp)
    cases hall : front ++ (ts ++ us) with
    | nil => simp [hall, commentEndsBlock] at hc
    | cons t vs =>
      rw [hall] at hpast hc
      simp only [commentEndsBlock, hpast, kindOf, Bool.and_eq_true] at hc
      revert hc
      split <;> simp_all

/-! ### Where texts part -/

/-- The tokens where two texts part. -/
structure Fork where
  /-- The end of the first text. -/
  stop : Position
  /-- The end of the second text. -/
  stop' : Position
  /-- The comments and blank lines behind the last word that both texts have. -/
  trail : List Token
  /-- The ends of blocks behind the first text. -/
  closing : List Token
  /-- What the second text has behind the common lines. -/
  later : List Token
  trail_ne_nil : trail ≠ []
  blankLines : BlankLines trail
  kind_of_mem_closing : ∀ t ∈ closing, t.kind = .dedent
  kind_of_mem_later : ∀ t ∈ later, t.kind ≠ .eof
  exists_word : ∃ t ∈ later, t.kind.isText = true

namespace Fork

variable (F : Fork)

/-- What is left of both texts where they have words in common, or right behind them. -/
def Same (ts us : List Token) : Prop :=
  ∃ words, ts = words ++ (F.trail ++ F.closing) ∧ us = words ++ (F.trail ++ F.later) ∧
    (∀ t ∈ words, t.kind ≠ .eof) ∧ ∀ t ∈ words.getLast?, t.kind.isText = true

/-- What is left of the second text behind all common lines. -/
def Past (us : List Token) : Prop := us.Subperm F.later

/-- What is left of the second text behind the common words.  As long as some of the common lines are
left, only ends of blocks can have been taken from behind them. -/
def Behind (us : List Token) : Prop :=
  ∃ front back, us = front ++ back ∧ BlankLines front ∧ F.Past back ∧
    (front = [] ∨ ∃ t ∈ back, t.kind.isText = true)

/-- What is left of the second text at the end of a block. -/
def Ended (us : List Token) : Prop :=
  F.Past us ∨ ∃ d later, us = d :: later ∧ d.kind = .dedent ∧ F.Behind later

/-- A position in what only the second text has. -/
def Near (p : Position) : Prop := p = F.stop' ∨ TokenAt F.later p

/-- A fault in what only the second text has. -/
def Lost (f : Fault) : Prop := F.Near f.position ∧ F.Past f.rest

/-- Nothing but comments, ends of lines and ends of blocks. -/
def Spent (ts : List Token) : Prop := ∀ t ∈ ts, t.kind.isTrivia = true ∨ t.kind = .dedent

/-- So is the first text behind the common words. -/
theorem spent_end : Spent (F.trail ++ F.closing) := fun t ht =>
  (List.mem_append.1 ht).imp (F.blankLines.isTrivia t) (F.kind_of_mem_closing t)

variable {F} {ts us : List Token}

theorem Spent.dropWhile (h : Spent ts) (p : Token → Bool) : Spent (ts.dropWhile p) := fun t ht =>
  h t ((List.dropWhile_sublist p).mem ht)

/-- Behind comments and ends of lines there is the end of a block, or of the text. -/
theorem Spent.kindOf_pastTrivia (h : Spent ts) :
    kindOf (pastTrivia ts) = .dedent ∨ kindOf (pastTrivia ts) = .eof := by
  cases hd : pastTrivia ts with
  | nil => exact .inr rfl
  | cons t us =>
    have ht : t.kind.isTrivia = false := by
      simpa [hd] using List.head?_dropWhile_not (·.kind.isTrivia) ts
    rcases h.dropWhile _ t (hd ▸ List.mem_cons_self) with h | h
    · rw [h] at ht
      cases ht
    · exact .inl h

/-! ### The second text -/

namespace Past

theorem tail (h : F.Past us) : F.Past us.tail := (List.tail_sublist us).subperm.trans h

theorem dropWhile (h : F.Past us) (p : Token → Bool) : F.Past (us.dropWhile p) :=
  (List.dropWhile_sublist p).subperm.trans h

theorem behind (h : F.Past us) : F.Behind us := ⟨[], us, rfl, .nil, h, .inl rfl⟩

theorem near (h : F.Past us) : F.Near (placeOf F.stop' us) := by
  cases us with
  | nil => exact .inl rfl
  | cons t us => exact .inr ⟨t, h.subset List.mem_cons_self, rfl⟩

end Past

/-- The second text beside itself, behind the common lines. -/
def past (F : Fork) : Likeness where
  stop := F.stop'
  stop' := F.stop'
  Like ts us := us = ts ∧ F.Past ts
  near := F.Near
  next := by
    rintro t ts us ⟨rfl, h⟩ -
    exact ⟨ts, rfl, rfl, h.tail⟩
  ended := by
    rintro ts us ⟨rfl, -⟩ hk
    exact ⟨hk, rfl⟩
  in_sight := by
    rintro ts us ⟨rfl, h⟩
    exact h.near
  hoist := by
    rintro ts us column ⟨rfl, h⟩ -
    exact ⟨rfl, (dedentFirst_perm us).subperm.trans h⟩

namespace Behind

theorem past_of_kindOf (h : F.Behind us) (hk : (kindOf us).isTrivia = false) : F.Past us := by
  obtain ⟨front, back, rfl, hf, hb, -⟩ := h
  cases hf with
  | nil => exact hb
  | blank hn => simp [kindOf, hn, TokenKind.isTrivia] at hk
  | remark hc => simp [kindOf, hc, TokenKind.isTrivia] at hk

theorem pastTrivia (h : F.Behind us) : F.Past (pastTrivia us) := by
  obtain ⟨front, back, rfl, hf, hb, -⟩ := h
  rw [Grammar.pastTrivia, List.dropWhile_append_of_pos hf.isTrivia]
  exact hb.dropWhile _

theorem pastNewlines (h : F.Behind us) : F.Behind (pastNewlines us) := by
  obtain ⟨front, back, rfl, hf, hb, hword⟩ := h
  induction hf with
  | nil => exact (hb.dropWhile _).behind
  | blank hn _ ih =>
    rw [Grammar.pastNewlines, List.cons_append, List.dropWhile_cons_of_pos (by simp [hn])]
    exact ih (.inr (hword.resolve_left (List.cons_ne_nil _ _)))
  | @remark c n front hc hn hf =>
    rw [Grammar.pastNewlines, List.cons_append, List.dropWhile_cons_of_neg (by simp [hc])]
    exact ⟨c :: n :: front, back, rfl, .remark hc hn hf, hb, hword⟩

/-- Where a comment ends a block, the end of the block is moved in front of it. -/
theorem hoist (h : F.Behind us) {column : Nat} (hc : commentEndsBlock column us = true) :
    F.Ended (dedentFirst us) := by
  obtain ⟨front, back, rfl, hf, hb, rfl | ⟨t, ht, htext⟩⟩ := h
  · exact .inl ((dedentFirst_perm _).subperm.trans hb)
  obtain ⟨trivia, d, later, rfl, htrivia, hd⟩ := exists_dedent_before_word front []
    hf.isTrivia (fun t ht => F.kind_of_mem_later t (hb.subset ht)) ⟨t, ht, htext⟩
    (by rwa [List.append_nil])
  have hne : ∀ t ∈ front ++ trivia, t.kind ≠ .dedent := fun t ht hk => by
    rcases List.mem_append.1 ht with ht | ht
    · simpa [hk, TokenKind.isTrivia] using hf.isTrivia t ht
    · simpa [hk, TokenKind.isTrivia] using htrivia t ht
  rw [← List.append_assoc, dedentFirst_of_first hne hd, List.append_assoc]
  refine .inr ⟨d, _, rfl, hd, front, trivia ++ later, rfl, hf, ?_, .inr ⟨t, ?_, htext⟩⟩
  · exact ((List.sublist_cons_self d later).append_left trivia).subperm.trans hb
  · rcases List.mem_append.1 ht with ht | ht
    · exact List.mem_append_left _ ht
    · rcases List.mem_cons.1 ht with rfl | ht
      · rw [hd] at htext
        cases htext
      · exact List.mem_append_right _ ht

end Behind

/-! ### Both texts -/

namespace Same

/-- Where no common word is left, only the comments and blank lines behind them are the same. -/
theorem of_spent (h : F.Same ts us) (hs : Spent ts) :
    ts = F.trail ++ F.closing ∧ us = F.trail ++ F.later := by
  obtain ⟨words, rfl, rfl, -, hw⟩ := h
  cases hl : words.getLast? with
  | none =>
    rw [List.getLast?_eq_none_iff.1 hl]
    exact ⟨rfl, rfl⟩
  | some t =>
    -- a last word is no comment, and opens or ends no block
    have ht := hw t hl
    rcases hs t (List.mem_append_left _ (List.mem_of_getLast? hl)) with h | h
    · rw [TokenKind.isTrivia_of_isText ht] at h
      cases h
    · rw [h] at ht
      cases ht

theorem behind (h : F.Same ts us) (hs : Spent ts) : F.Behind us :=
  ⟨F.trail, F.later, (h.of_spent hs).2, F.blankLines, .refl _, .inr F.exists_word⟩

/-- Up to the last common word, every token is passed by both. -/
theorem next (h : F.Same ts us) (hs : ¬ Spent ts) : ∃ t ts' us', ts = t :: ts' ∧ us = t :: us' ∧
    t.kind ≠ .eof ∧ F.Same ts' us' ∧ (t.kind.isTrivia = true → ¬ Spent ts') := by
  obtain ⟨words, rfl, rfl, he, hw⟩ := h
  cases words with
  | nil => exact absurd F.spent_end hs
  | cons t words =>
    obtain ⟨ht, he⟩ := List.forall_mem_cons.1 he
    refine ⟨t, _, _, rfl, rfl, ht, ⟨words, rfl, rfl, he, fun u hu => hw u ?_⟩, fun ht h => hs ?_⟩
    · cases words with
      | nil => cases hu
      | cons => exact hu
    · exact List.forall_mem_cons.2 ⟨.inl ht, h⟩

/-- The current token is the same. -/
theorem exists_head (h : F.Same ts us) : ∃ t ts' us', ts = t :: ts' ∧ us = t :: us' ∧
    t.kind ≠ .eof ∧ (Spent ts → t.kind.isTrivia = true) := by
  by_cases hs : Spent ts
  · obtain ⟨rfl, rfl⟩ := h.of_spent hs
    obtain ⟨t, trail, htrail⟩ := List.exists_cons_of_ne_nil F.trail_ne_nil
    have ht := F.blankLines.isTrivia t (htrail ▸ List.mem_cons_self)
    rw [htrail]
    exact ⟨t, _, _, rfl, rfl, fun hk => by simp [hk, TokenKind.isTrivia] at ht, fun _ => ht⟩
  · obtain ⟨t, ts, us, rfl, rfl, ht, -⟩ := h.next hs
    exact ⟨t, ts, us, rfl, rfl, ht, fun h => absurd h hs⟩

/-- More is left of the second text than what only this text has. -/
theorem length_lt (h : F.Same ts us) : F.later.length < us.length := by
  obtain ⟨words, -, rfl, -⟩ := h
  have := List.length_pos_iff.2 F.trail_ne_nil
  simp only [List.length_append]
  omega

theorem kindOf_eq (h : F.Same ts us) : kindOf us = kindOf ts := by
  obtain ⟨t, ts, us, rfl, rfl, -⟩ := h.exists_head
  rfl

theorem kindOf_ne_eof (h : F.Same ts us) : kindOf ts ≠ .eof := by
  obtain ⟨t, ts, us, rfl, rfl, ht, -⟩ := h.exists_head
  exact ht

theorem not_spent (h : F.Same ts us) (ht : (kindOf ts).isTrivia = false) : ¬ Spent ts := by
  obtain ⟨t, ts, us, rfl, rfl, -, hs⟩ := h.exists_head
  intro h
  exact absurd ((hs h).symm.trans ht) (by decide)

/-- So are comments and ends of lines. -/
theorem dropWhile {p : TokenKind → Bool} (hp : ∀ k, p k = true → k.isTrivia = true)
    (h : F.Same ts us) (hs : ¬ Spent ts) :
    F.Same (ts.dropWhile fun t => p t.kind) (us.dropWhile fun t => p t.kind) ∧
      ¬ Spent (ts.dropWhile fun t => p t.kind) := by
  induction ts generalizing us with
  | nil => exact absurd (by simp [Spent]) hs
  | cons t ts ih =>
    obtain ⟨_, _, us, ⟨rfl, rfl⟩, rfl, -, hnext, hlater⟩ := h.next hs
    rw [List.dropWhile_cons, List.dropWhile_cons]
    split
    next ht => exact ih hnext (hlater (hp _ ht))
    next => exact ⟨h, hs⟩

theorem pastTrivia (h : F.Same ts us) (hs : ¬ Spent ts) :
    F.Same (pastTrivia ts) (pastTrivia us) ∧ ¬ Spent (pastTrivia ts) :=
  h.dropWhile (fun _ h => h) hs

theorem commentEndsBlock_eq (h : F.Same ts us) (hs : ¬ Spent ts) (column : Nat) :
    commentEndsBlock column us = commentEndsBlock column ts := by
  have past := (h.pastTrivia hs).1.kindOf_eq
  obtain ⟨t, ts, us, rfl, rfl, -⟩ := h.exists_head
  simp only [commentEndsBlock, past]

/-- Where a comment ends a block, the end of the block is before the last common word. -/
theorem hoist (h : F.Same ts us) (hs : ¬ Spent ts) {column : Nat}
    (hc : commentEndsBlock column ts = true) : F.Same (dedentFirst ts) (dedentFirst us) := by
  obtain ⟨words, rfl, rfl, he, hw⟩ := h
  cases hl : words.getLast? with
  | none =>
    rw [List.getLast?_eq_none_iff.1 hl] at hs
    exact absurd F.spent_end hs
  | some t =>
    obtain ⟨front, d, later, rfl, hfront, hd⟩ := exists_dedent_before_word [] _
      (by simp) he ⟨t, List.mem_of_getLast? hl, hw t hl⟩ hc
    have hne : ∀ t ∈ front, t.kind ≠ .dedent := fun t ht hk => by
      simpa [hk, TokenKind.isTrivia] using hfront t ht
    have moved : ∀ behind, dedentFirst (front ++ d :: later ++ behind) =
        (d :: (front ++ later)) ++ behind := fun behind => by
      rw [List.append_assoc, List.cons_append, dedentFirst_of_first hne hd]
      simp
    refine ⟨d :: (front ++ later), moved _, moved _, fun t ht => he t ?_, fun t ht => hw t ?_⟩
    · exact (List.perm_middle.mem_iff).2 ht
    · cases later with
      | nil =>
        -- the end of a block is no word
        have := hw d (by simp)
        rw [hd] at this
        cases this
      | cons u later =>
        rw [← List.cons_append, List.getLast?_append_cons] at ht
        rwa [List.getLast?_append_cons, List.getLast?_cons_cons]

end Same

/-- The first line without a common word. -/
theorem exists_lineEnd (F : Fork) :
    ∃ blank, BlankLines blank ∧ ∀ ts, LineEnd (F.trail ++ ts) (blank ++ ts) := by
  have h := F.blankLines
  have hne := F.trail_ne_nil
  generalize F.trail = trail at h hne
  cases h with
  | nil => exact absurd rfl hne
  | blank hn h => exact ⟨_, h, fun _ => .line hn⟩
  | remark hc hn h => exact ⟨_, h, fun _ => .commentLine hc hn⟩

end Fork

end FlowLang
