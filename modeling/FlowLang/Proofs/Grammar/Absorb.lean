import FlowLang.Proofs.Grammar.Above

/-!
# What takes the comments behind it

A list of statements takes the comments above its statements, but some constructs end only behind
all comments that follow them: a call behind its options, and a statement with cases behind its last
case.  What such a comment is meant for is then no matter; it is lost, even if the construct is the
last one of a block that ends before the comment.

* `Statement.Absorbs`, `Absorbing` : the statement, or the block, ends with such a construct.
* `EndsInComment` : a list of statements ends with a comment, but for more comments behind it.
* `NoteAbove.Held` : the comment has been taken by the list that the line below belongs to.
* `Reads.leaves` : **whatever is read above the comment leaves it where it is, takes it as a
  statement of its own, or absorbs it.**
-/

namespace FlowLang

open Reader Grammar

/-! ### Statements that absorb comments -/

/-- The options of the call that the statement makes. -/
def Statement.options : Statement → Option String
  | activityCall call => call.options
  | workflowCall call => call.options
  | await target _ => target.options
  | _ => none

/-- The statement has cases. -/
def Statement.hasCases : Statement → Bool
  | awaitOne _ _ | switch _ _ _ _ => true
  | _ => false

/-- The statement ends with what takes the comments behind it: options, cases, or a block whose last
statement does so. -/
inductive Statement.Absorbs : Statement → Prop
  | options {s : Statement} : s.options.isSome = true → Absorbs s
  | cases {s : Statement} : s.hasCases = true → Absorbs s
  | block {s t : Statement} {body : List Statement} : s.blocks.getLast? = some body →
    body.getLast? = some t → Absorbs t → Absorbs s

/-- The last statement takes the comments behind it. -/
def Absorbing (body : List Statement) : Prop := ∃ s, body.getLast? = some s ∧ s.Absorbs

/-- The list ends with this comment, but for more comments behind it. -/
def EndsInComment (text : String) (p : Position) (front : List Statement) : Prop :=
  ∃ before after, front = before ++ .comment text p :: after ∧ ∀ s ∈ after, s.isComment = true

theorem Statement.Absorbs.isComment_eq_false {s : Statement} (h : s.Absorbs) :
    s.isComment = false := by
  cases s with
  | comment =>
    cases h with
    | options ho | cases ho | block ho => cases ho
  | _ => rfl

theorem Absorbing.singleton {s : Statement} (h : s.Absorbs) : Absorbing [s] := ⟨s, rfl, h⟩

theorem Absorbing.ne_nil {body : List Statement} (h : Absorbing body) : body ≠ [] := by
  rintro rfl
  obtain ⟨s, hs, -⟩ := h
  cases hs

theorem Absorbing.append {front body : List Statement} (h : Absorbing body) :
    Absorbing (front ++ body) := by
  obtain ⟨s, hs, h⟩ := h
  exact ⟨s, by rw [List.getLast?_append, hs, Option.some_or], h⟩

theorem Absorbing.cons {s : Statement} {body : List Statement} (h : Absorbing body) :
    Absorbing (s :: body) :=
  show Absorbing ([s] ++ body) from h.append

/-- The last block takes the comments behind the statement. -/
theorem Statement.Absorbs.of_block {s : Statement} {body : List Statement}
    (hb : s.blocks.getLast? = some body) (h : Absorbing body) : s.Absorbs := by
  obtain ⟨t, ht, h⟩ := h
  exact .block hb ht h

theorem EndsInComment.append {text : String} {p : Position} {front body : List Statement}
    (h : EndsInComment text p body) : EndsInComment text p (front ++ body) := by
  obtain ⟨before, after, rfl, ha⟩ := h
  exact ⟨front ++ before, after, by simp, ha⟩

theorem EndsInComment.cons {text : String} {p : Position} {s : Statement} {body : List Statement}
    (h : EndsInComment text p body) : EndsInComment text p (s :: body) :=
  show EndsInComment text p ([s] ++ body) from h.append

/-- A comment that is kept has not been absorbed. -/
theorem EndsInComment.not_absorbing {text : String} {p : Position} {front : List Statement}
    (h : EndsInComment text p front) : ¬ Absorbing front := by
  obtain ⟨before, after, rfl, ha⟩ := h
  rintro ⟨s, hs, habsorbs⟩
  have last : s ∈ Statement.comment text p :: after := by
    rw [List.getLast?_append_of_ne_nil _ (List.cons_ne_nil _ _)] at hs
    exact List.mem_of_getLast? hs
  rcases List.mem_cons.1 last with rfl | hmem
  · cases habsorbs.isComment_eq_false
  · exact Bool.false_ne_true (habsorbs.isComment_eq_false.symm.trans (ha s hmem))

namespace Grammar

variable {A : NoteAbove} {ts rest : List Token} {b : Bool}

/-! ### Parts of lines -/

theorem Arrow.ahead {result : Option String} (h : Arrow result ts rest) (ha : A.Ahead false ts) :
    A.Ahead false rest := by
  cases h with
  | absent => exact ha
  | present hw hx => rcases hx with hx | hx <;> exact (ha.next hw rfl).next hx rfl

theorem OptionalArgs.ahead {value : Option String} (h : OptionalArgs value ts rest)
    (ha : A.Ahead false ts) : A.Ahead false rest := by
  cases h with
  | absent => exact ha
  | present hw => exact ha.next hw rfl

theorem Reason.ahead {reason : CloseReason} (h : Reason reason ts rest) (ha : A.Ahead false ts) :
    A.Ahead false rest := by
  cases h with
  | unstated => exact ha
  | completed hw | failed hw => exact ha.next hw rfl

theorem LoopHead.ahead {header : LoopHeader} (h : LoopHead header ts rest)
    (ha : A.Ahead false ts) : A.Ahead false rest := by
  cases h with
  | forever => exact ha
  | text hw => exact ha.next hw rfl

theorem Event.ahead {e : AwaitedEvent} (h : Event e ts rest) (ha : A.Ahead false ts) :
    A.Ahead false rest := by
  cases h with
  | intro hn hr => exact hr.ahead (ha.next hn rfl)

theorem CallsActivity.ahead {call : ActivityCall} (h : CallsActivity call ts rest)
    (ha : A.Ahead b ts) : A.Ahead false rest := by
  cases h with
  | intro hw hn hx hr => exact hr.ahead (((ha.next hw rfl).next hn rfl).next hx rfl)

theorem CallsWorkflow.ahead {call : WorkflowCall} (h : CallsWorkflow call ts rest)
    (ha : A.Ahead b ts) : A.Ahead false rest := by
  cases h with
  | @intro _ ts₁ _ _ _ _ _ _ _ _ _ hm hx hw hn hy hr =>
    have behind : ∀ {b}, A.Ahead b ts₁ → A.Ahead false rest := by
      intro b ha
      cases hx with
      | absent => exact hr.ahead (((ha.next hw rfl).next hn rfl).next hy rfl)
      | present hx hs =>
        exact hr.ahead (((((ha.next hx rfl).next hs rfl).next hw rfl).next hn rfl).next hy rfl)
    cases hm with
    | child => exact behind ha
    | spawn hm | detach hm => exact behind (ha.next hm rfl)

theorem Raced.ahead {target : RaceTarget} (h : Raced target ts rest) (ha : A.Ahead b ts) :
    A.Ahead false rest := by
  cases h with
  | signal hw he | update hw he => exact he.ahead (ha.next hw rfl)
  | timer hw hx => exact (ha.next hw rfl).next hx rfl
  | activity hc => exact hc.ahead ha
  | workflow hc => exact hc.ahead ha

/-- Where options close, the comments behind them are lost. -/
theorem Options.ahead {options : Option String} (h : Options options ts rest)
    (ha : A.Ahead true ts) (hp : A.Pending rest) :
    A.Ahead true rest ∨ A.Clear rest ∧ options.isSome = true := by
  cases h with
  | absent => exact .inl ha
  | @present _ ts₁ ts₂ _ i w a d hts hi hw hx he hts' hd =>
    have closed : Moves ts₁ rest := (he.moves.trans (hts' ▸ .pastTrivia)).next hd (by decide)
    rcases ha.pastTrivia with ha | hm
    · rw [hts] at ha
      have line := ((ha.past_level (.inl hi)).next hw rfl).next hx rfl
      rcases (line.lineEnd he).pastTrivia with ha | hm
      · exact .inl ((hts' ▸ ha).past_level (.inr hd))
      · exact .inr ⟨((hts' ▸ hm).dedent hd).clear, rfl⟩
    · -- the comment is above the options, which are not a statement
      have line : A.Marked (w :: a :: ts₁) := by
        rw [hts] at hm
        exact hm.indent hi ▸ .closing .here
      exact absurd hp (line.not_pending (hw ▸ rfl) (.trans (.advance (by simp [hx])) closed))

theorem ActivityLine.ahead {call : ActivityCall} (h : ActivityLine call ts rest)
    (ha : A.Ahead b ts) (hp : A.Pending rest) :
    A.Ahead true rest ∨ A.Clear rest ∧ call.options.isSome = true := by
  cases h with
  | intro hc he ho => exact ho.ahead ((hc.ahead ha).lineEnd he) hp

theorem WorkflowLine.ahead {call : WorkflowCall} (h : WorkflowLine call ts rest)
    (ha : A.Ahead b ts) (hp : A.Pending rest) :
    A.Ahead true rest ∨ A.Clear rest ∧ call.options.isSome = true := by
  cases h with
  | intro hc he ho => exact ho.ahead ((hc.ahead ha).lineEnd he) hp

theorem Awaited.ahead {target : AwaitTarget} (h : Awaited target ts rest)
    (ha : A.Ahead false ts) (hp : A.Pending rest) :
    A.Ahead true rest ∨ A.Clear rest ∧ target.options.isSome = true := by
  cases h with
  | timer hw hx he => exact .inl (((ha.next hw rfl).next hx rfl).lineEnd he)
  | signal hw hv he | update hw hv he => exact .inl ((hv.ahead (ha.next hw rfl)).lineEnd he)
  | activity hc => exact hc.ahead ha hp
  | workflow hc => exact hc.ahead ha hp

end Grammar

/-! ### Behind the comment -/

namespace NoteAbove

variable {A : NoteAbove} {ts rest : List Token} {scope : Scope} {column : Nat}

/-- The comment as a statement. -/
def statement (A : NoteAbove) : Statement :=
  .comment (Text.trim A.note.literal) A.note.position

/-- The list of statements ends with the comment, but for more comments behind it. -/
def EndsIn (A : NoteAbove) (front : List Statement) : Prop :=
  EndsInComment (Text.trim A.note.literal) A.note.position front

/-- The comment has been taken by the list of statements that the line belongs to: no level ends
between them. -/
def Held (A : NoteAbove) (ts : List Token) : Prop :=
  A.Over ts ∧ kindOf (pastTrivia ts) ≠ .dedent

/-- The statement that is read at the marks of the line is that of the line. -/
theorem Marked.statement {s : Statement} (hm : A.Marked ts)
    (h : Reads scope (.statement s) ts rest) :
    s.isComment = false ∧ s.position = A.word.position ∧ ¬ A.Pending rest := by
  obtain ⟨t, us, rfl, hp, hk⟩ := h.starts
  have hne : t.kind ≠ .comment := fun hc => by
    simpa [kindOf, hc, TokenKind.isTrivia] using hm.isTrivia_kindOf
  have hs : s.isComment = false := by
    cases h with
    | comment hc => exact absurd hc hne
    | _ => rfl
  obtain ⟨rfl, rfl⟩ := hm.text (hk.1 hs)
  obtain ⟨passed, he, hsub⟩ := h.past_first
  rw [spots_text A.word_isText] at he
  refine ⟨hs, hp, fun hpending => ?_⟩
  cases passed with
  | nil => cases hsub
  | cons q passed =>
    obtain ⟨-, he⟩ := List.cons.inj he
    exact A.fresh (he ▸ List.mem_append_right passed hpending)

theorem over_of_eq (h : ts = A.word :: A.more) : A.Over ts := h ▸ (Marked.closing .here).over

theorem Clear.dedent {d : Token} (hc : A.Clear (d :: ts)) (hd : d.kind = .dedent) : A.Clear ts := by
  rw [Clear, pastNewlines_eq (by simp [kindOf, hd, TokenKind.isTrivia])] at hc
  exact (hc.dedent hd).clear

/-- Past the `dedent` that ends a level. -/
theorem past_dedent {d : Token} (h : A.Ahead true (d :: ts) ∨ A.Clear (d :: ts))
    (hd : d.kind = .dedent) : A.Ahead true ts ∨ A.Clear ts :=
  h.imp (·.past_level (.inr hd)) (·.dedent hd)

theorem Held.line : A.Held (A.word :: A.more) := by
  have trivia : (kindOf (A.word :: A.more)).isTrivia = false :=
    TokenKind.isTrivia_of_isText A.word_isText
  refine ⟨(Marked.closing .here).over, ?_⟩
  rw [pastTrivia_eq trivia]
  exact TokenKind.ne_of_isText A.word_isText rfl

theorem Held.lineEnd (hh : A.Held ts) (he : LineEnd ts rest) : A.Held rest := by
  rwa [Held, Over, ← pastTrivia_of_lineEnd he]

/-- No statement stands between blank lines and the line below. -/
theorem Clear.statements {body : List Statement} (hc : A.Clear ts)
    (h : Reads scope (.statements column body) ts rest) (hp : A.Pending rest) :
    body = [] ∧ A.Clear rest := by
  cases h with
  | noStatement => exact ⟨rfl, Marked.clear hc⟩
  | outdented hcomment =>
    have hne : kindOf (pastNewlines ts) ≠ .comment := fun hk => by
      simpa [hk, TokenKind.isTrivia] using Marked.isTrivia_kindOf hc
    rw [commentEndsBlock_of_kindOf hne] at hcomment
    cases hcomment
  | statementCons _ _ _ hs hl =>
    exact absurd (hp.of_moves hl.moves) (Marked.statement hc hs).2.2

/-- Cases are looked for behind comments, and none stands above the line. -/
theorem Over.switchCases {cases : List SwitchCase} (ho : A.Over ts)
    (h : Reads scope (.switchCases cases) ts rest) (hp : A.Pending rest) :
    cases = [] ∧ A.Clear rest := by
  have marked : A.Marked (pastTrivia ts) := ho
  cases h with
  | noSwitchCase => exact ⟨rfl, marked.clear⟩
  | @switchCase _ ts₁ _ _ w v _ _ hts hw hv hb hl =>
    rw [hts] at marked
    have value : Moves (v :: ts₁) ts₁ := .advance (by rcases hv with hv | hv | hv <;> simp [hv])
    exact absurd hp (marked.not_pending (hw ▸ rfl) ((value.trans hb.moves).trans hl.moves))

theorem Clear.fallback {body : Option (List Statement)} (hc : A.Clear ts)
    (h : Reads scope (.fallback body) ts rest) (hp : A.Pending rest) : A.Clear rest := by
  cases h with
  | noFallback => exact hc
  | @fallback ts _ w _ hw hb =>
    have marked : A.Marked (w :: ts) := by
      rwa [Clear, pastNewlines_eq (by simp [kindOf, hw, TokenKind.isTrivia])] at hc
    exact absurd hp (marked.not_pending (hw ▸ rfl) (hb.moves.trans .pastTrivia))

theorem Over.raceCases {cases : List RaceCase} (ho : A.Over ts)
    (h : Reads scope (.raceCases cases) ts rest) (hp : A.Pending rest) :
    cases = [] ∧ A.Clear rest := by
  have marked : A.Marked (pastTrivia ts) := ho
  cases h with
  | noRaceCase => exact ⟨rfl, marked.clear⟩
  | @raceCase _ ts₁ ts₂ _ _ w _ _ _ hts hr hb hl =>
    rw [hts] at marked
    -- what the case waits for takes its first word and more
    have past : ¬ A.Pending ts₂ := by
      obtain ⟨-, rfl⟩ := marked.text hr.isText
      obtain ⟨_, us, he, -, -, -, seen, hw, -⟩ := hr.opens
      cases he
      intro hp
      refine A.fresh ?_
      rw [← map_position_words false A.more, hw, List.map_append, map_position_words]
      exact List.mem_append_right _ hp
    exact absurd ((hp.of_moves hl.moves).of_moves hb.moves) past
  | @raceGroup _ ts₁ _ _ w a _ _ hts hw ha hb hl =>
    rw [hts] at marked
    have group : Moves (a :: ts₁) ts₁ := .advance (by simp [ha])
    exact absurd hp (marked.not_pending (hw ▸ rfl) ((group.trans hb.moves).trans hl.moves))

theorem Over.comments {comments : List Statement} (ho : A.Over ts)
    (h : Comments comments ts rest) : A.Over rest := by
  induction h with
  | nil => rwa [Over, pastTrivia_pastNewlines]
  | @cons _ _ _ _ c _ hts hc he _ ih =>
    rw [Over, ← pastTrivia_pastNewlines, hts, pastTrivia_cons (by rw [hc]; rfl)] at ho
    exact ih (Over.lineEnd ho he)

/-- If there is no trivia, the marks are next. -/
theorem Over.marked {t : Token} (ho : A.Over (t :: ts)) (ht : t.kind.isTrivia = false) :
    A.Marked (t :: ts) := by
  rwa [Over, pastTrivia_eq (show (kindOf (t :: ts)).isTrivia = false from ht)] at ho

theorem Clear.elseBody {body : Option (List Statement)} (hc : A.Clear ts)
    (h : Reads scope (.elseBody body) ts rest) (hp : A.Pending rest) :
    body = none ∧ A.Clear rest := by
  have past : ∀ {comments us} {w : Token}, Comments comments ts (w :: us) →
      w.kind = .keyword .«else» → Moves us rest → ¬ A.Pending rest := fun hcs hw hm =>
    ((hc.over.comments hcs).marked (by rw [hw]; rfl)).not_pending (hw ▸ rfl) hm
  cases h with
  | noElse => exact ⟨rfl, hc⟩
  | elseIf _ hcs hw _ hs => exact absurd hp (past hcs hw hs.moves)
  | elseBlock _ hcs hw hb => exact absurd hp (past hcs hw hb.moves)

/-- Where the comment has been taken, the next statement is another comment or that of the line. -/
theorem Held.statement {s : Statement} (hh : A.Held ts)
    (h : Reads scope (.statement s) (pastNewlines ts) rest) :
    s.isComment = true ∧ A.Held rest ∨
      s.isComment = false ∧ s.position = A.word.position ∧ ¬ A.Pending rest := by
  rw [Held, Over, ← pastTrivia_pastNewlines] at hh
  obtain ⟨t, us, hts, -, hk⟩ := h.starts
  rw [hts] at h hh
  cases hs : s.isComment with
  | true =>
    refine .inl ⟨rfl, ?_⟩
    cases h with
    | comment hc he =>
      rwa [pastTrivia_cons (by rw [hc]; rfl), pastTrivia_of_lineEnd he] at hh
    | _ => cases hs
  | false =>
    have ht := TokenKind.isTrivia_of_isText (hk.1 hs)
    exact .inr ⟨rfl, (Marked.statement (Over.marked hh.1 ht) h).2⟩

/-- Where the comment has been taken, the list goes on to the line. -/
theorem Held.statements {body : List Statement} (hh : A.Held ts)
    (h : Reads scope (.statements column body) ts rest) : ¬ A.Pending rest := by
  have more : kindOf (pastTrivia (pastNewlines ts)) ≠ .dedent ∧
      kindOf (pastTrivia (pastNewlines ts)) ≠ .eof := by
    rw [pastTrivia_pastNewlines]
    exact ⟨hh.2, Marked.kindOf_ne_eof hh.1⟩
  induction body generalizing ts with
  | nil =>
    cases h with
    | noStatement he =>
      rw [pastTrivia_eq (by rcases he with he | he <;> rw [he] <;> rfl)] at more
      exact absurd he (not_or.2 more)
    | outdented hc => exact absurd (kindOf_of_commentEndsBlock hc more.2) more.1
  | cons s body ih =>
    cases h with
    | @statementCons _ ts₁ _ _ _ _ _ _ _ hs hl =>
      rcases hh.statement hs with ⟨-, hh⟩ | ⟨-, -, hn⟩
      · refine ih hh hl ?_
        rw [pastTrivia_pastNewlines]
        exact ⟨hh.2, Marked.kindOf_ne_eof hh.1⟩
      · exact fun hp => hn (hp.of_moves hl.moves)

/-! ### Above the comment -/

variable {ws : List (Token × Bool)} {c : Nat} {l : List Nat}

/-- A level that closes before the line is to the right of it. -/
theorem Marked.column_lt (hm : A.Marked ts) (hs : Standing ws (.line (c :: l)) ts)
    (hl : (c :: l).Pairwise (· > ·)) (hk : kindOf ts = .dedent) : A.word.position.column < c := by
  have outer : ∀ {us l}, A.Closes us → Standing ws (.line l) us → A.word.position.column ∈ l := by
    intro us l hc hs
    induction hc generalizing l with
    | here =>
      obtain ⟨_, rfl⟩ := hs.exists_level A.word_isText
      exact List.mem_cons_self
    | dedent hd _ ih =>
      obtain ⟨_, _, rfl, -⟩ := hs.aligned.of_dedent hd
      exact List.mem_cons_of_mem _ (ih (hs.dedent hd))
  cases hm with
  | closing hc =>
    cases hc with
    | here => exact absurd hk (TokenKind.ne_of_isText A.word_isText rfl)
    | dedent hd hc => exact List.rel_of_pairwise_cons hl (outer hc (hs.dedent hd))
  | opening hi => simp [kindOf, hi] at hk

/-- A comment that does not end the block belongs to it, and so does the line below. -/
theorem Over.held (ho : A.Over ts) (hs : Standing ws (.line (c :: l)) (A.note :: ts))
    (hl : (c :: l).Pairwise (· > ·)) (hc : commentEndsBlock c (A.note :: ts) = false) :
    A.Held ts := by
  refine ⟨ho, fun hk => ?_⟩
  have hlt := Marked.column_lt ho (.dropTrivia (.inr (hs.comment A.note_kind))) hl hk
  have hd : kindOf ((A.note :: ts).dropWhile (·.kind.isTrivia)) = .dedent := by
    rw [← hk, ← pastTrivia_cons (t := A.note) (by rw [A.note_kind]; rfl)]
  rw [commentEndsBlock, hd, A.note_kind, A.column] at hc
  simp [hlt] at hc

end NoteAbove

namespace Grammar

variable {A : NoteAbove} {ts rest : List Token} {scope : Scope} {ws : List (Token × Bool)} {c : Nat}
  {l : List Nat}

/-- The levels are what they were. -/
theorem Reads.standing {φ : Phrase} (h : Reads scope φ ts rest)
    (hs : φ.StartsAt ws (c :: l) ts) : Standing ws (.line (c :: l)) rest :=
  (h.nested (fun _ h => h) hs).2

/-- The comments before a block are taken as statements of it. -/
theorem Comments.ahead {comments : List Statement} (h : Comments comments ts rest)
    (ha : A.Ahead true ts) :
    A.Ahead true rest ∨ A.Over rest ∧ A.EndsIn comments := by
  induction h with
  | nil => exact .inl ha.pastNewlines
  | cons hts hc he hl ih =>
    rcases (hts ▸ ha.pastNewlines).past_word (by rw [hc]; rfl) with ⟨rfl, ho⟩ | ha
    · exact .inr ⟨(ho.lineEnd he).comments hl, [], _, rfl, hl.isComment⟩
    · exact (ih (ha.lineEnd he)).imp_right (And.imp_right EndsInComment.cons)

/-- Where reading of the phrase starts.  A list of statements starts at a level in its column. -/
def Phrase.StartsIn (ws : List (Token × Bool)) (c : Nat) (l : List Nat) : Phrase → List Token → Prop
  | statements column body, ts => column = c ∧ (statements column body).StartsAt ws (c :: l) ts
  | φ, ts => φ.StartsAt ws (c :: l) ts

/-- How reading leaves the comment, which was ahead: it still is; or it has been absorbed, since the
phrase ends with something that does; or it is the statement that has been read. -/
def Phrase.Leaves (A : NoteAbove) (ts rest : List Token) : Phrase → Prop
  | statement s => A.Ahead true rest ∨ A.Clear rest ∧ s.Absorbs ∨
    ∃ us, ts = A.note :: us ∧ A.Over us ∧ s = A.statement ∧ LineEnd us rest
  | statements _ body | lines body | block body =>
    A.Ahead true rest ∨ A.Clear rest ∧ Absorbing body
  | elseBody body => A.Ahead true rest ∨ A.Clear rest ∧ ∃ b ∈ body, Absorbing b
  | _ => A.Ahead true rest ∨ A.Clear rest

/-- **Whatever is read above the comment leaves it where it is, takes it as a statement of its own,
or absorbs it.** -/
theorem Reads.leaves {φ : Phrase} (h : Reads scope φ ts rest) (hs : φ.StartsIn ws c l ts)
    (hl : (c :: l).Pairwise (· > ·)) (ha : A.Ahead true ts) (hp : A.Pending rest) :
    φ.Leaves A ts rest := by
  have reopened : ∀ {d : Token} {us}, d.kind = .dedent → A.Pending us → A.Pending (d :: us) :=
    fun hd hp => hp.of_moves (.advance (by simp [hd]))
  induction h generalizing c l with
  | activityCall _ hc =>
    exact (hc.ahead ha hp).imp_right fun h => .inl ⟨h.1, .options h.2⟩
  | workflowCall _ hc =>
    exact (hc.ahead ha hp).imp_right fun h => .inl ⟨h.1, .options h.2⟩
  | await _ hw hc =>
    exact (hc.ahead (ha.next hw rfl) hp).imp_right fun h => .inl ⟨h.1, .options h.2⟩
  | awaitAll _ hw hx _ ih =>
    obtain ⟨p, hlevels, hs⟩ := hs
    have start : Standing ws (.inside (c :: l)) _ := hlevels ▸ (hs.next hw rfl).next hx rfl
    exact (ih start hl ((ha.next hw rfl).next hx rfl).mono hp).imp_right fun h =>
      .inl ⟨h.1, .of_block rfl h.2⟩
  | awaitOne _ hw ho hx he hts hi hr hd hne ih =>
    obtain ⟨p, hlevels, hs⟩ := hs
    have place := he.standing (((hs.next hw rfl).next ho rfl).next hx rfl) hlevels
    have header := (((ha.next hw rfl).next ho rfl).next hx rfl).lineEnd he
    obtain ⟨outer, inside, levels⟩ := (hts ▸ place.pastTrivia).opened hi hl
    rcases header.indented hts hi with ha | hline
    · have behind := ih inside levels ha (reopened hd hp)
      exact (NoteAbove.past_dedent behind hd).imp_right fun hc => .inl ⟨hc, .cases rfl⟩
    · exact absurd ((NoteAbove.over_of_eq hline).raceCases hr (reopened hd hp)).1 hne
  | @switch _ _ _ _ rest _ _ _ _ d _ _ hw hx hy he hts hi hr hf hd hne ihl ihf =>
    obtain ⟨p, hlevels, hs⟩ := hs
    have place := he.standing (((hs.next hw rfl).next hx rfl).next hy rfl) hlevels
    have header := (((ha.next hw rfl).next hx rfl).next hy rfl).lineEnd he
    obtain ⟨outer, inside, levels⟩ := (hts ▸ place.pastTrivia).opened hi hl
    have before := (reopened hd hp).of_moves hf.moves
    rcases header.indented hts hi with ha | hline
    · have behind : A.Ahead true (d :: rest) ∨ A.Clear (d :: rest) := by
        rcases ihl inside levels ha before with ha | hc
        · exact ihf (hr.standing inside) levels ha (reopened hd hp)
        · exact .inr (hc.fallback hf (reopened hd hp))
      exact (NoteAbove.past_dedent behind hd).imp_right fun hc => .inl ⟨hc, .cases rfl⟩
    · exact absurd ((NoteAbove.over_of_eq hline).switchCases hr before).1 hne
  | branch hw hx hb he ihb ihe =>
    obtain ⟨p, hlevels, hs⟩ := hs
    have start : Standing ws (.inside (c :: l)) _ := hlevels ▸ (hs.next hw rfl).next hx rfl
    have inside := ((ha.next hw rfl).next hx rfl).mono
    rcases ihb start hl inside (hp.of_moves he.moves) with ha | ⟨hc, hbody⟩
    · rcases ihe (hb.standing start) hl ha hp with ha | ⟨hc, b, hmem, habsorbing⟩
      · exact .inl ha
      · cases hmem
        exact .inr (.inl ⟨hc, .of_block rfl habsorbing⟩)
    · obtain ⟨rfl, hc⟩ := hc.elseBody he hp
      exact .inr (.inl ⟨hc, .of_block rfl hbody⟩)
  | loop hw hh _ ih =>
    obtain ⟨p, hlevels, hs⟩ := hs
    have start : Standing ws (.inside (c :: l)) _ := hlevels ▸ hh.standing (hs.next hw rfl)
    exact (ih start hl (hh.ahead (ha.next hw rfl)).mono hp).imp_right fun h =>
      .inl ⟨h.1, .of_block rfl h.2⟩
  | close _ hw hr hv he => exact .inl ((hv.ahead (hr.ahead (ha.next hw rfl))).lineEnd he)
  | continueAsNew _ hw hv he => exact .inl ((hv.ahead (ha.next hw rfl)).lineEnd he)
  | returnValue _ hw he => exact .inl ((ha.next hw rfl).pastLine.lineEnd he)
  | breakLoop hw he | continueLoop hw he => exact .inl ((ha.next hw rfl).lineEnd he)
  | raw _ hne he =>
    have ht := isText_of_lineText hne
    rw [pastLine, List.dropWhile_cons_of_pos (by rwa [← TokenKind.isText_eq])] at he
    exact .inl ((ha.past_text ht).pastLine.lineEnd he)
  | comment hc he =>
    rcases ha.past_word (by rw [hc]; rfl) with ⟨rfl, ho⟩ | ha
    · exact .inr (.inr ⟨_, rfl, ho, rfl, he⟩)
    · exact .inl (ha.lineEnd he)
  | noStatement => exact .inl ha.pastNewlines
  | outdented hc => exact .inl (ha.pastNewlines.hoist hc)
  | statementCons _ _ hc hr hlater ihs ihl =>
    obtain ⟨rfl, hs⟩ := hs
    have here := Standing.pastNewlines hs
    rcases ihs ⟨_, rfl, here⟩ hl ha.pastNewlines (hp.of_moves hlater.moves) with
      ha | ⟨hclear, habsorbs⟩ | ⟨us, hts, ho, rfl, he⟩
    · exact (ihl ⟨rfl, hr.standing ⟨_, rfl, here⟩⟩ hl ha hp).imp_right
        (And.imp_right Absorbing.cons)
    · obtain ⟨rfl, hclear⟩ := hclear.statements hlater hp
      exact .inr ⟨hclear, .singleton habsorbs⟩
    · -- the comment belongs to this list, so the line does as well
      have held := ho.held (hts ▸ here) hl (hts ▸ hc)
      exact absurd hp ((held.lineEnd he).statements hlater)
  | lines hcs hi hr hd ih =>
    obtain ⟨outer, inside, levels⟩ := (hcs.standing hs).opened hi hl
    rcases hcs.ahead ha with ha | ⟨ho, -⟩
    · rcases ih ⟨rfl, inside⟩ levels (ha.past_level (.inl hi)) (reopened hd hp) with
        ha | ⟨hc, hbody⟩
      · exact .inl (ha.past_level (.inr hd))
      · exact .inr ⟨hc.dedent hd, hbody.append⟩
    · have line := (ho.marked (by rw [hi]; rfl)).indent hi
      exact absurd (reopened hd hp) (NoteAbove.Held.statements (line ▸ .line) hr)
  | block hx he _ ih =>
    exact ih (he.standing (Standing.next hs hx rfl) rfl) hl ((ha.next hx rfl).lineEnd he) hp
  | someBlock hx he _ _ ih =>
    have behind := (ha.next hx rfl).lineEnd he
    exact (ih (he.standing (Standing.next hs hx rfl) rfl) hl behind hp).imp_right And.left
  | noBlock hx he => exact .inl ((ha.next hx rfl).lineEnd he)
  | noElse => exact .inl ha
  | elseIf _ hcs hw hk hr ih =>
    rcases hcs.ahead ha with ha | ⟨ho, -⟩
    · rcases ih ⟨_, rfl, (hcs.standing hs).next hw rfl⟩ hl (ha.next hw rfl).mono hp with
        ha | ⟨hc, habsorbs⟩ | ⟨us, rfl, -⟩
      · exact .inl ha
      · exact .inr ⟨hc, _, rfl, (Absorbing.singleton habsorbs).append⟩
      · simp [kindOf, A.note_kind] at hk
    · have line := ho.marked (by rw [hw]; rfl)
      exact absurd hp (line.not_pending (hw ▸ rfl) hr.moves)
  | elseBlock _ hcs hw hb ih =>
    rcases hcs.ahead ha with ha | ⟨ho, -⟩
    · exact (ih ((hcs.standing hs).next hw rfl) hl (ha.next hw rfl).mono hp).imp_right fun h =>
        ⟨h.1, _, rfl, h.2.append⟩
    · have line := ho.marked (by rw [hw]; rfl)
      exact absurd hp (line.not_pending (hw ▸ rfl) hb.moves)
  | noSwitchCase | noRaceCase => exact ha.pastTrivia.imp_right NoteAbove.Marked.clear
  | @switchCase _ ts₁ _ _ _ _ _ _ hts hw hv hb hlater ihb ihl =>
    have here := hts ▸ Standing.pastTrivia hs
    rcases ha.pastTrivia with ha | hm
    · have word := (hts ▸ ha).next hw rfl
      have value : A.Ahead false ts₁ ∧ Standing ws (.inside (c :: l)) ts₁ := by
        rcases hv with hv | hv | hv <;> exact ⟨word.next hv rfl, (here.next hw rfl).next hv rfl⟩
      rcases ihb value.2 hl value.1.mono (hp.of_moves hlater.moves) with ha | ⟨hc, -⟩
      · exact ihl (hb.standing value.2) hl ha hp
      · exact .inr (hc.over.switchCases hlater hp).2
    · have none := (NoteAbove.Over.switchCases hm (.switchCase hts hw hv hb hlater) hp).1
      exact absurd none (List.cons_ne_nil _ _)
  | noFallback => exact .inl ha
  | fallback hw _ _ ih =>
    rcases ih (Standing.next hs hw rfl) hl (ha.next hw rfl).mono (hp.of_moves .pastTrivia) with
      ha | ⟨hc, -⟩
    · exact ha.pastTrivia.imp_right NoteAbove.Marked.clear
    · exact .inr (NoteAbove.Marked.clear hc.over)
  | raceCase hts hr hb hlater ihb ihl =>
    have start := hr.standing (hts ▸ Standing.pastTrivia hs)
    rcases ha.pastTrivia with ha | hm
    · have behind := (hr.ahead (hts ▸ ha)).mono
      rcases ihb start hl behind (hp.of_moves hlater.moves) with ha | hc
      · exact ihl (hb.standing start) hl ha hp
      · exact .inr (hc.over.raceCases hlater hp).2
    · have none := (NoteAbove.Over.raceCases hm (.raceCase hts hr hb hlater) hp).1
      exact absurd none (List.cons_ne_nil _ _)
  | raceGroup hts hw hx hb hlater ihb ihl =>
    have start := ((hts ▸ Standing.pastTrivia hs).next hw rfl).next hx rfl
    rcases ha.pastTrivia with ha | hm
    · have behind := (((hts ▸ ha).next hw rfl).next hx rfl).mono
      rcases ihb start hl behind (hp.of_moves hlater.moves) with ha | ⟨hc, -⟩
      · exact ihl (hb.standing start) hl ha hp
      · exact .inr (hc.over.raceCases hlater hp).2
    · have none := (NoteAbove.Over.raceCases hm (.raceGroup hts hw hx hb hlater) hp).1
      exact absurd none (List.cons_ne_nil _ _)

end Grammar

end FlowLang
