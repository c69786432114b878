import FlowLang.Proofs.Grammar.Basic
import FlowLang.Proofs.Program.Marks
import FlowLang.Proofs.Token.Words

/-!
# What is read accounts for its lines

Between the place where something is read and the place behind it, every word that opens a line
bears a mark of what is read.

* `Fits` : what a word may bear.
* `Passes` : the marks that the words between two places bear.
* `Opens` : a place where a node opens a line, and the marks behind its first word.
* `Phrase.Accounted`, `Reads.accounted` : this for everything that is made of statements.
* `Defines.passes`, `DefinesAll.passes` : this for definitions and programs.
-/

namespace FlowLang

/-- The kinds of words that introduce clauses. -/
def TokenKind.opensClause : TokenKind → Bool
  | .keyword .«else» | .keyword .default | .keyword .options => true
  | _ => false

theorem Clause.opensClause_word (p : Clause) : (TokenKind.keyword p.word).opensClause = true := by
  cases p <;> rfl

/-! ### Marks on words -/

/-- The node is an `if` right behind an `else` that opens a line. -/
def Chained (ws : List (Token × Bool)) (n : Node) : Prop :=
  ∃ (e i : Token) (condition : String) (body : List Statement) (elseBody : Option (List Statement)),
    [(e, true), (i, false)] <:+: ws ∧ e.kind = .keyword .«else» ∧ i.kind = .keyword .«if» ∧
      n = .statement (.branch condition body elseBody i.position)

/-- The mark, or its absence, is right for this word among these words. -/
inductive Fits (ws : List (Token × Bool)) : Token × Bool → Option Mark → Prop
  | nothing {t : Token} : Fits ws (t, false) none
  | node {t : Token} {n : Node} : n.position = t.position →
    (t.kind.opensClause = true → n.isRaw = true) → Fits ws (t, true) (some (.node n))
  | clause {t : Token} {p : Clause} : t.kind = .keyword p.word → Fits ws (t, true) (some (.clause p))
  | inside {t : Token} {n : Node} : n.position = t.position → n.isComment = true ∨ Chained ws n →
    Fits ws (t, false) (some (.node n))

/-- The words between two places bear these marks, in some order.  The flags tell whether lines
start at the places. -/
def Passes (b : Bool) (ts : List Token) (c : Bool) (rest : List Token) (marks : List Mark) : Prop :=
  ∃ seen : List ((Token × Bool) × Option Mark),
    words b ts = seen.map Prod.fst ++ words c rest ∧
      (∀ x ∈ seen, Fits (seen.map Prod.fst) x.1 x.2) ∧ (seen.filterMap Prod.snd).Perm marks

theorem Fits.mono {vs ws : List (Token × Bool)} {w : Token × Bool} {m : Option Mark}
    (h : Fits vs w m) (hi : vs <:+: ws) : Fits ws w m := by
  cases h with
  | nothing => exact .nothing
  | node hp hr => exact .node hp hr
  | clause hk => exact .clause hk
  | inside hp hn =>
    refine .inside hp (hn.imp_right ?_)
    rintro ⟨e, i, condition, body, elseBody, h, h'⟩
    exact ⟨e, i, condition, body, elseBody, h.trans hi, h'⟩

namespace Passes

variable {b c d : Bool} {ts us rest : List Token} {t : Token} {k : TokenKind} {l m : List Mark}

theorem refl : Passes b ts b ts [] := ⟨[], rfl, by simp, .refl _⟩

theorem trans (h : Passes b ts c us l) (h' : Passes c us d rest m) :
    Passes b ts d rest (l ++ m) := by
  obtain ⟨seen, hw, hf, hp⟩ := h
  obtain ⟨seen', hw', hf', hp'⟩ := h'
  refine ⟨seen ++ seen', ?_, fun x hx => ?_, ?_⟩
  · rw [hw, hw', List.map_append, List.append_assoc]
  · rw [List.map_append]
    rcases List.mem_append.1 hx with hx | hx
    · exact (hf x hx).mono (List.prefix_append _ _).isInfix
    · exact (hf' x hx).mono (List.suffix_append _ _).isInfix
  · rw [List.filterMap_append]
    exact hp.append hp'

theorem perm (h : Passes b ts c rest l) (hp : l.Perm m) : Passes b ts c rest m := by
  obtain ⟨seen, hw, hf, hp'⟩ := h
  exact ⟨seen, hw, hf, hp'.trans hp⟩

/-- Tokens without words are passed over. -/
theorem skip (hw : words b ts = words c us) (h : Passes c us d rest l) : Passes b ts d rest l := by
  obtain ⟨seen, hs, h⟩ := h
  exact ⟨seen, hw.trans hs, h⟩

/-- One word with its mark. -/
theorem word {f : Bool} {m? : Option Mark} (hw : words b ts = (t, f) :: words c us)
    (hf : Fits [(t, f)] (t, f) m?) (h : Passes c us d rest l) :
    Passes b ts d rest (m?.toList ++ l) := by
  refine trans ⟨[((t, f), m?)], hw, ?_, ?_⟩ h
  · simpa using hf
  · cases m? <;> simp

/-- A word behind the first one of its line. -/
theorem next (hk : t.kind = k) (ht : k.isText = true) (h : Passes false us c rest l) :
    Passes false (t :: us) c rest l :=
  word (words_text (hk ▸ ht)) .nothing h

/-- The first word of a line, at the position of a node. -/
theorem node {n : Node} (ht : t.kind.isText = true) (hp : n.position = t.position)
    (hr : t.kind.opensClause = true → n.isRaw = true) (h : Passes false us c rest l) :
    Passes true (t :: us) c rest (.node n :: l) :=
  word (words_text ht) (.node hp hr) h

/-- The first word of a line, which introduces a clause. -/
theorem clause {p : Clause} (hk : t.kind = .keyword p.word) (h : Passes false us c rest l) :
    Passes true (t :: us) c rest (.clause p :: l) :=
  word (words_text (hk ▸ rfl)) (.clause hk) h

theorem comment (hk : t.kind = .comment) (h : Passes b us c rest l) :
    Passes b (t :: us) c rest l :=
  word (words_comment hk) .nothing h

theorem newline (hk : t.kind = .newline) (h : Passes true us c rest l) :
    Passes b (t :: us) c rest l :=
  skip (words_newline hk) h

theorem indent (hk : t.kind = .indent) (h : Passes b us c rest l) : Passes b (t :: us) c rest l :=
  skip (words_indent hk) h

theorem dedent (hk : t.kind = .dedent) (h : Passes b us c rest l) : Passes b (t :: us) c rest l :=
  skip (words_dedent hk) h

theorem input (he : kindOf ts = .eof) : Passes b ts c ts [] :=
  skip ((words_of_eof he).trans (words_of_eof he).symm) refl

theorem pastNewlines : Passes true ts true (Grammar.pastNewlines ts) [] := by
  induction ts with
  | nil => exact refl
  | cons t ts ih =>
    rw [Grammar.pastNewlines, List.dropWhile_cons]
    split
    next hk => exact .newline (by simpa using hk) ih
    next => exact refl

theorem pastTrivia : Passes true ts true (Grammar.pastTrivia ts) [] := by
  induction ts with
  | nil => exact refl
  | cons t ts ih =>
    rw [Grammar.pastTrivia, List.dropWhile_cons]
    split
    next hk =>
      cases hk' : t.kind <;> simp [hk', TokenKind.isTrivia] at hk
      · exact .comment hk' ih
      · exact .newline hk' ih
    next => exact refl

theorem pastLine : Passes false ts false (Grammar.pastLine ts) [] := by
  induction ts with
  | nil => exact refl
  | cons t ts ih =>
    rw [Grammar.pastLine, List.dropWhile_cons]
    split
    next hk =>
      exact .next rfl (by rwa [TokenKind.isText_eq]) ih
    next => exact refl

theorem dedentFirst : Passes b ts b (dedentFirst ts) [] := skip (words_dedentFirst ts).symm refl

/-- An `else` that opens a line, and an `if` behind it. -/
theorem chained {e i : Token} {p : Clause} {condition : String} {body : List Statement}
    {elseBody : Option (List Statement)} (hp : p.word = .«else») (he : e.kind = .keyword .«else»)
    (hi : i.kind = .keyword .«if») (h : Passes false us c rest l) :
    Passes true (e :: i :: us) c rest
      (.clause p :: .node (.statement (.branch condition body elseBody i.position)) :: l) := by
  refine trans (l := [_, _]) ⟨[((e, true), some _), ((i, false), some _)], ?_, ?_, .refl _⟩ h
  · rw [words_text (he ▸ rfl), words_text (hi ▸ rfl)]
    rfl
  · refine List.forall_mem_cons.2 ⟨.clause (hp ▸ he), List.forall_mem_singleton.2 ?_⟩
    exact .inside rfl (.inr ⟨e, i, condition, body, elseBody, List.infix_rfl, he, hi, rfl⟩)

/-- An indented list behind comments and ends of lines. -/
theorem indented (hts : Grammar.pastTrivia ts = t :: us) (hk : t.kind = .indent)
    (h : Passes true us c rest l) : Passes true ts c rest l :=
  (hts ▸ pastTrivia : Passes true ts true (t :: us) []).trans (.indent hk h)

/-- The end of an indented list. -/
theorem outdented (h : Passes b ts c (t :: rest) l) (hk : t.kind = .dedent) :
    Passes b ts c rest l :=
  (h.trans (.dedent hk refl)).perm (by simp)

end Passes

/-! ### Parts of lines -/

namespace Grammar

open Passes
open Reader (endsText lineText)

variable {scope : Scope} {b c d : Bool} {ts us rest : List Token} {l m : List Mark}

theorem LineEnd.passes (h : LineEnd ts rest) : Passes b ts true rest [] := by
  cases h with
  | line hn => exact .newline hn .refl
  | input he => exact .input he
  | commentLine hc hn => exact .comment hc (.newline hn .refl)
  | commentInput hc he => exact .comment hc (.input he)

theorem Arrow.passes {result : Option String} (h : Arrow result ts rest) :
    Passes false ts false rest [] := by
  cases h with
  | absent => exact .refl
  | present ha hx =>
    refine .next ha rfl ?_
    rcases hx with hx | hx <;> exact .next hx rfl .refl

theorem OptionalArgs.passes {value : Option String} (h : OptionalArgs value ts rest) :
    Passes false ts false rest [] := by
  cases h with
  | absent => exact .refl
  | present ha => exact .next ha rfl .refl

theorem Reason.passes {reason : CloseReason} (h : Reason reason ts rest) :
    Passes false ts false rest [] := by
  cases h with
  | unstated => exact .refl
  | completed hw => exact .next hw rfl .refl
  | failed hw => exact .next hw rfl .refl

theorem LoopHead.passes {header : LoopHeader} (h : LoopHead header ts rest) :
    Passes false ts false rest [] := by
  cases h with
  | forever => exact .refl
  | text ha => exact .next ha rfl .refl

theorem Event.passes {e : AwaitedEvent} (h : Event e ts rest) : Passes false ts false rest [] := by
  cases h with
  | intro hn hr => exact .next hn rfl hr.passes

/-- The line of options under a call. -/
theorem Options.passes {options : Option String} (h : Options options ts rest) :
    Passes true ts true rest (optionMarks options) := by
  cases h with
  | absent => exact .refl
  | @present _ ts₁ ts₂ _ i w a d hts hi hw ha he hts' hd =>
    have inside : Passes true (w :: a :: ts₁) true ts₂ [.clause (.options a.literal)] :=
      .clause hw (.next ha rfl he.passes)
    have behind : Passes true ts₂ true (d :: rest) [] := hts' ▸ .pastTrivia
    exact (inside.trans behind |>.indented hts hi).outdented hd

theorem DefinitionOptions.passes {options : Option String} (h : DefinitionOptions options ts rest) :
    Passes true ts true rest (optionMarks options) := by
  cases h with
  | absent => exact .refl
  | present hw ha he => exact .clause (p := .options _) hw (.next ha rfl he.passes)

/-- The comments before a block are statements of it. -/
theorem Comments.passes {comments : List Statement} (h : Comments comments ts rest) :
    Passes true ts true rest (marksOf comments) := by
  induction h with
  | nil => exact marksOf_nil ▸ .pastNewlines
  | @cons ts ts₁ ts₂ rest t later hts hc he _ ih =>
    have here : Passes true (t :: ts₁) true ts₁ [.node (.statement (.comment
        (Text.trim t.literal) t.position))] :=
      .word (words_comment hc) (.inside rfl (.inl rfl)) .refl
    exact ((hts ▸ .pastNewlines : Passes true ts true _ []).trans
      (here.trans (he.passes.trans ih))).perm (marksOf_cons _ _).symm

/-! ### Calls -/

/-- A word that introduces no clause stands at this position, and the words behind it bear these
marks. -/
def Opens (p : Position) (ts : List Token) (c : Bool) (rest : List Token) (l : List Mark) : Prop :=
  ∃ t us, ts = t :: us ∧ t.kind.isText = true ∧ t.kind.opensClause = false ∧ p = t.position ∧
    Passes false us c rest l

namespace Opens

variable {p : Position}

theorem intro {t : Token} {k : TokenKind} (hk : t.kind = k) (ht : k.isText = true)
    (ho : k.opensClause = false) (h : Passes false us c rest l) :
    Opens t.position (t :: us) c rest l :=
  ⟨t, us, rfl, hk ▸ ht, hk ▸ ho, rfl, h⟩

theorem trans (h : Opens p ts c us l) (h' : Passes c us d rest m) : Opens p ts d rest (l ++ m) := by
  obtain ⟨t, vs, rfl, ht, ho, hp, h⟩ := h
  exact ⟨t, vs, rfl, ht, ho, hp, h.trans h'⟩

theorem perm (h : Opens p ts c rest l) (hp : l.Perm m) : Opens p ts c rest m := by
  obtain ⟨t, us, rfl, ht, ho, hp', h⟩ := h
  exact ⟨t, us, rfl, ht, ho, hp', h.perm hp⟩

/-- At the start of a line the word bears the node. -/
theorem passes {n : Node} (h : Opens n.position ts c rest l) :
    Passes true ts c rest (.node n :: l) := by
  obtain ⟨t, us, rfl, ht, ho, hp, h⟩ := h
  exact .node ht hp (fun h => by rw [ho] at h; cases h) h

end Opens

theorem CallsActivity.opens {call : ActivityCall} (h : CallsActivity call ts rest) :
    Opens call.position ts false rest [] := by
  cases h with
  | intro hw hn ha hr => exact .intro hw rfl rfl (.next hn rfl (.next ha rfl hr.passes))

/-- A call of a workflow starts with its mode, with its namespace or with the word itself. -/
theorem CallsWorkflow.opens {call : WorkflowCall} (h : CallsWorkflow call ts rest) :
    Opens call.position ts false rest [] := by
  cases h with
  | @intro _ ts₁ ts₂ _ t w n a _ _ _ hm hx hw hn ha hr =>
    have name : Passes false (n :: a :: ts₂) false rest [] := .next hn rfl (.next ha rfl hr.passes)
    have behind : Passes false ts₁ false rest [] := by
      cases hx with
      | absent => exact .next hw rfl name
      | present hx hs => exact .next hx rfl (.next hs rfl (.next hw rfl name))
    cases hm with
    | child =>
      cases hx with
      | absent => exact .intro hw rfl rfl name
      | present hx hs => exact .intro hx rfl rfl (.next hs rfl (.next hw rfl name))
    | spawn hs => exact .intro hs rfl rfl behind
    | detach hd => exact .intro hd rfl rfl behind

theorem ActivityLine.opens {call : ActivityCall} (h : ActivityLine call ts rest) :
    Opens call.position ts true rest (optionMarks call.options) := by
  cases h with
  | intro hc he ho => exact hc.opens.trans (he.passes.trans ho.passes)

theorem WorkflowLine.opens {call : WorkflowCall} (h : WorkflowLine call ts rest) :
    Opens call.position ts true rest (optionMarks call.options) := by
  cases h with
  | intro hc he ho => exact hc.opens.trans (he.passes.trans ho.passes)

/-- The word at which something opens is a word like any other behind the first one of a line. -/
theorem Opens.inside {p : Position} (h : Opens p ts c rest l) : Passes false ts c rest l := by
  obtain ⟨t, us, rfl, ht, -, -, h⟩ := h
  exact .next rfl ht h

theorem Awaited.passes {target : AwaitTarget} (h : Awaited target ts rest) :
    Passes false ts true rest (optionMarks target.options) := by
  cases h with
  | timer hw ha he => exact .next hw rfl (.next ha rfl he.passes)
  | signal hw hv he => exact .next hw rfl (hv.passes.trans he.passes)
  | update hw hv he => exact .next hw rfl (hv.passes.trans he.passes)
  | activity hc => exact hc.opens.inside
  | workflow hc => exact hc.opens.inside

/-- A case of a race starts with what it waits for, which has no options. -/
theorem Raced.opens {t : Token} {target : RaceTarget} (h : Raced target (t :: ts) rest) :
    Opens t.position (t :: ts) false rest (optionMarks target.options) := by
  have here : ∀ {p us l}, Opens p (t :: us) false rest l → Opens t.position (t :: us) false rest l
      := by
    rintro p us l ⟨t', us', hts, ht, ho, -, h⟩
    cases hts
    exact ⟨t, us, rfl, ht, ho, rfl, h⟩
  cases h with
  | signal hw hv => exact .intro hw rfl rfl hv.passes
  | update hw hv => exact .intro hw rfl rfl hv.passes
  | timer hw ha => exact .intro hw rfl rfl (.next ha rfl .refl)
  | activity hc | workflow hc =>
    have h := here hc.opens
    cases hc
    exact h

/-- Such a case is no group. -/
theorem Raced.blocks_eq_nil {target : RaceTarget} (h : Raced target ts rest) :
    target.blocks = [] := by
  cases h <;> rfl

/-! ### Statements -/

/-- The marks of a case of a race, at any depth. -/
def raceMarks (c : RaceCase) : List Mark := c.ownMarks ++ c.blocks.flatMap marksOf

/-- The marks of what is made of statements. -/
def Phrase.marks : Phrase → List Mark
  | statement s => .node (.statement s) :: s.innerMarks
  | statements _ body | lines body | block body => marksOf body
  | optionalBlock body => body.toList.flatMap marksOf
  | elseBody body => body.toList.flatMap fun b => .clause (.elseBody b) :: marksOf b
  | switchCases cases => cases.flatMap fun c => .node (.switchCase c) :: marksOf c.body
  | fallback body => body.toList.flatMap fun b => .clause (.fallback b) :: marksOf b
  | raceCases cases => cases.flatMap raceMarks

/-- A line of another language or a comment, which is not behind an `else`. -/
def IsLoose (s : Statement) (ts : List Token) : Prop :=
  ((Node.statement s).isRaw = true ∨ s.isComment = true) ∧ kindOf ts ≠ .keyword .«if»

/-- The words of what is read bear its marks.  A block starts within a line, and a statement may:
behind `else`. -/
def Phrase.Accounted : Phrase → List Token → List Token → Prop
  | statement s, ts, rest => Opens s.position ts true rest s.innerMarks ∨
      IsLoose s ts ∧ Passes true ts true rest (.node (.statement s) :: s.innerMarks)
  | block body, ts, rest => Passes false ts true rest (Phrase.block body).marks
  | optionalBlock body, ts, rest => Passes false ts true rest (Phrase.optionalBlock body).marks
  | φ, ts, rest => Passes true ts true rest φ.marks

/-- At the start of a line the words of a statement bear its marks. -/
theorem Phrase.Accounted.passes {s : Statement} (h : (Phrase.statement s).Accounted ts rest) :
    Passes true ts true rest (Phrase.statement s).marks := by
  rcases h with h | ⟨-, h⟩
  · exact Opens.passes (n := .statement s) h
  · exact h

/-- A statement that is not loose and has nothing inside. -/
theorem Phrase.Accounted.atomic {s : Statement} (hb : s.blocks = [])
    (h : Opens s.position ts true rest s.sideMarks) : (Phrase.statement s).Accounted ts rest := by
  have inner : s.innerMarks = s.sideMarks := by
    rw [Statement.innerMarks, hb, List.flatMap_nil, List.append_nil]
  exact .inl (inner ▸ h)

/-- What starts with `if` is an `if`. -/
theorem Reads.branch_of_if {s : Statement} (h : Reads scope (.statement s) ts rest)
    (hk : kindOf ts = .keyword .«if») :
    ∃ condition body elseBody position, s = .branch condition body elseBody position := by
  cases h with
  | branch => exact ⟨_, _, _, _, rfl⟩
  | activityCall _ hc =>
    obtain ⟨⟨hw⟩⟩ := hc
    simp [kindOf, hw] at hk
  | workflowCall _ hc =>
    obtain ⟨⟨hm, hx, hw⟩⟩ := hc
    cases hm with
    | child => cases hx <;> simp_all [kindOf]
    | spawn hs => simp [kindOf, hs] at hk
    | detach hd => simp [kindOf, hd] at hk
  | raw hs =>
    have opens : scope.opening? (.keyword .«if») = some .branch := by cases scope <;> rfl
    rcases hs with ⟨hc, -⟩ | ⟨ho, -⟩
    · rw [hk] at hc
      cases hc
    · rw [hk, opens] at ho
      cases ho
  | await _ hw | awaitAll _ hw | awaitOne _ hw | close _ hw | continueAsNew _ hw
  | returnValue _ hw => simp [kindOf, hw] at hk
  | switch hw | loop hw | breakLoop hw | continueLoop hw | comment hw => simp [kindOf, hw] at hk

/-- **Every line of what is read bears a mark.** -/
theorem Reads.accounted {φ : Phrase} (h : Reads scope φ ts rest) : φ.Accounted ts rest := by
  induction h with
  | activityCall _ hc => exact .atomic rfl hc.opens
  | workflowCall _ hc => exact .atomic rfl hc.opens
  | await _ hw ht => exact .atomic rfl (.intro hw rfl rfl ht.passes)
  | @awaitAll ts rest w a body _ hw ha _ ih =>
    have inside : Passes false ts true rest (marksOf body) := ih
    refine .inl ((Opens.intro hw rfl rfl (.next ha rfl inside)).perm ?_)
    simp [Statement.innerMarks, Statement.sideMarks, Statement.blocks]
  | @awaitOne ts ts₁ ts₂ rest w o c i d cases _ hw ho hc he hts hi _ hd _ ih =>
    have inside : Passes true ts₂ true (d :: rest) (Phrase.raceCases cases).marks := ih
    have behind : Passes false ts true rest _ :=
      he.passes.trans ((inside.outdented hd).indented hts hi)
    refine .inl ((Opens.intro hw rfl rfl (.next ho rfl (.next hc rfl behind))).perm ?_)
    rw [Statement.innerMarks, Statement.blocks, List.flatMap_assoc]
    exact (List.flatMap_append_perm _ _ _).symm
  | @switch ts ts₁ ts₂ ts₃ rest w a c i d cases fallback hw ha hc he hts hi _ _ hd _ ihl ihf =>
    have first : Passes true ts₂ true ts₃ (Phrase.switchCases cases).marks := ihl
    have second : Passes true ts₃ true (d :: rest) (Phrase.fallback fallback).marks := ihf
    have behind : Passes false ts true rest _ :=
      he.passes.trans (((first.trans second).outdented hd).indented hts hi)
    exact .inl ((Opens.intro hw rfl rfl (.next ha rfl (.next hc rfl behind))).perm
      (innerMarks_switch a.literal cases fallback w.position))
  | @branch ts ts₁ rest w a body elseBody hw ha _ _ ihb ihe =>
    have first : Passes false ts true ts₁ (marksOf body) := ihb
    have second : Passes true ts₁ true rest (Phrase.elseBody elseBody).marks := ihe
    exact .inl ((Opens.intro hw rfl rfl (.next ha rfl (first.trans second))).perm
      (innerMarks_branch a.literal body elseBody w.position))
  | @loop ts ts₁ rest w header body hw hh _ ih =>
    have inside : Passes false ts₁ true rest (marksOf body) := ih
    refine .inl ((Opens.intro hw rfl rfl (hh.passes.trans inside)).perm ?_)
    simp [Statement.innerMarks, Statement.sideMarks, Statement.blocks]
  | close _ hw hr hv he =>
    exact .atomic rfl (.intro hw rfl rfl (hr.passes.trans (hv.passes.trans he.passes)))
  | continueAsNew _ hw hv he =>
    exact .atomic rfl (.intro hw rfl rfl (hv.passes.trans he.passes))
  | returnValue _ hw he =>
    exact .atomic rfl (.intro hw rfl rfl (Passes.pastLine.trans he.passes))
  | breakLoop hw he => exact .atomic rfl (.intro hw rfl rfl he.passes)
  | continueLoop hw he => exact .atomic rfl (.intro hw rfl rfl he.passes)
  | @raw ts rest t hs hne he =>
    -- A line of another language is not empty, so it starts with text.
    have text : t.kind.isText = true := isText_of_lineText hne
    have line : pastLine (t :: ts) = pastLine ts := by
      rw [pastLine, List.dropWhile_cons_of_pos (by rwa [← TokenKind.isText_eq])]
    refine .inr ⟨⟨.inl rfl, fun hk => ?_⟩, .node text rfl (fun _ => rfl)
      (Passes.pastLine.trans (line ▸ he).passes)⟩
    obtain ⟨_, _, _, _, he⟩ := (Reads.raw hs hne he).branch_of_if hk
    cases he
  | comment hc he =>
    refine .inr ⟨⟨.inr rfl, by simp [kindOf, hc]⟩, ?_⟩
    exact .word (words_comment hc) (.inside rfl (.inl rfl)) he.passes
  | noStatement => exact Passes.pastNewlines.perm (marksOf_nil ▸ .refl _)
  | outdented =>
    exact (Passes.pastNewlines.trans .dedentFirst).perm (by simp [Phrase.marks, marksOf_nil])
  | statementCons _ _ _ _ _ ihs ihl =>
    exact (Passes.pastNewlines.trans (ihs.passes.trans ihl)).perm (marksOf_cons _ _).symm
  | lines hc hi _ hd ih =>
    exact (hc.passes.trans (.indent hi (Passes.outdented ih hd))).perm (marksOf_append _ _).symm
  | block hc he _ ih => exact .next hc rfl (he.passes.trans ih)
  | someBlock hc he _ _ ih =>
    exact (Passes.next hc rfl (he.passes.trans ih)).perm (by simp [Phrase.marks])
  | noBlock hc he => exact .next hc rfl he.passes
  | noElse => exact .refl
  | @elseIf ts ts₁ rest w comments s _ hc hw hk hs ih =>
    obtain ⟨condition, body, elseBody, position, rfl⟩ := hs.branch_of_if hk
    rcases ih with ⟨t, us, rfl, -, -, hp, inside⟩ | ⟨hl, -⟩
    · obtain rfl : position = t.position := hp
      have here : Passes true (w :: t :: us) true rest
          (.clause (.elseBody (comments ++ [.branch condition body elseBody t.position])) ::
            .node (.statement (.branch condition body elseBody t.position)) :: _) :=
        .chained rfl hw hk inside
      exact (hc.passes.trans here).perm (by
        simpa [Phrase.marks] using marksOf_append_middle (marksOf_singleton _).symm)
    · exact absurd hk hl.2
  | @elseBlock ts ts₁ rest w comments body _ hc hw _ ih =>
    have here : Passes true (w :: ts₁) true rest (.clause (.elseBody (comments ++ body)) ::
      marksOf body) := .clause hw ih
    exact (hc.passes.trans here).perm (by
      simpa [Phrase.marks] using marksOf_append_middle (.refl _))
  | noSwitchCase => exact .pastTrivia
  | @switchCase ts ts₁ ts₂ rest w v body later hts hw hv _ _ ihb ihl =>
    have value : Passes false (v :: ts₁) true ts₂ (marksOf body) := by
      rcases hv with hv | hv | hv <;> exact .next hv rfl ihb
    have here : Passes true (w :: v :: ts₁) true ts₂ _ :=
      .node (n := .switchCase ⟨v.literal, body, w.position⟩) (hw ▸ rfl) rfl
        (fun h => by simp [hw, TokenKind.opensClause] at h) value
    exact (hts ▸ .pastTrivia : Passes true ts true _ []).trans (here.trans ihl)
  | noFallback => exact .refl
  | fallback hw _ _ ih =>
    exact .clause hw (Passes.trans ih .pastTrivia)
  | noRaceCase => exact .pastTrivia
  | @raceCase ts ts₁ ts₂ ts₃ rest w target body later hts hr _ _ ihb ihl =>
    have here := Opens.passes (n := .raceCase ⟨target, body, w.position⟩) hr.opens
    have block : Passes false ts₂ true ts₃ (body.toList.flatMap marksOf) := ihb
    have marks : raceMarks ⟨target, body, w.position⟩ = .node (.raceCase ⟨target, body, w.position⟩)
        :: optionMarks target.options ++ body.toList.flatMap marksOf := by
      rw [raceMarks, RaceCase.blocks, hr.blocks_eq_nil]
      rfl
    exact (hts ▸ .pastTrivia : Passes true ts true _ []).trans
      ((marks ▸ here.trans block : Passes _ _ _ _ (raceMarks _)).trans ihl)
  | @raceGroup ts ts₁ ts₂ rest w a body later hts hw ha _ _ ihb ihl =>
    have here := Opens.passes (n := .raceCase ⟨.awaitAll body, none, w.position⟩)
      (.intro hw rfl rfl (.next ha rfl ihb))
    have marks : raceMarks ⟨.awaitAll body, none, w.position⟩ =
        .node (.raceCase ⟨.awaitAll body, none, w.position⟩) :: marksOf body := by
      simp [raceMarks, RaceCase.ownMarks, RaceCase.blocks, RaceTarget.blocks, RaceTarget.options,
        optionMarks]
    exact (hts ▸ .pastTrivia : Passes true ts true _ []).trans
      ((marks ▸ here : Passes _ _ _ _ (raceMarks _)).trans ihl)

/-! ### Definitions -/

/-- The marks of a member of a workflow. -/
def memberMarks : Member → List Mark
  | .comment s => marksOf [s]
  | .signal h => .node (.signal h) :: marksOf h.body
  | .query h => .node (.query h) :: marksOf h.body
  | .update h => .node (.update h) :: marksOf h.body

theorem Members.passes {column : Nat} {members : List Member} (h : Members column members ts rest) :
    Passes true ts true rest (members.flatMap memberMarks) := by
  induction h with
  | nil => exact .pastNewlines
  | @comment ts ts₁ _ _ t _ hts hc _ he _ ih =>
    have here : Passes true (t :: ts₁) true ts₁ [.node (.statement (.comment
        (Text.trim t.literal) t.position))] :=
      .word (words_comment hc) (.inside rfl (.inl rfl)) .refl
    have line := ((hts ▸ .pastNewlines : Passes true ts true _ []).trans here).trans he.passes
    exact (line.perm (marksOf_singleton _).symm).trans ih
  | @signal ts ts₁ ts₂ _ w n a body _ hts hw hn ha hb _ ih =>
    have here := Opens.passes (n := .signal ⟨n.literal, a.literal, body, w.position⟩)
      (.intro hw rfl rfl (.next hn rfl (.next ha rfl hb.accounted)))
    exact (hts ▸ .pastNewlines : Passes true ts true _ []).trans (here.trans ih)
  | @query ts ts₁ ts₂ ts₃ _ w n a type body _ hts hw hn ha ht hb _ ih =>
    have here := Opens.passes (n := .query ⟨n.literal, a.literal, type, body, w.position⟩)
      (.intro hw rfl rfl (.next hn rfl (.next ha rfl (ht.passes.trans hb.accounted))))
    exact (hts ▸ .pastNewlines : Passes true ts true _ []).trans (here.trans ih)
  | @update ts ts₁ ts₂ ts₃ _ w n a type body _ hts hw hn ha ht hb _ ih =>
    have here := Opens.passes (n := .update ⟨n.literal, a.literal, type, body, w.position⟩)
      (.intro hw rfl rfl (.next hn rfl (.next ha rfl (ht.passes.trans hb.accounted))))
    exact (hts ▸ .pastNewlines : Passes true ts true _ []).trans (here.trans ih)

/-- The members of a workflow may be taken kind by kind. -/
theorem memberMarks_perm (members : List Member) : (members.flatMap memberMarks).Perm
    (marksOf (members.filterMap Member.comment?) ++
      ((members.filterMap Member.signal?).flatMap (fun h => .node (.signal h) :: marksOf h.body) ++
      (members.filterMap Member.query?).flatMap (fun h => .node (.query h) :: marksOf h.body) ++
      (members.filterMap Member.update?).flatMap fun h => .node (.update h) :: marksOf h.body)) :=
    by
  induction members with
  | nil => simp [marksOf_nil]
  | cons m members ih =>
    rw [List.flatMap_cons]
    refine (ih.append_left _).trans ?_
    have swap : ∀ x y z : List Mark, (x ++ (y ++ z)).Perm (y ++ (x ++ z)) :=
      List.perm_append_comm_assoc
    cases m with
    | comment s =>
      simp only [memberMarks, List.filterMap_cons, Member.comment?, Member.signal?, Member.query?,
        Member.update?]
      rw [← List.append_assoc]
      exact (marksOf_append [s] _).symm.append_right _
    | signal h =>
      simp only [memberMarks, List.filterMap_cons, Member.comment?, Member.signal?, Member.query?,
        Member.update?, List.flatMap_cons, List.append_assoc]
      exact swap _ _ _
    | query h =>
      simp only [memberMarks, List.filterMap_cons, Member.comment?, Member.signal?, Member.query?,
        Member.update?, List.flatMap_cons, List.append_assoc]
      exact (swap _ _ _).trans ((swap _ _ _).append_left _)
    | update h =>
      simp only [memberMarks, List.filterMap_cons, Member.comment?, Member.signal?, Member.query?,
        Member.update?, List.flatMap_cons, List.append_assoc]
      exact (swap _ _ _).trans (((swap _ _ _).trans ((swap _ _ _).append_left _)).append_left _)

/-- The words of a definition bear its marks. -/
theorem Defines.passes {definition : Definition} (h : Defines definition ts rest) :
    Passes true ts true rest definition.marks := by
  cases h with
  | @workflow us ts₁ ts₂ ts₃ ts₄ ts₅ _ w n a c i d type options comments body members hw hn ha ht hc
      he hcs hi hopt hm hb hd =>
    have inside : Passes true ts₂ true rest _ :=
      hcs.passes.trans (.indent hi (hopt.passes.trans (hm.passes.trans (Passes.outdented
        hb.accounted hd))))
    have behind : Passes false (n :: a :: us) true rest _ := .next hn rfl (.next ha rfl
      (ht.passes.trans (.next hc rfl (he.passes.trans inside))))
    refine ((Opens.intro hw rfl rfl behind).passes (n := .definition (.workflow (workflowOf
      n.literal a.literal type options comments members body w.position)))).perm
        (.trans (.cons _ ?_) (workflow_marks _).symm)
    have statements := (marksOf_append (comments ++ members.filterMap Member.comment?) body).trans
      ((marksOf_append comments (members.filterMap Member.comment?)).append_right (marksOf body))
    have parts := memberMarks_perm members
    simp only [workflowOf, Phrase.marks]
    rw [← Multiset.coe_eq_coe] at *
    simp only [← Multiset.coe_add] at *
    rw [parts, statements]
    abel
  | @activity us ts₁ ts₂ ts₃ ts₄ _ w n a c i d type options comments body hw hn ha ht hc he hcs hi
      hopt hb hd =>
    have inside : Passes true ts₂ true rest _ :=
      hcs.passes.trans (.indent hi (hopt.passes.trans (Passes.outdented hb.accounted hd)))
    have behind : Passes false (n :: a :: us) true rest (marksOf comments ++ (optionMarks options ++
        marksOf body)) :=
      .next hn rfl (.next ha rfl (ht.passes.trans (.next hc rfl (he.passes.trans inside))))
    refine ((Opens.intro hw rfl rfl behind).passes (n := .definition (.activity ⟨n.literal,
      a.literal, type, options, comments ++ body, w.position⟩))).perm ?_
    rw [activity_marks]
    exact .cons _ ((List.perm_append_comm_assoc _ _ _).trans
      ((marksOf_append comments body).symm.append_left _))

theorem DefinesAll.passes {l : List Definition} (h : DefinesAll l ts rest) :
    Passes true ts true rest (l.flatMap Definition.marks) := by
  induction h with
  | nil => exact .pastTrivia
  | cons _ hd _ ih => exact Passes.pastTrivia.trans (hd.passes.trans ih)

end Grammar

end FlowLang
