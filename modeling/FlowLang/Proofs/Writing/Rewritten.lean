import FlowLang.Proofs.Program.Relocation
import FlowLang.Proofs.Writing.Placed

/-!
# Statements and their written form

What is read from clean tokens is read again from its written form, up to positions.  The proof is
an induction over the grammar: the plain tokens of the written lines are found along with the way
in which they are read.

* `Begins`, `Reads.begins` : the first tokens of a statement.
* `Phrase.Rewritten` : the written form of a phrase has plain tokens that are read as the phrase.
* `Reads.rewritten` : this is so for all that is read from clean tokens.
-/

namespace FlowLang

open Grammar Written Reader

/-! ### First tokens -/

/-- The tokens start a statement that is no comment. -/
structure Begins (ts : List Token) : Prop where
  text : (kindOf ts).isText = true
  otherwise : kindOf ts ≠ .keyword .«else»
  signal : kindOf ts ≠ .keyword .signal
  query : kindOf ts ≠ .keyword .query
  update : kindOf ts ≠ .keyword .update
  options : kindOf ts = .keyword .options → kindOf ts.tail = .symbol

variable {ts rest : List Token} {scope : Scope}

/-- A keyword that opens a statement. -/
theorem Begins.keyword {k : Keyword} {o : Opening} (h : kindOf ts = .keyword k)
    (ho : (TokenKind.keyword k).opening? = some o) (hm : o ≠ .misplaced) : Begins ts := by
  refine ⟨by rw [h]; rfl, ?_, ?_, ?_, ?_, ?_⟩ <;> rw [h]
  all_goals
    rintro hk
    rw [hk] at ho
    cases ho
    exact absurd rfl hm

theorem Begins.rawStart (h : RawStart scope ts) (ht : (kindOf ts).isText = true) : Begins ts := by
  rcases h with ⟨hc, hs⟩ | ⟨ho, hr⟩
  · refine ⟨ht, ?_, ?_, ?_, ?_, fun _ => hs⟩ <;> intro hk <;> rw [hk] at hc <;> cases hc
  · -- such a word opens something, or is refused
    have free : ∀ k, kindOf ts = k → k.opening? ≠ some .misplaced := by
      rintro k rfl hm
      rw [Scope.opening?, if_neg (by simpa using hr)] at ho
      rw [ho] at hm
      cases hm
    exact ⟨ht, fun hk => free _ hk rfl, fun hk => free _ hk rfl, fun hk => free _ hk rfl,
      fun hk => free _ hk rfl, fun hk => absurd rfl (free _ hk)⟩

namespace Grammar

theorem Reads.begins {s : Statement} (h : Reads scope (.statement s) ts rest)
    (hc : kindOf ts ≠ .comment) : Begins ts := by
  cases h with
  | activityCall _ hl =>
    obtain ⟨⟨hw, -⟩, -⟩ := hl
    exact .keyword hw rfl nofun
  | workflowCall _ hl =>
    rcases hl.kindOf with hk | hk | hk | hk <;> exact .keyword hk rfl nofun
  | await _ hw | awaitAll _ hw | awaitOne _ hw => exact .keyword hw rfl nofun
  | switch hw | branch hw | loop hw => exact .keyword hw rfl nofun
  | close _ hw | continueAsNew _ hw | returnValue _ hw => exact .keyword hw rfl nofun
  | breakLoop hw | continueLoop hw => exact .keyword hw rfl nofun
  | raw hs hne => exact .rawStart hs (isText_of_lineText hne)
  | comment hk => exact absurd hk hc

theorem Reads.kindOf_fallback {body : Option (List Statement)}
    (h : Reads scope (.fallback body) ts rest) :
    kindOf ts = .dedent ∨ kindOf ts = .eof ∨ kindOf ts = .keyword .default := by
  cases h with
  | noFallback he => exact he.imp id .inl
  | fallback hw => exact .inr (.inr hw)

/-- A block starts with a statement, or ends at once. -/
theorem Reads.begins_statements {column : Nat} {body : List Statement}
    (h : Reads scope (.statements column body) ts rest) (ht : (kindOf ts).isTrivia = false) :
    kindOf ts = .dedent ∨ kindOf ts = .eof ∨ Begins ts := by
  have hc : kindOf ts ≠ .comment := fun hk => by simp [hk, TokenKind.isTrivia] at ht
  generalize hφ : Phrase.statements column body = φ at h
  cases h with
  | noStatement he =>
    rw [pastNewlines_eq ht] at he
    exact he.imp id .inl
  | outdented hk =>
    rw [pastNewlines_eq ht, commentEndsBlock_of_kindOf hc] at hk
    cases hk
  | statementCons _ _ _ hs =>
    rw [pastNewlines_eq ht] at hs
    exact .inr (.inr (hs.begins hc))
  | _ => cases hφ

end Grammar

/-- No statement is written as nothing. -/
theorem Statement.written_ne_nil (s : Statement) (n : Nat) : s.written n ≠ [] := by
  cases s <;> rw [Statement.written] <;> simp

theorem writtenAll_ne_nil {body : List Statement} (h : body ≠ []) (n : Nat) :
    writtenAll n body ≠ [] := by
  cases body with
  | nil => exact absurd rfl h
  | cons s body =>
    rw [writtenAll]
    exact fun he => s.written_ne_nil n (List.append_eq_nil_iff.1 he).1

theorem writtenSwitch_ne_nil {cases : List SwitchCase} (h : cases ≠ []) (n : Nat) :
    writtenSwitch n cases ≠ [] := by
  cases cases with
  | nil => exact absurd rfl h
  | cons c later =>
    obtain ⟨value, body, q⟩ := c
    rw [writtenSwitch, SwitchCase.written]
    simp

theorem writtenRace_ne_nil {cases : List RaceCase} (h : cases ≠ []) (n : Nat) :
    writtenRace n cases ≠ [] := by
  cases cases with
  | nil => exact absurd rfl h
  | cons c later =>
    obtain ⟨target, body, q⟩ := c
    rw [writtenRace]
    cases target <;> rw [RaceCase.written]
    case awaitAll => simp
    all_goals cases body <;> simp [writtenCase]

/-- The line of a case of a race, and its block. -/
theorem RaceCase.written_of_writable {target : RaceTarget} (h : target.Writable)
    (body : Option (List Statement)) (q : Position) (n : Nat) :
    ∃ text : String, text.toList = spell target.pieces ∧
      (⟨target, body, q⟩ : RaceCase).written n = ⟨n, text⟩ :: Written.inner (n + 1) body := by
  have block : ∀ header, writtenCase n header body = ⟨n, header⟩ :: Written.inner (n + 1) body :=
    fun header => by cases body <;> rw [writtenCase] <;> rfl
  cases target with
  | timer d =>
    refine ⟨_, ?_, by rw [RaceCase.written, block]⟩
    simp [RaceTarget.pieces, spell_word, spell_group, spell_colon, Keyword.text]
  | signal e | update e =>
    refine ⟨_, ?_, by rw [RaceCase.written, block]⟩
    simp [RaceTarget.pieces, spell_word, e.spell_pieces, spell_colon, Keyword.text]
  | activity c | workflow c =>
    refine ⟨_, ?_, by rw [RaceCase.written, block]⟩
    simp [RaceTarget.pieces, c.spell_pieces 0, spell_colon]
  | awaitAll members => exact h.elim

/-- What stands behind a statement of a block may stand there. -/
theorem Follows.of_begins (h : kindOf ts = .dedent ∨ kindOf ts = .eof ∨ Begins ts) :
    Follows ts := by
  rcases h with h | h | h
  · exact ⟨by rw [h]; rfl, by rw [h]; exact nofun, by rw [h]; exact nofun⟩
  · exact ⟨by rw [h]; rfl, by rw [h]; exact nofun, by rw [h]; exact nofun⟩
  · exact .of_isText h.text h.otherwise

/-- Behind written lines stands what follows them, or else they start with text. -/
theorem Spells.kindOf_append {n : Nat} {lines : List WrittenLine} {us : List Token}
    (h : Spells n lines us) (later : List Token) :
    kindOf (us ++ later) = kindOf later ∨ (kindOf (us ++ later)).isText = true := by
  by_cases hne : lines = []
  · rw [h.nothing hne]
    exact .inl rfl
  · rw [FlowLang.kindOf_append (TokenKind.ne_of_isText (h.starts hne) rfl)]
    exact .inr (h.starts hne)

theorem Spells.isTrivia {n : Nat} {lines : List WrittenLine} {us later : List Token}
    (h : Spells n lines us) (hl : (kindOf later).isTrivia = false) :
    (kindOf (us ++ later)).isTrivia = false := by
  rcases h.kindOf_append later with hk | hk
  · rwa [hk]
  · exact TokenKind.isTrivia_of_isText hk

/-- A line stands behind an `indent`. -/
theorem Clean.pastNewlines_of_indent {i : Token} (hc : Clean (i :: ts)) (hi : i.kind = .indent) :
    pastNewlines ts = ts := by
  cases ts with
  | nil => rfl
  | cons t ts =>
    have text := hc.isText_of_indent hi (List.cons_ne_nil t ts)
    exact pastNewlines_eq (TokenKind.isTrivia_of_isText text)

/-- A statement behind which the block goes on. -/
theorem Grammar.Reads.cons_text {s : Statement} {body : List Statement} {column : Nat}
    {ts₁ : List Token} (ht : (kindOf ts).isText = true) (hs : Reads scope (.statement s) ts ts₁)
    (hl : Reads scope (.statements column body) ts₁ rest) :
    Reads scope (.statements column (s :: body)) ts rest := by
  have hp : pastNewlines ts = ts := pastNewlines_eq (TokenKind.isTrivia_of_isText ht)
  refine .statementCons ?_ ?_ ?_ (hp.symm ▸ hs) hl <;> rw [hp]
  · exact TokenKind.ne_of_isText ht rfl
  · exact TokenKind.ne_of_isText ht rfl
  · exact commentEndsBlock_of_kindOf (TokenKind.ne_of_isText ht rfl)

theorem Grammar.Reads.fallback_dedent {w : Token} {body : List Statement} {later : List Token}
    (hw : w.kind = .keyword .default) (hb : Reads scope (.block body) ts later)
    (hl : kindOf later = .dedent) : Reads scope (.fallback (some body)) (w :: ts) later := by
  have hp : pastTrivia later = later := pastTrivia_eq (by rw [hl]; rfl)
  have h := Reads.fallback hw hb (.inl (by rw [hp, hl]))
  rwa [hp] at h

/-! ### Phrases -/

/-- Positions are forgotten. -/
abbrev origin : Position → Position := fun _ => ⟨0, 0⟩

namespace Grammar

/-- The written form of a phrase has plain tokens that are read as the phrase, in another place,
whatever follows that may follow such a phrase. -/
def Phrase.Rewritten (scope : Scope) : Phrase → Prop
  | statement s => ∀ n, ∃ us, Spells n (s.written n) us ∧ ∀ later, Follows later →
    ∃ s', s'.relocate origin = s.relocate origin ∧
      Reads scope (.statement s') (us ++ later) later
  | statements _ body => ∀ n, ∃ us, Spells n (writtenAll n body) us ∧
    ∀ later, kindOf later = .dedent →
      ∃ body', relocateAll origin body' = relocateAll origin body ∧
        ∀ column, Reads scope (.statements column body') (us ++ later) later
  | lines body | block body => ∀ n, ∃ us, Nested n (writtenAll (n + 1) body) us ∧
    kindOf us = .indent ∧ ∀ later,
      ∃ body', relocateAll origin body' = relocateAll origin body ∧
        Reads scope (.lines body') (us ++ later) later
  | optionalBlock body => ∀ n, ∃ us, Nested n (Written.inner (n + 1) body) us ∧
    ∀ later, (kindOf later).isTrivia = false → kindOf later ≠ .indent →
      ∃ body', relocateOptional origin body' = relocateOptional origin body ∧
        ∀ c, c.kind = .colon →
          Reads scope (.optionalBlock body') (c :: plainNewline :: (us ++ later)) later
  | elseBody body => ∀ n, ∃ us, Spells n (writtenOptional n "else:" body) us ∧
    ∀ later, Follows later →
      ∃ body', relocateOptional origin body' = relocateOptional origin body ∧
        Reads scope (.elseBody body') (us ++ later) later
  | switchCases cases => ∀ n, ∃ us, Spells n (writtenSwitch n cases) us ∧
    ∀ later, (kindOf later).isTrivia = false → kindOf later ≠ .keyword .case →
      ∃ cases', relocateSwitch origin cases' = relocateSwitch origin cases ∧
        Reads scope (.switchCases cases') (us ++ later) later
  | fallback body => ∀ n, ∃ us, Spells n (writtenOptional n "default:" body) us ∧
    ∀ later, kindOf later = .dedent →
      ∃ body', relocateOptional origin body' = relocateOptional origin body ∧
        Reads scope (.fallback body') (us ++ later) later
  | raceCases cases => ∀ n, ∃ us, Spells n (writtenRace n cases) us ∧
    ∀ later, kindOf later = .dedent →
      ∃ cases', relocateRace origin cases' = relocateRace origin cases ∧
        Reads scope (.raceCases cases') (us ++ later) later

/-! ### Statements of one line -/

namespace Phrase.Rewritten

/-- A statement in one line, perhaps with a line of options under it. -/
theorem line {s : Statement} (text : String) {ps : List Piece} {o : Option String}
    (hps : FittingLine ps) (ht : text.toList = spell ps) (ho : ∀ t ∈ o, Lexed .args t)
    (hs : ∀ n, s.written n = ⟨n, text⟩ :: Written.options (n + 1) o)
    (h : ∀ column us later, Options o us later → ∃ s', s'.relocate origin = s.relocate origin ∧
      Reads scope (.statement s') (place 0 column ps ++ plainNewline :: us) later) :
    (Phrase.statement s).Rewritten scope := by
  intro n
  obtain ⟨us, hus, hread⟩ := nested_options n ho
  rw [hs]
  refine ⟨_, .headed hps ht hus, fun later hl => ?_⟩
  rw [List.append_assoc, List.cons_append]
  exact h (4 * n + 1) (us ++ later) later (hread later hl)

/-- A statement in one line. -/
theorem single {s : Statement} (text : String) {ps : List Piece} (hps : FittingLine ps)
    (ht : text.toList = spell ps) (hs : ∀ n, s.written n = [⟨n, text⟩])
    (h : ∀ column later, ∃ s', s'.relocate origin = s.relocate origin ∧
      Reads scope (.statement s') (place 0 column ps ++ plainNewline :: later) later) :
    (Phrase.statement s).Rewritten scope := by
  refine line (o := none) text hps ht (by simp) hs fun column us later ho => ?_
  cases ho
  exact h column _

theorem activityCall {c : ActivityCall} (hr : scope.isRestricted = false) (h : c.Writable) :
    (Phrase.statement (.activityCall c)).Rewritten scope := by
  refine line c.text (h.lead .nil 0).fittingLine (by simp [c.spell_pieces 0]) h.options
    (fun n => by rw [Statement.written]) fun column us later ho => ?_
  obtain ⟨p, hl⟩ := ActivityLine.placed h ho 0 column
  exact ⟨_, by rw [Statement.relocate, Statement.relocate]; rfl, .activityCall hr hl⟩

theorem workflowCall {c : WorkflowCall} (hr : scope.isRestricted = false) (h : c.Writable) :
    (Phrase.statement (.workflowCall c)).Rewritten scope := by
  refine line c.text (h.lead .nil 0).fittingLine (by simp [c.spell_pieces 0]) h.options
    (fun n => by rw [Statement.written]) fun column us later ho => ?_
  obtain ⟨p, hl⟩ := WorkflowLine.placed h ho 0 column
  exact ⟨_, by rw [Statement.relocate, Statement.relocate]; rfl, .workflowCall hr hl⟩

theorem await {target : AwaitTarget} {q : Position} (hr : scope.isRestricted = false)
    (h : target.Writable) : (Phrase.statement (.await target q)).Rewritten scope := by
  refine line target.text (Lead.word h.sequel).fittingLine target.spell_pieces.symm h.options
    (fun n => by rw [Statement.written]) fun column us later ho => ?_
  obtain ⟨p, hl⟩ := Awaited.placed h ho _
  refine ⟨_, ?_, .await hr rfl hl⟩
  rw [Statement.relocate, Statement.relocate]
  cases target <;> rfl

theorem close {reason : CloseReason} {value : Option String} {q : Position}
    (hs : scope = .workflow) (h : ∀ s ∈ value, Lexed .args s) :
    (Phrase.statement (.close reason value q)).Rewritten scope := by
  refine single (reason.text ++ Written.value value)
    (Lead.word (reason.sequel_pieces (sequel_valuePieces h))).fittingLine
    (by rw [reason.spell_pieces, spell_valuePieces, String.toList_append])
    (fun n => by rw [Statement.written]) fun column later => ?_
  obtain ⟨column', hr⟩ := Reason.placed reason value later _
  refine ⟨_, ?_, .close hs rfl hr (.placed value later column') (.line rfl)⟩
  rw [Statement.relocate, Statement.relocate]

theorem continueAsNew {args : String} {q : Position} (hs : scope = .workflow)
    (h : Lexed .args args) : (Phrase.statement (.continueAsNew args q)).Rewritten scope := by
  refine single ("continue_as_new" ++ group args)
    (Lead.word (k := .continueAsNew) (.group 0 h .nil)).fittingLine
    (by simp [spell_word, spell_group, Keyword.text])
    (fun n => by rw [Statement.written]) fun column later => ?_
  refine ⟨_, ?_, .continueAsNew hs rfl (.present (a := ⟨_, _, _⟩) rfl) (.line rfl)⟩
  rw [Statement.relocate, Statement.relocate]
  rfl

theorem breakLoop {q : Position} : (Phrase.statement (.breakLoop q)).Rewritten scope := by
  refine single "break" (Lead.word (k := .«break») .nil).fittingLine
    (by simp [spell_word, Keyword.text]) (fun n => by rw [Statement.written]) fun column later => ?_
  exact ⟨_, by rw [Statement.relocate, Statement.relocate], .breakLoop rfl (.line rfl)⟩

theorem continueLoop {q : Position} : (Phrase.statement (.continueLoop q)).Rewritten scope := by
  refine single "continue" (Lead.word (k := .«continue») .nil).fittingLine
    (by simp [spell_word, Keyword.text]) (fun n => by rw [Statement.written]) fun column later => ?_
  exact ⟨_, by rw [Statement.relocate, Statement.relocate], .continueLoop rfl (.line rfl)⟩

/-- A value is written as it stands in its line. -/
theorem returnValue {q : Position} (hs : scope ≠ .workflow) (hc : Clean ts) :
    (Phrase.statement (.returnValue (if lineText (lineOf ts) = "" then none else some
      (lineText (lineOf ts))) q)).Rewritten scope := by
  obtain ⟨hl, hchain⟩ := hc.lineOf
  split
  next =>
    refine single "return" (Lead.word (k := .«return») .nil).fittingLine
      (by simp [spell_word, Keyword.text]) (fun n => by rw [Statement.written]; rfl)
      fun column later => ?_
    refine ⟨_, ?_, .returnValue hs rfl (.line rfl)⟩
    rw [Statement.relocate, Statement.relocate]
    rfl
  next hne =>
    cases hts : lineOf ts with
    | nil => exact absurd (by rw [hts]; rfl) hne
    | cons t l =>
      rw [hts] at hne hl hchain
      have hf := fitting_pieces hl hchain 1
      have hspell := spell_pieces 1 (t :: l)
      obtain ⟨ps, hps⟩ := pieces_cons 1 t l
      have hfit : FittingLine (.word 0 .«return» :: pieces 1 (t :: l)) := by
        refine ⟨⟨List.forall_mem_cons.2 ⟨⟨lexed_keyword _, rfl⟩, hf.lexed⟩, ?_⟩, _, _, rfl, rfl⟩
        rw [hps] at hf ⊢
        refine List.isChain_cons_cons.2 ⟨?_, hf.apart⟩
        intro h
        cases h
      refine single ("return " ++ lineText (t :: l)) hfit
        (by simp [spell_word, hspell, Keyword.text]) (fun n => by rw [Statement.written]; rfl)
        fun column later => ?_
      rw [place, List.cons_append]
      obtain ⟨htext, hend⟩ := line_placed hl hchain 1 _ later
      refine ⟨_, ?_, .returnValue hs rfl hend⟩
      rw [Statement.relocate, Statement.relocate, htext, if_neg hne]

/-- A line of another language is written as it stands. -/
theorem raw {t : Token} {q : Position} (hs : RawStart scope (t :: ts))
    (hne : lineText (lineOf (t :: ts)) ≠ "") (hc : Clean (t :: ts)) :
    (Phrase.statement (.raw (lineText (lineOf (t :: ts))) q)).Rewritten scope := by
  have hfirst : lineOf (t :: ts) = t :: lineOf ts :=
    List.takeWhile_cons_of_pos (by rw [← TokenKind.isText_eq]; exact isText_of_lineText hne)
  obtain ⟨hl, hchain⟩ := hc.lineOf
  rw [hfirst] at hne hl hchain ⊢
  have hspell := spell_pieces 0 (t :: lineOf ts)
  obtain ⟨ps, hps⟩ := pieces_cons 0 t (lineOf ts)
  refine single (lineText (t :: lineOf ts)) ⟨fitting_pieces hl hchain 0, _, _, hps, rfl⟩
    (by simp [hspell]) (fun n => by rw [Statement.written]) fun column later => ?_
  obtain ⟨htext, hend⟩ := line_placed hl hchain 0 column later
  have hstart := hs.placed column (plainNewline :: later)
  rw [hps] at htext hend hstart ⊢
  refine ⟨_, ?_, .raw hstart (htext.symm ▸ hne) hend⟩
  rw [Statement.relocate, Statement.relocate]
  exact congrArg (Statement.raw · _) htext

/-! ### Blocks -/

theorem noStatements {column : Nat} : (Phrase.statements column []).Rewritten scope := by
  intro n
  rw [writtenAll]
  refine ⟨[], .nil, fun later hl => ⟨[], rfl, fun column => ?_⟩⟩
  have hp : pastNewlines later = later := pastNewlines_eq (by rw [hl]; rfl)
  have hend : Reads scope (.statements column []) later (pastNewlines later) :=
    .noStatement (.inl (by rw [hp, hl]))
  rwa [hp] at hend

theorem statements {column : Nat} {s : Statement} {body : List Statement}
    (hs : (Phrase.statement s).Rewritten scope)
    (hl : (Phrase.statements column body).Rewritten scope) :
    (Phrase.statements column (s :: body)).Rewritten scope := by
  intro n
  obtain ⟨us, hus, hread⟩ := hs n
  obtain ⟨vs, hvs, hread'⟩ := hl n
  rw [writtenAll]
  refine ⟨us ++ vs, hus.append hvs, fun later hlater => ?_⟩
  obtain ⟨body', hbody, hr'⟩ := hread' later hlater
  have htrivia : (kindOf (vs ++ later)).isTrivia = false := hvs.isTrivia (by rw [hlater]; rfl)
  obtain ⟨s', hs', hr⟩ := hread (vs ++ later) (.of_begins ((hr' column).begins_statements htrivia))
  refine ⟨s' :: body', by rw [relocateAll, relocateAll, hs', hbody], fun column => ?_⟩
  rw [List.append_assoc]
  refine .cons_text ?_ hr (hr' column)
  have text := hus.starts (s.written_ne_nil n)
  rwa [kindOf_append (TokenKind.ne_of_isText text rfl)]

theorem lines {column : Nat} {body : List Statement}
    (h : (Phrase.statements column body).Rewritten scope) (hne : body ≠ []) :
    (Phrase.lines body).Rewritten scope := by
  intro n
  obtain ⟨us, hus, hread⟩ := h (n + 1)
  refine ⟨_, hus.nested (writtenAll_ne_nil hne (n + 1)), rfl, fun later => ?_⟩
  obtain ⟨body', hb, hr⟩ := hread (plainDedent :: later) rfl
  refine ⟨body', hb, ?_⟩
  rw [List.cons_append, List.append_assoc]
  exact .lines (.placed rfl) rfl (hr _) rfl

theorem someBlock {body : List Statement} (h : (Phrase.lines body).Rewritten scope) :
    (Phrase.optionalBlock (some body)).Rewritten scope := by
  intro n
  obtain ⟨us, hus, hi, hread⟩ := h n
  refine ⟨us, hus, fun later _ _ => ?_⟩
  obtain ⟨body', hb, hr⟩ := hread later
  refine ⟨some body', by rw [relocateOptional, relocateOptional, hb], fun c hc => ?_⟩
  refine .someBlock hc (.line rfl) ?_ hr
  have hk : kindOf (us ++ later) = .indent := by
    rw [kindOf_append (by rw [hi]; exact nofun), hi]
  rw [pastTrivia_eq (by rw [hk]; rfl), hk]

theorem noBlock : (Phrase.optionalBlock none).Rewritten scope := by
  intro n
  refine ⟨[], .nil, fun later ht hi => ⟨none, rfl, fun c hc => .noBlock hc (.line rfl) ?_⟩⟩
  rwa [pastTrivia_eq ht]

/-! ### Statements with blocks -/

theorem awaitAll {body : List Statement} {q : Position} (hr : scope.isRestricted = false)
    (h : (Phrase.block body).Rewritten scope) :
    (Phrase.statement (.awaitAll body q)).Rewritten scope := by
  intro n
  obtain ⟨us, hus, -, hread⟩ := h n
  rw [Statement.written]
  refine ⟨_, .headed (Lead.word (k := .await) (.word (k := .all) sequel_colon)).fittingLine
    (by simp [spell_word, spell_colon, Keyword.text]) hus, fun later _ => ?_⟩
  obtain ⟨body', hb, hl⟩ := hread later
  rw [List.append_assoc, List.cons_append]
  refine ⟨_, ?_, .awaitAll hr rfl rfl (.block rfl (.line rfl) hl)⟩
  rw [Statement.relocate, Statement.relocate, hb]

theorem awaitOne {cases : List RaceCase} {q : Position} (hr : scope.isRestricted = false)
    (hne : cases ≠ []) (h : (Phrase.raceCases cases).Rewritten scope) :
    (Phrase.statement (.awaitOne cases q)).Rewritten scope := by
  intro n
  obtain ⟨us, hus, hread⟩ := h (n + 1)
  rw [Statement.written]
  refine ⟨_, .headed (Lead.word (k := .await) (.word (k := .one) sequel_colon)).fittingLine
    (by simp [spell_word, spell_colon, Keyword.text]) (hus.nested (writtenRace_ne_nil hne (n + 1))),
    fun later _ => ?_⟩
  obtain ⟨cases', hc, hl⟩ := hread (plainDedent :: later) rfl
  rw [List.append_assoc, List.cons_append, List.cons_append, List.append_assoc]
  refine ⟨_, ?_, .awaitOne hr rfl rfl rfl (.line rfl) rfl rfl hl rfl ?_⟩
  · rw [Statement.relocate, Statement.relocate, hc]
  · rintro rfl
    rw [relocateRace_eq_map, relocateRace_eq_map] at hc
    exact hne (List.map_eq_nil_iff.1 hc.symm)

theorem branch {condition : String} {body : List Statement} {elseBody : Option (List Statement)}
    {q : Position} (hcond : Lexed .args condition) (h : (Phrase.block body).Rewritten scope)
    (he : (Phrase.elseBody elseBody).Rewritten scope) :
    (Phrase.statement (.branch condition body elseBody q)).Rewritten scope := by
  intro n
  obtain ⟨us, hus, -, hread⟩ := h n
  obtain ⟨vs, hvs, hread'⟩ := he n
  rw [Statement.written]
  refine ⟨_, (Spells.headed (Lead.word (k := .«if») (.group 1 hcond sequel_colon)).fittingLine
    (by simp [spell_word, spell_group, spell_colon, Keyword.text]) hus).append hvs,
    fun later hlater => ?_⟩
  obtain ⟨elseBody', he', hl'⟩ := hread' later hlater
  obtain ⟨body', hb, hl⟩ := hread (vs ++ later)
  rw [List.append_assoc, List.append_assoc, List.cons_append]
  refine ⟨_, ?_, .branch (a := ⟨_, _, _⟩) rfl rfl (.block rfl (.line rfl) hl) hl'⟩
  rw [Statement.relocate, Statement.relocate, hb, he']
  rfl

theorem loop {header : LoopHeader} {body : List Statement} {q : Position}
    (hh : ∀ s ∈ header.inner?, Lexed .args s ∧ LoopHeader.ofText s = .ok header)
    (h : (Phrase.block body).Rewritten scope) :
    (Phrase.statement (.loop header body q)).Rewritten scope := by
  intro n
  obtain ⟨us, hus, -, hread⟩ := h n
  rw [Statement.written]
  refine ⟨_, .headed (Lead.word (header.sequel_pieces fun s hs => (hh s hs).1)).fittingLine
    header.spell_pieces.symm hus, fun later _ => ?_⟩
  obtain ⟨body', hb, hl⟩ := hread later
  obtain ⟨c, hc, hp⟩ := LoopHead.placed (fun s hs => (hh s hs).2)
    (plainNewline :: (us ++ later)) _
  rw [List.append_assoc, List.cons_append]
  refine ⟨_, ?_, .loop rfl hp (.block hc (.line rfl) hl)⟩
  rw [Statement.relocate, Statement.relocate, hb]

theorem switch {subject : String} {cases : List SwitchCase} {fallback : Option (List Statement)}
    {q : Position} (hs : Lexed .args subject) (hne : cases ≠ [])
    (h : (Phrase.switchCases cases).Rewritten scope)
    (hf : (Phrase.fallback fallback).Rewritten scope) :
    (Phrase.statement (.switch subject cases fallback q)).Rewritten scope := by
  intro n
  obtain ⟨us, hus, hread⟩ := h (n + 1)
  obtain ⟨vs, hvs, hread'⟩ := hf (n + 1)
  have hcases := writtenSwitch_ne_nil hne (n + 1)
  rw [Statement.written, List.cons_append]
  refine ⟨_, .headed (Lead.word (k := .switch) (.group 1 hs sequel_colon)).fittingLine
    (by simp [spell_word, spell_group, spell_colon, Keyword.text])
    ((hus.append hvs).nested (by simp [hcases])), fun later _ => ?_⟩
  obtain ⟨fallback', hf', hl'⟩ := hread' (plainDedent :: later) rfl
  have hk := hl'.kindOf_fallback
  obtain ⟨cases', hc, hl⟩ := hread (vs ++ plainDedent :: later)
    (by rcases hk with hk | hk | hk <;> rw [hk] <;> rfl)
    (by rcases hk with hk | hk | hk <;> rw [hk] <;> decide)
  rw [List.append_assoc, List.cons_append, List.cons_append, List.append_assoc, List.append_assoc]
  refine ⟨_, ?_, .switch (a := ⟨_, _, _⟩) rfl rfl rfl (.line rfl) rfl rfl hl hl' rfl ?_⟩
  · rw [Statement.relocate, Statement.relocate, hc, hf']
    rfl
  · rintro rfl
    rw [relocateSwitch_eq_map, relocateSwitch_eq_map] at hc
    exact hne (List.map_eq_nil_iff.1 hc.symm)

/-! ### Parts of statements -/

theorem noElse : (Phrase.elseBody none).Rewritten scope := by
  intro n
  refine ⟨[], ?_, fun later hl => ⟨none, rfl, .noElse ?_⟩⟩
  · rw [writtenOptional]
    exact .nil
  · rw [List.nil_append, pastTrivia_eq hl.trivia]
    exact hl.otherwise

/-- Whatever follows `else` is written as a block. -/
theorem elseBlock {body : List Statement} (h : (Phrase.lines body).Rewritten scope) :
    (Phrase.elseBody (some body)).Rewritten scope := by
  intro n
  obtain ⟨us, hus, -, hread⟩ := h n
  rw [writtenOptional]
  refine ⟨_, .headed (Lead.word (k := .«else») sequel_colon).fittingLine
    (by simp [spell_word, spell_colon, Keyword.text]) hus, fun later _ => ?_⟩
  obtain ⟨body', hb, hl⟩ := hread later
  rw [List.append_assoc, List.cons_append]
  refine ⟨some body', by rw [relocateOptional, relocateOptional, hb], ?_⟩
  exact .elseBlock rfl (.placed rfl) rfl (.block rfl (.line rfl) hl)

theorem noSwitchCase : (Phrase.switchCases []).Rewritten scope := by
  intro n
  refine ⟨[], ?_, fun later ht hk => ⟨[], rfl, ?_⟩⟩
  · rw [writtenSwitch]
    exact .nil
  · have hp := pastTrivia_eq ht
    have hend : Reads scope (.switchCases []) later (pastTrivia later) :=
      .noSwitchCase (by rwa [hp])
    rwa [hp] at hend

theorem switchCase {value : String} {body : List Statement} {q : Position}
    {later : List SwitchCase} (hv : Lexed .args value) (h : (Phrase.block body).Rewritten scope)
    (hl : (Phrase.switchCases later).Rewritten scope) :
    (Phrase.switchCases (⟨value, body, q⟩ :: later)).Rewritten scope := by
  intro n
  obtain ⟨us, hus, -, hread⟩ := h n
  obtain ⟨vs, hvs, hread'⟩ := hl n
  rw [writtenSwitch, SwitchCase.written]
  refine ⟨_, (Spells.headed (Lead.word (k := .case) (.group 1 hv sequel_colon)).fittingLine
    (by simp [spell_word, spell_group, spell_colon, Keyword.text]) hus).append hvs,
    fun behind ht hk => ?_⟩
  obtain ⟨later', hl', hr'⟩ := hread' behind ht hk
  obtain ⟨body', hb, hr⟩ := hread (vs ++ behind)
  rw [List.append_assoc, List.append_assoc, List.cons_append]
  refine ⟨_, ?_, .switchCase (v := ⟨_, _, _⟩) rfl rfl (.inl rfl) (.block rfl (.line rfl) hr) hr'⟩
  rw [relocateSwitch, relocateSwitch, SwitchCase.relocate, SwitchCase.relocate, hb, hl']
  rfl

theorem noFallback : (Phrase.fallback none).Rewritten scope := by
  intro n
  refine ⟨[], ?_, fun later hl => ⟨none, rfl, .noFallback (.inl hl)⟩⟩
  rw [writtenOptional]
  exact .nil

theorem fallback {body : List Statement} (h : (Phrase.block body).Rewritten scope) :
    (Phrase.fallback (some body)).Rewritten scope := by
  intro n
  obtain ⟨us, hus, -, hread⟩ := h n
  rw [writtenOptional]
  refine ⟨_, .headed (Lead.word (k := .default) sequel_colon).fittingLine
    (by simp [spell_word, spell_colon, Keyword.text]) hus, fun later hlater => ?_⟩
  obtain ⟨body', hb, hl⟩ := hread later
  rw [List.append_assoc, List.cons_append]
  refine ⟨some body', by rw [relocateOptional, relocateOptional, hb], ?_⟩
  exact .fallback_dedent rfl (.block rfl (.line rfl) hl) hlater

theorem noRaceCase : (Phrase.raceCases []).Rewritten scope := by
  intro n
  refine ⟨[], ?_, fun later hl => ⟨[], rfl, ?_⟩⟩
  · rw [writtenRace]
    exact .nil
  · have hp : pastTrivia later = later := pastTrivia_eq (by rw [hl]; rfl)
    have hend : Reads scope (.raceCases []) later (pastTrivia later) :=
      .noRaceCase (.inl (by rw [hp, hl]))
    rwa [hp] at hend

theorem raceCase {target : RaceTarget} {body : Option (List Statement)} {q : Position}
    {later : List RaceCase} (ht : target.Writable) (h : (Phrase.optionalBlock body).Rewritten scope)
    (hl : (Phrase.raceCases later).Rewritten scope) :
    (Phrase.raceCases (⟨target, body, q⟩ :: later)).Rewritten scope := by
  intro n
  obtain ⟨us, hus, hread⟩ := h n
  obtain ⟨vs, hvs, hread'⟩ := hl n
  obtain ⟨text, htext, hw⟩ := RaceCase.written_of_writable ht body q n
  rw [writtenRace, hw]
  refine ⟨_, (Spells.headed ht.lead.fittingLine htext hus).append hvs, fun behind hbehind => ?_⟩
  obtain ⟨later', hl', hr'⟩ := hread' behind hbehind
  have hi : kindOf (vs ++ behind) ≠ .indent := by
    rcases hvs.kindOf_append behind with hk | hk
    · rw [hk, hbehind]
      exact nofun
    · exact TokenKind.ne_of_isText hk rfl
  obtain ⟨body', hb, hr⟩ := hread (vs ++ behind) (hvs.isTrivia (by rw [hbehind]; rfl)) hi
  obtain ⟨p, c, hc, hp⟩ := Raced.placed ht (plainNewline :: (us ++ (vs ++ behind))) (4 * n + 1)
  obtain ⟨f, ps, hps, -, hf, -⟩ := ht.lead
  rw [List.append_assoc, List.append_assoc, List.cons_append, hps, place, List.cons_append]
  rw [hps, place, List.cons_append] at hp
  refine ⟨_, ?_, .raceCase (pastTrivia_eq ?_) hp (hr c hc) hr'⟩
  · rw [relocateRace, relocateRace, RaceCase.relocate, RaceCase.relocate,
      RaceTarget.relocate_relocate, hb, hl']
    rfl
  · exact TokenKind.isTrivia_of_isText hf.text

theorem raceGroup {body : List Statement} {q : Position} {later : List RaceCase}
    (h : (Phrase.block body).Rewritten scope) (hl : (Phrase.raceCases later).Rewritten scope) :
    (Phrase.raceCases (⟨.awaitAll body, none, q⟩ :: later)).Rewritten scope := by
  intro n
  obtain ⟨us, hus, -, hread⟩ := h n
  obtain ⟨vs, hvs, hread'⟩ := hl n
  rw [writtenRace, RaceCase.written]
  refine ⟨_, (Spells.headed (Lead.word (k := .await) (.word (k := .all) sequel_colon)).fittingLine
    (by simp [spell_word, spell_colon, Keyword.text]) hus).append hvs, fun behind hbehind => ?_⟩
  obtain ⟨later', hl', hr'⟩ := hread' behind hbehind
  obtain ⟨body', hb, hr⟩ := hread (vs ++ behind)
  rw [List.append_assoc, List.append_assoc, List.cons_append]
  refine ⟨_, ?_, .raceGroup rfl rfl rfl (.block rfl (.line rfl) hr) hr'⟩
  rw [relocateRace, relocateRace, RaceCase.relocate, RaceCase.relocate, RaceTarget.relocate,
    RaceTarget.relocate, hb, hl', relocateOptional]

end Phrase.Rewritten

/-! ### All phrases -/

/-- Clean tokens hold no comments. -/
theorem Comments.eq_of_clean {l : List Statement} (h : Comments l ts rest) (hc : Clean ts) :
    l = [] ∧ rest = pastNewlines ts := by
  cases h with
  | nil => exact ⟨rfl, rfl⟩
  | cons hts hk => exact absurd hk ((hts ▸ hc.moves .pastNewlines).bare _ List.mem_cons_self)

/-- Behind an `indent` there is a statement. -/
theorem Reads.ne_nil_of_indent {i d : Token} {column : Nat} {body : List Statement}
    (h : Reads scope (.statements column body) ts (d :: rest)) (hi : i.kind = .indent)
    (hc : Clean (i :: ts)) : body ≠ [] := by
  rintro rfl
  have hne : ts ≠ [] := by
    rintro rfl
    exact absurd h.moves.length_le (by simp)
  have hp := hc.pastNewlines_of_indent hi
  generalize d :: rest = us at h
  cases h with
  | noStatement he =>
    rw [hp] at he
    have text := hc.isText_of_indent hi hne
    rcases he with he | he <;> rw [he] at text <;> cases text
  | outdented hk =>
    rw [hp, commentEndsBlock_of_kindOf hc.tail.kindOf_ne_comment] at hk
    cases hk

/-- **What is read from clean tokens is read again from its written form.** -/
theorem Reads.rewritten {φ : Phrase} (h : Reads scope φ ts rest) (hc : Clean ts) :
    φ.Rewritten scope := by
  induction h with
  | activityCall hr hl => exact .activityCall hr (hl.writable hc)
  | workflowCall hr hl => exact .workflowCall hr (hl.writable hc)
  | await hr _ hl => exact .await hr (hl.writable hc.tail)
  | awaitAll hr _ _ _ ih => exact .awaitAll hr (ih hc.tail.tail)
  | awaitOne hr _ _ _ he hts hi _ _ hne ih =>
    have inside := (hc.tail.tail.tail.moves he.moves).moves .pastTrivia
    rw [hts] at inside
    exact .awaitOne hr hne (ih inside.tail)
  | switch _ ha _ he hts hi hl _ _ hne ihl ihf =>
    have inside := (hc.tail.tail.tail.moves he.moves).moves .pastTrivia
    rw [hts] at inside
    exact .switch (hc.tail.lexed_first ha rfl) hne (ihl inside.tail)
      (ihf (inside.tail.moves hl.moves))
  | branch _ ha hb _ ihb ihe =>
    exact .branch (hc.tail.lexed_first ha rfl) (ihb hc.tail.tail)
      (ihe (hc.tail.tail.moves hb.moves))
  | loop _ hh _ ih => exact .loop (hh.writable hc.tail) (ih (hc.tail.moves hh.moves))
  | close hs _ hr hv => exact .close hs (hv.writable (hc.tail.moves hr.moves))
  | continueAsNew hs _ hv => exact .continueAsNew hs (hv.writable_getD hc.tail)
  | returnValue hs => exact .returnValue hs hc.tail
  | breakLoop => exact .breakLoop
  | continueLoop => exact .continueLoop
  | raw hs hne => exact .raw hs hne hc
  | comment hk => exact absurd hk hc.kindOf_ne_comment
  | noStatement | outdented => exact .noStatements
  | statementCons _ _ _ hs _ ihs ihl =>
    have here := hc.moves .pastNewlines
    exact .statements (ihs here) (ihl (here.moves hs.moves))
  | lines hcm hi hb _ ih =>
    have inside := hc.moves hcm.moves
    obtain ⟨rfl, -⟩ := hcm.eq_of_clean hc
    exact .lines (ih inside.tail) (hb.ne_nil_of_indent hi inside)
  | block _ he _ ih => exact ih (hc.tail.moves he.moves)
  | someBlock _ he _ _ ih => exact .someBlock (ih (hc.tail.moves he.moves))
  | noBlock => exact .noBlock
  | noElse => exact .noElse
  | @elseIf _ _ _ _ _ s _ hcm _ _ _ ih =>
    have inside := hc.moves hcm.moves
    obtain ⟨rfl, -⟩ := hcm.eq_of_clean hc
    have one : (Phrase.statements 0 [s]).Rewritten scope :=
      .statements (ih inside.tail) .noStatements
    exact .elseBlock (.lines one (List.cons_ne_nil s []))
  | elseBlock _ hcm _ _ ih =>
    have inside := hc.moves hcm.moves
    obtain ⟨rfl, -⟩ := hcm.eq_of_clean hc
    exact .elseBlock (ih inside.tail)
  | noSwitchCase => exact .noSwitchCase
  | switchCase hts _ hv hb _ ihb ihl =>
    have here := hc.moves .pastTrivia
    rw [hts] at here
    exact .switchCase (here.tail.lexed_value hv) (ihb here.tail.tail)
      (ihl (here.tail.tail.moves hb.moves))
  | noFallback => exact .noFallback
  | fallback _ _ _ ih => exact .fallback (ih hc.tail)
  | noRaceCase => exact .noRaceCase
  | raceCase hts hr hb _ ihb ihl =>
    have here := hc.moves .pastTrivia
    rw [hts] at here
    have behind := here.moves hr.moves
    exact .raceCase (hr.writable here) (ihb behind) (ihl (behind.moves hb.moves))
  | raceGroup hts _ _ hb _ ihb ihl =>
    have here := hc.moves .pastTrivia
    rw [hts] at here
    exact .raceGroup (ihb here.tail.tail) (ihl (here.tail.tail.moves hb.moves))

end Grammar

end FlowLang
