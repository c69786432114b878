import FlowLang.Proofs.Analysis.Modes
import FlowLang.Proofs.Grammar.EveryLine
import FlowLang.Proofs.Grammar.Inside
import FlowLang.Proofs.Program.Nesting
import FlowLang.Proofs.Token.Columns

/-!
# What is read is nested as its lines are indented

Reading keeps account of the open levels: a statement is read in the column of the innermost one,
the block behind a header is the level that the next `indent` opens, and behind the block that level
is closed again.

* `LineEnd.standing`, `Options.standing`, … : what is on one line leaves the levels as they are.
* `Reads.nested` : a phrase that starts in some column has its blocks to the right of it.
* `Members.nested`, `Defines.nested` : this for handlers and definitions.
* `nesting_mirrors_indentation` : this for all definitions of a source, with or without recovery.
-/

namespace FlowLang

open Reader

variable {ws : List (Token × Bool)} {p : Stance} {t : Token} {ts rest : List Token} {c : Nat}
  {l : List Nat}

namespace Standing

/-- Past a word of some kind. -/
theorem next (h : Standing ws p (t :: ts)) {k : TokenKind} (hk : t.kind = k)
    (ht : k.isText = true) : Standing ws (.inside p.levels) ts := h.text (hk ▸ ht)

theorem eq_nil_of_eof (h : Standing ws p ts) (he : kindOf ts = .eof) : ts = [] := by
  cases ts with
  | nil => rfl
  | cons t ts => exact absurd he (h.aligned.kind_ne_eof t List.mem_cons_self)

/-- At the end of the input a reader stands before a line. -/
theorem line_of_eof (h : Standing ws p ts) (he : kindOf ts = .eof) :
    Standing ws (.line p.levels) ts := by
  obtain rfl := h.eq_nil_of_eof he
  obtain ⟨l, rfl⟩ := h.of_nil
  exact h

theorem pastNewlines (h : Standing ws (.line l) ts) :
    Standing ws (.line l) (Grammar.pastNewlines ts) := h.dropNewlines

theorem pastTrivia (h : Standing ws (.line l) ts) :
    Standing ws (.line l) (Grammar.pastTrivia ts) := .dropTrivia (.inl h)

theorem pastLine (h : Standing ws (.inside l) ts) :
    Standing ws (.inside l) (Grammar.pastLine ts) := h.dropText

end Standing

namespace Grammar

/-! ### Parts of lines -/

theorem LineEnd.standing (h : LineEnd ts rest) (hs : Standing ws p ts) (hp : p.levels = l) :
    Standing ws (.line l) rest := by
  subst hp
  cases h with
  | line hn => exact hs.newline hn
  | input he => exact hs.line_of_eof he
  | commentLine hc hn => exact (hs.comment hc).newline hn
  | commentInput hc he => exact (hs.comment hc).line_of_eof he

theorem Arrow.standing {result : Option String} (h : Arrow result ts rest)
    (hs : Standing ws (.inside l) ts) : Standing ws (.inside l) rest := by
  cases h with
  | absent => exact hs
  | present ha hx => rcases hx with hx | hx <;> exact (hs.next ha rfl).next hx rfl

theorem OptionalArgs.standing {value : Option String} (h : OptionalArgs value ts rest)
    (hs : Standing ws (.inside l) ts) : Standing ws (.inside l) rest := by
  cases h with
  | absent => exact hs
  | present ha => exact hs.next ha rfl

theorem Reason.standing {reason : CloseReason} (h : Reason reason ts rest)
    (hs : Standing ws (.inside l) ts) : Standing ws (.inside l) rest := by
  cases h with
  | unstated => exact hs
  | completed hw => exact hs.next hw rfl
  | failed hw => exact hs.next hw rfl

theorem LoopHead.standing {header : LoopHeader} (h : LoopHead header ts rest)
    (hs : Standing ws (.inside l) ts) : Standing ws (.inside l) rest := by
  cases h with
  | forever => exact hs
  | text ha => exact hs.next ha rfl

theorem Event.standing {e : AwaitedEvent} (h : Event e ts rest)
    (hs : Standing ws (.inside l) ts) : Standing ws (.inside l) rest := by
  cases h with
  | intro hn hr => exact hr.standing (hs.next hn rfl)

theorem CallsActivity.standing {call : ActivityCall} (h : CallsActivity call ts rest)
    (hs : Standing ws p ts) : Standing ws (.inside p.levels) rest := by
  cases h with
  | intro hw hn ha hr => exact hr.standing (((hs.next hw rfl).next hn rfl).next ha rfl)

theorem CallsWorkflow.standing {call : WorkflowCall} (h : CallsWorkflow call ts rest)
    (hs : Standing ws p ts) : Standing ws (.inside p.levels) rest := by
  cases h with
  | @intro _ ts₁ ts₂ _ t w n a _ _ _ hm hx hw hn ha hr =>
    -- wherever the name of the workflow is reached, the levels are the same
    have behind : ∀ {q}, Standing ws q ts₁ → q.levels = p.levels →
        Standing ws (.inside p.levels) rest := by
      intro q hs hq
      rw [← hq]
      cases hx with
      | absent => exact hr.standing (((hs.next hw rfl).next hn rfl).next ha rfl)
      | present hx hy =>
        exact hr.standing
          (((((hs.next hx rfl).next hy rfl).next hw rfl).next hn rfl).next ha rfl)
    cases hm with
    | child => exact behind hs rfl
    | spawn hm => exact behind (hs.next hm rfl) rfl
    | detach hm => exact behind (hs.next hm rfl) rfl

/-- The line of options under a call opens a level and closes it again. -/
theorem Options.standing {options : Option String} (h : Options options ts rest)
    (hs : Standing ws (.line (c :: l)) ts) : Standing ws (.line (c :: l)) rest := by
  cases h with
  | absent => exact hs
  | present hts hi hw ha he hts' hd =>
    have inside := ((hts ▸ hs.pastTrivia).indent hi).2
    have behind := he.standing ((inside.next hw rfl).next ha rfl) rfl
    exact (hts' ▸ behind.pastTrivia).dedent hd

theorem DefinitionOptions.standing {options : Option String}
    (h : DefinitionOptions options ts rest) (hs : Standing ws (.line l) ts) :
    Standing ws (.line l) rest := by
  cases h with
  | absent => exact hs
  | present hw ha he => exact he.standing ((hs.next hw rfl).next ha rfl) rfl

theorem ActivityLine.standing {call : ActivityCall} (h : ActivityLine call ts rest)
    (hp : p.levels = c :: l) (hs : Standing ws p ts) : Standing ws (.line (c :: l)) rest := by
  cases h with
  | intro hc he ho => exact ho.standing (he.standing (hc.standing hs) hp)

theorem WorkflowLine.standing {call : WorkflowCall} (h : WorkflowLine call ts rest)
    (hp : p.levels = c :: l) (hs : Standing ws p ts) : Standing ws (.line (c :: l)) rest := by
  cases h with
  | intro hc he ho => exact ho.standing (he.standing (hc.standing hs) hp)

theorem Awaited.standing {target : AwaitTarget} (h : Awaited target ts rest)
    (hs : Standing ws (.inside (c :: l)) ts) : Standing ws (.line (c :: l)) rest := by
  cases h with
  | timer hw ha he => exact he.standing ((hs.next hw rfl).next ha rfl) rfl
  | signal hw hv he => exact he.standing (hv.standing (hs.next hw rfl)) rfl
  | update hw hv he => exact he.standing (hv.standing (hs.next hw rfl)) rfl
  | activity hc => exact hc.standing rfl hs
  | workflow hc => exact hc.standing rfl hs

theorem Raced.standing {target : RaceTarget} (h : Raced target ts rest) (hs : Standing ws p ts) :
    Standing ws (.inside p.levels) rest := by
  cases h with
  | signal hw hv => exact hv.standing (hs.next hw rfl)
  | update hw hv => exact hv.standing (hs.next hw rfl)
  | timer hw ha => exact (hs.next hw rfl).next ha rfl
  | activity hc => exact hc.standing hs
  | workflow hc => exact hc.standing hs

/-- A case of a race starts with a word. -/
theorem Raced.isText {target : RaceTarget} (h : Raced target (t :: ts) rest) :
    t.kind.isText = true := by
  obtain ⟨_, _, he, ht, -⟩ := h.opens
  cases he
  exact ht

theorem Comments.standing {comments : List Statement} (h : Comments comments ts rest)
    (hs : Standing ws (.line l) ts) : Standing ws (.line l) rest := by
  induction h with
  | nil => exact hs.pastNewlines
  | cons hts hc he _ ih => exact ih (he.standing ((hts ▸ hs.pastNewlines).comment hc) rfl)

theorem Comments.isComment {comments : List Statement} (h : Comments comments ts rest) :
    ∀ s ∈ comments, s.isComment = true := by
  induction h with
  | nil => exact fun s hs => by cases hs
  | cons _ _ _ _ ih => exact List.forall_mem_cons.2 ⟨rfl, ih⟩

/-! ### Statements -/

variable {scope : Scope} {chained : Statement → Prop}

/-- A statement is at its first token, which is a word unless the statement is a comment. -/
theorem Reads.starts {s : Statement} (h : Reads scope (.statement s) ts rest) :
    ∃ t us, ts = t :: us ∧ s.position = t.position ∧ (s.isComment = false ↔ t.kind.isText = true) := by
  have word : ∀ {s : Statement} {t : Token} {us : List Token} {k : TokenKind}, t.kind = k →
      k.isText = true → s.isComment = false → s.position = t.position →
      ∃ u vs, t :: us = u :: vs ∧ s.position = u.position ∧
        (s.isComment = false ↔ u.kind.isText = true) :=
    fun hk ht hs hp => ⟨_, _, rfl, hp, by simp [hk, ht, hs]⟩
  cases h with
  | activityCall _ hc | workflowCall _ hc =>
    obtain ⟨t, us, rfl, ht, -, hp, -⟩ := hc.opens
    exact word rfl ht rfl hp
  | await _ hw | awaitAll _ hw | awaitOne _ hw | close _ hw | continueAsNew _ hw
  | returnValue _ hw | switch hw | branch hw | loop hw | breakLoop hw | continueLoop hw =>
    exact word hw rfl rfl rfl
  | raw _ hne => exact word rfl (isText_of_lineText hne) rfl rfl
  | comment hc =>
    exact ⟨_, _, rfl, rfl, by simp [hc, Statement.isComment, TokenKind.isText]⟩

/-- In a block that starts with a word there is a statement. -/
theorem Reads.hasStatement {column : Nat} {body : List Statement}
    (h : Reads scope (.statements column body) (t :: ts) rest) (ht : t.kind.isText = true) :
    HasStatement body := by
  have hne : t.kind ≠ .newline := TokenKind.ne_of_isText ht rfl
  have hnl : pastNewlines (t :: ts) = t :: ts := List.dropWhile_cons_of_neg (by simpa using hne)
  cases h with
  | noStatement he =>
    rw [hnl] at he
    rcases he with he | he <;> exact absurd he (TokenKind.ne_of_isText ht rfl)
  | outdented hc =>
    have hne : t.kind ≠ .comment := TokenKind.ne_of_isText ht rfl
    rw [hnl, commentEndsBlock, beq_false_of_ne hne] at hc
    cases hc
  | statementCons _ _ _ hs =>
    rw [hnl] at hs
    obtain ⟨_, _, he, -, hcomment⟩ := hs.starts
    cases he
    exact ⟨_, List.mem_cons_self, hcomment.2 ht⟩

/-- A statement that starts with `if` behind an `else` is chained. -/
theorem Reads.isChained {s : Statement} {e : Token} (h : Reads scope (.statement s) ts rest)
    (hk : kindOf ts = .keyword .«if») (he : e.kind = .keyword .«else»)
    (hs : Standing ws (.line l) (e :: ts)) : Chained ws (.statement s) ∧ s.casePositions = [] := by
  obtain ⟨i, us, rfl, hp, -⟩ := h.starts
  obtain ⟨condition, body, elseBody, q, rfl⟩ := h.branch_of_if hk
  obtain rfl : q = i.position := hp
  have hi : i.kind = .keyword .«if» := hk
  obtain ⟨front, hw⟩ := hs.behind
  have hwords : words true (e :: i :: us) = [(e, true), (i, false)] ++ words false us := by
    rw [words_text (by rw [he]; rfl), words_text (by rw [hi]; rfl)]
    rfl
  refine ⟨⟨e, i, condition, body, elseBody, ⟨front, words false us, ?_⟩, he, hi, rfl⟩, rfl⟩
  rw [List.append_assoc, ← hwords]
  exact hw

/-- Where what is read starts: a statement at any place, a block within a line, everything else
before a line. -/
def Phrase.StartsAt (ws : List (Token × Bool)) (l : List Nat) : Phrase → List Token → Prop
  | statement _, ts => ∃ p : Stance, p.levels = l ∧ Standing ws p ts
  | block _, ts | optionalBlock _, ts => Standing ws (.inside l) ts
  | _, ts => Standing ws (.line l) ts

/-- What is read at a level that starts in this column has its blocks to the right of it. -/
def Phrase.WellNested (chained : Statement → Prop) (column : Nat) : Phrase → Prop
  | statement s => s.Owns chained column
  | statements _ body =>
    ∀ s ∈ body, (s.isComment = false → s.position.column = column) ∧ s.Owns chained column
  | lines body | block body => Belongs chained column body
  | optionalBlock body | elseBody body | fallback body => ∀ b ∈ body, Belongs chained column b
  | switchCases cases => ∀ x ∈ cases, x.position.column = column ∧ Belongs chained column x.body
  | raceCases cases =>
    ∀ x ∈ cases, x.position.column = column ∧ ∀ b ∈ x.blocks, Belongs chained column b

/-- **What is read is nested as its lines are indented**, and the levels behind it are those before
it. -/
theorem Reads.nested {φ : Phrase} (hchained : ∀ s, Chained ws (.statement s) → chained s)
    (h : Reads scope φ ts rest) (hs : φ.StartsAt ws (c :: l) ts) :
    φ.WellNested chained c ∧ Standing ws (.line (c :: l)) rest := by
  induction h generalizing c l with
  | activityCall _ hc | workflowCall _ hc =>
    obtain ⟨p, hp, hs⟩ := hs
    exact ⟨.of_plain rfl rfl, hc.standing hp hs⟩
  | await _ hw ha =>
    obtain ⟨p, hp, hs⟩ := hs
    exact ⟨.of_plain rfl rfl, ha.standing (hp ▸ hs.next hw rfl)⟩
  | awaitAll _ hw ha _ ih =>
    obtain ⟨p, hp, hs⟩ := hs
    obtain ⟨hin, behind⟩ := ih (hp ▸ (hs.next hw rfl).next ha rfl)
    exact ⟨⟨fun b hb => List.mem_singleton.1 hb ▸ hin, List.forall_mem_nil _⟩, behind⟩
  | awaitOne _ hw ho hc he hts hi _ hd _ ih =>
    obtain ⟨p, hp, hs⟩ := hs
    have header := he.standing (((hs.next hw rfl).next ho rfl).next hc rfl) hp
    obtain ⟨hlt, inside⟩ := (hts ▸ header.pastTrivia).indent hi
    obtain ⟨hin, behind⟩ := ih inside.line_of_fresh
    refine ⟨⟨fun b hb => ?_, fun q hq => ?_⟩, behind.dedent hd⟩
    · obtain ⟨x, hx, hb⟩ := List.mem_flatMap.1 hb
      obtain ⟨body, hbody, rfl⟩ := List.mem_map.1 hb
      obtain ⟨hcolumn, hin⟩ := hin x hx
      exact hcolumn ▸ hin body hbody
    · obtain ⟨x, hx, rfl⟩ := List.mem_map.1 hq
      exact (hin x hx).1 ▸ hlt
  | switch hw ha hc he hts hi _ _ hd _ ihl ihf =>
    obtain ⟨p, hp, hs⟩ := hs
    have header := he.standing (((hs.next hw rfl).next ha rfl).next hc rfl) hp
    obtain ⟨hlt, inside⟩ := (hts ▸ header.pastTrivia).indent hi
    obtain ⟨hcases, between⟩ := ihl inside.line_of_fresh
    obtain ⟨hfallback, behind⟩ := ihf between
    refine ⟨⟨fun b hb => ?_, fun q hq => ?_⟩, behind.dedent hd⟩
    · rcases List.mem_append.1 hb with hb | hb
      · obtain ⟨x, hx, rfl⟩ := List.mem_map.1 hb
        obtain ⟨hcolumn, hin⟩ := hcases x hx
        exact hcolumn ▸ hin
      · -- the fallback is to the right of the cases, and so of the statement
        obtain ⟨body, hbody, rfl⟩ := List.mem_map.1 hb
        obtain ⟨hhas, hin⟩ := hfallback body (Option.mem_toList.1 hbody)
        exact ⟨hhas, hin.mono (Nat.le_of_lt hlt)⟩
    · obtain ⟨x, hx, rfl⟩ := List.mem_map.1 hq
      exact (hcases x hx).1 ▸ hlt
  | branch hw ha _ _ ihb ihe =>
    obtain ⟨p, hp, hs⟩ := hs
    obtain ⟨hbody, between⟩ := ihb (hp ▸ (hs.next hw rfl).next ha rfl)
    obtain ⟨helse, behind⟩ := ihe between
    refine ⟨⟨fun b hb => ?_, List.forall_mem_nil _⟩, behind⟩
    obtain ⟨body, hmem, rfl⟩ := List.mem_map.1 hb
    rcases List.mem_cons.1 hmem with rfl | hmem
    · exact hbody
    · exact helse body (Option.mem_toList.1 hmem)
  | loop hw hh _ ih =>
    obtain ⟨p, hp, hs⟩ := hs
    obtain ⟨hin, behind⟩ := ih (hp ▸ hh.standing (hs.next hw rfl))
    exact ⟨⟨fun b hb => List.mem_singleton.1 hb ▸ hin, List.forall_mem_nil _⟩, behind⟩
  | close _ hw hr hv he =>
    obtain ⟨p, hp, hs⟩ := hs
    exact ⟨.of_plain rfl rfl, he.standing (hv.standing (hr.standing (hs.next hw rfl))) hp⟩
  | continueAsNew _ hw hv he =>
    obtain ⟨p, hp, hs⟩ := hs
    exact ⟨.of_plain rfl rfl, he.standing (hv.standing (hs.next hw rfl)) hp⟩
  | returnValue _ hw he =>
    obtain ⟨p, hp, hs⟩ := hs
    exact ⟨.of_plain rfl rfl, he.standing (hs.next hw rfl).pastLine hp⟩
  | breakLoop hw he | continueLoop hw he =>
    obtain ⟨p, hp, hs⟩ := hs
    exact ⟨.of_plain rfl rfl, he.standing (hs.next hw rfl) hp⟩
  | @raw _ _ t _ hne he =>
    obtain ⟨p, hp, hs⟩ := hs
    have ht := isText_of_lineText hne
    rw [pastLine, List.dropWhile_cons_of_pos (by rwa [← TokenKind.isText_eq])] at he
    exact ⟨.of_plain rfl rfl, he.standing (hs.text ht).pastLine hp⟩
  | comment hc he =>
    obtain ⟨p, hp, hs⟩ := hs
    exact ⟨.of_plain rfl rfl, he.standing (hs.comment hc) hp⟩
  | noStatement => exact ⟨List.forall_mem_nil _, Standing.pastNewlines hs⟩
  | outdented hc => exact ⟨List.forall_mem_nil _, (Standing.pastNewlines hs).hoist hc⟩
  | statementCons _ _ _ hr _ ihs ihl =>
    have here := Standing.pastNewlines hs
    obtain ⟨howns, between⟩ := ihs ⟨_, rfl, here⟩
    obtain ⟨hlater, behind⟩ := ihl between
    refine ⟨List.forall_mem_cons.2 ⟨⟨fun hcomment => ?_, howns⟩, hlater⟩, behind⟩
    obtain ⟨t, us, hts, hp, ht⟩ := hr.starts
    rw [hp]
    exact (hts ▸ here).column (ht.1 hcomment)
  | lines hc hi hr hd ih =>
    obtain ⟨hlt, inside⟩ := (hc.standing hs).indent hi
    obtain ⟨hbody, behind⟩ := ih inside.line_of_fresh
    refine ⟨⟨?_, .of_owns hlt (List.forall_mem_append.2 ⟨fun s hs hn => ?_, fun s hs => ?_⟩)
      (List.forall_mem_append.2 ⟨fun s hs => ?_, fun s hs => (hbody s hs).2⟩)⟩, behind.dedent hd⟩
    · obtain ⟨t, us, rfl, ht⟩ := inside.exists_text
      obtain ⟨s, hs, hn⟩ := hr.hasStatement ht
      exact ⟨s, List.mem_append_right _ hs, hn⟩
    · rw [hc.isComment s hs] at hn
      cases hn
    · exact (hbody s hs).1
    · exact .of_isComment (hc.isComment s hs) _
  | block hc he _ ih => exact ih (he.standing (Standing.next hs hc rfl) rfl)
  | someBlock hc he _ _ ih =>
    obtain ⟨hin, behind⟩ := ih (he.standing (Standing.next hs hc rfl) rfl)
    exact ⟨fun b hb => Option.mem_some.1 hb ▸ hin, behind⟩
  | noBlock hc he => exact ⟨by rintro _ ⟨⟩, he.standing (Standing.next hs hc rfl) rfl⟩
  | noElse => exact ⟨by rintro _ ⟨⟩, hs⟩
  | elseIf _ hc hw hk hr ih =>
    have here := hc.standing hs
    obtain ⟨howns, behind⟩ := ih ⟨_, rfl, here.next hw rfl⟩
    obtain ⟨hch, hcases⟩ := hr.isChained hk hw here
    refine ⟨fun b hb => Option.mem_some.1 hb ▸ ⟨?_, .of_chained hc.isComment (hchained _ hch)
      howns hcases⟩, behind⟩
    refine ⟨_, List.mem_append_right _ (List.mem_singleton_self _), ?_⟩
    obtain ⟨condition, body, elseBody, q, rfl⟩ := hr.branch_of_if hk
    rfl
  | elseBlock _ hc hw _ ih =>
    obtain ⟨⟨hhas, hin⟩, behind⟩ := ih ((hc.standing hs).next hw rfl)
    refine ⟨fun b hb => Option.mem_some.1 hb ▸ ⟨?_, ?_⟩, behind⟩
    · obtain ⟨s, hs, hn⟩ := hhas
      exact ⟨s, List.mem_append_right _ hs, hn⟩
    · exact hin.prepend hc.isComment
  | noSwitchCase => exact ⟨List.forall_mem_nil _, Standing.pastTrivia hs⟩
  | @switchCase _ ts₁ _ _ _ _ _ _ hts hw hv _ _ ihb ihl =>
    have here := hts ▸ Standing.pastTrivia hs
    have value : Standing ws (.inside (c :: l)) ts₁ := by
      have := here.next hw rfl
      rcases hv with hv | hv | hv <;> exact this.next hv rfl
    obtain ⟨hbody, between⟩ := ihb value
    obtain ⟨hlater, behind⟩ := ihl between
    exact ⟨List.forall_mem_cons.2 ⟨⟨here.column (hw ▸ rfl), hbody⟩, hlater⟩, behind⟩
  | noFallback => exact ⟨by rintro _ ⟨⟩, hs⟩
  | fallback hw _ _ ih =>
    obtain ⟨hin, behind⟩ := ih (Standing.next hs hw rfl)
    exact ⟨fun b hb => Option.mem_some.1 hb ▸ hin, behind.pastTrivia⟩
  | noRaceCase => exact ⟨List.forall_mem_nil _, Standing.pastTrivia hs⟩
  | raceCase hts hr _ _ ihb ihl =>
    have here := hts ▸ Standing.pastTrivia hs
    obtain ⟨hbody, between⟩ := ihb (hr.standing here)
    obtain ⟨hlater, behind⟩ := ihl between
    refine ⟨List.forall_mem_cons.2 ⟨⟨here.column hr.isText, fun b hb => ?_⟩, hlater⟩, behind⟩
    rw [RaceCase.blocks, hr.blocks_eq_nil, List.nil_append, Option.mem_toList] at hb
    exact hbody b hb
  | raceGroup hts hw ha _ _ ihb ihl =>
    have here := hts ▸ Standing.pastTrivia hs
    obtain ⟨hbody, between⟩ := ihb ((here.next hw rfl).next ha rfl)
    obtain ⟨hlater, behind⟩ := ihl between
    refine ⟨List.forall_mem_cons.2 ⟨⟨here.column (hw ▸ rfl), fun b hb => ?_⟩, hlater⟩, behind⟩
    rw [show b = _ by simpa [RaceCase.blocks, RaceTarget.blocks] using hb]
    exact hbody

/-! ### Definitions -/

/-- Handlers are nested, and start in the column of the statements around them. -/
theorem Members.nested {column : Nat} {members : List Member}
    (hchained : ∀ s, Chained ws (.statement s) → chained s) (h : Members column members ts rest)
    (hs : Standing ws (.line (c :: l)) ts) :
    (∀ m ∈ members, ∀ b ∈ m.ownedBlocks, Belongs chained b.1 b.2) ∧
      Standing ws (.line (c :: l)) rest := by
  induction h with
  | nil => exact ⟨nofun, hs.pastNewlines⟩
  | comment hts hc _ he _ ih =>
    obtain ⟨hlater, behind⟩ := ih (he.standing ((hts ▸ hs.pastNewlines).comment hc) rfl)
    exact ⟨List.forall_mem_cons.2 ⟨nofun, hlater⟩, behind⟩
  | signal hts hw hn ha hb _ ih =>
    have here := hts ▸ hs.pastNewlines
    obtain ⟨hin, between⟩ := hb.nested hchained (((here.next hw rfl).next hn rfl).next ha rfl)
    obtain ⟨hlater, behind⟩ := ih between
    refine ⟨List.forall_mem_cons.2 ⟨fun b hb => ?_, hlater⟩, behind⟩
    rw [List.mem_singleton.1 hb]
    exact (here.column (hw ▸ rfl)).symm ▸ hin
  | query hts hw hn ha ht hb _ ih | update hts hw hn ha ht hb _ ih =>
    have here := hts ▸ hs.pastNewlines
    obtain ⟨hin, between⟩ :=
      hb.nested hchained (ht.standing (((here.next hw rfl).next hn rfl).next ha rfl))
    obtain ⟨hlater, behind⟩ := ih between
    refine ⟨List.forall_mem_cons.2 ⟨fun b hb => ?_, hlater⟩, behind⟩
    rw [List.mem_singleton.1 hb]
    exact (here.column (hw ▸ rfl)).symm ▸ hin

/-- The comments among the handlers of a workflow are comments. -/
theorem Members.isComment {column : Nat} {members : List Member}
    (h : Members column members ts rest) :
    ∀ s ∈ members.filterMap Member.comment?, s.isComment = true := by
  induction h with
  | nil => exact nofun
  | comment _ _ _ _ _ ih => exact List.forall_mem_cons.2 ⟨rfl, ih⟩
  | signal _ _ _ _ _ _ ih | query _ _ _ _ _ _ _ ih | update _ _ _ _ _ _ _ ih => exact ih

/-- A definition starts with a word. -/
theorem Defines.exists_level {d : Definition} (h : Defines d ts rest)
    (hs : Standing ws (.line l) ts) : ∃ c outer, l = c :: outer := by
  cases h with
  | workflow hw | activity hw =>
    obtain ⟨outer, he⟩ := hs.exists_level (hw ▸ rfl)
    exact ⟨_, outer, he⟩

/-- **A definition is nested as its lines are indented.** -/
theorem Defines.nested {d : Definition} (hchained : ∀ s, Chained ws (.statement s) → chained s)
    (h : Defines d ts rest) (hs : Standing ws (.line (c :: l)) ts) :
    d.Nested chained ∧ Standing ws (.line (c :: l)) rest := by
  -- the main body is the level that opens behind the header
  have main : ∀ {scope : Scope} {column owner : Nat} {comments body : List Statement}
      {us rest : List Token}, owner = c → c < column →
      (∀ s ∈ comments, s.isComment = true) → Reads scope (.statements column body) us rest →
      Standing ws (.line (column :: c :: l)) us →
      Indented chained owner (comments ++ body) ∧ Standing ws (.line (column :: c :: l)) rest := by
    rintro scope column owner comments body us rest rfl hlt hcomments hb hs
    obtain ⟨hbody, behind⟩ := hb.nested hchained hs
    exact ⟨(Indented.of_owns hlt (fun s hs => (hbody s hs).1) fun s hs => (hbody s hs).2).prepend
      hcomments, behind⟩
  cases h with
  | @workflow _ _ _ _ _ _ _ _ _ _ _ _ _ _ _ _ _ members hw hn ha ht hc he hcs hi hopt hm hb hd =>
    have name := ((hs.next hw rfl).next hn rfl).next ha rfl
    have header := hcs.standing (he.standing ((ht.standing name).next hc rfl) rfl)
    obtain ⟨hlt, inside⟩ := header.indent hi
    obtain ⟨hmembers, between⟩ := hm.nested hchained (hopt.standing inside.line_of_fresh)
    obtain ⟨hbody, behind⟩ := main (hs.column (hw ▸ rfl)) hlt
      (List.forall_mem_append.2 ⟨hcs.isComment, hm.isComment⟩) hb between
    refine ⟨⟨hbody, fun m hmem => hmembers m ?_⟩, behind.dedent hd⟩
    -- the handlers of the workflow are among its members
    simp only [Definition.handlers, workflowOf, List.mem_append, List.mem_map,
      List.mem_filterMap] at hmem
    rcases hmem with (⟨x, ⟨m', hmem, hx⟩, rfl⟩ | ⟨x, ⟨m', hmem, hx⟩, rfl⟩) | ⟨x, ⟨m', hmem, hx⟩, rfl⟩
    all_goals
      cases m' <;> cases hx
      exact hmem
  | activity hw hn ha ht hc he hcs hi hopt hb hd =>
    have name := ((hs.next hw rfl).next hn rfl).next ha rfl
    have header := hcs.standing (he.standing ((ht.standing name).next hc rfl) rfl)
    obtain ⟨hlt, inside⟩ := header.indent hi
    obtain ⟨hbody, behind⟩ := main (hs.column (hw ▸ rfl)) hlt hcs.isComment hb
      (hopt.standing inside.line_of_fresh)
    exact ⟨⟨hbody, List.forall_mem_nil _⟩, behind.dedent hd⟩

end Grammar

/-! ### Programs -/

open Grammar

theorem Moves.standing (h : Moves ts rest) (hs : Standing ws p ts) : ∃ q, Standing ws q rest ∧
    (p.levels.Pairwise (· > ·) → q.levels.Pairwise (· > ·)) := by
  induction h with
  | refl => exact ⟨p, hs, id⟩
  | tail _ hm ih =>
    obtain ⟨q, hs, hl⟩ := ih
    cases hm with
    | advance =>
      obtain ⟨r, hs, hr⟩ := hs.tail
      exact ⟨r, hs, hr ∘ hl⟩
    | hoist hc => exact ⟨q, hs.hoist hc, hl⟩

/-- Where a definition is attempted, a line starts. -/
theorem keptByRecovery_standing {chained : Statement → Prop} (stop : Position)
    (hchained : ∀ s, Chained ws (.statement s) → chained s) :
    KeptByRecovery stop fun ts => ∃ l, Standing ws (.line l) ts where
  past := fun ⟨l, hs⟩ => ⟨l, hs.pastTrivia⟩
  found := by
    rintro us rest d ⟨l, hs⟩ hd
    have hd := definition_iff.1 hd
    obtain ⟨c, l, rfl⟩ := hd.exists_level hs
    exact ⟨_, (hd.nested hchained hs).2⟩
  failed := by
    rintro us f ⟨l, hs⟩ he hd
    obtain ⟨p, hp, -⟩ := (moves_resume he hd).standing hs
    rcases head_resume f us with hk | ⟨t, later, hr, ht⟩
    · exact ⟨_, hp.line_of_eof hk⟩
    · -- the definition at which reading goes on is in column 1
      rw [hr] at hp ⊢
      simp only [Token.startsDefinition, Bool.and_eq_true, Bool.or_eq_true, beq_iff_eq] at ht
      refine hp.line_of_column ?_ ht.2
      rcases ht.1 with hk | hk <;> rw [hk] <;> rfl

/-- Chained words stand on one line of the source. -/
theorem isElseIf_of_chained {source : String} {tokens : List Token} {n : Node}
    (ht : tokenize source = .ok tokens) (h : Chained (words true (beforeEnd tokens)) n) :
    IsElseIf source n := by
  obtain ⟨e, i, condition, body, elseBody, hin, he, hi, hn⟩ := h
  obtain ⟨more, hm⟩ := (lined_of_tokenize ht).second hin (by simp [hi])
  exact ⟨e, i, more, condition, body, elseBody, hm, he, hi, hn⟩

/-- A program that is read from tokens is what recovery finds in them. -/
theorem eq_recover {tokens : List Token} {p : Program}
    (hp : Program.ofTokens tokens = .ok p ∨ p = (Program.recover tokens).1) :
    p = (Program.recover tokens).1 := by
  rcases hp with hp | hp
  · rw [Program.ofTokens_eq_ok_iff.1 hp]
  · exact hp

/-- What recovery finds in a source is nested, if the words that are chained there count as
chained. -/
theorem nested_recover {source : String} {tokens : List Token} {chained : Statement → Prop}
    (ht : tokenize source = .ok tokens)
    (hchained : ∀ s, Chained (words true (beforeEnd tokens)) (.statement s) → chained s) :
    ∀ d ∈ (Program.recover tokens).1.definitions, d.Nested chained := by
  intro d hd
  have start : Standing (words true (beforeEnd tokens)) (.line [1]) (beforeEnd tokens) :=
    ⟨aligned_of_tokenize ht, List.suffix_refl _⟩
  obtain ⟨us, rest, ⟨l, hs⟩, hread⟩ :=
    ((keptByRecovery_standing (inputEnd tokens) hchained).attempts ⟨_, start⟩).1 d hd
  have hread := definition_iff.1 hread
  obtain ⟨c, l, rfl⟩ := hread.exists_level hs
  exact (hread.nested hchained hs).1

/-- **Nesting mirrors indentation.**  In every definition that is read from a source, with or
without recovery, the statements of a block start in one column, but for comments and for an `if`
behind `else`.  This column is to the right of the definition, handler, case or statement that the
block belongs to; what belongs to an `if` behind `else` is to the right of the `if` with which the
chain starts.  No block but the main one of a definition is without a statement. -/
theorem nesting_mirrors_indentation {source : String} {tokens : List Token} {p : Program}
    (ht : tokenize source = .ok tokens)
    (hp : Program.ofTokens tokens = .ok p ∨ p = (Program.recover tokens).1) :
    ∀ d ∈ p.definitions, d.Nested fun s => IsElseIf source (.statement s) := by
  obtain rfl := eq_recover hp
  exact nested_recover ht fun s => isElseIf_of_chained ht

/-- A chain of branches behind a definition that cannot be read, with a comment to the left. -/
theorem nesting_mirrors_indentation_chain :
    ∃ source tokens d,
      source = "workflow A\nworkflow B():\n  if (a):\n    x\n # note\n  else if (b):\n" ++
        "     y\n  else:\n   z\n  break\n" ∧
      tokenize source = .ok tokens ∧ (Program.recover tokens).1.definitions = [d] ∧
      d.position = ⟨2, 1⟩ ∧ d.Nested fun s => IsElseIf source (.statement s) := by
  have read : (tokenize ("workflow A\nworkflow B():\n  if (a):\n    x\n # note\n" ++
      "  else if (b):\n     y\n  else:\n   z\n  break\n")).toOption.map (fun tokens =>
        (Program.recover tokens).1.definitions.map Definition.position) = some [⟨2, 1⟩] := by
    decide +kernel
  obtain ⟨tokens, ht, hread⟩ := Option.map_eq_some_iff.1 read
  have ht := Except.eq_ok_of_toOption ht
  obtain ⟨d, hd, hp⟩ := List.map_eq_singleton_iff.1 hread
  refine ⟨_, tokens, d, rfl, ht, hd, hp, ?_⟩
  exact nesting_mirrors_indentation ht (.inr rfl) d (hd ▸ List.mem_singleton_self d)

end FlowLang
