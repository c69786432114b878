import FlowLang.Proofs.Grammar.Depth
import FlowLang.Proofs.Grammar.Sound

/-!
# What follows the grammar is read

The converse of soundness: what the grammar allows at some tokens, the reader returns there.  So
the grammar says exactly what is read, and no tokens stand for two things.

* `Phrase.ReadBy` : the reader for a phrase returns it.
* `readBy_of_reads` : by induction on the rules of the grammar.
* `statement_iff`, `definition_iff`, `definitions_iff` : the equivalences.
-/

namespace FlowLang

open Reader Grammar

variable {stop : Position} {ts ts₁ rest : List Token} {scope : Scope}

namespace Grammar

/-- The reader for such a phrase returns it at these tokens. -/
def Phrase.ReadBy (scope : Scope) (stop : Position) (ts rest : List Token) : Phrase → Prop
  | statement s => (Reader.statement scope).1 stop ts = .ok (s, rest)
  | statements column body =>
    Reader.statements (Reader.statement scope) column stop ts = .ok (body, rest)
  | lines body => blockLines (Reader.statement scope) stop ts = .ok (body, rest)
  | block body => Reader.block (Reader.statement scope) stop ts = .ok (body, rest)
  | optionalBlock body => Reader.optionalBlock (Reader.statement scope) stop ts = .ok (body, rest)
  | elseBody body => Reader.elseBody (Reader.statement scope) stop ts = .ok (body, rest)
  | switchCases cases =>
    collect (nextCase (Reader.statement scope)) (nextCase_steps _) stop ts = .ok (cases, rest)
  | fallback body => Reader.fallback (Reader.statement scope) stop ts = .ok (body, rest)
  | raceCases cases =>
    collect (nextRaceCase (Reader.statement scope)) (nextRaceCase_steps _) stop ts
      = .ok (cases, rest)

/-- A call of a workflow starts with its mode, its namespace or its keyword. -/
theorem CallsWorkflow.kindOf {call : WorkflowCall} (h : CallsWorkflow call ts rest) :
    kindOf ts = .keyword .workflow ∨ kindOf ts = .keyword .nexus ∨
      kindOf ts = .keyword .spawn ∨ kindOf ts = .keyword .detach := by
  obtain ⟨hm, hn, hw, -⟩ := h
  cases hm with
  | child =>
    cases hn with
    | absent => exact .inl hw
    | present hx => exact .inr (.inl hx)
  | spawn hx => exact .inr (.inr (.inl hx))
  | detach hx => exact .inr (.inr (.inr hx))

theorem WorkflowLine.kindOf {call : WorkflowCall} (h : WorkflowLine call ts rest) :
    kindOf ts = .keyword .workflow ∨ kindOf ts = .keyword .nexus ∨
      kindOf ts = .keyword .spawn ∨ kindOf ts = .keyword .detach := by
  obtain ⟨hc, -⟩ := h
  exact hc.kindOf

/-- A block starts with its colon. -/
theorem Reads.kindOf_block {body : List Statement} (h : Reads scope (.block body) ts rest) :
    FlowLang.kindOf ts = .colon := by
  cases h with
  | block hc => exact hc

end Grammar

/-! ### First tokens -/

theorem opening?_of_free {kind : TokenKind}
    (h : scope.isRestricted = false ∨ kind.isTemporal = false) :
    scope.opening? kind = kind.opening? := by
  rw [Scope.opening?, if_neg]
  rcases h with h | h <;> simp [h]

/-- A statement is read as its first token says. -/
theorem statement_of_opened {kind : TokenKind} {o : Opening} {s : Statement}
    (hk : kindOf ts = kind) (ho : kind.opening? = some o)
    (hf : scope.isRestricted = false ∨ kind.isTemporal = false) (hc : kind.isContextual = false)
    (h : opened scope (statement scope) o stop ts = .ok (s, rest)) :
    (statement scope).1 stop ts = .ok (s, rest) := by
  subst hk
  rw [statement_eq, statementWith, peek_bind, peekSecond_bind, if_neg (by simp [hc]),
    opening?_of_free hf, ho]
  exact h

theorem statement_of_raw {s : Statement} (hs : RawStart scope ts)
    (h : rawLine stop ts = .ok (s, rest)) : (statement scope).1 stop ts = .ok (s, rest) := by
  rw [statement_eq, statementWith, peek_bind, peekSecond_bind]
  rcases hs with ⟨hc, hs⟩ | ⟨ho, hr⟩
  · rw [if_pos (by simp [hc, hs])]
    exact h
  · split
    · exact h
    · simp only [ho]
      rw [if_neg (by simpa using hr)]
      exact h

/-! ### Cases of switches and races -/

theorem nextCase_eq_none {inner : StatementReader}
    (hk : kindOf (pastTrivia ts) ≠ .keyword .case) :
    nextCase inner stop ts = .ok (none, pastTrivia ts) := by
  rw [nextCase, skipTrivia_bind, peek_bind]
  generalize kindOf (pastTrivia ts) = k at hk ⊢
  split
  · exact absurd rfl hk
  · rfl

theorem nextCase_eq_some {inner : StatementReader} {w v : Token} {body : List Statement}
    (hts : pastTrivia ts = w :: v :: ts₁) (hw : w.kind = .keyword .case)
    (hv : v.kind = .args ∨ v.kind = .string ∨ v.kind = .ident)
    (hb : block inner stop ts₁ = .ok (body, rest)) :
    nextCase inner stop ts = .ok (some ⟨v.literal, body, w.position⟩, rest) := by
  rw [nextCase, skipTrivia_bind, peek_bind, hts, kindOf, hw]
  exact map_eq_ok.2 ⟨_, expect_bind_eq_ok.2 ⟨w, _, hw, rfl, caseValue_bind_eq_ok.2
    ⟨v, ts₁, hv, rfl, bind_eq_ok.2 ⟨body, rest, hb, rfl⟩⟩⟩, rfl⟩

theorem nextRaceCase_eq_none {inner : StatementReader}
    (hk : kindOf (pastTrivia ts) = .dedent ∨ kindOf (pastTrivia ts) = .eof) :
    nextRaceCase inner stop ts = .ok (none, pastTrivia ts) := by
  rw [nextRaceCase, skipTrivia_bind, peek_bind]
  rcases hk with hk | hk <;> rw [hk] <;> rfl

theorem nextRaceCase_eq_some {inner : StatementReader} {c : RaceCase}
    (hd : kindOf (pastTrivia ts) ≠ .dedent) (he : kindOf (pastTrivia ts) ≠ .eof)
    (h : raceCase inner stop (pastTrivia ts) = .ok (c, rest)) :
    nextRaceCase inner stop ts = .ok (some c, rest) := by
  rw [nextRaceCase, skipTrivia_bind, peek_bind]
  generalize kindOf (pastTrivia ts) = k at hd he ⊢
  split
  · exact absurd rfl hd
  · exact absurd rfl he
  · exact map_eq_ok.2 ⟨c, h, rfl⟩

theorem raceCase_eq_ok {inner : StatementReader} {w : Token} {target : RaceTarget}
    {body : Option (List Statement)} (hr : Raced target (w :: ts) ts₁)
    (hb : optionalBlock inner stop ts₁ = .ok (body, rest)) :
    w.kind ≠ .dedent ∧ w.kind ≠ .eof ∧
      raceCase inner stop (w :: ts) = .ok (⟨target, body, w.position⟩, rest) := by
  have case : ∀ {r : Reader RaceTarget} {us : List Token}, r stop us = .ok (target, ts₁) →
      caseWithBlock inner w.position r stop us = .ok (⟨target, body, w.position⟩, rest) :=
    fun h => bind_eq_ok.2 ⟨target, ts₁, h, bind_eq_ok.2 ⟨body, rest, hb, rfl⟩⟩
  rw [raceCase, here_bind, peek_bind]
  cases hr with
  | signal hw he | update hw he =>
    simp only [kindOf, hw, ne_eq, reduceCtorEq, not_false_eq_true, true_and]
    exact case (map_eq_ok.2 ⟨_, awaitedEvent_iff.2 he, rfl⟩)
  | timer hw ha =>
    simp only [kindOf, hw, ne_eq, reduceCtorEq, not_false_eq_true, true_and]
    exact case (map_eq_ok.2 ⟨_, expect_bind_eq_ok.2 ⟨_, _, ha, rfl, rfl⟩, rfl⟩)
  | activity h =>
    have hw : w.kind = .keyword .activity := by cases h; assumption
    simp only [kindOf, hw, ne_eq, reduceCtorEq, not_false_eq_true, true_and]
    exact case (map_eq_ok.2 ⟨_, activityCall_iff.2 h, rfl⟩)
  | workflow h hm =>
    rcases h.kindOf with hw | hw | hw | hw <;> rw [kindOf] at hw <;>
      simp only [kindOf, hw, ne_eq, reduceCtorEq, not_false_eq_true, true_and] <;>
      exact case (map_eq_ok.2 ⟨_, awaitedCall_iff.2 ⟨h, hm⟩, rfl⟩)

/-! ### Single targets of waiting -/

theorem await_of_awaited {inner : StatementReader} {w : Token} {target : AwaitTarget}
    (hw : w.kind = .keyword .await) (h : Awaited target ts rest) :
    await inner stop (w :: ts) = .ok (.await target w.position, rest) := by
  refine expect_bind_eq_ok.2 ⟨w, ts, hw, rfl, ?_⟩
  rw [peek_bind]
  cases h with
  | timer ht ha he =>
    simp only [kindOf, ht]
    rw [skip_bind]
    exact bind_eq_ok.2 ⟨_, _, map_eq_ok.2 ⟨_, expect_bind_eq_ok.2 ⟨_, _, ha, rfl, rfl⟩, rfl⟩,
      lineEnd_bind_eq_ok.2 ⟨_, he, rfl⟩⟩
  | signal ht h he | update ht h he =>
    simp only [kindOf, ht]
    rw [skip_bind]
    exact bind_eq_ok.2 ⟨_, _, map_eq_ok.2 ⟨_, awaitedEvent_iff.2 h, rfl⟩,
      lineEnd_bind_eq_ok.2 ⟨_, he, rfl⟩⟩
  | activity h =>
    have hk : kindOf ts = .keyword .activity := by
      obtain ⟨⟨hk, -⟩, -⟩ := h
      exact hk
    simp only [hk]
    exact bind_eq_ok.2 ⟨_, _, activityLine_iff.2 h, rfl⟩
  | workflow h hm =>
    rcases h.kindOf with hk | hk | hk | hk <;> simp only [hk] <;>
      exact bind_eq_ok.2 ⟨_, _, awaitedLine_iff.2 ⟨h, hm⟩, rfl⟩

/-! ### All phrases -/

/-- **What the grammar allows is read.** -/
theorem readBy_of_reads {φ : Phrase} (h : Reads scope φ ts rest) : φ.ReadBy scope stop ts rest := by
  induction h with
  | @activityCall us _ _ hr hc =>
    have hk : kindOf us = .keyword .activity := by
      obtain ⟨⟨hk, -⟩, -⟩ := hc
      exact hk
    exact statement_of_opened (o := .activityCall) hk rfl (.inl hr) rfl
      (map_eq_ok.2 ⟨_, activityLine_iff.2 hc, rfl⟩)
  | workflowCall hr hc =>
    rcases hc.kindOf with hk | hk | hk | hk <;>
      exact statement_of_opened (o := .workflowCall) hk rfl (.inl hr) rfl
        (map_eq_ok.2 ⟨_, workflowLine_iff.2 hc, rfl⟩)
  | await hr hw h =>
    exact statement_of_opened (o := .await) hw rfl (.inl hr) rfl (await_of_awaited hw h)
  | awaitAll hr hw ha _ ih =>
    refine statement_of_opened (o := .await) hw rfl (.inl hr) rfl
      (expect_bind_eq_ok.2 ⟨_, _, hw, rfl, ?_⟩)
    rw [peek_bind, kindOf, ha]
    simp only
    rw [skip_bind]
    exact bind_eq_ok.2 ⟨_, _, ih, rfl⟩
  | awaitOne hr hw ho hc he hts hi _ hd hne ih =>
    refine statement_of_opened (o := .await) hw rfl (.inl hr) rfl
      (expect_bind_eq_ok.2 ⟨_, _, hw, rfl, ?_⟩)
    rw [peek_bind, kindOf, ho]
    simp only
    rw [skip_bind]
    refine expect_bind_eq_ok.2 ⟨_, _, hc, rfl, lineEnd_bind_eq_ok.2 ⟨_, he, ?_⟩⟩
    rw [skipTrivia_bind]
    refine (accept?_bind_eq_ok (by decide)).2 (.inr ⟨_, _, hi, hts, ?_⟩)
    refine bind_eq_ok.2 ⟨_, _, ih, expect_bind_eq_ok.2 ⟨_, _, hd, rfl, ?_⟩⟩
    rw [if_neg (by simpa using hne)]
    rfl
  | switch hw ha hc he hts hi _ _ hd hne ihc ihf =>
    refine statement_of_opened (o := .switch) hw rfl (.inr rfl) rfl
      (expect_bind_eq_ok.2 ⟨_, _, hw, rfl, args_bind_eq_ok.2 ⟨_, _, ha, rfl,
        expect_bind_eq_ok.2 ⟨_, _, hc, rfl, lineEnd_bind_eq_ok.2 ⟨_, he, ?_⟩⟩⟩⟩)
    rw [skipTrivia_bind]
    refine (accept?_bind_eq_ok (by decide)).2 (.inr ⟨_, _, hi, hts, ?_⟩)
    refine bind_eq_ok.2 ⟨_, _, ihc, bind_eq_ok.2 ⟨_, _, ihf,
      expect_bind_eq_ok.2 ⟨_, _, hd, rfl, ?_⟩⟩⟩
    rw [if_neg (by simpa using hne)]
    rfl
  | branch hw ha _ _ ihb ihe =>
    exact statement_of_opened (o := .branch) hw rfl (.inr rfl) rfl
      (expect_bind_eq_ok.2 ⟨_, _, hw, rfl, args_bind_eq_ok.2 ⟨_, _, ha, rfl,
        bind_eq_ok.2 ⟨_, _, ihb, bind_eq_ok.2 ⟨_, _, ihe, rfl⟩⟩⟩⟩)
  | loop hw hh _ ih =>
    exact statement_of_opened (o := .loop) hw rfl (.inr rfl) rfl
      (expect_bind_eq_ok.2 ⟨_, _, hw, rfl, bind_eq_ok.2 ⟨_, _, loopHeader_iff.2 hh,
        bind_eq_ok.2 ⟨_, _, ih, rfl⟩⟩⟩)
  | close hs hw hr hv he =>
    refine statement_of_opened (o := .close) hw rfl (.inl (by rw [hs]; rfl)) rfl
      (expect_bind_eq_ok.2 ⟨_, _, hw, rfl, ?_⟩)
    rw [if_pos hs]
    exact bind_eq_ok.2 ⟨_, _, closeReason_iff.2 hr, bind_eq_ok.2 ⟨_, _, args?_iff.2 hv,
      lineEnd_bind_eq_ok.2 ⟨_, he, rfl⟩⟩⟩
  | continueAsNew hs hw hv he =>
    refine statement_of_opened (o := .continueAsNew) hw rfl (.inl (by rw [hs]; rfl)) rfl
      (expect_bind_eq_ok.2 ⟨_, _, hw, rfl, ?_⟩)
    rw [if_pos hs]
    exact bind_eq_ok.2 ⟨_, _, args?_iff.2 hv, lineEnd_bind_eq_ok.2 ⟨_, he, rfl⟩⟩
  | returnValue hs hw he =>
    refine statement_of_opened (o := .returnValue) hw rfl (.inr rfl) rfl
      (expect_bind_eq_ok.2 ⟨_, _, hw, rfl, ?_⟩)
    rw [if_neg hs, textTokens_bind]
    exact lineEnd_bind_eq_ok.2 ⟨_, he, rfl⟩
  | breakLoop hw he =>
    exact statement_of_opened (o := .breakLoop) hw rfl (.inr rfl) rfl
      (expect_bind_eq_ok.2 ⟨_, _, hw, rfl, lineEnd_bind_eq_ok.2 ⟨_, he, rfl⟩⟩)
  | continueLoop hw he =>
    exact statement_of_opened (o := .continueLoop) hw rfl (.inr rfl) rfl
      (expect_bind_eq_ok.2 ⟨_, _, hw, rfl, lineEnd_bind_eq_ok.2 ⟨_, he, rfl⟩⟩)
  | raw hs hne he => exact statement_of_raw hs (rawLine_eq_ok.2 ⟨hne, he, rfl⟩)
  | comment hc he =>
    exact statement_of_opened (o := .comment) hc rfl (.inr rfl) rfl
      (commentLine_iff.2 ⟨_, _, hc, rfl, he, rfl⟩)
  | noStatement hk => exact collect_eq_nil.2 (nextStatement_eq_none.2 (.inl ⟨hk, rfl⟩))
  | outdented hc => exact collect_eq_nil.2 (nextStatement_eq_none.2 (.inr ⟨hc, rfl⟩))
  | statementCons hd he hc _ _ ihs ihl =>
    exact collect_eq_cons.2 ⟨_, nextStatement_eq_some.2 ⟨hd, he, hc, ihs⟩, ihl⟩
  | lines hc hi _ hd ih =>
    exact bind_eq_ok.2 ⟨_, _, leadingComments_iff.2 hc, expect_bind_eq_ok.2 ⟨_, _, hi, rfl,
      bind_eq_ok.2 ⟨_, _, ih, expect_bind_eq_ok.2 ⟨_, _, hd, rfl, rfl⟩⟩⟩⟩
  | block hc he _ ih =>
    exact expect_bind_eq_ok.2 ⟨_, _, hc, rfl, lineEnd_bind_eq_ok.2 ⟨_, he, ih⟩⟩
  | someBlock hc he hi _ ih =>
    refine expect_bind_eq_ok.2 ⟨_, _, hc, rfl, lineEnd_bind_eq_ok.2 ⟨_, he, ?_⟩⟩
    rw [peekPastTrivia_bind, hi]
    exact map_eq_ok.2 ⟨_, ih, rfl⟩
  | noBlock hc he hi =>
    refine expect_bind_eq_ok.2 ⟨_, _, hc, rfl, lineEnd_bind_eq_ok.2 ⟨_, he, ?_⟩⟩
    rw [peekPastTrivia_bind]
    generalize kindOf (pastTrivia _) = k at hi ⊢
    split
    · exact absurd rfl hi
    · rfl
  | @noElse us he =>
    change Reader.elseBody (Reader.statement scope) stop us = .ok (none, us)
    rw [Reader.elseBody, peekPastTrivia_bind]
    generalize kindOf (pastTrivia us) = k at he ⊢
    split
    · exact absurd rfl he
    · rfl
  | @elseIf us _ _ _ _ _ hk hc hw hi _ ih =>
    change Reader.elseBody (Reader.statement scope) stop us = _
    rw [Reader.elseBody, peekPastTrivia_bind, hk]
    refine bind_eq_ok.2 ⟨_, _, leadingComments_iff.2 hc, expect_bind_eq_ok.2 ⟨_, _, hw, rfl, ?_⟩⟩
    rw [peek_bind, hi]
    exact bind_eq_ok.2 ⟨_, _, ih, rfl⟩
  | @elseBlock us _ _ _ _ _ hk hc hw hb ih =>
    change Reader.elseBody (Reader.statement scope) stop us = _
    rw [Reader.elseBody, peekPastTrivia_bind, hk]
    refine bind_eq_ok.2 ⟨_, _, leadingComments_iff.2 hc, expect_bind_eq_ok.2 ⟨_, _, hw, rfl, ?_⟩⟩
    rw [peek_bind, hb.kindOf_block]
    exact bind_eq_ok.2 ⟨_, _, ih, rfl⟩
  | noSwitchCase hk => exact collect_eq_nil.2 (nextCase_eq_none hk)
  | switchCase hts hw hv _ _ ihb ihl =>
    exact collect_eq_cons.2 ⟨_, nextCase_eq_some hts hw hv ihb, ihl⟩
  | @noFallback us hk =>
    change Reader.fallback (Reader.statement scope) stop us = _
    rw [Reader.fallback, peek_bind]
    rcases hk with hk | hk <;> rw [hk] <;> rfl
  | @fallback us _ w _ hw _ hk ih =>
    change Reader.fallback (Reader.statement scope) stop (w :: us) = _
    rw [Reader.fallback, peek_bind, kindOf, hw]
    simp only
    rw [skip_bind]
    exact bind_eq_ok.2 ⟨_, _, ih, bind_eq_ok.2 ⟨(), _, endOfSwitch_eq_ok.2 ⟨hk, rfl⟩, rfl⟩⟩
  | noRaceCase hk => exact collect_eq_nil.2 (nextRaceCase_eq_none hk)
  | raceCase hts hr _ _ ihb ihl =>
    obtain ⟨hd, he, h⟩ := raceCase_eq_ok hr ihb
    exact collect_eq_cons.2 ⟨_, nextRaceCase_eq_some (by rwa [hts]) (by rwa [hts]) (by rwa [hts]), ihl⟩
  | raceGroup hts hw ha _ _ ihb ihl =>
    refine collect_eq_cons.2 ⟨_, nextRaceCase_eq_some (by simp [hts, kindOf, hw])
      (by simp [hts, kindOf, hw]) ?_, ihl⟩
    rw [hts, Reader.raceCase, here_bind, peek_bind, kindOf, hw]
    exact expect_bind_eq_ok.2 ⟨_, _, ha, rfl, bind_eq_ok.2 ⟨_, _, ihb, rfl⟩⟩

/-- **A statement is read where the grammar allows it, and nowhere else.** -/
theorem statement_iff {s : Statement} :
    (statement scope).1 stop ts = .ok (s, rest) ↔ Reads scope (.statement s) ts rest :=
  ⟨reads_of_statement, readBy_of_reads⟩

/-! ### Definitions -/

theorem block_iff {body : List Statement} :
    block (statement scope) stop ts = .ok (body, rest) ↔ Reads scope (.block body) ts rest :=
  ⟨block_sound fun _ _ _ _ => reads_of_statement, readBy_of_reads⟩

theorem statements_iff {column : Nat} {body : List Statement} :
    statements (statement scope) column stop ts = .ok (body, rest) ↔
      Reads scope (.statements column body) ts rest :=
  ⟨statements_sound fun _ _ _ _ => reads_of_statement, readBy_of_reads⟩

theorem member_eq_none {column : Nat} (hs : kindOf (pastNewlines ts) ≠ .keyword .signal)
    (hq : kindOf (pastNewlines ts) ≠ .keyword .query)
    (hu : kindOf (pastNewlines ts) ≠ .keyword .update)
    (hc : kindOf (pastNewlines ts) = .comment → commentEndsBlock column (pastNewlines ts) = true) :
    member column stop ts = .ok (none, pastNewlines ts) := by
  rw [member, skipNewlines_bind, peek_bind]
  generalize kindOf (pastNewlines ts) = k at hs hq hu hc ⊢
  split
  · rw [ask_bind, hc rfl]
    rfl
  · exact absurd rfl hs
  · exact absurd rfl hq
  · exact absurd rfl hu
  · rfl

theorem members_complete {column : Nat} {l : List Member} (h : Members column l ts rest) :
    collect (member column) (member_steps column) stop ts = .ok (l, rest) := by
  induction h with
  | nil hs hq hu hc => exact collect_eq_nil.2 (member_eq_none hs hq hu hc)
  | comment hts hck hc he _ ih =>
    refine collect_eq_cons.2 ⟨_, ?_, ih⟩
    rw [hts] at hc
    rw [member, skipNewlines_bind, peek_bind, hts, kindOf, hck]
    simp only
    rw [ask_bind, hc]
    exact map_eq_ok.2 ⟨_, map_eq_ok.2 ⟨_, commentLine_iff.2 ⟨_, _, hck, rfl, he, rfl⟩, rfl⟩, rfl⟩
  | signal hts hw hn ha hb _ ih =>
    refine collect_eq_cons.2 ⟨_, ?_, ih⟩
    rw [member, skipNewlines_bind, peek_bind, hts, kindOf, hw]
    refine map_eq_ok.2 ⟨_, map_eq_ok.2 ⟨_, ?_, rfl⟩, rfl⟩
    rw [signalHandler, head_bind_eq_ok]
    refine ⟨_, _, _, _, rfl, hw, hn, ha, ?_⟩
    rw [peek_bind, hb.kindOf_block]
    exact bind_eq_ok.2 ⟨_, _, block_iff.2 hb, rfl⟩
  | query hts hw hn ha ht hb _ ih =>
    refine collect_eq_cons.2 ⟨_, ?_, ih⟩
    rw [member, skipNewlines_bind, peek_bind, hts, kindOf, hw]
    refine map_eq_ok.2 ⟨_, map_eq_ok.2 ⟨_, ?_, rfl⟩, rfl⟩
    rw [queryHandler, head_bind_eq_ok]
    exact ⟨_, _, _, _, rfl, hw, hn, ha, bind_eq_ok.2 ⟨_, _, handlerReturnType_eq_ok.2 ht,
      bind_eq_ok.2 ⟨_, _, block_iff.2 hb, rfl⟩⟩⟩
  | update hts hw hn ha ht hb _ ih =>
    refine collect_eq_cons.2 ⟨_, ?_, ih⟩
    rw [member, skipNewlines_bind, peek_bind, hts, kindOf, hw]
    refine map_eq_ok.2 ⟨_, map_eq_ok.2 ⟨_, ?_, rfl⟩, rfl⟩
    rw [updateHandler, head_bind_eq_ok]
    exact ⟨_, _, _, _, rfl, hw, hn, ha, bind_eq_ok.2 ⟨_, _, handlerReturnType_eq_ok.2 ht,
      bind_eq_ok.2 ⟨_, _, block_iff.2 hb, rfl⟩⟩⟩

/-- **A definition is read where the grammar allows it, and nowhere else.** -/
theorem definition_iff {d : Definition} :
    definition stop ts = .ok (d, rest) ↔ Defines d ts rest := by
  refine ⟨defines_of_definition, fun h => ?_⟩
  rw [definition, peek_bind]
  cases h with
  | workflow hw hn ha ht hc he hcs hi ho hm hb hd =>
    rw [kindOf, hw]
    refine map_eq_ok.2 ⟨_, ?_, rfl⟩
    rw [workflowDefinition, head_bind_eq_ok]
    exact ⟨_, _, _, _, rfl, hw, hn, ha, bind_eq_ok.2 ⟨_, _, arrowTarget_iff.2 ht,
      expect_bind_eq_ok.2 ⟨_, _, hc, rfl, lineEnd_bind_eq_ok.2 ⟨_, he,
        bind_eq_ok.2 ⟨_, _, leadingComments_iff.2 hcs, expect_bind_eq_ok.2 ⟨_, _, hi, rfl,
          bind_eq_ok.2 ⟨_, _, definitionOptions_iff.2 ho, bind_eq_ok.2 ⟨_, _, members_complete hm,
            bind_eq_ok.2 ⟨_, _, statements_iff.2 hb,
              expect_bind_eq_ok.2 ⟨_, _, hd, rfl, rfl⟩⟩⟩⟩⟩⟩⟩⟩⟩⟩
  | activity hw hn ha ht hc he hcs hi ho hb hd =>
    rw [kindOf, hw]
    refine map_eq_ok.2 ⟨_, ?_, rfl⟩
    rw [activityDefinition, head_bind_eq_ok]
    exact ⟨_, _, _, _, rfl, hw, hn, ha, bind_eq_ok.2 ⟨_, _, arrowTarget_iff.2 ht,
      expect_bind_eq_ok.2 ⟨_, _, hc, rfl, lineEnd_bind_eq_ok.2 ⟨_, he,
        bind_eq_ok.2 ⟨_, _, leadingComments_iff.2 hcs, expect_bind_eq_ok.2 ⟨_, _, hi, rfl,
          bind_eq_ok.2 ⟨_, _, definitionOptions_iff.2 ho, bind_eq_ok.2 ⟨_, _, statements_iff.2 hb,
            expect_bind_eq_ok.2 ⟨_, _, hd, rfl, rfl⟩⟩⟩⟩⟩⟩⟩⟩⟩

/-- **Definitions are read where the grammar allows them, and nowhere else.** -/
theorem definitions_iff {l : List Definition} :
    definitions stop ts = .ok (l, rest) ↔ DefinesAll l ts rest := by
  refine ⟨definesAll_of_definitions, fun h => ?_⟩
  induction h with
  | nil hk =>
    refine collect_eq_nil.2 ?_
    rw [nextDefinition, skipTrivia_bind, peek_bind, hk]
    rfl
  | @cons us _ _ d _ hne hd _ ih =>
    refine collect_eq_cons.2 ⟨_, ?_, ih⟩
    rw [nextDefinition, skipTrivia_bind, peek_bind]
    generalize kindOf (pastTrivia us) = k at hne
    split
    · exact absurd rfl hne
    · exact map_eq_ok.2 ⟨d, definition_iff.2 hd, rfl⟩

end FlowLang
