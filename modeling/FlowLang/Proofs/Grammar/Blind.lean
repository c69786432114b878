import FlowLang.Proofs.Grammar.Depth
import FlowLang.Proofs.Grammar.Likeness
import FlowLang.Reading.Program

/-!
# What readers are blind to

Every reader comes to the same result from two lists that cannot be told apart.  Whatever relation
between lists this is used for, the readers are gone through once, here.

* `statement_blind`, `definition_blind`, `definitions_blind` : the results, for every likeness.
-/

namespace FlowLang

namespace Reader

open Likeness

variable {K : Likeness} {I : List Token → Prop}

/-! ### Parts of lines -/

theorem name_blind (what : Expected) : K.Blind I (name what) Any :=
  (Blind.expect (by decide)).bind fun _ _ => .pure trivial

theorem args_blind (what : Expected) : K.Blind I (args what) Any :=
  (Blind.expect (by decide)).bind fun _ _ => .pure trivial

theorem lineEnd_blind : K.Blind I lineEnd Any :=
  (Blind.accept? (by decide)).bind fun _ _ => .peek_bind fun k => by
    split
    · exact .skip fun _ h => by simp [h.2]
    · exact .pure trivial
    · exact .failFound _

theorem arrowTarget_blind (target : ArrowTarget) : K.Blind I (arrowTarget target) Any :=
  (Blind.accept? (by decide)).bind fun t _ => by
    cases t with
    | none => exact .pure trivial
    | some t =>
      refine (Blind.accept? (by decide)).bind fun t _ => ?_
      cases t with
      | none => exact (Blind.expect (by decide)).bind fun _ _ => .pure trivial
      | some t => exact .pure trivial

theorem commentLine_blind : K.Blind I commentLine Any :=
  (Blind.expect (by decide)).bind fun _ _ => lineEnd_blind.bind fun _ _ => .pure trivial

theorem leadingComment_blind : K.Blind I leadingComment Any :=
  (Blind.skipWhile rfl).bind fun _ _ => .peek_bind fun k => by
    split
    · exact commentLine_blind.map fun _ _ => trivial
    · exact .pure trivial

theorem leadingComments_blind : K.Blind I leadingComments Any := .collect leadingComment_blind _

/-! ### Calls -/

theorem activityCall_blind : K.Blind I activityCall Any :=
  (Blind.expect (by decide)).bind fun _ _ => (name_blind _).bind fun _ _ => (args_blind _).bind
    fun _ _ => (arrowTarget_blind _).bind fun _ _ => .pure trivial

theorem callMode_blind : K.Blind I callMode Any :=
  (Blind.accept? (by decide)).bind fun t _ => by
    cases t with
    | some t => exact .pure trivial
    | none =>
      refine (Blind.accept? (by decide)).bind fun t _ => ?_
      cases t <;> exact .pure trivial

theorem nexusName_blind : K.Blind I nexusName Any :=
  (Blind.accept? (by decide)).bind fun t _ => by
    cases t with
    | none => exact .pure trivial
    | some t => exact (Blind.expect (by decide)).bind fun _ _ => .pure trivial

/-- The position of a call is kept: an error may be reported there. -/
theorem workflowCall_blind : K.Blind I workflowCall fun call => K.near call.position :=
  Blind.here.bind fun _ hp => callMode_blind.bind fun _ _ => nexusName_blind.bind fun _ _ =>
    (Blind.expect (by decide)).bind fun _ _ => (name_blind _).bind fun _ _ => (args_blind _).bind
      fun _ _ => Blind.here.bind fun _ ha => (arrowTarget_blind _).bind fun _ _ => by
        split
        · exact .failAt ha _
        · exact .pure hp

theorem awaitedCall_blind : K.Blind I awaitedCall Any :=
  workflowCall_blind.bind fun _ hp => by
    split
    · exact .pure trivial
    · exact .failAt hp _

/-- The indentation and the word `options` are passed over unread; they are known from looks
ahead. -/
theorem callOptions_blind : K.Blind I callOptions Any :=
  .peekPastTrivia_bind fun k => by
    split
    · refine .skipTrivia_bind (J := fun us => kindOf us = .indent) (fun us h => h.2) ?_
      refine .peekSecond_bind (fun k => ?_) fun us h he => by simp [h] at he
      split
      · refine .skip_bind (J := fun us => kindOf us = .keyword .options)
          (fun us h => ⟨by simp [h.1], h.2⟩) ?_
        refine .skip_bind (J := Any) (fun us h => ⟨by simp [h], trivial⟩) ?_
        refine (args_blind _).bind fun _ _ => lineEnd_blind.bind fun _ _ =>
          (Blind.skipWhile rfl).bind fun _ _ => (Blind.accept? (by decide)).bind fun t _ => ?_
        cases t with
        | some t => exact .pure trivial
        | none => exact .fail _
      · exact .fail _
    · exact .pure trivial

theorem awaitedEvent_blind (event : Keyword) : K.Blind I (awaitedEvent event) Any :=
  Blind.here.bind fun _ _ => (name_blind _).bind fun _ _ => (arrowTarget_blind _).bind fun _ _ =>
    .pure trivial

theorem activityLine_blind : K.Blind I activityLine Any :=
  activityCall_blind.bind fun _ _ => lineEnd_blind.bind fun _ _ => callOptions_blind.bind
    fun _ _ => .pure trivial

theorem withOptions_blind {r : Reader WorkflowCall} {V : WorkflowCall → Prop}
    (h : K.Blind I r V) : K.Blind I (withOptions r) Any :=
  h.bind fun _ _ => lineEnd_blind.bind fun _ _ => callOptions_blind.bind fun _ _ => .pure trivial

/-! ### Blocks -/

section

variable {inner : StatementReader} (h : K.Blind Any inner.1 Any)
include h

theorem nextStatement_blind (column : Nat) : K.Blind I (nextStatement inner column) Any :=
  (Blind.skipWhile rfl).bind fun _ _ => .peek_bind fun k => by
    split
    · exact .pure trivial
    · exact .pure trivial
    · refine .ask_bind fun b => ?_
      cases b with
      | true => exact fun _ _ hl hi => ⟨rfl, trivial, K.hoist hl hi.2⟩
      | false => exact (Blind.anywhere h).map fun _ _ => trivial

theorem statements_blind (column : Nat) : K.Blind I (statements inner column) Any :=
  .collect (nextStatement_blind h column) _

theorem blockLines_blind : K.Blind I (blockLines inner) Any :=
  leadingComments_blind.bind fun _ _ => (Blind.expect (by decide)).bind fun _ _ =>
    (statements_blind h _).bind fun _ _ => (Blind.expect (by decide)).bind fun _ _ => .pure trivial

theorem block_blind : K.Blind I (block inner) Any :=
  (Blind.expect (by decide)).bind fun _ _ => lineEnd_blind.bind fun _ _ => blockLines_blind h

theorem optionalBlock_blind : K.Blind I (optionalBlock inner) Any :=
  (Blind.expect (by decide)).bind fun _ _ => lineEnd_blind.bind fun _ _ =>
    .peekPastTrivia_bind fun k => by
      split
      · exact (blockLines_blind h).map fun _ _ => trivial
      · exact .pure trivial

/-! ### Control flow -/

theorem elseBody_blind : K.Blind I (elseBody inner) Any :=
  .peekPastTrivia_bind fun k => by
    split
    · refine leadingComments_blind.bind fun _ _ => (Blind.expect (by decide)).bind fun _ _ =>
        .peek_bind fun k => ?_
      split
      · exact (Blind.anywhere h).bind fun _ _ => .pure trivial
      · exact (block_blind h).bind fun _ _ => .pure trivial
    · exact .pure trivial

theorem branch_blind : K.Blind I (branch inner) Any :=
  (Blind.expect (by decide)).bind fun _ _ => (args_blind _).bind fun _ _ =>
    (block_blind h).bind fun _ _ => (elseBody_blind h).bind fun _ _ => .pure trivial

omit h in
theorem loopHeader_blind : K.Blind I loopHeader Any :=
  (Blind.accept? (by decide)).bind fun t ht => by
    cases t with
    | none => exact .pure trivial
    | some t =>
      simp only
      split
      · exact .pure trivial
      · exact .failAt (ht t rfl).2 _

theorem loop_blind : K.Blind I (loop inner) Any :=
  (Blind.expect (by decide)).bind fun _ _ => loopHeader_blind.bind fun _ _ =>
    (block_blind h).bind fun _ _ => .pure trivial

omit h in
theorem caseValue_blind : K.Blind I caseValue Any :=
  (Blind.accept? (by decide)).bind fun t _ => by
    cases t with
    | some t => exact .pure trivial
    | none =>
      refine (Blind.accept? (by decide)).bind fun t _ => ?_
      cases t with
      | some t => exact .pure trivial
      | none => exact name_blind _

theorem nextCase_blind : K.Blind I (nextCase inner) Any :=
  (Blind.skipWhile rfl).bind fun _ _ => .peek_bind fun k => by
    split
    · refine Blind.map (V := Any) ?_ fun _ _ => trivial
      exact (Blind.expect (by decide)).bind fun _ _ => caseValue_blind.bind fun _ _ =>
        (block_blind h).bind fun _ _ => .pure trivial
    · exact .pure trivial

omit h in
theorem endOfSwitch_blind : K.Blind I endOfSwitch Any :=
  (Blind.skipWhile rfl).bind fun _ _ => .peek_bind fun k => by
    split
    · exact .pure trivial
    · exact .pure trivial
    · exact .fail _
    · exact .fail _
    · exact .failFound _

theorem fallback_blind : K.Blind I (fallback inner) Any :=
  .peek_bind fun k => by
    split
    · exact .pure trivial
    · exact .pure trivial
    · exact .skip_bind (J := Any) (fun _ h => ⟨by simp [h.2], trivial⟩)
        ((block_blind h).bind fun _ _ => endOfSwitch_blind.bind fun _ _ => .pure trivial)
    · exact .failFound _

theorem switch_blind : K.Blind I (switch inner) Any :=
  (Blind.expect (by decide)).bind fun _ hw => (args_blind _).bind fun _ _ =>
    (Blind.expect (by decide)).bind fun _ _ => lineEnd_blind.bind fun _ _ =>
      (Blind.skipWhile rfl).bind fun _ _ => (Blind.accept? (by decide)).bind fun t _ => by
        cases t with
        | none => exact .failAt hw.2 _
        | some t =>
          refine (Blind.collect (nextCase_blind h) _).bind fun _ _ => (fallback_blind h).bind
            fun _ _ => (Blind.expect (by decide)).bind fun _ _ => ?_
          split
          · exact .failAt hw.2 _
          · exact .pure trivial

/-! ### Waiting -/

theorem caseWithBlock_blind (position : Position) {target : Reader RaceTarget}
    {V : RaceTarget → Prop} (ht : K.Blind I target V) :
    K.Blind I (caseWithBlock inner position target) Any :=
  ht.bind fun _ _ => (optionalBlock_blind h).bind fun _ _ => .pure trivial

theorem raceCase_blind : K.Blind I (raceCase inner) Any :=
  Blind.here.bind fun p _ => .peek_bind fun k => by
    have call : ∀ J, K.Blind J (caseWithBlock inner p (.workflow <$> awaitedCall)) Any := fun _ =>
      caseWithBlock_blind h p (V := Any) (awaitedCall_blind.map fun _ _ => trivial)
    have event : ∀ e (make : AwaitedEvent → RaceTarget),
        K.Blind Any (caseWithBlock inner p (make <$> awaitedEvent e)) Any := fun e _ =>
      caseWithBlock_blind h p (V := Any) ((awaitedEvent_blind e).map fun _ _ => trivial)
    split
    · exact .skip_bind (J := Any) (fun _ h => ⟨by simp [h.2], trivial⟩) (event _ _)
    · exact .skip_bind (J := Any) (fun _ h => ⟨by simp [h.2], trivial⟩) (event _ _)
    · exact .skip_bind (J := Any) (fun _ h => ⟨by simp [h.2], trivial⟩)
        (caseWithBlock_blind h p (V := Any) ((args_blind _).map fun _ _ => trivial))
    · exact caseWithBlock_blind h p (V := Any) (activityCall_blind.map fun _ _ => trivial)
    · exact call _
    · exact call _
    · exact call _
    · exact call _
    · exact .skip_bind (J := Any) (fun _ h => ⟨by simp [h.2], trivial⟩)
        ((Blind.expect (by decide)).bind fun _ _ => (block_blind h).bind fun _ _ => .pure trivial)
    · exact .failFound _

theorem nextRaceCase_blind : K.Blind I (nextRaceCase inner) Any :=
  (Blind.skipWhile rfl).bind fun _ _ => .peek_bind fun k => by
    split
    · exact .pure trivial
    · exact .pure trivial
    · exact (raceCase_blind h).map fun _ _ => trivial

theorem race_blind {position : Position} (hp : K.near position) :
    K.Blind I (race inner position) Any :=
  (Blind.expect (by decide)).bind fun _ _ => lineEnd_blind.bind fun _ _ =>
    (Blind.skipWhile rfl).bind fun _ _ => (Blind.accept? (by decide)).bind fun t _ => by
      cases t with
      | none => exact .failAt hp _
      | some t =>
        refine (Blind.collect (nextRaceCase_blind h) _).bind fun _ _ =>
          (Blind.expect (by decide)).bind fun _ _ => ?_
        split
        · exact .failAt hp _
        · exact .pure trivial

omit h in
theorem targetLine_blind (position : Position) {target : Reader AwaitTarget}
    (ht : K.Blind I target Any) : K.Blind I (targetLine position target) Any :=
  ht.bind fun _ _ => lineEnd_blind.bind fun _ _ => .pure trivial

theorem await_blind : K.Blind I (await inner) Any :=
  (Blind.expect (by decide)).bind fun w hw => .peek_bind fun k => by
    have call : ∀ J, K.Blind J (do
        let call ← withOptions awaitedCall
        return Statement.await (.workflow call) w.position : Reader Statement) Any := fun _ =>
      (withOptions_blind awaitedCall_blind).bind fun _ _ => .pure trivial
    split
    · exact .skip_bind (J := Any) (fun _ h => ⟨by simp [h.2], trivial⟩)
        ((block_blind h).bind fun _ _ => .pure trivial)
    · exact .skip_bind (J := Any) (fun _ h => ⟨by simp [h.2], trivial⟩) (race_blind h hw.2)
    · exact .skip_bind (J := Any) (fun _ h => ⟨by simp [h.2], trivial⟩)
        (targetLine_blind _ ((args_blind _).map fun _ _ => trivial))
    · exact .skip_bind (J := Any) (fun _ h => ⟨by simp [h.2], trivial⟩)
        (targetLine_blind _ ((awaitedEvent_blind _).map fun _ _ => trivial))
    · exact .skip_bind (J := Any) (fun _ h => ⟨by simp [h.2], trivial⟩)
        (targetLine_blind _ ((awaitedEvent_blind _).map fun _ _ => trivial))
    · exact activityLine_blind.bind fun _ _ => .pure trivial
    · exact call _
    · exact call _
    · exact call _
    · exact call _
    · exact .failFound _

/-! ### Statements -/

omit h in
theorem args?_blind : K.Blind I args? Any :=
  (Blind.accept? (by decide)).bind fun _ _ => .pure trivial

omit h in
theorem closeReason_blind : K.Blind I closeReason Any :=
  (Blind.accept? (by decide)).bind fun t _ => by
    cases t with
    | some t => exact .pure trivial
    | none =>
      refine (Blind.accept? (by decide)).bind fun t _ => ?_
      cases t <;> exact .pure trivial

omit h in
theorem wordLine_blind (word : Keyword) (make : Position → Statement) :
    K.Blind I (wordLine word make) Any :=
  (Blind.expect (by simp)).bind fun _ _ => lineEnd_blind.bind fun _ _ => .pure trivial

omit h in
theorem rawLine_blind : K.Blind I rawLine Any :=
  Blind.here.bind fun _ _ => Blind.textTokens.bind fun _ _ => by
    split
    · exact .failFound _
    · exact lineEnd_blind.bind fun _ _ => .pure trivial

theorem opened_blind (scope : Scope) (o : Opening) : K.Blind I (opened scope inner o) Any := by
  cases o with
  | activityCall => exact activityLine_blind.map fun _ _ => trivial
  | workflowCall => exact (withOptions_blind workflowCall_blind).map fun _ _ => trivial
  | await => exact await_blind h
  | switch => exact switch_blind h
  | branch => exact branch_blind h
  | loop => exact loop_blind h
  | close =>
    refine (Blind.expect (by decide)).bind fun _ hw => ?_
    split
    · exact closeReason_blind.bind fun _ _ => args?_blind.bind fun _ _ => lineEnd_blind.bind
        fun _ _ => .pure trivial
    · exact .failAt hw.2 _
  | continueAsNew =>
    refine (Blind.expect (by decide)).bind fun _ hw => ?_
    split
    · exact args?_blind.bind fun _ _ => lineEnd_blind.bind fun _ _ => .pure trivial
    · exact .failAt hw.2 _
  | returnValue =>
    refine (Blind.expect (by decide)).bind fun _ hw => ?_
    split
    · exact .failAt hw.2 _
    · exact Blind.textTokens.bind fun _ _ => lineEnd_blind.bind fun _ _ => .pure trivial
  | breakLoop => exact wordLine_blind _ _
  | continueLoop => exact wordLine_blind _ _
  | comment => exact commentLine_blind
  | misplaced => exact .peek_bind fun _ => .failFound _

/-- At the end of the input the token behind it is looked at, but does not matter: only contextual
words are told apart by what follows them. -/
theorem statementWith_blind (scope : Scope) : K.Blind I (statementWith scope inner) Any :=
  .peek_bind fun k => .peekSecond_bind (fun k' => by
    split
    · exact rawLine_blind
    · split
      · exact opened_blind h scope _
      · split
        · exact .fail _
        · exact rawLine_blind) fun ts hi he k₁ k₂ => by
      obtain rfl : k = .eof := hi.2.symm.trans he
      simp [TokenKind.isContextual]

end

/-- **Reading a statement is blind to what cannot be told apart.**  The two lists may have different
lengths; a bound on the nesting that is large enough for both makes no difference. -/
theorem statement_blind (scope : Scope) : K.Blind I (statement scope).1 Any := by
  have bounded : ∀ depth, K.Blind Any (statementWithin scope depth).1 Any := by
    intro depth
    induction depth with
    | zero => exact .failFound _
    | succ depth ih =>
      have more : K.Blind Any (statementWith scope (statementWithin scope depth)) Any :=
        statementWith_blind ih scope
      exact fun _ _ hl hi => more hl hi
  intro ts us hl _
  have large : ∀ {vs : List Token} {stop}, vs.length ≤ ts.length + us.length →
      (statement scope).1 stop vs =
        (statementWithin scope (ts.length + us.length + 1)).1 stop vs := by
    intro vs stop hle
    exact statementWithin_agree scope (Nat.le_refl _) (by omega) (Nat.lt_succ_self vs.length)
  rw [large (by omega), large (by omega)]
  exact bounded _ hl trivial

/-! ### Definitions -/

theorem handlerReturnType_blind (handler : Keyword) (name : String) :
    K.Blind I (handlerReturnType handler name) Any :=
  (arrowTarget_blind _).bind fun t _ => by
    cases t with
    | some t => exact .pure trivial
    | none => exact .fail _

theorem member_blind (column : Nat) : K.Blind I (member column) Any := by
  have handler : ∀ {α : Type} {make : α → Member} {r : Reader α} {J : List Token → Prop},
      K.Blind J r Any → K.Blind J (some <$> make <$> r) Any := fun hr =>
    Blind.map (V := Any) (hr.map fun _ _ => trivial) fun _ _ => trivial
  refine (Blind.skipWhile rfl).bind fun _ _ => .peek_bind fun k => ?_
  split
  · refine .ask_bind fun b => ?_
    cases b with
    | true => exact .pure trivial
    | false => exact handler commentLine_blind
  · refine handler ((Blind.expect (by decide)).bind fun _ _ => (name_blind _).bind fun _ _ =>
      (args_blind _).bind fun _ _ => .peek_bind fun k => ?_)
    split
    · exact .fail _
    · exact (block_blind (statement_blind _)).bind fun _ _ => .pure trivial
  · exact handler ((Blind.expect (by decide)).bind fun _ _ => (name_blind _).bind fun _ _ =>
      (args_blind _).bind fun _ _ => (handlerReturnType_blind _ _).bind fun _ _ =>
        (block_blind (statement_blind _)).bind fun _ _ => .pure trivial)
  · exact handler ((Blind.expect (by decide)).bind fun _ _ => (name_blind _).bind fun _ _ =>
      (args_blind _).bind fun _ _ => (handlerReturnType_blind _ _).bind fun _ _ =>
        (block_blind (statement_blind _)).bind fun _ _ => .pure trivial)
  · exact .pure trivial

theorem definitionOptions_blind : K.Blind I definitionOptions Any :=
  .peek_bind fun k => by
    split
    · refine .peekSecond_bind (fun k => ?_) fun ts hi he => by simp [hi.2] at he
      split
      · exact .pure trivial
      · exact .skip_bind (J := Any) (fun _ h => ⟨by simp [h.1.2], trivial⟩)
          ((args_blind _).bind fun _ _ => lineEnd_blind.bind fun _ _ => .pure trivial)
    · exact .pure trivial

theorem workflowDefinition_blind : K.Blind I workflowDefinition Any :=
  (Blind.expect (by decide)).bind fun _ _ => (name_blind _).bind fun _ _ =>
    (args_blind _).bind fun _ _ => (arrowTarget_blind _).bind fun _ _ =>
      (Blind.expect (by decide)).bind fun _ _ => lineEnd_blind.bind fun _ _ =>
        leadingComments_blind.bind fun _ _ => (Blind.expect (by decide)).bind fun _ _ =>
          definitionOptions_blind.bind fun _ _ => (Blind.collect (member_blind _) _).bind
            fun _ _ => (statements_blind (statement_blind _) _).bind fun _ _ =>
              (Blind.expect (by decide)).bind fun _ _ => .pure trivial

theorem activityDefinition_blind : K.Blind I activityDefinition Any :=
  (Blind.expect (by decide)).bind fun _ _ => (name_blind _).bind fun _ _ =>
    (args_blind _).bind fun _ _ => (arrowTarget_blind _).bind fun _ _ =>
      (Blind.expect (by decide)).bind fun _ _ => lineEnd_blind.bind fun _ _ =>
        leadingComments_blind.bind fun _ _ => (Blind.expect (by decide)).bind fun _ _ =>
          definitionOptions_blind.bind fun _ _ =>
            (statements_blind (statement_blind _) _).bind fun _ _ =>
              (Blind.expect (by decide)).bind fun _ _ => .pure trivial

/-- **Reading a definition is blind to what cannot be told apart.** -/
theorem definition_blind : K.Blind I definition Any :=
  .peek_bind fun k => by
    split
    · exact workflowDefinition_blind.map fun _ _ => trivial
    · exact activityDefinition_blind.map fun _ _ => trivial
    · exact .failFound _

theorem nextDefinition_blind : K.Blind I nextDefinition Any :=
  (Blind.skipWhile rfl).bind fun _ _ => .peek_bind fun k => by
    split
    · exact .pure trivial
    · exact definition_blind.map fun _ _ => trivial

/-- **Reading a program is blind to what cannot be told apart.** -/
theorem definitions_blind : K.Blind I definitions Any := .collect nextDefinition_blind _

end Reader

end FlowLang
