import FlowLang.Reading.Await
import FlowLang.Reading.Control

/-!
# Statements

A statement is recognized by its first token (`Scope.opening?`).  A token that opens nothing starts
a line of another language, which is kept as it is; but a restricted body refuses the keywords
that only other bodies may use.

* `rawLine` : a line that is kept as it is.
* `misplaced` : the fault of a token that belongs inside another construct.
* `statementWith` : a statement in a body of some kind, given how to read the statements inside it.
* `statement` : a statement with any nesting.  Every level of nesting takes at least one token, so
  the number of remaining tokens bounds the depth.
-/

namespace FlowLang

namespace Reader

/-- A line that is kept as it is. -/
def rawLine : Reader Statement := do
  let position ← here
  let line ← textTokens
  if lineText line = "" then failFound .unexpected
  else do
    lineEnd
    return .raw (lineText line) position

/-- Why a token cannot start a statement. -/
def misplacedCause (scope : Scope) (kind : TokenKind) (found : Found) : SyntaxError.Cause :=
  match kind with
  | .keyword .signal | .keyword .query | .keyword .update =>
    if scope = .workflow then .lateDeclaration kind else .nestedDeclaration kind scope
  | .keyword .timer => .bareTimer
  | .keyword .options => .bareOptions
  | .keyword .«else» => .elseWithoutIf
  | .keyword .case | .keyword .default => .caseOutsideSwitch kind
  | .indent => .unexpectedIndentation
  | _ => .unexpected found

/-- Stops at a token that belongs inside another construct. -/
def misplaced (scope : Scope) : Reader Statement := do
  let kind ← peek
  failFound (misplacedCause scope kind)

/-- The statement that its first token announces. -/
def opened (scope : Scope) (inner : StatementReader) : Opening → Reader Statement
  | .activityCall => .activityCall <$> activityLine
  | .workflowCall => .workflowCall <$> withOptions workflowCall
  | .await => await inner
  | .switch => switch inner
  | .branch => branch inner
  | .loop => loop inner
  | .close => close scope
  | .continueAsNew => continueAsNew scope
  | .returnValue => returnLine scope
  | .breakLoop => wordLine .«break» .breakLoop
  | .continueLoop => wordLine .«continue» .continueLoop
  | .comment => commentLine
  | .misplaced => misplaced scope

/-- A statement in a body of this kind, given a reader for the statements inside it. -/
def statementWith (scope : Scope) (inner : StatementReader) : Reader Statement := do
  let kind ← peek
  let second ← peekSecond
  if kind.isContextual && second == .symbol then rawLine
  else
    match scope.opening? kind with
    | some o => opened scope inner o
    | none =>
      if scope.isRestricted && kind.isTemporal then fail (.forbidden kind scope)
      else rawLine

/-! ### How much is read -/

theorem rawLine_consumes : Consumes rawLine := fun stop ts a rest e => by
  obtain ⟨position, mid, h₁, h₂⟩ := bind_eq_ok.1 e
  cases h₁
  obtain ⟨line, mid', h₃, h₄⟩ := bind_eq_ok.1 h₂
  split at h₄
  next => exact absurd h₄ (by simp [failFound])
  next hne =>
    have hlt : mid'.length < ts.length := by
      cases h₃
      cases ts with
      | nil => exact absurd rfl hne
      | cons t ts =>
        by_cases ht : endsText t.kind = true
        · simp [ht, lineText] at hne
        · simp only [List.dropWhile_cons, ht, Bool.not_false, ↓reduceIte, List.length_cons]
          exact Nat.lt_succ_of_le (List.dropWhile_sublist _).length_le
    exact Nat.lt_of_le_of_lt ((lineEnd_keeps.bind fun _ => .pure _) h₄) hlt

theorem misplaced_consumes (scope : Scope) : Consumes (misplaced scope) :=
  peek_keeps.bind_consumes fun _ => failFound_consumes _

theorem opened_consumes (scope : Scope) (inner : StatementReader) (o : Opening) :
    Consumes (opened scope inner o) := by
  cases o with
  | activityCall => exact activityLine_consumes.map _
  | workflowCall => exact (withOptions_consumes workflowCall_consumes).map _
  | await => exact await_consumes inner
  | switch => exact switch_consumes inner
  | branch => exact branch_consumes inner
  | loop => exact loop_consumes inner
  | close => exact close_consumes scope
  | continueAsNew => exact continueAsNew_consumes scope
  | returnValue => exact returnLine_consumes scope
  | breakLoop => exact wordLine_consumes _ _
  | continueLoop => exact wordLine_consumes _ _
  | comment => exact commentLine_consumes
  | misplaced => exact misplaced_consumes scope

theorem statementWith_consumes (scope : Scope) (inner : StatementReader) :
    Consumes (statementWith scope inner) :=
  peek_keeps.bind_consumes fun _ => peekSecond_keeps.bind_consumes fun _ => by
    split
    · exact rawLine_consumes
    · split
      · exact opened_consumes _ _ _
      · split
        · exact fail_consumes _
        · exact rawLine_consumes

/-! ### Nesting -/

/-- A statement with fewer than `depth` statements nested in each other. -/
def statementWithin (scope : Scope) : Nat → StatementReader
  | 0 => ⟨failFound .unexpected, failFound_consumes _⟩
  | depth + 1 =>
    ⟨fun stop ts => statementWith scope (statementWithin scope depth) stop ts,
      statementWith_consumes _ _⟩

/-- A statement in a body of this kind. -/
def statement (scope : Scope) : StatementReader :=
  ⟨fun stop ts => (statementWithin scope (ts.length + 1)).1 stop ts,
    fun _ _ _ _ e => (statementWithin scope _).2 e⟩

end Reader

end FlowLang
