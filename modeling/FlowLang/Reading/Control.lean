import FlowLang.Reading.Block
import FlowLang.Reading.LoopHeader

/-!
# Control flow

Statements with blocks that follow each other or repeat, and statements that leave a block:

* `branch` : `if`, with an `else` block or another `if` behind the `else`.
* `loop` : the three forms of `for`.
* `switch` : cases, and perhaps a default behind them.
* `close`, `continueAsNew`, `returnLine`, `wordLine` : statements of one line.
-/

namespace FlowLang

namespace Reader

/-! ### Branches -/

/-- The `else` of a branch, if it is what follows.  Comments before it open the block. -/
def elseBody (inner : StatementReader) : Reader (Option (List Statement)) := do
  match ← peekPastTrivia with
  | .keyword .«else» =>
    let comments ← leadingComments
    let _ ← expect (.keyword .«else») (.keyword .«else»)
    match ← peek with
    | .keyword .«if» =>
      let s ← inner.1
      return some (comments ++ [s])
    | _ =>
      let body ← block inner
      return some (comments ++ body)
  | _ => return none

/-- `if (condition):` with its blocks. -/
def branch (inner : StatementReader) : Reader Statement := do
  let word ← expect (.keyword .«if») (.keyword .«if»)
  let condition ← args .condition
  let body ← block inner
  let otherwise ← elseBody inner
  return .branch condition body otherwise word.position

/-! ### Loops -/

/-- The head of a loop behind its keyword. -/
def loopHeader : Reader LoopHeader := do
  match ← accept? .args with
  | none => return .forever
  | some t =>
    match LoopHeader.ofText t.literal with
    | .ok header => return header
    | .error cause => failAt t.position cause

/-- `for:`, `for (condition):` or `for (binder in iterable):` with its block. -/
def loop (inner : StatementReader) : Reader Statement := do
  let word ← expect (.keyword .«for») (.keyword .«for»)
  let header ← loopHeader
  let body ← block inner
  return .loop header body word.position

/-! ### Switches -/

/-- The value of a case: a name, a string or a text in parentheses. -/
def caseValue : Reader String := do
  match ← accept? .args with
  | some t => return t.literal
  | none =>
    match ← accept? .string with
    | some t => return t.literal
    | none => name .caseValue

/-- `case value:` with its block. -/
def switchCase (inner : StatementReader) : Reader SwitchCase := do
  let word ← expect (.keyword .case) .switchCase
  let value ← caseValue
  let body ← block inner
  return ⟨value, body, word.position⟩

/-- The next case, if one follows. -/
def nextCase (inner : StatementReader) : Reader (Option SwitchCase) := do
  skipTrivia
  match ← peek with
  | .keyword .case => some <$> switchCase inner
  | _ => return none

theorem loopHeader_keeps : Keeps loopHeader :=
  (accept?_keeps _).bind fun t => by
    cases t with
    | none => exact .pure _
    | some t =>
      simp only
      split
      · exact .pure _
      · exact (failAt_consumes _ _).keeps

theorem caseValue_consumes : Consumes caseValue := fun stop ts a rest e => by
  obtain ⟨t, mid, h₁, h₂⟩ := bind_eq_ok.1 e
  cases t with
  | some t => cases h₂; exact accept?_steps _ h₁
  | none =>
    obtain ⟨u, mid', h₃, h₄⟩ := bind_eq_ok.1 h₂
    cases u with
    | some u =>
      cases h₄
      exact Nat.lt_of_lt_of_le (accept?_steps _ h₃) (accept?_keeps _ h₁)
    | none =>
      exact Nat.lt_of_lt_of_le (name_consumes _ h₄)
        (Nat.le_trans (accept?_keeps _ h₃) (accept?_keeps _ h₁))

theorem switchCase_consumes (inner : StatementReader) : Consumes (switchCase inner) :=
  (expect_consumes _ _).bind fun _ => caseValue_consumes.keeps.bind fun _ =>
    (block_consumes inner).keeps.bind fun _ => .pure _

theorem nextCase_steps (inner : StatementReader) : Steps (nextCase inner) :=
  (skipWhile_keeps _).bind_steps fun _ => peek_keeps.bind_steps fun _ => by
    split
    · exact (switchCase_consumes inner).map_some
    · exact Steps.pure_none

/-- What may stand behind the default of a switch: nothing. -/
def endOfSwitch : Reader Unit := do
  skipTrivia
  match ← peek with
  | .dedent | .eof => return
  | .keyword .case => fail .caseAfterDefault
  | .keyword .default => fail .secondDefault
  | _ => failFound (.expected .switchCase)

/-- The default of a switch, which may be absent, and nothing behind it. -/
def fallback (inner : StatementReader) : Reader (Option (List Statement)) := do
  match ← peek with
  | .dedent | .eof => return none
  | .keyword .default =>
    skip
    let body ← block inner
    endOfSwitch
    return some body
  | _ => failFound (.expected .switchCase)

/-- `switch (subject):` with one or more cases and perhaps a default. -/
def switch (inner : StatementReader) : Reader Statement := do
  let word ← expect (.keyword .switch) (.keyword .switch)
  let subject ← args .subject
  let _ ← expect .colon .switchColon
  lineEnd
  skipTrivia
  match ← accept? .indent with
  | none => failAt word.position .noSwitchCase
  | some _ =>
    let cases ← collect (nextCase inner) (nextCase_steps inner)
    let default ← fallback inner
    let _ ← expect .dedent .switchEnd
    if cases.isEmpty then failAt word.position .noSwitchCase
    else return .switch subject cases default word.position

/-! ### Statements of one line -/

/-- A statement that is its keyword alone. -/
def wordLine (word : Keyword) (make : Position → Statement) : Reader Statement := do
  let t ← expect (.keyword word) (.keyword word)
  lineEnd
  return make t.position

/-- `completed` or `failed`, or neither. -/
def closeReason : Reader CloseReason := do
  match ← accept? (.keyword .completed) with
  | some _ => return .completed
  | none =>
    match ← accept? (.keyword .failed) with
    | some _ => return .failed
    | none => return .unstated

/-- A text in parentheses, which may be absent. -/
def args? : Reader (Option String) := do
  let t ← accept? .args
  return t.map Token.literal

/-- `close` with a reason and a value.  Only the body of a workflow can end the workflow. -/
def close (scope : Scope) : Reader Statement := do
  let word ← expect (.keyword .close) (.keyword .close)
  if scope = .workflow then do
    let reason ← closeReason
    let value ← args?
    lineEnd
    return .close reason value word.position
  else failAt word.position (.cannotEndWorkflow .close scope)

/-- `continue_as_new(args)`.  Only the body of a workflow can end the workflow. -/
def continueAsNew (scope : Scope) : Reader Statement := do
  let word ← expect (.keyword .continueAsNew) (.keyword .continueAsNew)
  if scope = .workflow then do
    let args ← args?
    lineEnd
    return .continueAsNew (args.getD "") word.position
  else failAt word.position (.cannotEndWorkflow .continueAsNew scope)

/-- `return` with the rest of the line as its value.  A workflow does not return. -/
def returnLine (scope : Scope) : Reader Statement := do
  let word ← expect (.keyword .«return») (.keyword .«return»)
  if scope = .workflow then failAt word.position .returnInWorkflow
  else do
    let line ← textTokens
    lineEnd
    let text := lineText line
    return .returnValue (if text = "" then none else some text) word.position

/-! ### How much is read -/

theorem elseBody_keeps (inner : StatementReader) : Keeps (elseBody inner) :=
  peekPastTrivia_keeps.bind fun _ => by
    split
    · refine leadingComments_keeps.bind fun _ => (expect_consumes _ _).keeps.bind fun _ =>
        peek_keeps.bind fun _ => ?_
      split
      · exact inner.2.keeps.bind fun _ => .pure _
      · exact (block_consumes inner).keeps.bind fun _ => .pure _
    · exact .pure _

theorem branch_consumes (inner : StatementReader) : Consumes (branch inner) :=
  (expect_consumes _ _).bind fun _ => (args_consumes _).keeps.bind fun _ =>
    (block_consumes inner).keeps.bind fun _ => (elseBody_keeps inner).bind fun _ => .pure _

theorem loop_consumes (inner : StatementReader) : Consumes (loop inner) :=
  (expect_consumes _ _).bind fun _ => loopHeader_keeps.bind fun _ =>
    (block_consumes inner).keeps.bind fun _ => .pure _

theorem nextCase_keeps (inner : StatementReader) : Keeps (nextCase inner) :=
  (skipWhile_keeps _).bind fun _ => peek_keeps.bind fun _ => by
    split
    · exact ((switchCase_consumes inner).map _).keeps
    · exact .pure _

theorem endOfSwitch_keeps : Keeps endOfSwitch :=
  (skipWhile_keeps _).bind fun _ => peek_keeps.bind fun _ => by
    split
    · exact .pure _
    · exact .pure _
    · exact (fail_consumes _).keeps
    · exact (fail_consumes _).keeps
    · exact (failFound_consumes _).keeps

theorem fallback_keeps (inner : StatementReader) : Keeps (fallback inner) :=
  peek_keeps.bind fun _ => by
    split
    · exact .pure _
    · exact .pure _
    · exact skip_keeps.bind fun _ => (block_consumes inner).keeps.bind fun _ =>
        endOfSwitch_keeps.bind fun _ => .pure _
    · exact (failFound_consumes _).keeps

theorem switch_consumes (inner : StatementReader) : Consumes (switch inner) :=
  (expect_consumes _ _).bind fun _ => (args_consumes _).keeps.bind fun _ =>
    (expect_consumes _ _).keeps.bind fun _ => lineEnd_keeps.bind fun _ =>
      (skipWhile_keeps _).bind fun _ => (accept?_keeps _).bind fun t => by
        cases t with
        | none => exact (failAt_consumes _ _).keeps
        | some t =>
          refine (collect_keeps _ (nextCase_keeps inner)).bind fun _ =>
            (fallback_keeps inner).bind fun _ => (expect_consumes _ _).keeps.bind fun _ => ?_
          split
          · exact (failAt_consumes _ _).keeps
          · exact .pure _

theorem wordLine_consumes (word : Keyword) (make : Position → Statement) :
    Consumes (wordLine word make) :=
  (expect_consumes _ _).bind fun _ => lineEnd_keeps.bind fun _ => .pure _

theorem closeReason_keeps : Keeps closeReason :=
  (accept?_keeps _).bind fun t => by
    cases t with
    | some t => exact .pure _
    | none =>
      refine (accept?_keeps _).bind fun t => ?_
      cases t <;> exact .pure _

theorem args?_keeps : Keeps args? := (accept?_keeps _).bind fun _ => .pure _

theorem close_consumes (scope : Scope) : Consumes (close scope) :=
  (expect_consumes _ _).bind fun _ => by
    split
    · exact closeReason_keeps.bind fun _ => args?_keeps.bind fun _ => lineEnd_keeps.bind fun _ =>
        .pure _
    · exact (failAt_consumes _ _).keeps

theorem continueAsNew_consumes (scope : Scope) : Consumes (continueAsNew scope) :=
  (expect_consumes _ _).bind fun _ => by
    split
    · exact args?_keeps.bind fun _ => lineEnd_keeps.bind fun _ => .pure _
    · exact (failAt_consumes _ _).keeps

theorem returnLine_consumes (scope : Scope) : Consumes (returnLine scope) :=
  (expect_consumes _ _).bind fun _ => by
    split
    · exact (failAt_consumes _ _).keeps
    · exact textTokens_keeps.bind fun _ => lineEnd_keeps.bind fun _ => .pure _

end Reader

end FlowLang
