import FlowLang.Position
import FlowLang.Reading.Scope
import FlowLang.Token.Basic

/-!
# Faults against the grammar

* `Found` : the token at which reading stopped, as it is named in messages.
* `Expected` : what should have stood there.
* `SyntaxError.Cause`, `SyntaxError` : what is wrong, and where.
* `SyntaxError.message` : the wording, in one place.
-/

namespace FlowLang

/-! ### What was found -/

/-- A token, or the end of the input, as it is named in messages. -/
inductive Found where
  | lineEnd
  | inputEnd
  | indentation
  | blockEnd
  | comment
  | text (text : String)
deriving DecidableEq, Repr

namespace Found

/-- The name of a token. -/
def ofToken (t : Token) : Found :=
  match t.kind with
  | .newline => lineEnd
  | .eof => inputEnd
  | .indent => indentation
  | .dedent => blockEnd
  | .comment => comment
  | _ => text t.sourceText

/-- The name of the first of the remaining tokens. -/
def ofTokens : List Token → Found
  | [] => inputEnd
  | t :: _ => ofToken t

/-- The name in words. -/
def describe : Found → String
  | lineEnd => "end of line"
  | inputEnd => "end of input"
  | indentation => "indentation"
  | blockEnd => "end of block"
  | comment => "comment"
  | text s => "'" ++ s ++ "'"

end Found

/-! ### What was expected -/

/-- What is bound after an arrow. -/
inductive ArrowTarget where
  | result | returnType | binding
deriving DecidableEq, Repr

/-- The text for an arrow's target. -/
def ArrowTarget.describe : ArrowTarget → String
  | result => "result binding"
  | returnType => "return type"
  | binding => "binding name"

/-- What the grammar asks for at some place. -/
inductive Expected where
  | definition
  | keyword (word : Keyword)
  /-- The name of what the keyword introduces. -/
  | name (of : Keyword)
  | parameters (of : Keyword)
  | arguments (of : Keyword)
  | colon
  | signatureColon (of : Keyword)
  | switchColon
  | raceColon
  | block
  | bodyOf (of : Keyword)
  | blockEnd
  | bodyEnd (of : Keyword)
  | switchEnd
  | raceEnd
  | arrowTarget (target : ArrowTarget)
  | nexusName
  | optionsArguments
  | condition
  | subject
  | duration
  | caseValue
  | switchCase
  | awaitTarget
  | raceCase
  | raceGroup
  | comment
deriving DecidableEq, Repr

/-- The expected thing in words. -/
def Expected.describe : Expected → String
  | definition => "'workflow' or 'activity' definition"
  | keyword k => "'" ++ k.text ++ "'"
  | name k => k.text ++ " name"
  | parameters k => "parameter list after " ++ k.text ++ " name"
  | arguments k => "argument list after " ++ k.text ++ " name"
  | colon => "':'"
  | signatureColon k => "':' after " ++ k.text ++ " signature"
  | switchColon => "':' after switch expression"
  | raceColon => "':' after 'await one'"
  | block => "an indented block"
  | bodyOf k => "an indented " ++ k.text ++ " body"
  | blockEnd => "end of block"
  | bodyEnd k => "end of " ++ k.text ++ " body"
  | switchEnd => "end of switch block"
  | raceEnd => "end of 'await one' block"
  | arrowTarget t => t.describe ++ " after '->'"
  | nexusName => "quoted namespace after 'nexus'"
  | optionsArguments => "'(' after 'options'"
  | condition => "condition in parentheses after 'if'"
  | subject => "expression in parentheses after 'switch'"
  | duration => "'(duration)' after 'timer'"
  | caseValue => "case value"
  | switchCase => "'case' or 'default' in switch block"
  | awaitTarget =>
    "'all', 'one', 'timer', 'signal', 'update', 'activity' or 'workflow' after 'await'"
  | raceCase =>
    "an 'await one' case (signal, update, timer, activity, workflow or 'await all')"
  | raceGroup => "'all' (only 'await all' may race as a case)"
  | comment => "comment"

/-! ### Errors -/

/-- What is wrong. -/
inductive SyntaxError.Cause where
  | expected (what : Expected) (found : Found)
  /-- Something is left over at the end of a statement. -/
  | trailing (found : Found)
  | unexpected (found : Found)
  | forbidden (word : TokenKind) (scope : Scope)
  /-- A statement that ends the workflow stands outside its main body. -/
  | cannotEndWorkflow (word : Keyword) (scope : Scope)
  | returnInWorkflow
  | detachedResult
  | blockAfterCall
  | secondOptions
  | noSwitchCase
  | caseAfterDefault
  | secondDefault
  | noRaceCase
  | awaitedNonChild
  | lateDeclaration (word : TokenKind)
  | nestedDeclaration (word : TokenKind) (scope : Scope)
  | bareTimer
  | bareOptions
  | elseWithoutIf
  | caseOutsideSwitch (word : TokenKind)
  | unexpectedIndentation
  | emptyLoopCondition
  | invalidLoopVariable (text : String)
  | missingIterable
  | signalReturnType (name : String)
  | missingReturnType (handler : Keyword) (name : String)
deriving DecidableEq, Repr

/-- A fault against the grammar and its place. -/
structure SyntaxError where
  cause : SyntaxError.Cause
  position : Position
deriving DecidableEq, Repr

/-- The fault in words. -/
def SyntaxError.Cause.message : SyntaxError.Cause → String
  | expected what found => "expected " ++ what.describe ++ ", found " ++ found.describe
  | trailing found => "unexpected " ++ found.describe ++ " at end of statement"
  | unexpected found => "unexpected " ++ found.describe
  | forbidden word scope => "'" ++ word.describe ++ "' is not allowed in " ++ scope.describe
  | cannotEndWorkflow word scope =>
    "'" ++ word.text ++ "' is not allowed in " ++ scope.describe ++
      "; handlers cannot end the workflow"
  | returnInWorkflow =>
    "'return' is not allowed in a workflow body; use 'close' to end the workflow"
  | detachedResult => "cannot bind the result of a detached workflow call"
  | blockAfterCall =>
    "unexpected indented block after call; only an options(...) line may follow"
  | secondOptions => "only a single options(...) line may follow a call"
  | noSwitchCase => "switch requires at least one 'case'"
  | caseAfterDefault => "'case' cannot follow 'default'"
  | secondDefault => "switch has more than one 'default'"
  | noRaceCase => "'await one' requires at least one case"
  | awaitedNonChild => "only child workflow calls can be awaited; drop 'spawn'/'detach'"
  | lateDeclaration word =>
    word.describe ++ " declarations must come before any other statement in a workflow body"
  | nestedDeclaration word scope =>
    word.describe ++ " declarations are only allowed at the top of a workflow body, not in " ++
      scope.describe
  | bareTimer => "a timer must be awaited: use 'await timer(...)'"
  | bareOptions => "options(...) must be indented directly under an activity or workflow call"
  | elseWithoutIf => "'else' without a matching 'if'"
  | caseOutsideSwitch word => "'" ++ word.describe ++ "' outside of a switch block"
  | unexpectedIndentation => "unexpected indentation"
  | emptyLoopCondition => "empty loop condition; use 'for:' for an infinite loop"
  | invalidLoopVariable text => "invalid loop variable '" ++ text ++ "'"
  | missingIterable => "missing iterable after 'in'"
  | signalReturnType name => "signal '" ++ name ++ "' cannot declare a return type"
  | missingReturnType k name => k.text ++ " '" ++ name ++ "' must declare a return type"

/-- The error in words, without its place. -/
def SyntaxError.message (e : SyntaxError) : String := e.cause.message

end FlowLang
