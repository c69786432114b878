import FlowLang.Position
import FlowLang.Token.Kind

/-!
# Findings

Some programs are well formed and still wrong or doubtful.  A finding is such a place.

* `Finding.Cause` : what is found.
* `Rule` : the rules that look for findings; each cause belongs to one rule.
* `Severity` : how bad a finding is.  Only an error makes a check fail.
-/

namespace FlowLang

/-- How bad a finding is. -/
inductive Severity where
  | error | warning | hint
deriving DecidableEq, Repr

/-- The severity in words. -/
def Severity.text : Severity → String
  | error => "error"
  | warning => "warning"
  | hint => "hint"

/-- What the findings are looked for by. -/
inductive Rule where
  /-- `break` and `continue` belong inside a loop. -/
  | loopControl
  /-- Nothing follows a statement that leaves its block. -/
  | unreachableCode
  /-- A race lets the program tell which case has won. -/
  | emptyRaceCase
deriving DecidableEq, Repr

namespace Rule

/-- The rules, in the order in which they are applied. -/
def list : List Rule := [loopControl, unreachableCode, emptyRaceCase]

/-- The stable name of a rule. -/
def id : Rule → String
  | loopControl => "loop-control"
  | unreachableCode => "unreachable-code"
  | emptyRaceCase => "empty-race-case"

/-- What a rule asks for. -/
def description : Rule → String
  | loopControl => "break and continue must be inside a for loop"
  | unreachableCode =>
    "statements after close, return, continue_as_new, break or continue never run"
  | emptyRaceCase => "an await one race should let the program tell which case won"

end Rule

/-- What is found. -/
inductive Finding.Cause where
  /-- `break` or `continue` outside a loop. -/
  | outsideLoop (word : Keyword)
  /-- A statement behind one that leaves the block with this keyword. -/
  | unreachable (word : Keyword)
  /-- A race whose winner leaves no trace. -/
  | silentRace
deriving DecidableEq, Repr

namespace Finding.Cause

/-- The rule that a cause belongs to. -/
def rule : Finding.Cause → Rule
  | outsideLoop _ => .loopControl
  | unreachable _ => .unreachableCode
  | silentRace => .emptyRaceCase

/-- How bad it is. -/
def severity : Finding.Cause → Severity
  | outsideLoop _ => .error
  | unreachable _ => .warning
  | silentRace => .hint

/-- The finding in words. -/
def message : Finding.Cause → String
  | outsideLoop word => "'" ++ word.text ++ "' outside of a loop"
  | unreachable word => "unreachable statement after '" ++ word.text ++ "'"
  | silentRace =>
    "no case of this 'await one' has a body or a binding; the winning case cannot be told apart"

end Finding.Cause

/-- A doubtful place of a program. -/
structure Finding where
  cause : Finding.Cause
  position : Position
deriving DecidableEq, Repr

namespace Finding

/-- How bad the finding is. -/
def severity (f : Finding) : Severity := f.cause.severity

/-- The finding in words, without its place. -/
def message (f : Finding) : String := f.cause.message

/-- The name of the rule behind the finding. -/
def ruleId (f : Finding) : String := f.cause.rule.id

/-- The finding makes a check fail. -/
def isError (f : Finding) : Bool := f.severity == .error

/-- The finding in words, with its place and its rule. -/
def display (f : Finding) : String :=
  s!"{f.severity.text} at line {f.position.line}, col {f.position.column}: {f.message} [{f.ruleId}]"

end Finding

end FlowLang
