import FlowLang.Position

/-!
# Faults of a source text below the level of its grammar

A text that has one of these faults has no tokens at all.

* `LexError.Cause` : what can be wrong.
* `LexError.message` : how it is reported.
-/

namespace FlowLang

/-- What keeps a text from being split into tokens. -/
inductive LexError.Cause where
  /-- A line returns to a depth of indentation that is not open. -/
  | inconsistentDedent
  /-- Tabs and spaces both indent. -/
  | mixedIndentation
  /-- A parenthesis is not closed on its line. -/
  | unclosedParen
  /-- A parenthesis closes nothing. -/
  | unmatchedParen
  /-- A string is not closed on its line. -/
  | unterminatedString
deriving DecidableEq, Repr

/-- A fault and its place. -/
structure LexError where
  cause : LexError.Cause
  position : Position
deriving DecidableEq, Repr

namespace LexError

/-- The fault in words, without its place. -/
def Cause.describe : Cause → String
  | .inconsistentDedent => "inconsistent dedent"
  | .mixedIndentation => "mixed tabs and spaces in indentation"
  | .unclosedParen => "unclosed '('"
  | .unmatchedParen => "unmatched ')'"
  | .unterminatedString => "unterminated string"

/-- The fault in words, with its line. -/
def message (e : LexError) : String := s!"{e.cause.describe} at line {e.position.line}"

end LexError

end FlowLang
