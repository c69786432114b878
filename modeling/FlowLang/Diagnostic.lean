import FlowLang.Reading.Fault
import FlowLang.Resolution
import FlowLang.Token.Fault

/-!
# Diagnostics

The errors of all phases in one form: the phase, a message and a place.
-/

namespace FlowLang

/-- The part of an analysis that reports an error. -/
inductive Phase where
  | lex | parse | resolve
deriving DecidableEq, Repr

/-- The phase in words. -/
def Phase.text : Phase → String
  | lex => "lex"
  | parse => "parse"
  | resolve => "resolve"

/-- An error of some phase. -/
structure Diagnostic where
  phase : Phase
  message : String
  position : Position
deriving DecidableEq, Repr

namespace Diagnostic

/-- The error in words, with its phase and place. -/
def display (d : Diagnostic) : String :=
  s!"{d.phase.text} error at line {d.position.line}, col {d.position.column}: {d.message}"

/-- A text that cannot be split into tokens. -/
def ofLexError (e : LexError) : Diagnostic := ⟨.lex, e.message, e.position⟩

/-- A fault against the grammar. -/
def ofSyntaxError (e : SyntaxError) : Diagnostic := ⟨.parse, e.message, e.position⟩

/-- A fault in the use of a name. -/
def ofResolveError (e : ResolveError) : Diagnostic := ⟨.resolve, e.message, e.position⟩

end Diagnostic

end FlowLang
