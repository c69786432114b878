import FlowLang.Diagnostic
import FlowLang.Lint.Rules
import FlowLang.Reading.Program
import FlowLang.Token.Layout

/-!
# Analysis of a source text

A source text is split into tokens, read as a program, and the names in the program are resolved;
then the rules are applied to it.  An analysis never fails: what goes wrong is part of its result.

* `Mode` : whether reading stops at the first fault.
* `Analysis` : the program, the errors and the findings.
* `analyze`, `analyzeJoined` : the analysis of one text, and of several texts as one.
-/

namespace FlowLang

/-- What reading does at a fault against the grammar. -/
inductive Mode where
  /-- It stops, and there is no program. -/
  | failFast
  /-- It drops the definition and goes on. -/
  | collectAll
deriving DecidableEq, Repr

/-- What is known about a source text. -/
structure Analysis where
  /-- The resolved program, unless the text could not be read. -/
  program : Option Program
  /-- The errors, phase by phase. -/
  errors : List Diagnostic
  findings : List Finding

namespace Analysis

/-- A text that could not be read. -/
def failure (d : Diagnostic) : Analysis := ⟨none, [d], []⟩

/-- The analysis of a program that was read with these errors. -/
def ofProgram (p : Program) (errors : List SyntaxError) : Analysis :=
  let resolved := p.resolve
  { program := some resolved
    errors := errors.map .ofSyntaxError ++ p.resolveErrors.map .ofResolveError
    findings := resolved.lint }

/-- The analysis of a list of tokens. -/
def ofTokens (mode : Mode) (tokens : List Token) : Analysis :=
  match mode with
  | .failFast =>
    match Program.ofTokens tokens with
    | .error e => failure (.ofSyntaxError e)
    | .ok p => ofProgram p []
  | .collectAll => ofProgram (Program.recover tokens).1 (Program.recover tokens).2

/-- Something is wrong: an error of some phase, or a finding that counts as one. -/
def hasErrors (a : Analysis) : Bool := !a.errors.isEmpty || a.findings.any Finding.isError

/-- The analysis without its findings. -/
def withoutFindings (a : Analysis) : Analysis := { a with findings := [] }

end Analysis

/-- Analyzes a source text. -/
def analyze (source : String) (mode : Mode) : Analysis :=
  match tokenize source with
  | .error e => .failure (.ofLexError e)
  | .ok tokens => .ofTokens mode tokens

/-- Several texts as one, each starting on a line of its own. -/
def joinSources (sources : List String) : String := "\n".intercalate sources

/-- Analyzes several source texts as one program. -/
def analyzeJoined (sources : List String) (mode : Mode) : Analysis :=
  analyze (joinSources sources) mode

end FlowLang
