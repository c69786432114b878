import FlowLang.Command.Arguments
import FlowLang.Json.Analysis
import FlowLang.Settings.Load
import FlowLang.Sources

/-!
# Carrying out a command

* `Outcome` : what a run prints, and its exit status: 0 if all is well, 1 if the files have errors
  or the command failed, 2 if the arguments make no sense.
* `run` : the outcome for arguments, files and an environment.
-/

namespace FlowLang

/-- What a run leaves behind. -/
structure Outcome where
  status : Nat
  output : String
  errors : String
deriving DecidableEq, Repr

namespace Outcome

/-- The arguments make no sense. -/
def usage : Outcome :=
  ⟨2, "", "usage: weft [--config PATH] check FILES... [--fail-fast] | ast FILES... [--compact]" ++
    " | tokens FILE | config\n"⟩

/-- The command failed. -/
def failure (context reason : String) : Outcome := ⟨1, "", s!"Error: {context}: {reason}\n"⟩

/-- The status of a run over files that have errors or not. -/
def statusOf (hasErrors : Bool) : Nat := if hasErrors then 1 else 0

end Outcome

/-- Lines of output. -/
def unlines (lines : List String) : String := String.join (lines.map (· ++ "\n"))

/-! ### Commands -/

/-- What `check` prints about an analysis. -/
def checkOutcome (s : Sources) (a : Analysis) : Outcome :=
  let count := a.errors.length + (a.findings.filter Finding.isError).length
  let summary :=
    if a.hasErrors then s!"✗ {count} error(s) in {s.files.length} file(s)"
    else s!"✓ {s.files.length} file(s) checked, no errors"
  ⟨Outcome.statusOf a.hasErrors, unlines [summary],
    unlines (a.errors.map s.reportError ++ a.findings.map s.reportFinding)⟩

/-- What `ast` prints about an analysis. -/
def astOutcome (a : Analysis) (isPretty : Bool) : Outcome :=
  ⟨Outcome.statusOf a.hasErrors, unlines [a.toJson isPretty], ""⟩

/-- What `tokens` prints about a file. -/
def tokensOutcome (f : SourceFile) : Outcome :=
  match tokenize f.text with
  | .ok tokens => ⟨0, unlines (tokens.map Token.listing), ""⟩
  | .error e => ⟨1, "", unlines [f.path ++ ": " ++ (Diagnostic.ofLexError e).display]⟩

/-- What the settings say about reading. -/
def Settings.mode (s : Settings) : Mode := if s.failFast then .failFast else .collectAll

/-- The analysis of files under these settings. -/
def Sources.analyzeWith (s : Sources) (settings : Settings) : Analysis :=
  let a := s.analyze settings.mode
  if settings.lints then a else a.withoutFindings

/-- The flags of a command. -/
def Command.flags : Command → Flags
  | check _ failFast => ⟨if failFast then some true else none, none⟩
  | ast _ compact => ⟨none, if compact then some false else none⟩
  | _ => .none

/-! ### Running -/

variable {m : Type → Type} [Monad m]

/-- Reads a file. -/
def readSource (files : Files m) (path : String) : m (Except Outcome SourceFile) := do
  match ← files.readText path with
  | .ok text => return .ok ⟨path, text⟩
  | .error failure => return .error (.failure ("Failed to read " ++ path) failure.message)

/-- Reads files, up to the first that fails. -/
def readSources (files : Files m) : List String → m (Except Outcome (List SourceFile))
  | [] => return .ok []
  | path :: paths => do
    match ← readSource files path with
    | .error outcome => return .error outcome
    | .ok f =>
      match ← readSources files paths with
      | .error outcome => return .error outcome
      | .ok later => return .ok (f :: later)

/-- Carries out a command under these settings. -/
def Command.run (files : Files m) (settings : Settings) : Command → m Outcome
  | check paths _ => do
    match ← readSources files paths with
    | .error outcome => return outcome
    | .ok sources => return checkOutcome ⟨sources⟩ (Sources.analyzeWith ⟨sources⟩ settings)
  | ast paths _ => do
    match ← readSources files paths with
    | .error outcome => return outcome
    | .ok sources => return astOutcome (Sources.analyzeWith ⟨sources⟩ settings) settings.pretty
  | tokens path => do
    match ← readSource files path with
    | .error outcome => return outcome
    | .ok f => return tokensOutcome f
  | config => return ⟨0, settings.text, ""⟩

/-- The outcome of a run.  The settings are loaded before any other file is read. -/
def run (files : Files m) (env : Environment) (args : List String) : m Outcome := do
  match Invocation.ofArguments? args with
  | none => return .usage
  | some invocation =>
    match ← loadSettings files env invocation.configPath invocation.command.flags with
    | .error e => return .failure e.message e.reason
    | .ok settings => invocation.command.run files settings

end FlowLang
