import FlowLang.Analysis

/-!
# Several files as one source

Files are analyzed together, so that one can use what another defines; a place in the joined text
is then reported as a place in one of the files.

* `Sources` : files with their texts.
* `Sources.starts` : the line of the joined text at which each file starts.
* `Sources.locate` : the file and the line in it for a line of the joined text.
-/

namespace FlowLang

/-- A file with its text. -/
structure SourceFile where
  path : String
  text : String
deriving DecidableEq, Repr

/-- Files that are analyzed together. -/
structure Sources where
  files : List SourceFile

/-- The number of lines of a text: one more than there are line feeds. -/
def lineCount (text : String) : Nat := (splitLines text.toList).length

/-- Each file with its first line, if the first of them starts at the given line. -/
def startsFrom (line : Nat) : List SourceFile → List (String × Nat)
  | [] => []
  | f :: files => (f.path, line) :: startsFrom (line + lineCount f.text) files

namespace Sources

/-- The first line of each file in the joined text. -/
def starts (s : Sources) : List (String × Nat) := startsFrom 1 s.files

/-- The path of the file that a line of the joined text belongs to, and the line within it. -/
def locate (s : Sources) (line : Nat) : String × Nat :=
  match s.starts.reverse.find? fun start => start.2 ≤ line with
  | some (path, start) => (path, line - start + 1)
  | none => ("<input>", line)

/-- The analysis of the files as one program. -/
def analyze (s : Sources) (mode : Mode) : Analysis :=
  analyzeJoined (s.files.map SourceFile.text) mode

/-- A place in words, with the file it is in. -/
def placeText (s : Sources) (p : Position) : String :=
  let (path, line) := s.locate p.line
  s!"{path}:{line}:{p.column}"

/-- An error in words, with the file it is in. -/
def reportError (s : Sources) (d : Diagnostic) : String :=
  s!"{s.placeText d.position}: {d.phase.text} error: {d.message}"

/-- A finding in words, with the file it is in. -/
def reportFinding (s : Sources) (f : Finding) : String :=
  s!"{s.placeText f.position}: {f.severity.text}: {f.message} [{f.ruleId}]"

end Sources

end FlowLang
