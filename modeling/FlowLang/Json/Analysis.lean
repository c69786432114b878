import FlowLang.Analysis
import FlowLang.Json.Program

/-!
# Analyses as JSON

An analysis is an object with the program (`ast`), the errors and the findings (`lints`).
-/

namespace FlowLang

namespace Json

/-- An error with its phase and place. -/
def ofDiagnostic (d : Diagnostic) : Json :=
  .obj [("phase", .str d.phase.text), ("message", .str d.message), ("line", .num d.position.line),
    ("column", .num d.position.column)]

/-- The members of a finding. -/
def finding (f : Finding) : List (String × Json) :=
  [("position", ofPosition f.position), ("message", .str f.message),
    ("severity", .str f.severity.text), ("ruleId", .str f.ruleId)]

/-- A finding with its rule and place. -/
def ofFinding (f : Finding) : Json := .obj (finding f)

/-- A program, or `null`. -/
def ofProgram? : Option Program → Json
  | none => .null
  | some p => ofProgram p

/-- An analysis. -/
def ofAnalysis (a : Analysis) : Json :=
  .obj [("ast", ofProgram? a.program), ("errors", .arr (a.errors.map ofDiagnostic)),
    ("lints", .arr (a.findings.map ofFinding))]

end Json

/-- The analysis as a JSON document, on one line or over several. -/
def Analysis.toJson (a : Analysis) (isPretty : Bool) : String := (Json.ofAnalysis a).render isPretty

end FlowLang
