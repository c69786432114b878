import FlowLang.Program.Basic
import FlowLang.Reading.Reader
import FlowLang.Text.Blank

/-!
# Parts of a line

* `lineEnd` : the end of a statement, perhaps with a comment before it.
* `arrowTarget` : an arrow and the name or text that it points to, if there is one.
* `textTokens`, `lineText` : the remaining tokens of a line, and their text with the spaces between
  them.
* `commentLine` : a comment that is a statement of its own.
-/

namespace FlowLang

namespace Reader

/-- A word that is no keyword. -/
def name (what : Expected) : Reader String := do
  let t ← expect .ident what
  return t.literal

/-- A text in parentheses. -/
def args (what : Expected) : Reader String := do
  let t ← expect .args what
  return t.literal

/-- The end of a line, or of the input; a comment before it is passed over. -/
def lineEnd : Reader Unit := do
  let _ ← accept? .comment
  match ← peek with
  | .newline => skip
  | .eof => return
  | _ => failFound .trailing

/-- `-> name` or `-> (text)`, which may be absent. -/
def arrowTarget (target : ArrowTarget) : Reader (Option String) := do
  match ← accept? .arrow with
  | none => return none
  | some _ =>
    match ← accept? .args with
    | some t => return some t.literal
    | none =>
      let t ← expect .ident (.arrowTarget target)
      return some t.literal

/-- Kinds of tokens at which the text of a line ends. -/
def endsText : TokenKind → Bool
  | .newline | .comment | .eof | .indent | .dedent => true
  | _ => false

/-- The tokens up to the end of the line or to a comment. -/
def textTokens : Reader (List Token) := fun _ ts =>
  .ok (ts.takeWhile fun t => !endsText t.kind, ts.dropWhile fun t => !endsText t.kind)

/-- The source text of tokens that follow each other on a line, with a space for every column
between two of them. -/
def lineText : List Token → String
  | [] => ""
  | [t] => t.sourceText
  | t :: u :: ts =>
    t.sourceText ++ String.ofList (List.replicate (u.position.column - t.endColumn) ' ') ++
      lineText (u :: ts)

/-- A comment that stands for itself. -/
def commentLine : Reader Statement := do
  let t ← expect .comment .comment
  lineEnd
  return .comment (Text.trim t.literal) t.position

/-! ### How much is read -/

theorem name_consumes (what : Expected) : Consumes (name what) :=
  (expect_consumes _ _).bind fun _ => .pure _

theorem args_consumes (what : Expected) : Consumes (args what) :=
  (expect_consumes _ _).bind fun _ => .pure _

theorem lineEnd_keeps : Keeps lineEnd :=
  (accept?_keeps _).bind fun _ => peek_keeps.bind fun k => by
    split
    · exact skip_keeps
    · exact .pure _
    · exact (failFound_consumes _).keeps

theorem arrowTarget_keeps (target : ArrowTarget) : Keeps (arrowTarget target) :=
  (accept?_keeps _).bind fun t => by
    cases t with
    | none => exact .pure _
    | some t =>
      refine (accept?_keeps _).bind fun t => ?_
      cases t with
      | none => exact ((expect_consumes _ _).bind fun _ => .pure _).keeps
      | some t => exact .pure _

theorem textTokens_keeps : Keeps textTokens := fun _ ts _ _ e => by
  cases e
  exact (List.dropWhile_sublist _).length_le

theorem commentLine_consumes : Consumes commentLine :=
  (expect_consumes _ _).bind fun _ => lineEnd_keeps.bind fun _ => .pure _

end Reader

end FlowLang
