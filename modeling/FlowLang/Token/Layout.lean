import FlowLang.Token.Lexeme

/-!
# Lines and indentation

The block structure of a source text is in its indentation.  A line that is deeper than the one
before opens a level (`indent`); a line that is less deep closes every level deeper than itself
(`dedent`) and has to return to one that is open.  Blank lines and lines that hold only a comment
take no part in this.

* `sourceLines` : the lines of a text; a line may end in a carriage return, which does not count.
* `Indentation` : the open levels and the character that indents.
* `Indentation.line` : the tokens of one line.
* `tokenize` : the tokens of a text.
-/

namespace FlowLang

/-! ### Lines -/

/-- The stretches between line feeds: one more than there are line feeds. -/
def splitLines : List Char → List (List Char)
  | [] => [[]]
  | c :: cs =>
    if c = '\n' then [] :: splitLines cs
    else
      match splitLines cs with
      | [] => [[c]]
      | line :: lines => (c :: line) :: lines

/-- The line without one final carriage return. -/
def dropReturn (line : List Char) : List Char :=
  if line.getLast? = some '\r' then line.dropLast else line

/-- The lines of a text, without what ends them. -/
def sourceLines (source : List Char) : List (List Char) := (splitLines source).map dropReturn

/-! ### Indentation -/

/-- What a line needs to know of the lines before it. -/
structure Indentation where
  /-- The widths of the open levels, the innermost first; width 0 is always open. -/
  levels : List Nat
  /-- The character that indents: that of the first indented line. -/
  unit? : Option Char
deriving DecidableEq, Repr

namespace Indentation

/-- Before the first line. -/
def start : Indentation := ⟨[], none⟩

/-- The width of the innermost open level. -/
def width (i : Indentation) : Nat := i.levels.headD 0

/-- Accepts the gap before a line if it repeats one character, the same one in every line. -/
def checkUnit (i : Indentation) : List Char → Option Indentation
  | [] => some i
  | c :: cs =>
    if cs.all (· == c) && (i.unit? == none || i.unit? == some c) then
      some { i with unit? := some c }
    else none

/-- Opens or closes levels so that a line of this width may follow. -/
def adjust (i : Indentation) (line width : Nat) : Except LexError (List Token × Indentation) :=
  if i.width < width then
    .ok ([.mark .indent line (width + 1)], { i with levels := width :: i.levels })
  else
    let closed := i.levels.takeWhile (width < ·)
    let i' := { i with levels := i.levels.dropWhile (width < ·) }
    if i'.width = width then .ok (closed.map fun _ => .mark .dedent line (width + 1), i')
    else .error ⟨.inconsistentDedent, line, width + 1⟩

/-- The tokens of one line. -/
def line (i : Indentation) (number : Nat) (text : List Char) :
    Except LexError (List Token × Indentation) :=
  let gap := text.takeWhile Text.isGap
  let lineEnd := Token.mark .newline number (text.length + 1)
  match text.dropWhile Text.isGap with
  | [] => .ok ([lineEnd], i)
  | '#' :: comment =>
    .ok ([⟨.comment, String.ofList comment, ⟨number, gap.length + 1⟩⟩, lineEnd], i)
  | content =>
    match i.checkUnit gap with
    | none => .error ⟨.mixedIndentation, number, 1⟩
    | some i' => do
      let (marks, i'') ← i'.adjust number gap.length
      let tokens ← lineTokens number (gap.length + 1) content
      return (marks ++ tokens ++ [lineEnd], i'')

/-- After the last line every open level is closed and the input ends. -/
def finish (i : Indentation) (lastLine : Nat) : List Token :=
  i.levels.map (fun _ => .mark .dedent lastLine 1) ++ [.mark .eof lastLine 1]

/-- The tokens of the lines from this number on. -/
def lines (i : Indentation) (number : Nat) : List (List Char) → Except LexError (List Token)
  | [] => .ok (i.finish (number - 1))
  | text :: texts => do
    let (tokens, i') ← i.line number text
    let later ← i'.lines (number + 1) texts
    return tokens ++ later

end Indentation

/-- The tokens of a source text. -/
def tokenize (source : String) : Except LexError (List Token) :=
  Indentation.start.lines 1 (sourceLines source.toList)

end FlowLang
