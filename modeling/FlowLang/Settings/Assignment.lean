import FlowLang.Files.Basic
import FlowLang.Settings.Assignment.Line
import FlowLang.Settings.Assignment.Value
import FlowLang.Settings.Environment

/-!
# Files of assignments

A file with lines `NAME=value` gives values to variables of the environment that have none.  A value
may use the variables that are set when its line is reached.

* `Assignment.ofLine?` : the assignment in a line.
* `Environment.assignFile` : the environment behind all lines of a file.
-/

namespace FlowLang

/-- A name and the value that is written for it. -/
structure Assignment where
  name : List Char
  written : List Char
deriving DecidableEq, Repr

namespace Assignment

open Text

/-- A character of the name of a variable. -/
def isNameChar (c : Char) : Bool := c.isAlphanum || c == '_' || c == '.'

/-- The name of a variable, and what follows it and the blanks behind it. -/
def takeName (cs : List Char) : Option (List Char × List Char) :=
  if cs.head?.any fun c => c.isAlpha || c == '_' then
    some (cs.takeWhile isNameChar, (cs.dropWhile isNameChar).dropWhile isBlank)
  else none

/-- What stands behind the equals sign and the blanks after it. -/
def afterEquals : List Char → Option (List Char)
  | '=' :: cs => some (cs.dropWhile isBlank)
  | _ => none

/-- The assignment in a line.  The word `export` may stand before the name. -/
def ofLine? (line : List Char) : Option Assignment := do
  let (name, rest) ← takeName line
  match afterEquals rest with
  | some written => return ⟨name, written⟩
  | none =>
    guard (name = "export".toList)
    let (name, rest) ← takeName rest
    return ⟨name, ← afterEquals rest⟩

end Assignment

namespace Environment

/-- The text of a variable; it is empty if the variable is not set. -/
def valueOf (env : Environment) (name : List Char) : List Char :=
  ((env.get? (String.ofList name)).getD "").toList

/-- Carries out an assignment; nothing if the value is malformed. -/
def assign? (env : Environment) (a : Assignment) : Option Environment :=
  (readValue? env.valueOf a.written).map fun value =>
    env.setDefault (String.ofList a.name) (String.ofList value)

/-- Carries out the assignments in lines, up to the first line that is malformed.  Blank lines do
not count. -/
def assignLines (env : Environment) : List (List Char) → Environment
  | [] => env
  | line :: lines =>
    let line := Text.trimChars line
    if line = [] then env.assignLines lines
    else
      match (Assignment.ofLine? line).bind env.assign? with
      | none => env
      | some env => env.assignLines lines

/-! ### Bytes -/

/-- The stretches of bytes that end in a line feed, and what follows the last line feed. -/
def byteLines : List UInt8 → List (List UInt8)
  | [] => []
  | b :: bs =>
    if b = 10 then [b] :: byteLines bs
    else
      match byteLines bs with
      | [] => [[b]]
      | line :: lines => (b :: line) :: lines

/-- The characters of the lines before the first that is not UTF-8. -/
def decodeLines : List (List UInt8) → List Char
  | [] => []
  | line :: lines =>
    match decodeText ⟨line.toArray⟩ with
    | .ok text => text.toList ++ decodeLines lines
    | .error _ => []

/-- Carries out the assignments in a file. -/
def assignFile (env : Environment) (bytes : ByteArray) : Environment :=
  env.assignLines (assignmentLines (dropByteOrderMark (decodeLines (byteLines bytes.toList))))

end Environment

end FlowLang
