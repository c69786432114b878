import FlowLang.Files.Basic
import FlowLang.Settings.File.Scalar
import FlowLang.Settings.Key

/-!
# Files of settings

A file of settings is a TOML document without tables and dates: it has lines `key = value`, blank
lines, and comments from a `#` on.  A value is a text in quotes, a list of values in brackets, or
`true`, `false`, an integer or a number.  A list may go over several lines.  No key is given twice.

* `value?` : a value.
* `entry?` : a key with its value.
* `Entries.ofFile?` : the settings of a file, or nothing if the file breaks a rule.
-/

namespace FlowLang

namespace SettingsFile

open Text

/-! ### Between the settings -/

/-- The characters with a line feed for a carriage return and a line feed. -/
def plainBreaks : List Char → List Char
  | [] => []
  | '\r' :: '\n' :: cs => '\n' :: plainBreaks cs
  | c :: cs => c :: plainBreaks cs

/-- What follows gaps, line breaks and comments. -/
def skipVoid (inComment : Bool) : List Char → Option (List Char)
  | [] => some []
  | c :: cs =>
    if c = '\n' then skipVoid false cs
    else if inComment then if isControl c then none else skipVoid true cs
    else if isGap c then skipVoid false cs
    else if c = '#' then skipVoid true cs
    else some (c :: cs)

/-- What follows the end of a line on which only a gap and a comment are left. -/
def endLine? (inComment : Bool) : List Char → Option (List Char)
  | [] => some []
  | c :: cs =>
    if c = '\n' then some cs
    else if inComment then if isControl c then none else endLine? true cs
    else if isGap c then endLine? false cs
    else if c = '#' then endLine? true cs
    else none

/-! ### Values -/

/-- A value that is no list, and what follows it. -/
def atom? (cs : List Char) : Option (Value × List Char) :=
  if cs.head?.any isQuote then (text? cs).map fun r => (.text (String.ofList r.1), r.2)
  else (scalar? (cs.takeWhile (!endsScalar ·))).map fun v => (v, cs.dropWhile (!endsScalar ·))

/-- The most lists that may be nested. -/
def nestingLimit : Nat := 79

/-- What follows the bracket that closes the outermost of `depth` lists, from a place inside the
innermost.  A comma may stand there only behind an element, and an element not behind another.
Every step takes a character, so `fuel` may be their number. -/
def listEnd? (fuel depth : Nat) (behindElement : Bool) (cs : List Char) : Option (List Char) :=
  match fuel with
  | 0 => none
  | fuel + 1 => do
    match ← skipVoid false cs with
    | [] => none
    | c :: cs =>
      if c = ']' then if depth ≤ 1 then some cs else listEnd? fuel (depth - 1) true cs
      else if c = ',' then if behindElement then listEnd? fuel depth false cs else none
      else if behindElement then none
      else if c = '[' then
        if depth < nestingLimit then listEnd? fuel (depth + 1) false cs else none
      else
        let (_, rest) ← atom? (c :: cs)
        listEnd? fuel depth true rest

/-- A value, and what follows it.  What a list holds does not matter. -/
def value? : List Char → Option (Value × List Char)
  | '[' :: cs => (listEnd? (cs.length + 1) 1 false cs).map fun rest => (.list, rest)
  | cs => atom? cs

/-! ### Settings -/

/-- A character of a key that is written without quotes. -/
def isKeyChar (c : Char) : Bool := c.isAlphanum || c == '_' || c == '-'

/-- A key, and what follows it. -/
def key? (cs : List Char) : Option (List Char × List Char) :=
  match cs with
  | [] => none
  | c :: later =>
    if isQuote c then shortText c later
    else if isKeyChar c then some (cs.takeWhile isKeyChar, cs.dropWhile isKeyChar)
    else none

/-- A key with its value, and what follows the end of the line. -/
def entry? (cs : List Char) : Option ((String × Value) × List Char) := do
  let (key, behindKey) ← key? cs
  match behindKey.dropWhile isGap with
  | '=' :: cs =>
    let (value, behindValue) ← value? (cs.dropWhile isGap)
    let rest ← endLine? false behindValue
    return ((String.ofList key, value), rest)
  | _ => none

/-- The settings in the characters.  Every setting takes a character, so `fuel` may be one more than
their number. -/
def entriesWithin? (fuel : Nat) (cs : List Char) : Option Entries :=
  match fuel with
  | 0 => none
  | fuel + 1 => do
    match ← skipVoid false cs with
    | [] => some []
    | c :: cs =>
      let (entry, rest) ← entry? (c :: cs)
      let later ← entriesWithin? fuel rest
      return entry :: later

/-- The settings in the characters of a file. -/
def entries? (cs : List Char) : Option Entries :=
  let cs := plainBreaks (dropByteOrderMark cs)
  entriesWithin? (cs.length + 1) cs

end SettingsFile

/-- The settings of a file.  Keys count without their case, but a key that is repeated in the same
case is refused. -/
def Entries.ofFile? (text : String) : Option Entries := do
  let entries ← SettingsFile.entries? text.toList
  guard (entries.map (·.1)).Nodup
  return entries.map fun e => Entries.entry e.1 e.2

end FlowLang
