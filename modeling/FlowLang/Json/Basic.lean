/-!
# JSON documents

* `Json` : values; the members of an object keep their order.
* `Json.compact` : a document without any space between its parts.
* `Json.pretty` : a document with one element or member per line, indented by two spaces a level.

Both write strings in the same way (`Json.stringChars`): only the quote, the backslash and the
control characters below the space are escaped.
-/

namespace FlowLang

/-- A JSON value with natural numbers only. -/
inductive Json where
  | null
  | bool (b : Bool)
  | num (n : Nat)
  | str (s : String)
  | arr (items : List Json)
  | obj (members : List (String × Json))

namespace Json

/-! ### Strings -/

/-- A control character by its code point, as `\u00..`. -/
def controlEscape (c : Char) : List Char :=
  ['\\', 'u', '0', '0', Nat.digitChar (c.toNat / 16), Nat.digitChar (c.toNat % 16)]

/-- How a character is written in a string. -/
def escape (c : Char) : List Char :=
  if c = '"' then ['\\', '"']
  else if c = '\\' then ['\\', '\\']
  else if c = '\x08' then ['\\', 'b']
  else if c = '\x0c' then ['\\', 'f']
  else if c = '\n' then ['\\', 'n']
  else if c = '\r' then ['\\', 'r']
  else if c = '\t' then ['\\', 't']
  else if c.toNat < 32 then controlEscape c
  else [c]

/-- A string in its quotes. -/
def stringChars (s : String) : List Char := '"' :: s.toList.flatMap escape ++ ['"']

/-- The text of a value that has no parts. -/
def boolChars (b : Bool) : List Char := (if b then "true" else "false").toList

/-! ### Without spaces -/

mutual

/-- The characters of a value, without spaces. -/
def compactChars : Json → List Char
  | null => "null".toList
  | bool b => boolChars b
  | num n => (toString n).toList
  | str s => stringChars s
  | arr items => '[' :: compactItems items ++ [']']
  | obj members => '\x7b' :: compactMembers members ++ ['\x7d']

/-- The elements of an array, with commas between them. -/
def compactItems : List Json → List Char
  | [] => []
  | [j] => compactChars j
  | j :: js => compactChars j ++ ',' :: compactItems js

/-- The members of an object, with commas between them. -/
def compactMembers : List (String × Json) → List Char
  | [] => []
  | [(key, j)] => stringChars key ++ ':' :: compactChars j
  | (key, j) :: ms => stringChars key ++ ':' :: compactChars j ++ ',' :: compactMembers ms

end

/-- The document on one line. -/
def compact (j : Json) : String := String.ofList j.compactChars

/-! ### One part per line -/

/-- The break before a part at this depth. -/
def lineBreak (depth : Nat) : List Char := '\n' :: List.replicate (2 * depth) ' '

mutual

/-- The characters of a value whose first line is already indented to this depth. -/
def prettyChars (depth : Nat) : Json → List Char
  | null => "null".toList
  | bool b => boolChars b
  | num n => (toString n).toList
  | str s => stringChars s
  | arr [] => ['[', ']']
  | arr (j :: js) => '[' :: prettyItems (depth + 1) (j :: js) ++ lineBreak depth ++ [']']
  | obj [] => ['\x7b', '\x7d']
  | obj (m :: ms) =>
    '\x7b' :: prettyMembers (depth + 1) (m :: ms) ++ lineBreak depth ++ ['\x7d']

/-- The elements of an array, each on its own line. -/
def prettyItems (depth : Nat) : List Json → List Char
  | [] => []
  | [j] => lineBreak depth ++ prettyChars depth j
  | j :: js => lineBreak depth ++ prettyChars depth j ++ ',' :: prettyItems depth js

/-- The members of an object, each on its own line. -/
def prettyMembers (depth : Nat) : List (String × Json) → List Char
  | [] => []
  | [(key, j)] => lineBreak depth ++ stringChars key ++ ':' :: ' ' :: prettyChars depth j
  | (key, j) :: ms =>
    lineBreak depth ++ stringChars key ++ ':' :: ' ' :: prettyChars depth j ++
      ',' :: prettyMembers depth ms

end

/-- The document over several lines. -/
def pretty (j : Json) : String := String.ofList (j.prettyChars 0)

/-- The document in one of its two layouts. -/
def render (j : Json) (isPretty : Bool) : String := if isPretty then j.pretty else j.compact

/-! ### Building values -/

/-- A member that is left out if there is no value. -/
def optional (key : String) : Option Json → List (String × Json)
  | none => []
  | some j => [(key, j)]

/-- A member with a text that is left out if there is none. -/
def optionalText (key : String) (s : Option String) : List (String × Json) :=
  optional key (s.map str)

end Json

end FlowLang
