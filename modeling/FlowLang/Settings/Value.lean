import FlowLang.Number.Shortest
import FlowLang.Number.Written
import FlowLang.Text.Lowercase
import FlowLang.Text.Quoted

/-!
# Values of settings

A value is given in a file or in the environment, before anybody knows which type it should have.

* `Value` : what may be given.
* `Value.toBool?`, `Value.toText?` : a value as a truth value and as a text.
* `Value.ofEnvironment` : the value of a variable, which is written without quotes.
-/

namespace FlowLang

/-- The value of a setting as it was given. -/
inductive Value where
  | bool (b : Bool)
  | int (i : Int)
  | number (x : Binary)
  | text (s : String)
  | list
  /-- Something of which single parts are given, by position or by name. -/
  | parts (isOrdered : Bool)
deriving DecidableEq, Repr

namespace Value

/-- The value with a text in lower case. -/
def lowered : Value → Value
  | text s => text (Text.lower s)
  | v => v

/-- The truth value that a word in lower case stands for. -/
def boolOfWord? (word : String) : Option Bool :=
  if ["1", "true", "on", "yes"].contains word then some true
  else if ["0", "false", "off", "no"].contains word then some false
  else none

/-- A truth value: numbers are true unless they are zero, and some words stand for yes and no in
any case of letters. -/
def toBool? : Value → Option Bool
  | bool b => some b
  | int i => some (i != 0)
  | number x => some (!x.isZero)
  | text s => boolOfWord? (Text.lower s)
  | list | parts _ => none

/-- A truth value in words. -/
def boolText (b : Bool) : String := if b then "true" else "false"

/-- A text: numbers are written in their shortest form. -/
def toText? : Value → Option String
  | bool b => some (boolText b)
  | int i => some (toString i)
  | number x => some x.text
  | text s => some s
  | list | parts _ => none

/-- The value in a message about its type. -/
def describe : Value → String
  | bool b => "boolean `" ++ boolText b ++ "`"
  | int i => "64-bit integer `" ++ toString i ++ "`"
  | number x => "floating point `" ++ x.text ++ "`"
  | text s => "string " ++ Text.quoted s
  | list | parts true => "sequence"
  | parts false => "map"

/-- The value of a variable: a truth value, an integer of 64 bits, another number, or else a
text. -/
def ofEnvironment (s : String) : Value :=
  let word := Text.lower s
  if word = "true" then bool true
  else if word = "false" then bool false
  else
    match (writtenInteger? s.toList).filter isWord with
    | some i => int i
    | none =>
      match writtenBinary? s.toList with
      | some x => number x
      | none => text s

end Value

/-- Settings by name; of several with the same name the last one counts. -/
abbrev Entries := List (String × Value)

/-- The value that counts for a name. -/
def Entries.get? (entries : Entries) (name : String) : Option Value :=
  (entries.reverse.find? fun e => e.1 == name).map (·.2)

end FlowLang
