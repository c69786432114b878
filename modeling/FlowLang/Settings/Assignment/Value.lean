import FlowLang.Text.Blank
import FlowLang.Text.WordChar

/-!
# Values of assignments

A value is written with or without quotes, and the parts of it that are quoted stand side by side
with the others.  Outside single quotes a backslash protects a character, and a `$` stands for the
value of a variable, with its name in letters and digits or between braces.  A gap outside quotes
ends the value; only a comment may follow.

* `ValueState` : what is known at a place of a value.
* `ValueState.step` : the state behind one more character, and what this adds to the value.
* `readValue?` : the value that is written so, given the values of variables.
-/

namespace FlowLang

open Text

/-- What is known at a place of a value; `inQuotes` tells whether double quotes are open. -/
inductive ValueState where
  | plain (inQuotes : Bool)
  /-- Between single quotes. -/
  | literal
  /-- Behind a backslash. -/
  | escaped (inQuotes : Bool)
  /-- In the name of a variable. -/
  | named (inQuotes : Bool) (name : List Char)
  /-- In the name of a variable between braces. -/
  | braced (inQuotes : Bool) (name : List Char)
  /-- Behind the value. -/
  | ended
  | comment
deriving DecidableEq, Repr

namespace ValueState

/-- The character that a backslash and this one stand for. -/
def unescape? (c : Char) : Option Char :=
  if c = 'n' then some '\n'
  else if c = '\\' ∨ c = '\'' ∨ c = '"' ∨ c = '$' ∨ c = ' ' then some c
  else none

/-- A character that is neither between single quotes nor protected nor in a name. -/
def stepPlain (inQuotes : Bool) (c : Char) : ValueState × List Char :=
  if c = '$' then (named inQuotes [], [])
  else if c = '\\' then (escaped inQuotes, [])
  else if c = '"' then (plain !inQuotes, [])
  else if inQuotes then (plain true, [c])
  else if c = '\'' then (literal, [])
  else if isGap c then (ended, [])
  else (plain false, [c])

/-- The state behind one more character and what this adds to the value, given the values of
variables; nothing if the character may not stand there.  The character that ends a name without
braces stands for itself, whatever it is, unless another name starts with it. -/
def step (valueOf : List Char → List Char) (c : Char) :
    ValueState → Option (ValueState × List Char)
  | plain inQuotes => some (stepPlain inQuotes c)
  | literal => some (if c = '\'' then (plain false, []) else (literal, [c]))
  | escaped inQuotes => (unescape? c).map fun d => (plain inQuotes, [d])
  | named inQuotes name =>
    some <|
      if isAlphanumeric c then (named inQuotes (name ++ [c]), [])
      else if c = '\x7b' ∧ name = [] then (braced inQuotes [], [])
      else if c = '$' then (named inQuotes [], valueOf name)
      else (plain inQuotes, valueOf name ++ [c])
  | braced inQuotes name =>
    some <|
      if c = '\x7d' then (plain inQuotes, valueOf name) else (braced inQuotes (name ++ [c]), [])
  | ended => if isGap c then some (ended, []) else if c = '#' then some (comment, []) else none
  | comment => some (comment, [])

/-- What the end adds to the value; nothing if the value may not end there. -/
def finish? (valueOf : List Char → List Char) : ValueState → Option (List Char)
  | plain false | escaped false | ended | comment => some []
  | named false name => some (valueOf name)
  | _ => none

/-- The rest of the value that the characters stand for. -/
def run (valueOf : List Char → List Char) (state : ValueState) : List Char → Option (List Char)
  | [] => state.finish? valueOf
  | c :: cs => do
    let (next, added) ← state.step valueOf c
    let later ← next.run valueOf cs
    return added ++ later

end ValueState

/-- The value that the characters behind an equals sign stand for, given the values of variables. -/
def readValue? (valueOf : List Char → List Char) (cs : List Char) : Option (List Char) :=
  if cs.head? = some '#' then some [] else (ValueState.plain false).run valueOf cs

end FlowLang
