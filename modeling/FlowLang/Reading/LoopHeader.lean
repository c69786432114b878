import FlowLang.Program.Basic
import FlowLang.Reading.Fault
import FlowLang.Text.Blank
import FlowLang.Text.WordChar

/-!
# Heads of loops

The text in the parentheses of a `for` is either `binder in iterable` or a condition.  What decides
is a word `in` outside quotes and nested parentheses; the first one counts.

* `splitAtIn` : the texts before and after that word.
* `isBinder` : a list of names, separated by commas.
* `LoopHeader.ofText` : the head of a loop, or what is wrong with it.
-/

namespace FlowLang

open Text

/-- The texts around the first word `in` outside quotes and parentheses.

The text is read from a place after the character `before`, inside `depth` parentheses, and inside
quotes if `quoted` holds; there a backslash takes the next character with it. -/
def splitAtIn (before : Option Char) (depth : Nat) (quoted : Bool) :
    List Char → Option (List Char × List Char)
  | [] => none
  | c :: cs =>
    let continueWith (depth : Nat) (quoted : Bool) :=
      (splitAtIn (some c) depth quoted cs).map fun r => (c :: r.1, r.2)
    if quoted then
      if c = '\\' then
        match cs with
        | [] => none
        | d :: ds => (splitAtIn (some d) depth true ds).map fun r => (c :: d :: r.1, r.2)
      else continueWith depth (c != '"')
    else if c = '"' then continueWith depth true
    else if c = '(' then continueWith (depth + 1) false
    else if c = ')' then continueWith (depth - 1) false
    else if c = 'i' ∧ depth = 0 ∧ cs.head? = some 'n' ∧ before.any isWordChar = false ∧
        cs.tail.head?.any isWordChar = false then
      some ([], cs.tail)
    else continueWith depth false

/-- The stretches between commas. -/
def splitCommas : List Char → List (List Char)
  | [] => [[]]
  | c :: cs =>
    if c = ',' then [] :: splitCommas cs
    else
      match splitCommas cs with
      | [] => [[c]]
      | part :: parts => (c :: part) :: parts

/-- A name: word characters, the first of them no ASCII digit. -/
def isName (cs : List Char) : Bool :=
  match cs with
  | [] => false
  | c :: _ => !c.isDigit && cs.all isWordChar

/-- One or more names between commas, with any blanks around them. -/
def isBinder (cs : List Char) : Bool := (splitCommas cs).all fun part => isName (trimChars part)

/-- The head of a loop from the text in its parentheses. -/
def LoopHeader.ofText (text : String) : Except SyntaxError.Cause LoopHeader :=
  match splitAtIn none 0 false text.toList with
  | none =>
    let condition := trimChars text.toList
    if condition = [] then .error .emptyLoopCondition
    else .ok (.condition (String.ofList condition))
  | some (before, after) =>
    let binder := trimChars before
    let iterable := trimChars after
    if !isBinder binder then .error (.invalidLoopVariable (String.ofList binder))
    else if iterable = [] then .error .missingIterable
    else .ok (.iteration (String.ofList binder) (String.ofList iterable))

end FlowLang
