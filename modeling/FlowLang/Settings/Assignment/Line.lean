import FlowLang.Text.Blank

/-!
# Lines of a file of assignments

An assignment ends with its line, but a line feed between quotes belongs to the value.  A `#` behind
a blank starts a comment, which goes on to the end of the line; so does a `#` in front of anything
else.  Quotes are looked for in the whole line, before anybody knows where the value begins.

* `LineState` : what is known at a place of a line.
* `LineState.next` : the state behind one more character.
* `assignmentLines` : the lines without their comments, up to one that does not end.
-/

namespace FlowLang

open Text

/-- What is known at a place of a line. -/
inductive LineState where
  /-- There have only been blanks so far. -/
  | start
  | plain
  /-- Behind a blank: here a `#` starts a comment. -/
  | blank
  /-- Behind a backslash outside quotes. -/
  | escaped
  /-- Behind an open quote of this kind. -/
  | quoted (quote : Char)
  /-- Behind a backslash between quotes of this kind. -/
  | quotedEscaped (quote : Char)
  | comment
deriving DecidableEq, Repr

namespace LineState

/-- The state behind a backslash or a quote that stands outside quotes. -/
def opened? (c : Char) : Option LineState :=
  if c = '\\' then some escaped
  else if c = '"' ∨ c = '\'' then some (quoted c)
  else none

/-- The state behind a character that is no line feed outside quotes.  Of blanks in a row every
other one is like any character. -/
def next (state : LineState) (c : Char) : LineState :=
  match state with
  | start => if isBlank c then start else if c = '#' then comment else (opened? c).getD plain
  | plain => (opened? c).getD (if isBlank c && c != '\r' then blank else plain)
  | blank => if c = '#' then comment else (opened? c).getD plain
  | escaped => plain
  | quoted quote => if c = '\\' then quotedEscaped quote else if c = quote then plain else state
  | quotedEscaped quote => quoted quote
  | comment => comment

/-- A line feed ends the line. -/
def endsAtBreak : LineState → Bool
  | quoted _ | quotedEscaped _ => false
  | _ => true

/-- The line may end with the file. -/
def endsAtEnd : LineState → Bool
  | start | plain | comment => true
  | _ => false

end LineState

/-- The lines of which the first is in this state behind the characters `before`, the last of them
first. -/
def linesFrom (state : LineState) (before : List Char) : List Char → List (List Char)
  | [] => if state.endsAtEnd then [before.reverse] else []
  | c :: cs =>
    if c = '\n' ∧ state.endsAtBreak then before.reverse :: linesFrom .start [] cs
    else
      let later := state.next c
      linesFrom later (if later = .comment then before else c :: before) cs

/-- The lines of a file without their comments.  If the last one does not end, it does not count. -/
def assignmentLines (cs : List Char) : List (List Char) := linesFrom .start [] cs

end FlowLang
