/-!
# Kinds of tokens

A source text is read as a list of tokens.  Their kinds fall into four groups:

* keywords (`Keyword`), each with one fixed spelling;
* tokens that carry text: names, strings, parenthesized arguments, symbols and comments;
* punctuation: the arrow and the colon;
* layout: ends of lines, changes of indentation and the end of the input.

`Keyword.ofText?` recognizes the spellings; `TokenKind.describe` names a kind to the reader of a
message, `TokenKind.label` names it in a listing of tokens.
-/

namespace FlowLang

/-! ### Keywords -/

/-- A reserved word. -/
inductive Keyword where
  | workflow | activity | signal | query | update
  | spawn | detach | nexus | timer | await | all | one
  | continueAsNew | close | completed | failed
  | switch | case | default | «if» | «else» | «for» | «break» | «continue» | «return» | options
deriving DecidableEq, Repr

namespace Keyword

/-- The spelling of a reserved word. -/
def text : Keyword → String
  | workflow => "workflow"
  | activity => "activity"
  | signal => "signal"
  | query => "query"
  | update => "update"
  | spawn => "spawn"
  | detach => "detach"
  | nexus => "nexus"
  | timer => "timer"
  | await => "await"
  | all => "all"
  | one => "one"
  | continueAsNew => "continue_as_new"
  | close => "close"
  | completed => "completed"
  | failed => "failed"
  | switch => "switch"
  | case => "case"
  | default => "default"
  | «if» => "if"
  | «else» => "else"
  | «for» => "for"
  | «break» => "break"
  | «continue» => "continue"
  | «return» => "return"
  | options => "options"

/-- The reserved words. -/
def list : List Keyword :=
  [workflow, activity, signal, query, update, spawn, detach, nexus, timer, await, all, one,
   continueAsNew, close, completed, failed, switch, case, default, «if», «else», «for», «break»,
   «continue», «return», options]

/-- The reserved word with this spelling, in exactly this case. -/
def ofText? (s : String) : Option Keyword := list.find? fun k => k.text == s

theorem ofText?_text (k : Keyword) : ofText? k.text = some k := by cases k <;> decide

theorem text_injective {k l : Keyword} (h : k.text = l.text) : k = l :=
  Option.some.inj (by rw [← ofText?_text k, h, ofText?_text l])

theorem ofText?_eq_some {s : String} {k : Keyword} (h : ofText? s = some k) : k.text = s := by
  simpa using List.find?_some h

/-- The reserved word in a listing of tokens: its parts run together, each with a capital. -/
def label : Keyword → String
  | workflow => "Workflow"
  | activity => "Activity"
  | signal => "Signal"
  | query => "Query"
  | update => "Update"
  | spawn => "Spawn"
  | detach => "Detach"
  | nexus => "Nexus"
  | timer => "Timer"
  | await => "Await"
  | all => "All"
  | one => "One"
  | continueAsNew => "ContinueAsNew"
  | close => "Close"
  | completed => "Completed"
  | failed => "Failed"
  | switch => "Switch"
  | case => "Case"
  | default => "Default"
  | «if» => "If"
  | «else» => "Else"
  | «for» => "For"
  | «break» => "Break"
  | «continue» => "Continue"
  | «return» => "Return"
  | options => "Options"

end Keyword

/-! ### Token kinds -/

/-- What a token is. -/
inductive TokenKind where
  /-- A reserved word. -/
  | keyword (word : Keyword)
  /-- Any other word. -/
  | ident
  /-- A text between double quotes. -/
  | string
  /-- A balanced text in parentheses, kept whole. -/
  | args
  /-- A run of operator characters. -/
  | symbol
  /-- The rest of a line from a `#` on. -/
  | comment
  | arrow
  | colon
  /-- The end of a line. -/
  | newline
  /-- A step to a deeper indentation. -/
  | indent
  /-- The end of one level of indentation. -/
  | dedent
  /-- The end of the input. -/
  | eof
deriving DecidableEq, Repr

namespace TokenKind

/-- The kind of a word: its keyword, or a name. -/
def ofWord (s : String) : TokenKind :=
  match Keyword.ofText? s with
  | some k => keyword k
  | none => ident

/-- The name of a kind in messages. -/
def describe : TokenKind → String
  | keyword k => k.text
  | ident => "identifier"
  | string => "string"
  | args => "parenthesized arguments"
  | symbol => "symbol"
  | comment => "comment"
  | arrow => "'->'"
  | colon => "':'"
  | newline => "end of line"
  | indent => "indent"
  | dedent => "dedent"
  | eof => "end of input"

/-- The name of a kind in a listing of tokens. -/
def label : TokenKind → String
  | keyword k => k.label
  | ident => "Ident"
  | string => "String"
  | args => "Args"
  | symbol => "Symbol"
  | comment => "Comment"
  | arrow => "Arrow"
  | colon => "Colon"
  | newline => "Newline"
  | indent => "Indent"
  | dedent => "Dedent"
  | eof => "Eof"

/-- Comments and ends of lines: what may stand between two lines of a program. -/
def isTrivia : TokenKind → Bool
  | newline | comment => true
  | _ => false

/-- Tokens that shape lines and blocks and have no text of their own. -/
def isLayout : TokenKind → Bool
  | newline | indent | dedent | eof => true
  | _ => false

end TokenKind

end FlowLang
