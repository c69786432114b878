import FlowLang.Settings.Value

/-!
# Settings

* `Settings` : what can be chosen about a run.
* `Settings.default` : the choice without any file, variable or flag.
* `Settings.text` : the settings as a file of settings.
* `settingText` : a text between the quotes that need no escapes, if there are any.
-/

namespace FlowLang

/-- The choices for a run. -/
structure Settings where
  /-- Reading stops at the first fault. -/
  failFast : Bool
  /-- The rules are applied. -/
  lints : Bool
  /-- The level of the log. -/
  logLevel : String
  /-- JSON is written over several lines. -/
  pretty : Bool
deriving DecidableEq, Repr

/-- The choices that are made for the user. -/
def Settings.default : Settings := ⟨false, true, "warn", true⟩

/-! ### Quotes -/

/-- The length of the longest row of a character, given the length of a row before the text. -/
def longestRow (c : Char) (before : Nat) : List Char → Nat
  | [] => before
  | d :: cs => if d = c then longestRow c (before + 1) cs else max before (longestRow c 0 cs)

/-- A character that has to be escaped between any quotes: a control character that is neither a
tab nor a line feed. -/
def needsEscape (c : Char) : Bool := (c.toNat < 32 && c != '\t' && c != '\n') || c.toNat == 127

/-- How a character other than the quote is written between double quotes.  In a text over several
lines a line feed stands for itself. -/
def escapeBetween (severalLines : Bool) (c : Char) : List Char :=
  if c = '\x08' then ['\\', 'b']
  else if c = '\t' then ['\\', 't']
  else if c = '\n' then if severalLines then ['\n'] else ['\\', 'n']
  else if c = '\x0c' then ['\\', 'f']
  else if c = '\r' then ['\\', 'r']
  else if c = '\\' then ['\\', '\\']
  else if needsEscape c then
    ['\\', 'u', '0', '0', (Nat.digitChar (c.toNat / 16)).toUpper,
      (Nat.digitChar (c.toNat % 16)).toUpper]
  else [c]

/-- A text between double quotes, of which `allowed` in a row may stand for themselves, given the
length of a row before the text. -/
def escapeText (severalLines : Bool) (allowed before : Nat) : List Char → List Char
  | [] => []
  | c :: cs =>
    if c = '"' then
      if before < allowed then c :: escapeText severalLines allowed (before + 1) cs
      else '\\' :: c :: escapeText severalLines allowed 0 cs
    else escapeBetween severalLines c ++ escapeText severalLines allowed 0 cs

/-- A text between three quotes on each side, as it is written there; a text of several lines
starts on a line of its own. -/
def tripled (quote : Char) (text written : List Char) : List Char :=
  let quotes := [quote, quote, quote]
  quotes ++ (if text.contains '\n' then ['\n'] else []) ++ written ++ quotes

/-- A text between quotes.  Of the quotes between which the text can stand without escapes, the
first of these are taken: double, single, three double, three single.  If there are none, escapes
are written between double quotes, three of them for a text of several lines. -/
def settingText (cs : List Char) : List Char :=
  let doubles := longestRow '"' 0 cs
  let singles := longestRow '\'' 0 cs
  let escapes := cs.any needsEscape
  let backslash := cs.contains '\\'
  let newline := cs.contains '\n'
  let single (allowed : Nat) := '"' :: escapeText false allowed 0 cs ++ ['"']
  if !escapes && !backslash && doubles = 0 && !newline then single 0
  else if !escapes && singles = 0 && !newline then '\'' :: cs ++ ['\'']
  else if !escapes && !backslash && doubles ≤ 2 then tripled '"' cs (escapeText true 2 0 cs)
  else if !escapes && singles ≤ 2 then tripled '\'' cs cs
  else if newline then tripled '"' cs (escapeText true 2 0 cs)
  else single 0

/-- The settings as a file of settings. -/
def Settings.text (s : Settings) : String :=
  "fail_fast = " ++ Value.boolText s.failFast ++ "\n" ++
    "lints = " ++ Value.boolText s.lints ++ "\n" ++
    "log_level = " ++ String.ofList (settingText s.logLevel.toList) ++ "\n" ++
    "pretty = " ++ Value.boolText s.pretty ++ "\n"

end FlowLang
