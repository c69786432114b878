import FlowLang.Text.Unprintable

/-!
# Quoted text

A quoted text is one line, whatever characters the text holds: it stands between double quotes,
the usual control characters, the quote and the backslash have two-character escapes, and every
other unprintable character is written by its code point.

* `escape` : the written form of one character.
* `quoted` : the written form of a text.
-/

namespace FlowLang

namespace Text

/-- A code point in lower-case hexadecimal, as `\u{..}`. -/
def codePointEscape (c : Char) : List Char :=
  '\\' :: 'u' :: '\x7b' :: Nat.toDigits 16 c.toNat ++ ['\x7d']

/-- How a character is written between quotes. -/
def escape (c : Char) : List Char :=
  if c = '\x00' then ['\\', '0']
  else if c = '\t' then ['\\', 't']
  else if c = '\r' then ['\\', 'r']
  else if c = '\n' then ['\\', 'n']
  else if c = '\\' then ['\\', '\\']
  else if c = '"' then ['\\', '"']
  else if isUnprintable c then codePointEscape c
  else [c]

/-- The characters of a text, escaped, between double quotes. -/
def quotedChars (cs : List Char) : List Char := '"' :: cs.flatMap escape ++ ['"']

/-- The text between double quotes, on one line. -/
def quoted (s : String) : String := String.ofList (quotedChars s.toList)

end Text

end FlowLang
