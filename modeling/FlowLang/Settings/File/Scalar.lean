import FlowLang.Settings.File.Text
import FlowLang.Settings.Value

/-!
# Values without quotes and brackets

In a file of settings `true`, `false`, integers and numbers are written without quotes.  An
underscore may stand between two digits.  Integers have 64 bits, and a number that is too large for
a binary floating-point number is refused.

* `integer?`, `number?` : an integer and a number without its underscores.
* `scalar?` : the value that such characters stand for.
-/

namespace FlowLang

namespace SettingsFile

open Text

/-- The characters without the underscores that stand between two digits; nothing if an underscore
stands elsewhere.  `afterDigit` tells whether a digit stands before the characters. -/
def dropUnderscores? (isDigit : Char → Bool) (afterDigit : Bool) :
    List Char → Option (List Char)
  | [] => some []
  | c :: cs =>
    if c = '_' then
      if afterDigit && cs.head?.any isDigit then dropUnderscores? isDigit false cs else none
    else (dropUnderscores? isDigit (isDigit c) cs).map (c :: ·)

/-- A row of decimal digits without a needless zero in front. -/
def isPlainNumber (cs : List Char) : Bool :=
  match cs with
  | [] => false
  | ['0'] => true
  | c :: _ => c != '0' && cs.all Char.isDigit

/-- An integer of 64 bits: decimal with a sign, or in another base behind `0x`, `0o` or `0b`. -/
def integer? (cs : List Char) : Option Int :=
  let inBase (base : Nat) (digits : List Char) : Option Int :=
    if !digits.isEmpty && digits.all (fun c => isHexDigit c && digitValue c < base) then
      some (digitsValue base digits)
    else none
  let i? :=
    match cs with
    | '0' :: 'x' :: digits => inBase 16 digits
    | '0' :: 'o' :: digits => inBase 8 digits
    | '0' :: 'b' :: digits => inBase 2 digits
    | _ => if isPlainNumber (takeSign cs).2 then writtenInteger? cs else none
  i?.filter isWord

/-- A number with digits on both sides of a point, or with an exponent, or a special value.  Only
the special value may be positive infinity. -/
def number? (cs : List Char) : Option Binary :=
  let rest := (takeSign cs).2
  if rest = "inf".toList ∨ rest = "nan".toList then writtenBinary? cs
  else
    let whole := rest.takeWhile Char.isDigit
    let behind := rest.dropWhile Char.isDigit
    let fraction := (behind.drop 1).takeWhile Char.isDigit
    let shaped :=
      match behind with
      | '.' :: _ => !fraction.isEmpty
      | 'e' :: _ | 'E' :: _ => true
      | _ => false
    if isPlainNumber whole && shaped then (writtenBinary? cs).filter (· != .infinite false)
    else none

/-- The value of characters without quotes and brackets. -/
def scalar? (cs : List Char) : Option Value :=
  if cs = "true".toList then some (.bool true)
  else if cs = "false".toList then some (.bool false)
  else do
    let isHex := "0x".toList.isPrefixOf cs
    let digits ← dropUnderscores? (if isHex then isHexDigit else Char.isDigit) false cs
    match integer? digits with
    | some i => return .int i
    | none => return .number (← number? digits)

/-- A character that ends a value without quotes. -/
def endsScalar (c : Char) : Bool := isGap c || c == '\n' || c == ',' || c == ']' || c == '#'

end SettingsFile

end FlowLang
