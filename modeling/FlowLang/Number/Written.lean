import FlowLang.Number.Binary

/-!
# Numbers as they are written

* `writtenInteger?` : an integer in decimal digits, perhaps with a sign.
* `writtenBinary?` : a number with a fraction or an exponent, or the name of a special value.
-/

namespace FlowLang

/-- The sign before a number, and what follows it. -/
def takeSign : List Char → Bool × List Char
  | '+' :: cs => (false, cs)
  | '-' :: cs => (true, cs)
  | cs => (false, cs)

/-- The value of a digit in any base up to sixteen. -/
def digitValue (c : Char) : Nat :=
  if c.isDigit then c.toNat - '0'.toNat else c.toLower.toNat - 'a'.toNat + 10

/-- The value of a row of digits. -/
def digitsValue (base : Nat) (cs : List Char) : Nat :=
  cs.foldl (fun n c => n * base + digitValue c) 0

/-- A row of one or more decimal digits. -/
def digits? (cs : List Char) : Option Nat :=
  if cs.isEmpty || !cs.all Char.isDigit then none else some (digitsValue 10 cs)

/-- The integer of a sign and a row of digits. -/
def writtenInteger? (cs : List Char) : Option Int :=
  let (negative, rest) := takeSign cs
  (digits? rest).map fun n => if negative then -(n : Int) else n

/-- The integer is one of 64 bits. -/
def isWord (i : Int) : Bool := -(Int.pow 2 63) ≤ i && i < Int.pow 2 63

/-- The number of a row of digits with a point in it, or without one.  One side of the point may
be empty. -/
def mantissa? (cs : List Char) : Option (Nat × Nat) :=
  let whole := cs.takeWhile (· != '.')
  let fraction := (cs.dropWhile (· != '.')).drop 1
  if whole.isEmpty && fraction.isEmpty then none
  else if (whole ++ fraction).all Char.isDigit then
    some (digitsValue 10 (whole ++ fraction), fraction.length)
  else none

/-- The exponent behind an `e`, zero if there is none. -/
def exponent? : List Char → Option Int
  | [] => some 0
  | _ :: cs => writtenInteger? cs

/-- The number of a mantissa and an exponent, or one of the words for special values in any case of
letters. -/
def writtenBinary? (cs : List Char) : Option Binary :=
  let (negative, rest) := takeSign cs
  let word := String.ofList (rest.map Char.toLower)
  if word = "inf" || word = "infinity" then some (.infinite negative)
  else if word = "nan" then some .nan
  else do
    let isMark := fun c : Char => c == 'e' || c == 'E'
    let (digits, places) ← mantissa? (rest.takeWhile (!isMark ·))
    let exponent ← exponent? (rest.dropWhile (!isMark ·))
    return .ofDecimal negative digits (exponent - places)

end FlowLang
