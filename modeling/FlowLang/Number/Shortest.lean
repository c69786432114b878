import FlowLang.Number.Binary

/-!
# Shortest decimal numbers

A binary number is written with the fewest decimal digits that read back as the same number, and
of several such numbers with the nearest one; halfway between two, with the larger one.

The decimal numbers that read back lie between the points halfway to the two neighbours
(`ReadsBack`).  For one digit, two digits and so on the two neighbours of the number on the grid of
decimal numbers with so many digits are tried; the first grid with a hit gives the digits.

* `Shortest.decimal` : the digits and the decimal exponent.
* `Binary.text` : the number in positional notation, without an exponent.
-/

namespace FlowLang

/-- The number `digits * 10 ^ exponent`. -/
structure Decimal where
  digits : Nat
  exponent : Int
deriving DecidableEq, Repr

namespace Shortest

/-- Compares a decimal number with `n * 2 ^ e`. -/
def compareTo (d : Decimal) (n : Nat) (e : Int) : Ordering :=
  compare (d.digits * Nat.pow 10 d.exponent.toNat * Nat.pow 2 (-e).toNat)
    (n * Nat.pow 2 e.toNat * Nat.pow 10 (-d.exponent).toNat)

/-- The decimal number is nearest to `mantissa * 2 ^ exponent`.  Below a power of two the next
number is half as far away as above. -/
def readsBack (mantissa : Nat) (exponent : Int) (d : Decimal) : Bool :=
  let narrow := mantissa == Nat.pow 2 52 && exponent != -1074
  let low := compareTo d (4 * mantissa - if narrow then 1 else 2) (exponent - 2)
  let high := compareTo d (4 * mantissa + 2) (exponent - 2)
  let ends := mantissa % 2 == 0
  (low == .gt || (ends && low == .eq)) && (high == .lt || (ends && high == .eq))

/-- The least `k` with `num / den < 10 ^ k`. -/
def magnitude (num den : Nat) : Int :=
  if den ≤ num then (Nat.toDigits 10 (num / den)).length
  else
    let k := (Nat.toDigits 10 (den / num)).length - 1
    if num * Nat.pow 10 k < den then -k else -k + 1

/-- The neighbours below and above `num / den` among the multiples of `10 ^ exponent`. -/
def neighbours (num den : Nat) (exponent : Int) : Decimal × Decimal :=
  let below := num * Nat.pow 10 (-exponent).toNat / (den * Nat.pow 10 exponent.toNat)
  (⟨below, exponent⟩, ⟨below + 1, exponent⟩)

/-- The neighbour at this exponent that reads back; of two, the nearer one. -/
def hit? (mantissa : Nat) (exponent : Int) (num den : Nat) (e : Int) : Option Decimal :=
  let (below, above) := neighbours num den e
  let isBelow := readsBack mantissa exponent below
  let isAbove := readsBack mantissa exponent above
  if isBelow && isAbove then
    let middle : Decimal := ⟨5 * (below.digits + above.digits), e - 1⟩
    if compareTo middle mantissa exponent == .gt then some below else some above
  else if isBelow then some below
  else if isAbove then some above
  else none

/-- The decimal number with the fewest digits for `mantissa * 2 ^ exponent`, which is not zero. -/
def decimal (mantissa : Nat) (exponent : Int) : Decimal :=
  let num := mantissa * Nat.pow 2 exponent.toNat
  let den := Nat.pow 2 (-exponent).toNat
  let k := magnitude num den
  let exact : Decimal := ⟨num * Nat.pow 5 (-exponent).toNat, min exponent 0⟩
  ((List.range 17).findSome? fun (n : Nat) =>
    hit? mantissa exponent num den (k - (n + 1))).getD exact

end Shortest

namespace Decimal

/-- The number in positional notation. -/
def text (d : Decimal) : String :=
  let digits := Nat.toDigits 10 d.digits
  let zeros (n : Nat) := List.replicate n '0'
  if 0 ≤ d.exponent then String.ofList (digits ++ zeros d.exponent.toNat)
  else
    let places := (-d.exponent).toNat
    let padded := zeros (places + 1 - digits.length) ++ digits
    let whole := padded.take (padded.length - places)
    let fraction := (padded.drop (padded.length - places)).reverse.dropWhile (· == '0')
    if fraction = [] then String.ofList whole
    else String.ofList (whole ++ '.' :: fraction.reverse)

end Decimal

/-- The number in positional notation, with the fewest digits that read back. -/
def Binary.text : Binary → String
  | nan => "NaN"
  | infinite negative => if negative then "-inf" else "inf"
  | finite negative mantissa exponent =>
    let magnitude := if mantissa = 0 then "0" else (Shortest.decimal mantissa exponent).text
    if negative then "-" ++ magnitude else magnitude

end FlowLang
