/-!
# Binary floating-point numbers

Numbers with a fraction are kept in binary, with 53 bits, as integers times powers of two.

* `Binary` : the finite numbers, the infinities and the value that is no number.
* `Binary.ofDecimal` : the number nearest to a decimal one; of two at the same distance the one with
  the even mantissa.

All arithmetic is exact, on natural numbers.
-/

namespace FlowLang

/-- A binary floating-point number. -/
inductive Binary where
  | nan
  | infinite (negative : Bool)
  /-- The number `mantissa * 2 ^ exponent` with a sign.  The mantissa is below `2 ^ 53`, and the
  exponent between -1074 and 971. -/
  | finite (negative : Bool) (mantissa : Nat) (exponent : Int)
deriving DecidableEq, Repr

namespace Binary

/-- The quotient rounded to an integer, a half to the even neighbour. -/
def roundDiv (num den : Nat) : Nat :=
  let q := num / den
  let r := num % den
  if 2 * r < den then q
  else if 2 * r = den ∧ q % 2 = 0 then q
  else q + 1

/-- The mantissa at this exponent that is nearest to `num / den`. -/
def mantissaAt (num den : Nat) (exponent : Int) : Nat :=
  roundDiv (num * Nat.pow 2 (-exponent).toNat) (den * Nat.pow 2 exponent.toNat)

/-- The least exponent at which `num / den` needs no more than 53 bits. -/
def exponentFor (num den : Nat) : Int :=
  let low := max ((num.log2 : Int) - den.log2 - 53) (-1074)
  if num * Nat.pow 2 (-low).toNat / (den * Nat.pow 2 low.toNat) < Nat.pow 2 53 then low
  else low + 1

/-- The number nearest to `num / den`. -/
def nearest (negative : Bool) (num den : Nat) : Binary :=
  let exponent := exponentFor num den
  let mantissa := mantissaAt num den exponent
  let (mantissa, exponent) :=
    if mantissa = Nat.pow 2 53 then (Nat.pow 2 52, exponent + 1) else (mantissa, exponent)
  if 971 < exponent then infinite negative else finite negative mantissa exponent

/-- The number nearest to `digits * 10 ^ exponent`.  Values that are far too large or too small are
recognized by their number of digits. -/
def ofDecimal (negative : Bool) (digits : Nat) (exponent : Int) : Binary :=
  let size : Int := (Nat.toDigits 10 digits).length + exponent
  if digits = 0 ∨ size < -330 then finite negative 0 (-1074)
  else if 310 < size then infinite negative
  else nearest negative (digits * Nat.pow 10 exponent.toNat) (Nat.pow 10 (-exponent).toNat)

/-- The number is zero, with either sign. -/
def isZero : Binary → Bool
  | finite _ 0 _ => true
  | _ => false

end Binary

end FlowLang
