/-!
# Binary floating point, exactly

A finite double is a sign, a mantissa below 2^53 and a power of two not below
2^-1074. Every operation here computes the exact rational result in `Nat` and
rounds it once, to the nearest double and from a tie to the even mantissa, so
nothing rests on the machine's own arithmetic.
-/

namespace NotebookExtract

/-- A finite double, `± mantissa · 2 ^ exponent`. The mantissa has 53 bits
unless the exponent is the smallest one; zero has the smallest exponent. -/
structure Binary64 where
  negative : Bool
  mantissa : Nat
  exponent : Int
deriving DecidableEq, Repr

namespace Binary64

/-- The mantissas lie below this bound, 2^53. -/
def mantissaBound : Nat := 9007199254740992

/-- The smallest mantissa of 53 bits, 2^52. -/
def fullMantissa : Nat := 4503599627370496

/-- The smallest exponent. -/
def minExponent : Int := -1074

/-- The largest exponent. -/
def maxExponent : Int := 971

/-- Zero, with a sign. -/
def zero (negative : Bool) : Binary64 := ⟨negative, 0, minExponent⟩

/-- Whether the number is zero, of either sign. -/
def isZero (x : Binary64) : Bool := x.mantissa == 0

/-- The number with the given sign. -/
def withSign (x : Binary64) (negative : Bool) : Binary64 :=
  { x with negative := negative }

/-- A fraction multiplied by a power of two, as a fraction again. -/
def scaleFraction (num den : Nat) (power : Int) : Nat × Nat :=
  if 0 ≤ power then (num * Nat.pow 2 power.toNat, den)
  else (num, den * Nat.pow 2 (-power).toNat)

/-- A fraction rounded to a natural number, from a tie to the even one. -/
def roundHalfEven (num den : Nat) : Nat :=
  let floor := num / den
  let twice := 2 * (num % den)
  if twice < den then floor
  else if den < twice then floor + 1
  else if floor % 2 = 0 then floor else floor + 1

/-- The exponent `e` with `2 ^ e ≤ num / den < 2 ^ (e + 1)`, for positive numbers. -/
def leadingExponent (num den : Nat) : Int :=
  let guess : Int := (Nat.log2 num : Int) - (Nat.log2 den : Int)
  let (n, d) := scaleFraction num den (-guess)
  if d ≤ n then guess else guess - 1

/-- The positive double nearest to `num / den`; none when that is too large. -/
def ofFraction? (num den : Nat) : Option Binary64 :=
  if num = 0 then
    some (zero false)
  else
    let full := leadingExponent num den - 52
    let exponent := if full < minExponent then minExponent else full
    let (n, d) := scaleFraction num den (-exponent)
    let mantissa := roundHalfEven n d
    -- rounding up may carry into a 54th bit
    let (mantissa, exponent) :=
      if mantissa = mantissaBound then (fullMantissa, exponent + 1) else (mantissa, exponent)
    if maxExponent < exponent then none else some ⟨false, mantissa, exponent⟩

/-- The magnitude of a double as an exact fraction. -/
def toFraction (x : Binary64) : Nat × Nat :=
  scaleFraction x.mantissa 1 x.exponent

/-- The product of the magnitudes; none when it is too large. -/
def mul? (x y : Binary64) : Option Binary64 :=
  let (n, d) := x.toFraction
  let (n', d') := y.toFraction
  ofFraction? (n * n') (d * d')

/-- The quotient of the magnitudes, for a divisor that is not zero; none when it
is too large. -/
def div? (x y : Binary64) : Option Binary64 :=
  let (n, d) := x.toFraction
  let (n', d') := y.toFraction
  ofFraction? (n * d') (d * n')

/-- The largest power of ten that is a double. -/
def maxTenPower : Nat := 308

/-- The double nearest to a power of ten. -/
def tenPower? (k : Nat) : Option Binary64 := ofFraction? (Nat.pow 10 k) 1

end Binary64

end NotebookExtract
