import NotebookExtract.Decimal.Binary64
import NotebookExtract.Text.Digits

/-!
# The shortest decimal that reads back

Of all decimals that round to a given double, the one with the fewest digits is
written; among those the nearest, and from a tie the one with the even last
digit. Seventeen digits always suffice.
-/

namespace NotebookExtract.Decimal

/-- A decimal `digits · 10 ^ exponent`. -/
structure Digits where
  digits : Nat
  exponent : Int
deriving DecidableEq, Repr

/-- How many decimal digits a number has; zero has none. -/
def digitCount (n : Nat) : Nat :=
  if n = 0 then 0 else (Text.ofNat n).length

/-- The exponent `e` with `10 ^ e ≤ num / den < 10 ^ (e + 1)`, for positive numbers. -/
def leadingTen (num den : Nat) : Int :=
  if den ≤ num then
    (digitCount (num / den) : Int) - 1
  else
    -(digitCount ((den + num - 1) / num - 1) : Int)

/-- The reals that round to a double, between `low / den` and `high / den`, and
the double itself, `value / den`. The ends belong to it when `closed`. -/
structure Interval where
  low : Nat
  value : Nat
  high : Nat
  den : Nat
  closed : Bool

/-- The rounding interval of a positive double, in quarters of its last place.
Below a power of two the neighbour is half as far away. A tie goes to the even
mantissa, so only an even one owns the ends of its interval. -/
def interval (x : Binary64) : Interval :=
  let below :=
    if x.mantissa = Binary64.fullMantissa ∧ Binary64.minExponent < x.exponent then 1 else 2
  let (unit, den) := Binary64.scaleFraction 1 4 x.exponent
  { low := (4 * x.mantissa - below) * unit
    value := 4 * x.mantissa * unit
    high := (4 * x.mantissa + 2) * unit
    den := den
    closed := x.mantissa % 2 == 0 }

/-- Whether `n / d` lies in the interval. -/
def Interval.holds (i : Interval) (n d : Nat) : Bool :=
  if i.closed then
    i.low * d ≤ n * i.den && n * i.den ≤ i.high * d
  else
    i.low * d < n * i.den && n * i.den < i.high * d

/-- The best decimal on the grid of multiples of `10 ^ exponent`, if one of the
value's two neighbours there reads back. -/
def onGrid? (i : Interval) (exponent : Int) : Option Digits :=
  -- one step of the grid is `up / down`
  let up := if 0 ≤ exponent then Nat.pow 10 exponent.toNat else 1
  let down := if 0 ≤ exponent then 1 else Nat.pow 10 (-exponent).toNat
  let floor := (i.value * down) / (i.den * up)
  let twice := 2 * ((i.value * down) % (i.den * up))
  let nearest :=
    if twice < i.den * up then floor
    else if i.den * up < twice then floor + 1
    else if floor % 2 = 0 then floor else floor + 1
  let other := if nearest = floor then floor + 1 else floor
  if i.holds (nearest * up) down then some ⟨nearest, exponent⟩
  else if i.holds (other * up) down then some ⟨other, exponent⟩
  else none

/-- The first grid, from coarse to fine, on which a decimal reads back. -/
def firstGrid (i : Interval) (lead : Int) : Nat → Nat → Digits
  | 0, n => ⟨i.value / i.den, lead - n⟩
  | fuel + 1, n =>
    match onGrid? i (lead - n) with
    | some d => d
    | none => firstGrid i lead fuel (n + 1)

/-- The shortest decimal of a positive double. The first grid is one power of
ten above the value, because the value may round up to that power. -/
def shortest (x : Binary64) : Digits :=
  let i := interval x
  firstGrid i (leadingTen i.value i.den + 1) 18 0

end NotebookExtract.Decimal
