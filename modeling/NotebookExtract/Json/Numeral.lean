import NotebookExtract.Json.Reader
import NotebookExtract.Text.Digits

/-!
# Numbers

A number is written as digits with an optional fraction and exponent. Without
either it is an integer if 64 bits hold it, signed or unsigned, and else a
double; the integer zero has no sign, so `-0` is a double too. A double is
computed from at most the leading digits that 64 bits hold, multiplied or
divided by a power of ten. The result is not always the nearest double, and one
that is too large is refused.
-/

namespace NotebookExtract.Json

/-- A number as it is written: sign, digits, digits of the fraction, exponent. -/
structure Numeral where
  negative : Bool
  whole : Text
  fraction : Option Text
  exponent : Option Int
deriving DecidableEq, Repr

namespace Reader

/-- Digits, at least one. -/
def someDigits (atEnd : Fault) : Reader Text := do
  match ← takeRun Char.isDigit with
  | [] =>
    match ← peek with
    | none => throw atEnd
    | some _ => malformed
  | digits => return digits

/-- Digits without a leading zero, unless zero is all there is. -/
def wholePart (atEnd : Fault) : Reader Text := do
  match ← someDigits atEnd with
  | '0' :: _ :: _ => malformed
  | digits => return digits

/-- A fraction, if a point stands here. -/
def fractionPart (atEnd : Fault) : Reader (Option Text) := do
  match ← peek with
  | some '.' =>
    advance
    return some (← someDigits atEnd)
  | _ => return none

/-- An exponent, if its letter stands here. -/
def exponentPart (atEnd : Fault) : Reader (Option Int) := do
  let letter ← peek
  if letter = some 'e' ∨ letter = some 'E' then
    advance
    let sign ← peek
    if sign = some '+' ∨ sign = some '-' then
      advance
    let digits ← someDigits atEnd
    let size : Int := Text.ofDigits 10 digits
    return some (if sign = some '-' then -size else size)
  else
    return none

/-- A number as it is written. `atEnd` is the fault of a text that ends where a
digit has to stand. -/
def numeral (atEnd : Fault) : Reader Numeral := do
  let negative := (← peek) == some '-'
  if negative then
    advance
  let whole ← wholePart atEnd
  let fraction ← fractionPart atEnd
  let exponent ← exponentPart atEnd
  return ⟨negative, whole, fraction, exponent⟩

end Reader

namespace Numeral

/-- The largest significand, 2^64 - 1. -/
def maxSignificand : Nat := 18446744073709551615

/-- The largest size of a negative integer, 2^63. -/
def maxNegative : Nat := 9223372036854775808

/-- Appends digits to a significand up to the first that no longer fits, and
returns the digits that are left. -/
def absorb (n : Nat) : Text → Nat × Text
  | [] => (n, [])
  | c :: rest =>
    let next := 10 * n + Text.digitValue c
    if maxSignificand < next then (n, c :: rest) else absorb next rest

/-- Divides by a power of ten in steps that a double can hold. -/
def divideTen (x : Binary64) (k : Nat) : Option Binary64 :=
  if k ≤ Binary64.maxTenPower then do
    x.div? (← Binary64.tenPower? k)
  else if x.isZero then
    some x
  else do
    divideTenStep (← x.div? (← Binary64.tenPower? Binary64.maxTenPower))
      (k - Binary64.maxTenPower)
where
  /-- What is left after one step is far below one, so a second step of the full
  size leaves nothing. -/
  divideTenStep (x : Binary64) (k : Nat) : Option Binary64 :=
    if k ≤ Binary64.maxTenPower then do
      x.div? (← Binary64.tenPower? k)
    else
      some (Binary64.zero false)

/-- A significand multiplied by a power of ten; none when it is too large. -/
def scaleTen (significand : Nat) (exponent : Int) : Option Binary64 := do
  let x ← Binary64.ofFraction? significand 1
  if exponent < 0 then
    divideTen x exponent.natAbs
  else if exponent.natAbs ≤ Binary64.maxTenPower then
    x.mul? (← Binary64.tenPower? exponent.natAbs)
  else if x.isZero then
    some x
  else
    none

/-- The double that a numeral stands for; none when it is too large. -/
def toBinary64? (numeral : Numeral) : Option Binary64 := do
  let (whole, dropped) := absorb 0 numeral.whole
  let fraction := numeral.fraction.getD []
  let (significand, ignored) := absorb whole fraction
  let kept := fraction.length - ignored.length
  let exponent := (dropped.length : Int) - kept + numeral.exponent.getD 0
  let x ← scaleTen significand exponent
  return x.withSign numeral.negative

/-- The integer that a numeral stands for, if it is written as one and 64 bits
hold it. -/
def toInt? (numeral : Numeral) : Option Int :=
  let n := Text.ofDigits 10 numeral.whole
  if numeral.fraction.isSome || numeral.exponent.isSome then none
  else if numeral.negative then
    if 0 < n ∧ n ≤ maxNegative then some (-(n : Int)) else none
  else if n ≤ maxSignificand then some n
  else none

/-- The number that a numeral stands for; none when it is too large. -/
def toNumber? (numeral : Numeral) : Option Number :=
  match numeral.toInt? with
  | some n => some (.int n)
  | none => numeral.toBinary64?.map .real

end Numeral

namespace Reader

/-- A number. -/
def number : Reader Number := do
  match (← numeral .cutShort).toNumber? with
  | some n => return n
  | none => malformed

end Reader

end NotebookExtract.Json
