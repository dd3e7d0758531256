import NotebookExtract.Settings.Tree
import NotebookExtract.Text.Digits
import NotebookExtract.Toml.Reader

/-!
# Numbers of TOML

Digits may be grouped by single underscores between them. An integer has 64
bits with a sign. A number with a fraction or an exponent is the nearest double;
one that is too large is infinite if it is negative and refused otherwise.
-/

namespace NotebookExtract.Toml.Reader

open Settings

/-- Digits of a class, grouped by underscores; the underscores are left out. -/
def groupedRest (p : Char → Bool) : Nat → Reader Text
  | 0 => failure
  | fuel + 1 => do
    let digits ← takeRun p
    if (← peek) = some '_' then
      advance
      match ← peek with
      | some c => if p c then return digits ++ (← groupedRest p fuel) else failure
      | none => failure
    else
      return digits

/-- Digits of a class, at least one. -/
def grouped (p : Char → Bool) : Reader Text := do
  match ← peek with
  | some c => if p c then groupedRest p (← rounds) else failure
  | none => failure

/-- The digits of an integer: zero alone, or digits that start with another. -/
def wholeDigits : Reader Text := do
  match ← peek with
  | some '0' =>
    advance
    return ['0']
  | _ => grouped Char.isDigit

/-- A sign, if one stands here; whether it is negative. -/
def sign? : Reader (Option Bool) := do
  match ← peek with
  | some '+' =>
    advance
    return some false
  | some '-' =>
    advance
    return some true
  | _ => return none

/-- The nearest double to `digits · 10 ^ exponent`. Far beyond the doubles on
either side the power of ten is not computed. -/
def nearest (digits : Nat) (exponent : Int) : Option Binary64 :=
  let lead : Int := (Text.ofNat digits).length + exponent
  if digits = 0 ∨ lead < -400 then some (Binary64.zero false)
  else if 400 < lead then none
  else if 0 ≤ exponent then Binary64.ofFraction? (digits * Nat.pow 10 exponent.toNat) 1
  else Binary64.ofFraction? digits (Nat.pow 10 (-exponent).toNat)

/-- The number with these digits, and a fraction or an exponent. -/
def real (negative : Bool) (whole fraction : Text) (exponent : Int) : Option RealNumber :=
  match nearest (Text.ofDigits 10 (whole ++ fraction)) (exponent - fraction.length) with
  | some x => some (.finite (x.withSign negative))
  | none => if negative then some (.infinite true) else none

/-- An exponent, if its letter stands here. -/
def exponent? : Reader (Option Int) := do
  let letter ← peek
  if letter = some 'e' ∨ letter = some 'E' then
    advance
    let negative := (← sign?).getD false
    let size : Int := Text.ofDigits 10 (← grouped Char.isDigit)
    return some (if negative then -size else size)
  else
    return none

/-- The integer, if 64 bits hold it. -/
def int64? (n : Int) : Option Tree :=
  if -9223372036854775808 ≤ n ∧ n ≤ 9223372036854775807 then some (.int n) else none

/-- A decimal number, or one of the special values. -/
def decimal : Reader Tree := do
  let negative := (← sign?).getD false
  if ← looksAt "inf".toList then
    word "inf".toList
    return .real (.infinite negative)
  else if ← looksAt "nan".toList then
    word "nan".toList
    return .real .notANumber
  else
    let whole ← wholeDigits
    if (← peek) = some '.' then
      advance
      let fraction ← grouped Char.isDigit
      let exponent := (← exponent?).getD 0
      return .real (← real negative whole fraction exponent)
    else
      match ← exponent? with
      | some exponent => return .real (← real negative whole [] exponent)
      | none =>
        let n : Int := Text.ofDigits 10 whole
        int64? (if negative then -n else n)

/-- An integer in another base, after the two characters that announce it. -/
def based (base : Nat) (p : Char → Bool) : Reader Tree := do
  advance
  advance
  int64? (Text.ofDigits base (← grouped p))

/-- A number in any base. -/
def number : Reader Tree := do
  if ← looksAt ['0', 'x'] then
    based 16 Text.isHexDigit
  else if ← looksAt ['0', 'o'] then
    based 8 fun c => '0' ≤ c && c ≤ '7'
  else if ← looksAt ['0', 'b'] then
    based 2 fun c => c == '0' || c == '1'
  else
    decimal

end NotebookExtract.Toml.Reader
