import NotebookExtract.Decimal.Shortest
import NotebookExtract.Json.Fault
import NotebookExtract.Text.Quoted

/-!
# How misfits are worded

Of the faults of a document only the misfits have words: what was found, what
was expected, and which field is concerned.
-/

namespace NotebookExtract.Json

/-- An integer in decimal, with its sign also when it is positive. -/
def signed (n : Int) : Text :=
  if 0 ≤ n then '+' :: Text.ofInt n else Text.ofInt n

/-- The digits of a decimal whose point stands after `point` of them. When it
stands at most sixteen digits in, and at most four places before them, the number
is written out, always with a fraction; else it has an exponent with a sign. -/
def positional (digits : Text) (point : Int) : Text :=
  let count := digits.length
  if (count : Int) ≤ point ∧ point ≤ 16 then
    digits ++ List.replicate (point.toNat - count) '0' ++ ".0".toList
  else if 0 < point ∧ point ≤ 16 then
    digits.take point.toNat ++ '.' :: digits.drop point.toNat
  else if -5 < point ∧ point ≤ 0 then
    "0.".toList ++ List.replicate (-point).toNat '0' ++ digits
  else
    let fraction := digits.drop 1
    digits.take 1 ++ (if fraction.isEmpty then [] else '.' :: fraction) ++
      'e' :: signed (point - 1)

/-- A double with the fewest digits that read back. -/
def realText (x : Binary64) : Text :=
  let sign : Text := if x.negative then ['-'] else []
  if x.isZero then
    sign ++ "0.0".toList
  else
    let d := Decimal.shortest x
    let digits := Text.ofNat d.digits
    sign ++ positional digits (digits.length + d.exponent)

/-- A word between backquotes. -/
def ticked (word : Text) : Text := '\x60' :: word ++ ['\x60']

/-- What was found, in words. -/
def Found.describe : Found → Text
  | .null => "null".toList
  | .bool b => "boolean ".toList ++ ticked (if b then "true".toList else "false".toList)
  | .number (.int n) => "integer ".toList ++ ticked (Text.ofInt n)
  | .number (.real x) => "floating point ".toList ++ ticked (realText x)
  | .text t => "string ".toList ++ Text.quoted t
  | .sequence => "sequence".toList
  | .map => "map".toList

/-- What was expected, in words. -/
def Wanted.describe : Wanted → Text
  | .record name => "struct ".toList ++ name
  | .sequence => "a sequence".toList
  | .map => "a map".toList
  | .text => "a string".toList
  | .unsigned bits => 'u' :: Text.ofNat bits
  | .unit => "unit".toList

/-- A misfit, in words. -/
def Misfit.describe : Misfit → Text
  | .wrongType found wanted =>
    "invalid type: ".toList ++ found.describe ++ ", expected ".toList ++ wanted.describe
  | .outOfRange n wanted =>
    "invalid value: integer ".toList ++ ticked (Text.ofInt n) ++ ", expected ".toList ++
      wanted.describe
  | .repeatedField name => "duplicate field ".toList ++ ticked name
  | .missingField name => "missing field ".toList ++ ticked name
  | .tooShort record fields =>
    "invalid length 0, expected struct ".toList ++ record ++ " with ".toList ++
      Text.ofNat fields ++ " elements".toList
  | .noAlternative name =>
    "data did not match any variant of untagged enum ".toList ++ name

end NotebookExtract.Json
