import NotebookExtract.Association
import NotebookExtract.Json.Numeral
import NotebookExtract.Json.StringLiteral

/-!
# Free values

A value of any shape. Arrays and objects may nest only so deep; the allowance
counts the levels that may still be opened. Of a key that an object repeats the
last value stays.
-/

namespace NotebookExtract.Json

/-- A JSON value. -/
inductive Value where
  | null
  | bool (b : Bool)
  | number (n : Number)
  | text (t : Text)
  | array (items : List Value)
  | object (entries : List (Text × Value))
deriving Repr

/-- The entries of an object, each key once. -/
abbrev Object := List (Text × Value)

/-- How deep arrays and objects may nest in a document. -/
def nestingLimit : Nat := 127

namespace Reader

/-- A value that starts here, with readers for what stands in brackets. -/
def valueWith (array object : Reader Value) : Reader Value := do
  match ← peekToken with
  | none => cutShort
  | some 'n' =>
    word "null".toList
    return .null
  | some 't' =>
    word "true".toList
    return .bool true
  | some 'f' =>
    word "false".toList
    return .bool false
  | some '"' => return .text (← string)
  | some '[' => array
  | some '{' => object
  | some c => if c = '-' ∨ c.isDigit = true then return .number (← number) else malformed

/-- The items of an array that starts here. -/
def arrayOf {α : Type} (item : Reader α) : Reader (List α) := do
  advance
  items item (← rounds) true

/-- The entries of an object that starts here. -/
def objectOf (value : Reader Value) : Reader Object := do
  advance
  return Association.ofList (← entries string value (← rounds) true)

/-- A value that may nest as deep as the allowance. -/
def value : Nat → Reader Value
  | 0 => valueWith malformed malformed
  | n + 1 => valueWith (.array <$> arrayOf (value n)) (.object <$> objectOf (value n))

/-! ## Values of one shape -/

/-- What stands here, read as far as a message about it needs: strings and
numbers whole, of an array or object nothing but its start. -/
def found : Reader Found := do
  match ← peekToken with
  | none => cutShort
  | some 'n' =>
    word "null".toList
    return .null
  | some 't' =>
    word "true".toList
    return .bool true
  | some 'f' =>
    word "false".toList
    return .bool false
  | some '"' => return .text (← string)
  | some '[' => return .sequence
  | some '{' => return .map
  | some c => if c = '-' ∨ c.isDigit = true then return .number (← number) else malformed

/-- Stops because what stands here is not what is wanted. -/
def unexpected {α : Type} (wanted : Wanted) : Reader α := do
  misfit (.wrongType (← found) wanted)

/-- A string. -/
def text : Reader Text := do
  match ← peekToken with
  | some '"' => string
  | _ => unexpected .text

/-- An unsigned integer of so many bits. -/
def unsigned (bits : Nat) : Reader Nat := do
  let wanted := Wanted.unsigned bits
  match ← found with
  | .number (.int n) =>
    if 0 ≤ n ∧ n.toNat < Nat.pow 2 bits then return n.toNat else misfit (.outOfRange n wanted)
  | other => misfit (.wrongType other wanted)

/-- The value `null`. -/
def unit : Reader Unit := do
  match ← peekToken with
  | some 'n' => word "null".toList
  | _ => unexpected .unit

/-- `null` for nothing, or a value. -/
def optional {α : Type} (value : Reader α) : Reader (Option α) := do
  match ← peekToken with
  | some 'n' =>
    word "null".toList
    return none
  | _ => return some (← value)

/-- An array whose items are all read alike. -/
def sequence {α : Type} (allowance : Nat) (item : Nat → Reader α) : Reader (List α) := do
  match ← peekToken with
  | some '[' => deeper allowance fun n => arrayOf (item n)
  | _ => unexpected .sequence

/-- An object with free values. -/
def map (allowance : Nat) : Reader Object := do
  match ← peekToken with
  | some '{' => deeper allowance fun n => objectOf (value n)
  | _ => unexpected .map

/-- Reads a whole text: a value with nothing but blanks around it. -/
def whole {α : Type} (value : Reader α) (s : Text) : Except Fault α := do
  let (x, rest) ← value s
  if rest.all isSpace then return x else throw .malformed

end Reader

end NotebookExtract.Json
