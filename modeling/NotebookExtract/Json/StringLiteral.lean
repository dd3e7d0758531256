import NotebookExtract.Json.Reader
import NotebookExtract.Text.Digits
import NotebookExtract.Text.Search

/-!
# Strings

A string stands between double quotes. A backslash starts an escape; a
character outside the basic plane may be written as two escapes, one for each
of its surrogates, and a surrogate alone is refused.
-/

namespace NotebookExtract.Json

/-- The character that a backslash and this letter stand for. -/
def simpleEscape? (c : Char) : Option Char :=
  match c with
  | '"' => some '"'
  | '\\' => some '\\'
  | '/' => some '/'
  | 'b' => some '\x08'
  | 'f' => some '\x0c'
  | 'n' => some '\n'
  | 'r' => some '\r'
  | 't' => some '\t'
  | _ => none

/-- The first half of a character outside the basic plane. -/
def isLeading (n : Nat) : Bool := 0xD800 ≤ n && n ≤ 0xDBFF

/-- The second half of a character outside the basic plane. -/
def isTrailing (n : Nat) : Bool := 0xDC00 ≤ n && n ≤ 0xDFFF

/-- The character that two surrogates stand for. -/
def surrogatePair (leading trailing : Nat) : Char :=
  Char.ofNat (0x10000 + (leading - 0xD800) * 0x400 + (trailing - 0xDC00))

namespace Reader

/-- Four hexadecimal digits. The text counts as cut short when it has fewer than
four bytes left. -/
def hexFour : Reader Nat := fun s =>
  let digits := s.take 4
  if Text.utf8Length digits < 4 then .error .cutShort
  else if digits.length = 4 ∧ digits.all Text.isHexDigit = true then
    .ok (Text.ofDigits 16 digits, s.drop 4)
  else .error .malformed

/-- The digits of an escape by number, and those of a second one after a leading
surrogate. -/
def unicodeEscape : Reader Char := do
  let n ← hexFour
  if isTrailing n then
    malformed
  else if isLeading n then
    word ['\\', 'u']
    let m ← hexFour
    if isTrailing m then
      return surrogatePair n m
    else
      malformed
  else
    return Char.ofNat n

/-- The character of an escape, after its backslash. -/
def escaped : Reader Char := do
  match ← peek with
  | none => cutShort
  | some 'u' =>
    advance
    unicodeEscape
  | some c =>
    match simpleEscape? c with
    | some d =>
      advance
      return d
    | none => malformed

/-- The rest of a string, after its opening quote. The fuel bounds the number of
characters. -/
def stringRest : Nat → Reader Text
  | 0 => malformed
  | fuel + 1 => do
    match ← peek with
    | none => cutShort
    | some '"' =>
      advance
      return []
    | some '\\' =>
      advance
      let c ← escaped
      let rest ← stringRest fuel
      return c :: rest
    | some c =>
      if c.toNat < 0x20 then
        malformed
      else
        advance
        let rest ← stringRest fuel
        return c :: rest

/-- A string that starts here. -/
def string : Reader Text := do
  word ['"']
  stringRest (← rounds)

end Reader

end NotebookExtract.Json
