import NotebookExtract.Text.Digits
import NotebookExtract.Toml.Reader

/-!
# Strings of TOML

There are four kinds: between double quotes with escapes, between single quotes
without, and both over several lines between triple quotes. A line feed right
after an opening triple quote is dropped, line ends become line feeds, and up to
two quotes may stand before a closing triple quote.
-/

namespace NotebookExtract.Toml.Reader

/-- A character that may stand in a string as it is: no control but the tab. -/
def isPlain (c : Char) : Bool := isCommentChar c

/-- The character with a code point, if it is one. -/
def charOf? (n : Nat) : Option Char :=
  if n.isValidChar then some (Char.ofNat n) else none

/-- The character of an escape, after its backslash. -/
def escaped : Reader Char := do
  let c ← peek
  advance
  match c with
  | some 'b' => return '\x08'
  | some 't' => return '\t'
  | some 'n' => return '\n'
  | some 'f' => return '\x0c'
  | some 'r' => return '\r'
  | some '"' => return '"'
  | some '\\' => return '\\'
  | some 'u' =>
    let digits ← exactly 4 Text.isHexDigit
    charOf? (Text.ofDigits 16 digits)
  | some 'U' =>
    let digits ← exactly 8 Text.isHexDigit
    charOf? (Text.ofDigits 16 digits)
  | _ => failure

/-- The rest of a string between double quotes. -/
def basicRest : Nat → Reader Text
  | 0 => failure
  | fuel + 1 => do
    match ← peek with
    | some '"' =>
      advance
      return []
    | some '\\' =>
      advance
      let c ← escaped
      return c :: (← basicRest fuel)
    | some c =>
      if isPlain c then
        advance
        return c :: (← basicRest fuel)
      else
        failure
    | none => failure

/-- A string between double quotes. -/
def basicString : Reader Text := do
  word ['"']
  basicRest (← rounds)

/-- A string between single quotes. -/
def literalString : Reader Text := do
  word ['\'']
  let text ← takeRun fun c => isPlain c && c != '\''
  word ['\'']
  return text

/-- Whether a backslash here ends its line: only blanks stand before the line
end. -/
def endsLine (s : Text) : Bool :=
  let rest := (s.drop 1).dropWhile isBlank
  ['\n'].isPrefixOf rest || ['\r', '\n'].isPrefixOf rest

/-- Passes over a backslash at the end of a line, and over all blanks and line
ends after it. -/
def foldLine (fuel : Nat) : Reader Unit := do
  advance
  blanks
  newline
  blankLines fuel
where
  /-- Passes over blanks and line ends. -/
  blankLines : Nat → Reader Unit
    | 0 => failure
    | fuel + 1 => do
      blanks
      match ← peek with
      | some '\n' | some '\r' =>
        newline
        blankLines fuel
      | _ => pure ()

/-- A run of quotes inside a text over several lines: fewer than three belong to
the text, and of more all but the last three, which close it. Two at most may
stand before those. -/
def quoteRun (quote : Char) : Reader (Text × Bool) := do
  let quotes ← takeRun (· == quote)
  if quotes.length < 3 then
    return (quotes, false)
  else if quotes.length ≤ 5 then
    return (quotes.drop 3, true)
  else
    failure

/-- The rest of a text over several lines. -/
def multilineRest (quote : Char) (escapes : Bool) : Nat → Reader Text
  | 0 => failure
  | fuel + 1 => do
    match ← peek with
    | none => failure
    | some '\n' | some '\r' =>
      newline
      return '\n' :: (← multilineRest quote escapes fuel)
    | some c =>
      if c = quote then
        let (text, closed) ← quoteRun quote
        if closed then
          return text
        else
          return text ++ (← multilineRest quote escapes fuel)
      else if c = '\\' ∧ escapes = true then
        if endsLine (← get) then
          foldLine fuel
          multilineRest quote escapes fuel
        else
          advance
          let c ← escaped
          return c :: (← multilineRest quote escapes fuel)
      else if isPlain c then
        advance
        return c :: (← multilineRest quote escapes fuel)
      else
        failure

/-- A string over several lines. -/
def multilineString (quote : Char) (escapes : Bool) : Reader Text := do
  word [quote, quote, quote]
  let c ← peek
  if c = some '\n' ∨ c = some '\r' then
    newline
  multilineRest quote escapes (← rounds)

/-- A string of any kind. -/
def string : Reader Text := do
  if ← looksAt ['"', '"', '"'] then
    multilineString '"' true
  else if ← looksAt ['\'', '\'', '\''] then
    multilineString '\'' false
  else if ← looksAt ['"'] then
    basicString
  else
    literalString

end NotebookExtract.Toml.Reader
