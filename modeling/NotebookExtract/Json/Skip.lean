import NotebookExtract.Json.Value

/-!
# Skipped values

A value that nobody asks for is only checked for its grammar: it may nest
without limit, its numbers may be of any size, and an escape by number may name
any code unit. What is open is kept as a list of brackets, innermost first.
-/

namespace NotebookExtract.Json

/-- An opened bracket. -/
inductive Bracket where
  | square
  | curly
deriving DecidableEq, Repr

/-- The character that closes a bracket. -/
def Bracket.closing : Bracket → Char
  | .square => ']'
  | .curly => '}'

/-- Where skipping stands among the open brackets. -/
inductive SkipPoint where
  /-- Before a value. -/
  | value
  /-- Just inside a bracket. -/
  | opened
  /-- After a value. -/
  | done
deriving DecidableEq, Repr

namespace Reader

/-- Skips an escape, after its backslash. -/
def skipEscaped : Reader Unit := do
  match ← peek with
  | none => cutShort
  | some 'u' =>
    advance
    let _ ← hexFour
  | some c => if (simpleEscape? c).isSome then advance else malformed

/-- Skips the rest of a string, after its opening quote. -/
def skipStringRest : Nat → Reader Unit
  | 0 => malformed
  | fuel + 1 => do
    match ← peek with
    | none => cutShort
    | some '"' => advance
    | some '\\' =>
      advance
      skipEscaped
      skipStringRest fuel
    | some c =>
      if c.toNat < 0x20 then
        malformed
      else
        advance
        skipStringRest fuel

/-- Skips a string that starts here. -/
def skipString : Reader Unit := do
  word ['"']
  skipStringRest (← rounds)

/-- Skips the key and the colon that an object's value has before it. -/
def skipKey : Bracket → Reader Unit
  | .square => pure ()
  | .curly => do
    match ← peekToken with
    | some '"' =>
      skipString
      colon
    | some _ => malformed
    | none => cutShort

/-- Skips until the brackets that are open, and a value that starts here, are
all behind. -/
def skipFrom : Nat → SkipPoint → List Bracket → Reader Unit
  | 0, _, _ => malformed
  | fuel + 1, .value, outer => do
    match ← peekToken with
    | none => cutShort
    | some 'n' =>
      word "null".toList
      skipFrom fuel .done outer
    | some 't' =>
      word "true".toList
      skipFrom fuel .done outer
    | some 'f' =>
      word "false".toList
      skipFrom fuel .done outer
    | some '"' =>
      skipString
      skipFrom fuel .done outer
    | some '[' =>
      advance
      skipFrom fuel .opened (.square :: outer)
    | some '{' =>
      advance
      skipFrom fuel .opened (.curly :: outer)
    | some c =>
      if c = '-' ∨ c.isDigit = true then
        -- a number that ends with the text is refused rather than cut short
        let _ ← numeral .malformed
        skipFrom fuel .done outer
      else
        malformed
  | _ + 1, _, [] => pure ()
  | fuel + 1, .opened, b :: outer => do
    let next ← peekToken
    if next = some b.closing then
      advance
      skipFrom fuel .done outer
    else if next = none then
      cutShort
    else
      skipKey b
      skipFrom fuel .value (b :: outer)
  | fuel + 1, .done, b :: outer => do
    let next ← peekToken
    if next = some b.closing then
      advance
      skipFrom fuel .done outer
    else if next = some ',' then
      advance
      skipKey b
      skipFrom fuel .value (b :: outer)
    else if next = none then
      cutShort
    else
      malformed

/-- Skips a value. Each character is met in at most two rounds: one that stands
just inside a bracket, and one that reads it. -/
def skipValue : Reader Unit := do
  let n ← rounds
  skipFrom (2 * n) .value []

end Reader

end NotebookExtract.Json
