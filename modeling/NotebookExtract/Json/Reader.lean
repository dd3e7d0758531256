import NotebookExtract.Json.Fault

/-!
# Readers

A reader takes a value off the front of a text and leaves the rest, or stops at
the first fault. The readers here are the small ones that every part of a
document needs: blanks, single characters, words, and what stands between the
items of an array and the entries of an object.
-/

namespace NotebookExtract.Json

/-- Takes a value off the front of a text. -/
abbrev Reader := StateT Text (Except Fault)

/-- The four blanks of JSON. -/
def isSpace (c : Char) : Bool :=
  c == ' ' || c == '\t' || c == '\n' || c == '\r'

namespace Reader

/-- Stops because the text ends here. -/
def cutShort {α : Type} : Reader α := throw .cutShort

/-- Stops because the text is no JSON. -/
def malformed {α : Type} : Reader α := throw .malformed

/-- Stops because a value does not fit. -/
def misfit {α : Type} (why : Misfit) : Reader α := throw (.misfit why)

/-- The next character, left where it is. -/
def peek : Reader (Option Char) := fun s => .ok (s.head?, s)

/-- Passes over one character. -/
def advance : Reader Unit := fun s => .ok ((), s.drop 1)

/-- Passes over blanks, then looks at the next character. -/
def peekToken : Reader (Option Char) := fun s =>
  let rest := s.dropWhile isSpace
  .ok (rest.head?, rest)

/-- Takes the longest run of characters of a class. -/
def takeRun (p : Char → Bool) : Reader Text := fun s =>
  .ok (s.takeWhile p, s.dropWhile p)

/-- Reads exactly the given characters. -/
def word : Text → Reader Unit
  | [] => pure ()
  | w :: ws => fun s =>
    match s with
    | [] => .error .cutShort
    | c :: rest => if c = w then word ws rest else .error .malformed

/-- Reads the colon between a key and its value. -/
def colon : Reader Unit := do
  match ← peekToken with
  | some ':' => advance
  | some _ => malformed
  | none => cutShort

/-- Whether an array goes on; `first` before its first item. A comma is passed
over, and an item has to follow it. -/
def moreItems (first : Bool) : Reader Bool := do
  match ← peekToken with
  | some ']' => return false
  | some ',' =>
    if first then
      return true
    else
      advance
      match ← peekToken with
      | some ']' => malformed
      | some _ => return true
      | none => cutShort
  | some _ => if first then return true else malformed
  | none => cutShort

/-- Reads the end of an array. -/
def endItems : Reader Unit := do
  match ← peekToken with
  | some ']' => advance
  | some _ => malformed
  | none => cutShort

/-- Whether an object goes on; `first` before its first entry. A comma is passed
over, and a key has to follow it. -/
def moreEntries (first : Bool) : Reader Bool := do
  match ← peekToken with
  | some '}' => return false
  | some ',' =>
    if first then
      malformed
    else
      advance
      match ← peekToken with
      | some '"' => return true
      | some _ => malformed
      | none => cutShort
  | some '"' => if first then return true else malformed
  | some _ => malformed
  | none => cutShort

/-- Reads the end of an object. -/
def endEntries : Reader Unit := do
  match ← peekToken with
  | some '}' => advance
  | some _ => malformed
  | none => cutShort

/-- Goes one level deeper, if the allowance permits. -/
def deeper {α : Type} (allowance : Nat) (inner : Nat → Reader α) : Reader α :=
  match allowance with
  | 0 => malformed
  | n + 1 => inner n

/-- The items of an array, after its opening bracket. The fuel bounds the number
of items. -/
def items {α : Type} (item : Reader α) : Nat → Bool → Reader (List α)
  | 0, _ => malformed
  | fuel + 1, first => do
    if ← moreItems first then
      let x ← item
      let xs ← items item fuel false
      return x :: xs
    else
      endItems
      return []

/-- The entries of an object, after its opening brace. -/
def entries {α β : Type} (key : Reader α) (value : Reader β) :
    Nat → Bool → Reader (List (α × β))
  | 0, _ => malformed
  | fuel + 1, first => do
    if ← moreEntries first then
      let k ← key
      colon
      let v ← value
      let rest ← entries key value fuel false
      return (k, v) :: rest
    else
      endEntries
      return []

/-- Enough fuel for a loop that takes at least one character in each round. -/
def rounds : Reader Nat := fun s => .ok (s.length + 1, s)

end Reader

end NotebookExtract.Json
