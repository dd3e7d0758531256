import NotebookExtract.Text.Lines

/-!
# Reading TOML

A reader takes something off the front of a text or finds that it is not there.
A document is either TOML or not, so a failure carries nothing.
-/

namespace NotebookExtract.Toml

/-- Takes a value off the front of a text, or fails. -/
abbrev Reader := StateT Text Option

namespace Reader

/-- The next character, left where it is. -/
def peek : Reader (Option Char) := fun s => some (s.head?, s)

/-- Passes over one character. -/
def advance : Reader Unit := fun s => some ((), s.drop 1)

/-- Whether the text goes on with the given characters. -/
def looksAt (word : Text) : Reader Bool := fun s => some (word.isPrefixOf s, s)

/-- Reads exactly the given characters. -/
def word (w : Text) : Reader Unit := fun s =>
  (w.isPrefixOf? s).map fun rest => ((), rest)

/-- Takes the longest run of characters of a class. -/
def takeRun (p : Char → Bool) : Reader Text := fun s =>
  some (s.takeWhile p, s.dropWhile p)

/-- Takes so many characters, all of a class. -/
def exactly (n : Nat) (p : Char → Bool) : Reader Text := fun s =>
  let front := s.take n
  if front.length = n ∧ front.all p = true then some (front, s.drop n) else none

/-- Enough fuel for a loop that takes at least one character in each round. -/
def rounds : Reader Nat := fun s => some (s.length + 1, s)

/-! ## Blanks, comments and line ends -/

/-- A blank inside a line. -/
def isBlank (c : Char) : Bool := c == ' ' || c == '\t'

/-- A character that may stand in a comment: no control but the tab. -/
def isCommentChar (c : Char) : Bool :=
  c == '\t' || (0x20 ≤ c.toNat && c.toNat != 0x7F)

/-- Passes over blanks. -/
def blanks : Reader Unit := do
  let _ ← takeRun isBlank

/-- Reads the end of a line, with or without a carriage return. -/
def newline : Reader Unit := do
  match ← peek with
  | some '\n' => advance
  | _ => word ['\r', '\n']

/-- Reads a comment up to the end of its line. -/
def comment : Reader Unit := do
  word ['#']
  let _ ← takeRun isCommentChar

/-- Reads the end of a line or of the text. -/
def lineEnd : Reader Unit := do
  match ← peek with
  | none => pure ()
  | some _ => newline

/-- What may follow an entry or a header on its line: blanks and a comment. -/
def lineTail : Reader Unit := do
  blanks
  if (← peek) = some '#' then
    comment
  lineEnd

/-- Passes over blanks, line ends and comments, which inside an array have to end
in a line end. -/
def spread : Nat → Reader Unit
  | 0 => failure
  | fuel + 1 => do
    blanks
    match ← peek with
    | some '#' =>
      comment
      newline
      spread fuel
    | some '\n' | some '\r' =>
      newline
      spread fuel
    | _ => pure ()

end Reader

end NotebookExtract.Toml
