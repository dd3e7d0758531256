import NotebookExtract.Text.Lines

/-!
# Blank text

Whitespace is the Unicode property `White_Space`: the ASCII blanks, the
no-break space, the typographic spaces and the line and paragraph separators.
The zero-width characters (U+200B to U+200D, U+2060, U+FEFF) and the ASCII
separators U+001C to U+001F do not have it.
-/

namespace NotebookExtract.Text

/-- The property `White_Space`. -/
def isSpace (c : Char) : Bool :=
  let n := c.toNat
  (0x09 ≤ n && n ≤ 0x0D) || n == 0x20 || n == 0x85 || n == 0xA0 || n == 0x1680 ||
    (0x2000 ≤ n && n ≤ 0x200A) || n == 0x2028 || n == 0x2029 || n == 0x202F ||
    n == 0x205F || n == 0x3000

/-- A text is blank when it holds whitespace only. -/
def isBlank (text : Text) : Bool :=
  text.all isSpace

/-- The text from its first character that is no whitespace. -/
def trimStart (text : Text) : Text :=
  text.dropWhile isSpace

/-- The text up to its last character that is no whitespace. -/
def trimEnd : Text → Text
  | [] => []
  | c :: rest =>
    match trimEnd rest with
    | [] => if isSpace c then [] else [c]
    | kept => c :: kept

/-- The text without whitespace at either end. -/
def trim (text : Text) : Text :=
  trimEnd (trimStart text)

end NotebookExtract.Text
