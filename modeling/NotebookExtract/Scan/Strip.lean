import NotebookExtract.Scan.Comment
import NotebookExtract.Text.Search

/-!
# Stripping a source text

The scanner reads a text line by line and carries a mode from one line to the
next. A line that starts with a triple quote and looks like documentation opens
a block; the block ends with the first later line that holds the same
delimiter, and all of its lines go. Every other line loses its comment and
stays unless nothing is left of it.

A line is taken for a string *value* rather than documentation when its code
part holds one of `=`, `(` and `[`.
-/

namespace NotebookExtract.Scan

/-- Which kinds of comment are removed. -/
structure Options where
  /-- Remove trailing `#` comments. -/
  lineComments : Bool := true
  /-- Remove documentation blocks. -/
  blockStrings : Bool := true
deriving DecidableEq, Repr

namespace Options

/-- Removes nothing. -/
def none : Options := ⟨false, false⟩

/-- Whether every text is left as it is. -/
def isNoop (options : Options) : Bool :=
  !options.lineComments && !options.blockStrings

end Options

/-- The characters that mark a line as holding a value. -/
def isValueMark (c : Char) : Bool :=
  c == '=' || c == '(' || c == '['

/-- The delimiter with which a line opens a documentation block, if it does. -/
def opener? (line : Text) : Option BlockQuote :=
  if (dropComment line).any isValueMark then
    .none
  else
    BlockQuote.leading? (Text.trim line)

/-- What the line holds after its indentation and the delimiter that opens it. -/
def afterOpener (q : BlockQuote) (line : Text) : Text :=
  (Text.trimStart line).drop q.delimiter.length

/-- What a line outside any block leaves: nothing at all when it would be blank. -/
def keptText? (options : Options) (line : Text) : Option Text :=
  let text := if options.lineComments then dropComment line else line
  if Text.isBlank text then .none else some text

/-- Reads one line: the mode for the next line, and the text kept of this one. -/
def scanLine (options : Options) (mode : Mode) (line : Text) : Mode × Option Text :=
  match mode with
  | .block q => (if Text.contains line q.delimiter then .code else .block q, .none)
  | _ =>
    match if options.blockStrings then opener? line else .none with
    | some q => (if Text.contains (afterOpener q line) q.delimiter then .code else .block q, .none)
    | .none => (.code, keptText? options line)

/-- The mode after some lines, and the lines kept of them in order. -/
def scanLines (options : Options) : Mode → List Text → Mode × List Text
  | mode, [] => (mode, [])
  | mode, line :: rest =>
    let (next, kept?) := scanLine options mode line
    let (last, kept) := scanLines options next rest
    (last, kept?.toList ++ kept)

/-- Lines are read one after the other: the later ones start in the mode in which
the earlier ones end. -/
theorem scanLines_append (options : Options) (mode : Mode) (as bs : List Text) :
    scanLines options mode (as ++ bs) =
      ((scanLines options (scanLines options mode as).1 bs).1,
        (scanLines options mode as).2 ++
          (scanLines options (scanLines options mode as).1 bs).2) := by
  induction as generalizing mode with
  | nil => simp [scanLines]
  | cons line rest ih => simp [scanLines, ih]

/-- A source text without the comments that the options name. Lines of which
nothing is left vanish; with nothing to remove the text stays as it is. -/
def strip (options : Options) (text : Text) : Text :=
  if options.isNoop then
    text
  else
    Text.ofLines (scanLines options .code (Text.lines text)).2

end NotebookExtract.Scan
