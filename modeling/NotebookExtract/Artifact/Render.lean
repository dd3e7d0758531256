import NotebookExtract.Cell.Basic
import NotebookExtract.Text.Blank
import NotebookExtract.Text.Digits

/-!
# Rendering cells

An artifact is one file made from the cells that were kept: a Python script in
which prose has become comments, or a Markdown document in which code is fenced.
Raw cells and blank cells are left out of both. Every section starts with a
heading that names the cell by its position in the notebook, counted from one.
-/

namespace NotebookExtract

/-- The two kinds of artifact. -/
inductive ArtifactFormat where
  | python
  | markdown
deriving DecidableEq, Repr

namespace ArtifactFormat

/-- The file extension, without its dot. -/
def extension : ArtifactFormat → Text
  | .python => "py".toList
  | .markdown => "md".toList

/-- The name by which options and settings call the format. -/
def name : ArtifactFormat → Text
  | .python => "python".toList
  | .markdown => "markdown".toList

/-- The format with exactly the given name. -/
def ofName? (text : Text) : Option ArtifactFormat :=
  [python, markdown].find? fun f => f.name == text

end ArtifactFormat

namespace Render

/-- Whether a cell has a section in the artifact. -/
def isRendered (cell : Cell) : Bool :=
  cell.kind != .raw && !Text.isBlank cell.text

/-- The words that open a cell's section. -/
def heading (cell : Cell) : Text :=
  "Cell ".toList ++ Text.ofNat (cell.index + 1) ++ " (".toList ++ cell.kind.label ++ [')']

/-- One line of prose as a comment; a blank line becomes a bare `#`. -/
def commentLine (line : Text) : Text :=
  if Text.isBlank line then ['#'] else '#' :: ' ' :: line

/-- Prose as comments, line by line. -/
def commentOut (text : Text) : Text :=
  Text.ofLines ((Text.lines text).map commentLine)

/-- A cell's section in a script. -/
def scriptSection (cell : Cell) : Text :=
  let body := if cell.kind = .markdown then commentOut cell.text else cell.text
  "# ".toList ++ heading cell ++ '\n' :: body

/-- A script: the sections, with one empty line between neighbours. -/
def script (cells : List Cell) : Text :=
  "\n\n".toList.intercalate ((cells.filter isRendered).map scriptSection)

/-- The line that opens a document, with the empty line after it. -/
def documentTitle : Text :=
  "# Extracted Content from Jupyter Notebook\n".toList

/-- The line that opens fenced code. -/
def fenceOpen : Text := "```python".toList

/-- The line that closes fenced code. -/
def fenceClose : Text := "```".toList

/-- The parts of a cell's section in a document. A part may end in a line feed
of its own, which leaves an empty line after it. -/
def documentSection (cell : Cell) : List Text :=
  let title := "## ".toList ++ heading cell ++ ['\n']
  if cell.kind = .code then
    [title, fenceOpen, cell.text, fenceClose ++ ['\n']]
  else
    [title, cell.text, ['\n']]

/-- A document: the title and the sections' parts, one line feed between them. -/
def document (cells : List Cell) : Text :=
  Text.ofLines (documentTitle :: (cells.filter isRendered).flatMap documentSection)

end Render

/-- The artifact of the given format. -/
def render (format : ArtifactFormat) (cells : List Cell) : Text :=
  match format with
  | .python => Render.script cells
  | .markdown => Render.document cells

end NotebookExtract
