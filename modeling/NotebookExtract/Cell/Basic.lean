import NotebookExtract.Text.Lines

/-!
# Cells

A notebook is a list of cells. A `Block` is what a notebook stores of a cell, a
kind and a text; a `Cell` also remembers where in the notebook the block stood,
since headings name that position after other cells have been left out.
-/

namespace NotebookExtract

/-- The kinds of cell that are told apart. -/
inductive CellKind where
  | code
  | markdown
  | raw
deriving DecidableEq, Repr

namespace CellKind

/-- The kind that a notebook names; an unknown name counts as raw. -/
def ofName (name : Text) : CellKind :=
  if name = "code".toList then .code
  else if name = "markdown".toList then .markdown
  else .raw

/-- The kind as a heading shows it. -/
def label : CellKind → Text
  | .code => "Code".toList
  | .markdown => "Markdown".toList
  | .raw => "Raw".toList

end CellKind

/-- A cell's kind and its whole text. -/
structure Block where
  kind : CellKind
  text : Text
deriving DecidableEq, Repr

/-- A block with its position in the notebook, counted from zero. -/
structure Cell where
  index : Nat
  kind : CellKind
  text : Text
deriving DecidableEq, Repr

end NotebookExtract
