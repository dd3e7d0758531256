import NotebookExtract.Cell.Basic
import NotebookExtract.Json.Value

/-!
# Notebooks

A notebook document: its cells, the little of its metadata that names the
language, and its format version. Outputs and cell metadata are free JSON that
is read and kept but has no bearing on the artifact.
-/

namespace NotebookExtract

/-- A cell's source as a document stores it. -/
inductive CellSource where
  | whole (text : Text)
  | pieces (texts : List Text)
deriving DecidableEq, Repr

/-- The source as one text; pieces carry their own line feeds. -/
def CellSource.text : CellSource → Text
  | .whole text => text
  | .pieces texts => texts.flatten

/-- A cell as a document stores it. -/
structure StoredCell where
  kind : CellKind
  source : Option CellSource := none
  metadata : Json.Object := []
  executionCount : Option Nat := none
  outputs : List Json.Value := []
deriving Repr

/-- The cell's text; a cell without source has none. -/
def StoredCell.text (cell : StoredCell) : Text :=
  match cell.source with
  | none => []
  | some source => source.text

/-- The cell as a block. -/
def StoredCell.block (cell : StoredCell) : Block :=
  ⟨cell.kind, cell.text⟩

/-- The kernel that a notebook was written for. -/
structure KernelSpec where
  displayName : Text := []
  language : Option Text := none
  name : Text := []
deriving DecidableEq, Repr

/-- The language that the kernel ran. -/
structure LanguageInfo where
  name : Text
  version : Option Text := none
deriving DecidableEq, Repr

/-- A document's metadata. -/
structure NotebookMetadata where
  kernelSpec : Option KernelSpec := none
  languageInfo : Option LanguageInfo := none
deriving DecidableEq, Repr

/-- A notebook document. -/
structure Notebook where
  cells : List StoredCell
  metadata : NotebookMetadata := {}
  formatMajor : Nat := 0
  formatMinor : Nat := 0
deriving Repr

namespace Notebook

/-- The cells as blocks, in document order. -/
def blocks (notebook : Notebook) : List Block :=
  notebook.cells.map StoredCell.block

/-- The notebook's language: the one that ran, else the kernel's. -/
def language (notebook : Notebook) : Option Text :=
  match notebook.metadata.languageInfo with
  | some info => some info.name
  | none => notebook.metadata.kernelSpec.bind (·.language)

end Notebook

end NotebookExtract
