import NotebookExtract.Notebook.Basic
import NotebookExtract.Proofs.Json.Trees

/-!
# The schema of a notebook

What a document has to be like to hold a notebook, and which notebook it holds,
said of its tree: which fields each record has, which of them may be absent or
`null`, and what their values may be. The order of the fields of an object is free,
and so are fields that are unknown.
-/

namespace NotebookExtract

open Json

/-- A cell's kind: its name, or an object whose only key is the name and whose value
is `null`. -/
def CellKind.ofTree? : Tree → Option CellKind
  | .text name => some (.ofName name)
  | .object [(name, value)] => value.null?.map fun _ => .ofName name
  | _ => none

/-- A cell's source: a string, or an array of strings. -/
def CellSource.ofTree? : Tree → Option CellSource
  | .text text => some (.whole text)
  | .array items => (items.mapM Tree.text?).map .pieces
  | _ => none

/-- The fields of a cell. -/
def StoredCell.fieldNames : List Text :=
  ["cell_type".toList, "source".toList, "metadata".toList, "execution_count".toList,
    "outputs".toList]

/-- A cell: its kind is required. -/
def StoredCell.ofTree? (tree : Tree) : Option StoredCell := do
  let entries ← tree.entries? fieldNames
  let kind ← given? entries "cell_type".toList CellKind.ofTree?
  let source ← given? entries "source".toList (Tree.orNull? CellSource.ofTree?)
  let metadata ← given? entries "metadata".toList Tree.object?
  let executionCount ← given? entries "execution_count".toList (Tree.orNull? (Tree.unsigned? 64))
  let outputs ← given? entries "outputs".toList (Tree.list? Tree.value?)
  kind.map fun kind =>
    { kind := kind
      source := source.getD none
      metadata := metadata.getD []
      executionCount := executionCount.getD none
      outputs := outputs.getD [] }

/-- The fields of a kernel. -/
def KernelSpec.fieldNames : List Text :=
  ["display_name".toList, "language".toList, "name".toList]

/-- A kernel: no field is required. -/
def KernelSpec.ofTree? (tree : Tree) : Option KernelSpec := do
  let entries ← tree.entries? fieldNames
  let displayName ← given? entries "display_name".toList Tree.text?
  let language ← given? entries "language".toList (Tree.orNull? Tree.text?)
  let name ← given? entries "name".toList Tree.text?
  return {
    displayName := displayName.getD []
    language := language.getD none
    name := name.getD [] }

/-- The fields of a language. -/
def LanguageInfo.fieldNames : List Text := ["name".toList, "version".toList]

/-- A language: its name is required. -/
def LanguageInfo.ofTree? (tree : Tree) : Option LanguageInfo := do
  let entries ← tree.entries? fieldNames
  let name ← given? entries "name".toList Tree.text?
  let version ← given? entries "version".toList (Tree.orNull? Tree.text?)
  name.map fun name => { name := name, version := version.getD none }

/-- The fields of a document's metadata. -/
def NotebookMetadata.fieldNames : List Text := ["kernelspec".toList, "language_info".toList]

/-- A document's metadata: no field is required. -/
def NotebookMetadata.ofTree? (tree : Tree) : Option NotebookMetadata := do
  let entries ← tree.entries? fieldNames
  let kernelSpec ← given? entries "kernelspec".toList (Tree.orNull? KernelSpec.ofTree?)
  let languageInfo ← given? entries "language_info".toList (Tree.orNull? LanguageInfo.ofTree?)
  return { kernelSpec := kernelSpec.getD none, languageInfo := languageInfo.getD none }

/-- The fields of a document. -/
def Notebook.fieldNames : List Text :=
  ["cells".toList, "metadata".toList, "nbformat".toList, "nbformat_minor".toList]

/-- A document: its cells are required. -/
def Notebook.ofTree? (tree : Tree) : Option Notebook := do
  let entries ← tree.entries? fieldNames
  let cells ← given? entries "cells".toList (Tree.list? StoredCell.ofTree?)
  let metadata ← given? entries "metadata".toList NotebookMetadata.ofTree?
  let formatMajor ← given? entries "nbformat".toList (Tree.unsigned? 32)
  let formatMinor ← given? entries "nbformat_minor".toList (Tree.unsigned? 32)
  cells.map fun cells =>
    { cells := cells
      metadata := metadata.getD {}
      formatMajor := formatMajor.getD 0
      formatMinor := formatMinor.getD 0 }

end NotebookExtract
