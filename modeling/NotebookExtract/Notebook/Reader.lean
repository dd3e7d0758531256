import NotebookExtract.Json.Record
import NotebookExtract.Notebook.Basic

/-!
# Reading a notebook document

Each record of the document lists its fields with their readers. A draft holds
what has been read so far; a field that was not met takes its default when the
record is finished.
-/

namespace NotebookExtract.NotebookReader

open Json

/-! ## Values of a cell -/

/-- A cell's kind: its name, or an object whose only key is the name and whose
value is `null`. -/
def cellKind (allowance : Nat) : Reader CellKind := do
  match ← Reader.peekToken with
  | some '"' => return CellKind.ofName (← Reader.string)
  | some '{' => Reader.deeper allowance fun _ => do
    Reader.advance
    match ← Reader.peekToken with
    | some '"' =>
      let name ← Reader.string
      Reader.colon
      Reader.unit
      Reader.endEntries
      return CellKind.ofName name
    | some _ => Reader.malformed
    | none => Reader.cutShort
  | some _ => Reader.malformed
  | none => Reader.cutShort

/-- The texts of a list of values, if they are all strings. -/
def texts? : List Value → Option (List Text)
  | [] => some []
  | .text t :: rest => (texts? rest).map (t :: ·)
  | _ :: _ => none

/-- A free value as a cell's source. -/
def source? : Value → Option (Option CellSource)
  | .null => some none
  | .text t => some (some (.whole t))
  | .array items => (texts? items).map fun ts => some (.pieces ts)
  | _ => none

/-- A cell's source. The whole value is read before its shape is looked at. -/
def cellSource (allowance : Nat) : Reader (Option CellSource) := do
  match source? (← Reader.value allowance) with
  | some source => return source
  | none => Reader.misfit (.noAlternative "CellSource".toList)

/-! ## Records -/

/-- A cell that is being read. -/
structure CellDraft where
  kind : Option CellKind := none
  source : Option (Option CellSource) := none
  metadata : Option Object := none
  executionCount : Option (Option Nat) := none
  outputs : Option (List Value) := none

/-- A cell; only its kind is required. -/
def cellShape : RecordShape CellDraft StoredCell where
  name := "Cell".toList
  start := {}
  fields := [
    { name := "cell_type".toList
      isSet := (·.kind.isSome)
      read := fun n draft => do return { draft with kind := some (← cellKind n) } },
    { name := "source".toList
      isSet := (·.source.isSome)
      read := fun n draft => do return { draft with source := some (← cellSource n) } },
    { name := "metadata".toList
      isSet := (·.metadata.isSome)
      read := fun n draft => do return { draft with metadata := some (← Reader.map n) } },
    { name := "execution_count".toList
      isSet := (·.executionCount.isSome)
      read := fun _ draft => do
        return { draft with
          executionCount := some (← Reader.optional (Reader.unsigned 64)) } },
    { name := "outputs".toList
      isSet := (·.outputs.isSome)
      read := fun n draft => do
        return { draft with outputs := some (← Reader.sequence n Reader.value) } }]
  finish := fun draft => draft.kind.map fun kind =>
    { kind := kind
      source := draft.source.getD none
      metadata := draft.metadata.getD []
      executionCount := draft.executionCount.getD none
      outputs := draft.outputs.getD [] }

/-- A kernel that is being read. -/
structure KernelDraft where
  displayName : Option Text := none
  language : Option (Option Text) := none
  name : Option Text := none

/-- A kernel; no field is required. -/
def kernelShape : RecordShape KernelDraft KernelSpec where
  name := "KernelSpec".toList
  start := {}
  fields := [
    { name := "display_name".toList
      isSet := (·.displayName.isSome)
      read := fun _ draft => do
        return { draft with displayName := some (← Reader.text) } },
    { name := "language".toList
      isSet := (·.language.isSome)
      read := fun _ draft => do
        return { draft with language := some (← Reader.optional Reader.text) } },
    { name := "name".toList
      isSet := (·.name.isSome)
      read := fun _ draft => do return { draft with name := some (← Reader.text) } }]
  finish := fun draft => some
    { displayName := draft.displayName.getD []
      language := draft.language.getD none
      name := draft.name.getD [] }

/-- A language that is being read. -/
structure LanguageDraft where
  name : Option Text := none
  version : Option (Option Text) := none

/-- A language; its name is required. -/
def languageShape : RecordShape LanguageDraft LanguageInfo where
  name := "LanguageInfo".toList
  start := {}
  fields := [
    { name := "name".toList
      isSet := (·.name.isSome)
      read := fun _ draft => do return { draft with name := some (← Reader.text) } },
    { name := "version".toList
      isSet := (·.version.isSome)
      read := fun _ draft => do
        return { draft with version := some (← Reader.optional Reader.text) } }]
  finish := fun draft => draft.name.map fun name =>
    { name := name, version := draft.version.getD none }

/-- Metadata that is being read. -/
structure MetadataDraft where
  kernelSpec : Option (Option KernelSpec) := none
  languageInfo : Option (Option LanguageInfo) := none

/-- A document's metadata; no field is required. -/
def metadataShape : RecordShape MetadataDraft NotebookMetadata where
  name := "NotebookMetadata".toList
  start := {}
  fields := [
    { name := "kernelspec".toList
      isSet := (·.kernelSpec.isSome)
      read := fun n draft => do
        return { draft with kernelSpec := some (← Reader.optional (kernelShape.read n)) } },
    { name := "language_info".toList
      isSet := (·.languageInfo.isSome)
      read := fun n draft => do
        return { draft with
          languageInfo := some (← Reader.optional (languageShape.read n)) } }]
  finish := fun draft => some
    { kernelSpec := draft.kernelSpec.getD none
      languageInfo := draft.languageInfo.getD none }

/-- A document that is being read. -/
structure NotebookDraft where
  cells : Option (List StoredCell) := none
  metadata : Option NotebookMetadata := none
  formatMajor : Option Nat := none
  formatMinor : Option Nat := none

/-- A document; its cells are required. -/
def notebookShape : RecordShape NotebookDraft Notebook where
  name := "Notebook".toList
  start := {}
  fields := [
    { name := "cells".toList
      isSet := (·.cells.isSome)
      read := fun n draft => do
        return { draft with cells := some (← Reader.sequence n cellShape.read) } },
    { name := "metadata".toList
      isSet := (·.metadata.isSome)
      read := fun n draft => do
        return { draft with metadata := some (← metadataShape.read n) } },
    { name := "nbformat".toList
      isSet := (·.formatMajor.isSome)
      read := fun _ draft => do
        return { draft with formatMajor := some (← Reader.unsigned 32) } },
    { name := "nbformat_minor".toList
      isSet := (·.formatMinor.isSome)
      read := fun _ draft => do
        return { draft with formatMinor := some (← Reader.unsigned 32) } }]
  finish := fun draft => draft.cells.map fun cells =>
    { cells := cells
      metadata := draft.metadata.getD {}
      formatMajor := draft.formatMajor.getD 0
      formatMinor := draft.formatMinor.getD 0 }

end NotebookExtract.NotebookReader

namespace NotebookExtract

/-- The notebook that a document holds, or the first fault in it. -/
def Notebook.parse (document : Text) : Except Json.Fault Notebook :=
  Json.Reader.whole (NotebookReader.notebookShape.read Json.nestingLimit) document

end NotebookExtract
