import NotebookExtract.Artifact.Extract
import NotebookExtract.Settings.Path
import NotebookExtract.Toml.Document

/-!
# Layered settings

The options of a run come from three layers: the built-in defaults, then setting
files in the order in which they are added, then flags. A later layer wins, key
by key; all flags win over all files, whichever was added first. One file that
cannot be read spoils the result.
-/

namespace NotebookExtract.Settings

/-- Why there are no options. -/
inductive Failure where
  /-- A setting file is absent or not TOML. -/
  | badFile
  /-- A setting is absent or has no value of its kind. -/
  | badValue (name : Text)
deriving DecidableEq, Repr

/-! ## Reading values -/

/-- The words for true. -/
def trueWords : List Text :=
  ["1".toList, "true".toList, "on".toList, "yes".toList]

/-- The words for false. -/
def falseWords : List Text :=
  ["0".toList, "false".toList, "off".toList, "no".toList]

/-- A tree as a truth value: a number is true unless it is zero, and some words
count in any case of letters. A date is no such word. -/
def Tree.toBool? : Tree → Option Bool
  | .bool b => some b
  | .int n => some (n != 0)
  | .real x => some !x.isZero
  | .text t =>
    if lower t ∈ trueWords then some true
    else if lower t ∈ falseWords then some false
    else none
  | .missing | .date _ | .list _ | .table _ => none

/-- A tree as an artifact format: its name in any case of letters, or a table
whose only key is the name. -/
def Tree.toFormat? : Tree → Option ArtifactFormat
  | .text t => ArtifactFormat.ofName? (lower t)
  | .table [(key, _)] => ArtifactFormat.ofName? (lower key)
  | _ => none

/-- The trees under some keys: of a table by name, of a list by position. -/
def Tree.fields? (names : List Text) : Tree → Option (List Tree)
  | .table entries => names.mapM (entries.lookup ·)
  | .list items => if names.length ≤ items.length then some (items.take names.length) else none
  | _ => none

/-! ## The sections -/

/-- The key of the section on what is kept. -/
def extractKey : Text := "extract".toList

/-- The key of the section on the artifact. -/
def outputKey : Text := "output".toList

/-- The keys of the section on what is kept, in order. -/
def extractKeys : List Text :=
  ["keep_only_code".toList, "strip_comments".toList, "line_comments".toList,
    "block_strings".toList]

/-- The key of the artifact's format. -/
def formatKey : Text := "format".toList

/-- What is kept when nobody says otherwise. -/
def defaults : Tree :=
  .table [
    (extractKey, .table [
      ("keep_only_code".toList, .bool false),
      ("strip_comments".toList, .bool true),
      ("line_comments".toList, .bool true),
      ("block_strings".toList, .bool true)]),
    (outputKey, .table [(formatKey, .text "python".toList)])]

/-- The section on what is kept. -/
def reduceOptions? (part : Tree) : Option Reduce.Options := do
  match ← (← part.fields? extractKeys).mapM Tree.toBool? with
  | [keepOnlyCode, stripComments, lineComments, blockStrings] =>
    return { keepOnlyCode := keepOnlyCode
             stripComments := stripComments
             scan := { lineComments := lineComments, blockStrings := blockStrings } }
  | _ => none

/-- The section on the artifact. -/
def artifactFormat? (part : Tree) : Option ArtifactFormat := do
  match ← part.fields? [formatKey] with
  | [format] => format.toFormat?
  | _ => none

/-- The options that a tree of settings spells. -/
def Tree.toOptions (tree : Tree) : Except Failure Extract.Options :=
  match (tree.entries.lookup extractKey).bind reduceOptions?,
      (tree.entries.lookup outputKey).bind artifactFormat? with
  | none, _ => .error (.badValue extractKey)
  | _, none => .error (.badValue outputKey)
  | some reduce, some format => .ok { reduce := reduce, format := format }

/-! ## Layers -/

/-- Collects layers over the defaults. -/
structure Loader where
  /-- The files in order; one that cannot be read is `none`. -/
  files : List (Option Table) := []
  /-- The flags in order. -/
  flags : List (Path × Tree) := []
deriving Repr

namespace Loader

/-- Adds a setting file, given by its text unless there is none. -/
def addFile (loader : Loader) (text? : Option Text) : Loader :=
  { loader with files := loader.files ++ [text?.bind Toml.parse?] }

/-- Adds a flag, unless its key is no path. -/
def addFlag? (loader : Loader) (key : Text) (value : Tree) : Option Loader :=
  (Path.ofText? key).map fun path =>
    { loader with flags := loader.flags ++ [(path, value)] }

/-- All layers in one tree, if all files can be read. -/
def merge? (loader : Loader) : Option Tree := do
  let files ← loader.files.mapM id
  let base := files.foldl Tree.layer defaults
  return loader.flags.foldl (fun tree (path, value) => path.set tree value) base

/-- The options that the layers give. -/
def build (loader : Loader) : Except Failure Extract.Options :=
  match loader.merge? with
  | none => .error .badFile
  | some tree => tree.toOptions

end Loader

end NotebookExtract.Settings
