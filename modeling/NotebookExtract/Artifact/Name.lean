import NotebookExtract.Artifact.Render

/-!
# Naming the artifact

The artifact is named after the notebook: its directories and its extension
go, every character that is unsafe in a file name becomes an underscore, and no
two underscores stand together or at an end. A notebook without a usable name
is called `notebook`.
-/

namespace NotebookExtract.Naming

/-- The stem of an artifact whose notebook has no usable name. -/
def fallback : Text := "notebook".toList

/-- The extension of a notebook file, with its dot. -/
def notebookSuffix : Text := ".ipynb".toList

/-- Both slashes divide a path. -/
def isSeparator (c : Char) : Bool :=
  c == '/' || c == '\\'

/-- The part of a path after its last separator. -/
def lastComponent (path : Text) : Text :=
  (path.reverse.takeWhile (!isSeparator ·)).reverse

/-- A file name without one final notebook extension, in any case of letters. -/
def dropNotebookSuffix (file : Text) : Text :=
  let stem := file.take (file.length - notebookSuffix.length)
  let suffix := file.drop (file.length - notebookSuffix.length)
  if suffix.map Char.toLower = notebookSuffix then stem else file

/-- The characters that stay as they are in an artifact's name. -/
def isSafe (c : Char) : Bool :=
  c.isAlphanum || c == '-' || c == '_'

/-- Every unsafe character as an underscore. -/
def sanitize (stem : Text) : Text :=
  stem.map fun c => if isSafe c then c else '_'

/-- Runs of underscores shortened to one. -/
def squeeze : Text → Text
  | '_' :: '_' :: rest => squeeze ('_' :: rest)
  | c :: rest => c :: squeeze rest
  | [] => []

/-- A text without one underscore at its start and one at its end. -/
def trimUnderscore (text : Text) : Text :=
  let tail := if text.head? = some '_' then text.drop 1 else text
  if tail.getLast? = some '_' then tail.dropLast else tail

/-- The stem of the artifact's name. -/
def baseName (name? : Option Text) : Text :=
  match name? with
  | none => fallback
  | some path =>
    match trimUnderscore (squeeze (sanitize (dropNotebookSuffix (lastComponent path)))) with
    | [] => fallback
    | base => base

/-- The artifact's file name. -/
def fileName (name? : Option Text) (format : ArtifactFormat) : Text :=
  baseName name? ++ "_extracted.".toList ++ format.extension

end NotebookExtract.Naming
