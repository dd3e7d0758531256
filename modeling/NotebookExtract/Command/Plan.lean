import NotebookExtract.Command.Arguments
import NotebookExtract.Command.Disk
import NotebookExtract.Settings.Loader

/-!
# What a request asks for

Which paths are read and written, which layers the settings have and what the notebook
is called follow from the request. A failure is told as a chain of reasons, from the
step that failed to its cause.
-/

namespace NotebookExtract.Command

/-! ## Paths -/

/-- Whether a path stands for standard input: it is a dash, whatever idle pieces
follow it. -/
def isStandardInput (path : Bytes) : Bool :=
  match Disk.pieces path with
  | first :: rest => first == [dash] && rest.all Disk.isIdle
  | [] => false

/-- The name of a notebook that is read from a path: the path itself, where it is a
text. What comes from standard input has no name. -/
def sourceName? (path : Bytes) : Option Text :=
  if isStandardInput path then none else Text.ofUtf8? path

/-- Pieces without the idle ones at their end. -/
def dropIdle (pieces : List Bytes) : List Bytes :=
  (pieces.reverse.dropWhile Disk.isIdle).reverse

/-- The pieces of a path above its last name. Idle ones at the end go, except for the
first, which says where the path starts. -/
def parentPieces (path : Bytes) : List Bytes :=
  match Disk.pieces path with
  | [] => []
  | first :: rest =>
    match dropIdle rest with
    | [] => []
    | named => first :: dropIdle named.dropLast

/-- The path of a file beside another. -/
def sibling (path name : Bytes) : Bytes :=
  match parentPieces path with
  | [] => name
  | parents => [Disk.slash].intercalate parents ++ Disk.slash :: name

/-- The path that the artifact is written to. -/
def targetPath (request : Request) (artifact : Artifact) : Bytes :=
  match request.output with
  | some path => path
  | none =>
    if isStandardInput request.input then Text.toUtf8 artifact.fileName
    else sibling request.input (Text.toUtf8 artifact.fileName)

/-- The paths at which a setting file is looked for, from the working folder: its path,
and beside it the last name on its path with the extension of setting files. -/
def settingPaths (home path : Bytes) : List Bytes :=
  let path := if Disk.isAbsolute path then path else home ++ Disk.slash :: path
  match (Disk.pieces path).reverse.dropWhile Disk.isIdle with
  | [] => [path]
  | name :: parents =>
    if name = Disk.up then [path]
    else
      let extended := name ++ Text.toUtf8 ".toml".toList
      [path, [Disk.slash].intercalate (parents.reverse ++ [extended])]

/-! ## Failures -/

/-- Why a run fails. -/
inductive RunFailure where
  | settings (why : Settings.Failure)
  | load (input : Bytes) (why : LoadFailure)
  | extract (input : Bytes) (why : Reduce.Failure)
  | print (why : FileFailure)
  | write (target : Bytes) (why : FileFailure)
deriving DecidableEq, Repr

/-- A failure as a chain of reasons, from the step that failed to its cause. -/
def RunFailure.chain : RunFailure → List Text
  | .settings _ => ["invalid configuration".toList]
  | .load input why =>
    (if isStandardInput input then "reading notebook from standard input".toList
      else "reading ".toList ++ Text.ofUtf8Lossy input) :: why.headline :: why.detail?.toList
  | .extract input why => ["cannot extract ".toList ++ Text.ofUtf8Lossy input, why.message]
  | .print why => ["writing to standard output".toList, why.describe]
  | .write target why => ["writing ".toList ++ Text.ofUtf8Lossy target, why.describe]

/-- A failure in one line. -/
def RunFailure.message (failure : RunFailure) : Text :=
  ": ".toList.intercalate failure.chain

/-! ## Layers -/

/-- The flags that a request sets, with the values they pin. -/
def requestFlags (request : Request) : List (Text × Settings.Tree) :=
  (match request.format with
    | some format => [("output.format".toList, .text format.name)]
    | none => []) ++
  (if request.codeOnly then [("extract.keep_only_code".toList, .bool true)] else []) ++
  (if request.keepComments then [("extract.strip_comments".toList, .bool false)] else []) ++
  (if request.keepLineComments then [("extract.line_comments".toList, .bool false)] else []) ++
  (if request.keepDocstrings then [("extract.block_strings".toList, .bool false)] else [])

/-- Adds flags one after the other; a key that is no path is passed over. -/
def addFlags (loader : Settings.Loader) (flags : List (Text × Settings.Tree)) :
    Settings.Loader :=
  flags.foldl (fun loader (key, value) => (loader.addFlag? key value).getD loader) loader

/-- The layers of a request. `file` is the text of the setting file, if the
request names one that is there. -/
def requestLoader (request : Request) (file : Option Text) : Settings.Loader :=
  let base : Settings.Loader := {}
  let base := if request.config.isSome then base.addFile file else base
  addFlags base (requestFlags request)

end NotebookExtract.Command
