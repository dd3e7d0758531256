import NotebookExtract.Command.Help
import NotebookExtract.Command.Host
import NotebookExtract.Command.Plan

/-!
# Running a command

A run settles its options, loads its notebook, extracts the artifact and hands it to
one sink: standard output, the path that was asked for, or a file beside the notebook.
The first stage that fails ends the run. The stages are written over any host, and are
the same on every one.
-/

namespace NotebookExtract.Command

variable {m : Type → Type} [Monad m]

/-- The text of the setting file at the first of some paths that leads to a file. -/
def findSettings (host : Host m) : List Bytes → m (Option Text)
  | [] => return none
  | path :: rest => do
    if ← host.isFile path then
      match ← host.readFile path with
      | .ok bytes => return some (Text.ofUtf8Lossy bytes)
      | .error _ => return none
    else
      findSettings host rest

/-- The text of the setting file that a request names, if it names one. -/
def readSettings (host : Host m) (request : Request) : m (Option Text) :=
  match request.config with
  | some path => do findSettings host (settingPaths (← host.home) path)
  | none => return none

/-- Settles the options. -/
def loadOptions (host : Host m) (request : Request) :
    ExceptT RunFailure m Extract.Options := ExceptT.mk do
  let file ← readSettings host request
  return (requestLoader request file).build.mapError .settings

/-- Loads the notebook. -/
def loadNotebook (host : Host m) (input : Bytes) :
    ExceptT RunFailure m Notebook := ExceptT.mk do
  let bytes ← if isStandardInput input then host.readInput else host.readFile input
  return (Notebook.ofBytes bytes).mapError (.load input)

/-- Extracts the artifact. -/
def extractArtifact (request : Request) (options : Extract.Options) (notebook : Notebook) :
    ExceptT RunFailure m Artifact := ExceptT.mk do
  let made := extract options (sourceName? request.input) notebook
  return made.mapError (.extract request.input)

/-- Hands the artifact to its sink. -/
def deliver (host : Host m) (request : Request) (artifact : Artifact) :
    ExceptT RunFailure m Unit := ExceptT.mk do
  let content := Text.toUtf8 artifact.content
  if request.stdout then
    return (← host.print content).mapError .print
  else
    let target := targetPath request artifact
    return (← host.writeFile target content).mapError (.write target)

/-- Carries out a request. -/
def perform (host : Host m) (request : Request) : ExceptT RunFailure m Unit := do
  let options ← loadOptions host request
  let notebook ← loadNotebook host request.input
  let artifact ← extractArtifact request options notebook
  deliver host request artifact

/-- How a run ends. -/
inductive Ending where
  /-- The arguments make no request. -/
  | stopped (why : Stop)
  | failed (why : RunFailure)
  | done
deriving DecidableEq, Repr

/-- The exit code. -/
def Ending.exitCode : Ending → Nat
  | .stopped .usage => 2
  | .stopped .help | .stopped .version => 0
  | .failed _ => 1
  | .done => 0

/-- Carries out a command line. -/
def run (host : Host m) (args : List Bytes) : m Ending := do
  match Request.ofArguments args with
  | .error .usage => return .stopped .usage
  | .error .help =>
    let _ ← host.print (Text.toUtf8 helpText)
    return .stopped .help
  | .error .version =>
    let _ ← host.print (Text.toUtf8 versionText)
    return .stopped .version
  | .ok request =>
    match ← ExceptT.run (perform host request) with
    | .ok () => return .done
    | .error why => return .failed why

end NotebookExtract.Command
