import NotebookExtract.Command.Run

/-!
# The program

The outer layer of the command line: the system's own files and streams as the host of a
run, and how the run ends as the exit code.
-/

namespace NotebookExtract.Program

open Command

/-- All bytes of a stream. -/
partial def readAll (stream : IO.FS.Stream) (seen : ByteArray) : IO ByteArray := do
  let chunk ← stream.read 65536
  if chunk.isEmpty then return seen else readAll stream (seen ++ chunk)

/-- A path as the system's functions take it. Arguments are texts here, and so are the
paths that are made from them. -/
def pathText (path : Bytes) : String :=
  String.ofList (Text.ofUtf8Lossy path)

/-- Whether an error has a code of the system, which some functions give negated. -/
def hasCode (found code : UInt32) : Bool := found == code || found == 0 - code

/-- Why the system refuses an operation. -/
def failureOf : IO.Error → FileFailure
  | .noFileOrDirectory .. => .notFound
  | .permissionDenied .. => .denied
  | .inappropriateType _ code _ => if hasCode code 20 then .notAFolder else .isAFolder
  | .resourceExhausted .. => .noSpace
  | .invalidArgument _ code _ => if hasCode code 36 then .nameTooLong else .tooManyLinks
  | _ => .denied

/-- What an operation yields, or why it fails. -/
def attempt {α : Type} (action : IO α) : IO (Except FileFailure α) := do
  try
    return .ok (← action)
  catch why =>
    return .error (failureOf why)

/-- The system around the program. -/
def host : Host IO where
  home := do return Text.toUtf8 (← IO.currentDir).toString.toList
  isFile path := do
    try
      return (← (← IO.FS.realPath (pathText path)).metadata).type == .file
    catch _ =>
      return false
  readFile path := attempt do return (← IO.FS.readBinFile (pathText path)).toList
  readInput := attempt do return (← readAll (← IO.getStdin) .empty).toList
  print content := attempt do
    let out ← IO.getStdout
    out.write ⟨content.toArray⟩
    out.flush
  writeFile path content := attempt do
    IO.FS.writeBinFile (pathText path) ⟨content.toArray⟩

/-- Tells how a run ended, and gives its exit code. -/
def report (ending : Ending) : IO UInt32 := do
  match ending with
  | .stopped .usage => IO.eprintln "error: invalid arguments; see --help"
  | .failed why => IO.eprintln ("error: " ++ String.ofList why.message)
  | .stopped _ | .done => pure ()
  return ending.exitCode.toUInt32

end NotebookExtract.Program

/-- Runs the program. -/
def main (args : List String) : IO UInt32 := do
  let ending ← NotebookExtract.Command.run NotebookExtract.Program.host
    (args.map fun arg => NotebookExtract.Text.toUtf8 arg.toList)
  NotebookExtract.Program.report ending
