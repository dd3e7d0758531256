import NotebookExtract.Command.Disk
import NotebookExtract.Command.Run

/-!
# Machines

A host whose state is a value: a disk, what standard input holds, and what standard
output has shown so far. Reading leaves a machine as it is. Writing puts a file on the
disk, or hands the bytes to a stream, which shows them if it is standard output.
-/

namespace NotebookExtract.Command

/-- The system around a run, as a value. -/
structure Machine where
  disk : Disk
  /-- What standard input holds. -/
  input : Except FileFailure Bytes := .ok []
  /-- Why standard output takes nothing, if it does not. -/
  blocked : Option FileFailure := none
  /-- What standard output has shown. -/
  shown : Bytes := []

namespace Machine

/-- The machine after standard output has shown more bytes. -/
def appear (machine : Machine) (content : Bytes) : Machine :=
  { machine with shown := machine.shown ++ content }

/-- The answer of standard output to bytes, and the machine after it. -/
def print (machine : Machine) (content : Bytes) : Except FileFailure Unit × Machine :=
  match machine.blocked with
  | some why => (.error why, machine)
  | none => (.ok (), machine.appear content)

/-- The answer to bytes that are written to a path, and the machine after it. -/
def write (machine : Machine) (path content : Bytes) : Except FileFailure Unit × Machine :=
  match machine.disk.sink path with
  | .error why => (.error why, machine)
  | .ok (.file location) =>
    (.ok (), { machine with disk := machine.disk.put location content })
  | .ok (.stream stream) =>
    (.ok (), if stream.isOutput then machine.appear content else machine)

/-- The machine that a run finds and changes, as its host. -/
def host : Host (StateM Machine) where
  home := do return (← get).disk.homePath
  isFile path := do return (← get).disk.isFile path
  readFile path := do return (← get).disk.read path
  readInput := do return (← get).input
  print content := fun machine => machine.print content
  writeFile path content := fun machine => machine.write path content

/-- How a command line ends on a machine, and the machine after it. -/
def run (machine : Machine) (args : List Bytes) : Ending × Machine :=
  StateT.run (Command.run host args) machine

end Machine

end NotebookExtract.Command
