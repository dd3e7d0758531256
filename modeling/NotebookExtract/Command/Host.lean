import NotebookExtract.Notebook.Load

/-!
# Hosts

What a run asks of the system around it, over any monad: to look at files, to read, to
print and to write. Everything else that a run does follows from the answers.
-/

namespace NotebookExtract.Command

/-- The system around a run. -/
structure Host (m : Type → Type) where
  /-- The path of the working folder. -/
  home : m Bytes
  /-- Whether a path leads to a file. -/
  isFile : Bytes → m Bool
  /-- The bytes that a path leads to. -/
  readFile : Bytes → m (Except FileFailure Bytes)
  /-- The bytes of standard input. -/
  readInput : m (Except FileFailure Bytes)
  /-- Prints bytes to standard output. -/
  print : Bytes → m (Except FileFailure Unit)
  /-- Writes bytes to a path. -/
  writeFile : (path content : Bytes) → m (Except FileFailure Unit)

end NotebookExtract.Command
