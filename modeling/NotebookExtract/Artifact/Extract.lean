import NotebookExtract.Artifact.Name
import NotebookExtract.Cell.Reduce
import NotebookExtract.Notebook.Basic

/-!
# Extraction

From a notebook to its artifact: reduce the cells, render what is left, and name
the file after the notebook.
-/

namespace NotebookExtract

namespace Extract

/-- What is kept, and in which format. -/
structure Options where
  reduce : Reduce.Options := {}
  format : ArtifactFormat := .python
deriving DecidableEq, Repr

end Extract

/-- The file that is made from a notebook. -/
structure Artifact where
  content : Text
  fileName : Text
  /-- How many code cells the notebook has that passed the filters. -/
  codeCells : Nat
deriving DecidableEq, Repr

/-- The artifact of a notebook that has the given name, if any. -/
def extract (options : Extract.Options) (name? : Option Text) (notebook : Notebook) :
    Except Reduce.Failure Artifact := do
  let reduction ← reduce options.reduce notebook.blocks
  return {
    content := render options.format reduction.cells
    fileName := Naming.fileName name? options.format
    codeCells := reduction.codeCells }

end NotebookExtract
