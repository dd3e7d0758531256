import NotebookExtract.Cell.Basic
import NotebookExtract.Scan.Strip

/-!
# Reducing a notebook to the cells worth keeping

Blank cells go first, and with them every cell that is not code when only code
is wanted. If nothing is left the notebook has no content, and that is an error.
Only then is the code stripped; a code cell of which stripping leaves nothing is
left out, but it still counts as a code cell of the notebook. Each cell is
stripped on its own, so a block that one cell leaves open ends with that cell.
-/

namespace NotebookExtract

namespace Reduce

/-- What is kept of a notebook. -/
structure Options where
  /-- Leave out every cell that is not code. -/
  keepOnlyCode : Bool := false
  /-- Strip the code cells at all. -/
  stripComments : Bool := true
  /-- What stripping removes. -/
  scan : Scan.Options := {}
deriving DecidableEq, Repr

/-- Why a reduction has no result. -/
inductive Failure where
  /-- No cell passes the filters. -/
  | noContent
deriving DecidableEq, Repr

/-- The wording of a failure. -/
def Failure.message : Failure → Text
  | .noContent => "no cells with content found in the notebook".toList

end Reduce

/-- The cells kept of a notebook, and how many code cells passed the filters. -/
structure Reduction where
  cells : List Cell
  codeCells : Nat
deriving DecidableEq, Repr

namespace Reduce

/-- Each block with its position, from the given position on. -/
def numberFrom : Nat → List Block → List Cell
  | _, [] => []
  | i, b :: rest => ⟨i, b.kind, b.text⟩ :: numberFrom (i + 1) rest

/-- Whether a cell passes the filters that come before stripping. -/
def isEligible (keepOnlyCode : Bool) (cell : Cell) : Bool :=
  !Text.isBlank cell.text && (!keepOnlyCode || cell.kind == .code)

/-- The eligible cells of a notebook, with their positions in it. -/
def selectCells (keepOnlyCode : Bool) (blocks : List Block) : List Cell :=
  (numberFrom 0 blocks).filter (isEligible keepOnlyCode)

/-- The cells themselves, provided that there are any. -/
def requireContent (cells : List Cell) : Except Failure (List Cell) :=
  match cells with
  | [] => .error .noContent
  | _ :: _ => .ok cells

/-- What an eligible cell becomes. Only code is stripped, and a code cell that
stripping leaves blank disappears. -/
def reduceCell? (options : Options) (cell : Cell) : Option Cell :=
  if cell.kind = .code ∧ options.stripComments = true then
    let text := Scan.strip options.scan cell.text
    if Text.isBlank text then none else some { cell with text := text }
  else
    some cell

end Reduce

/-- Reduces a notebook's blocks under the given options. -/
def reduce (options : Reduce.Options) (blocks : List Block) :
    Except Reduce.Failure Reduction := do
  let cells ← Reduce.requireContent (Reduce.selectCells options.keepOnlyCode blocks)
  return {
    cells := cells.filterMap (Reduce.reduceCell? options)
    codeCells := cells.countP (·.kind == .code) }

end NotebookExtract
