import NotebookExtract.Association
import NotebookExtract.Decimal.Binary64
import NotebookExtract.Text.Lines

/-!
# Setting trees

Settings from files and flags meet in one tree. A table maps keys to trees;
setting a table into a tree merges it key by key, and setting anything else
replaces what is there. Keys do not tell upper from lower case.
-/

namespace NotebookExtract.Settings

/-- A number with a fraction or an exponent, or one of the special values. -/
inductive RealNumber where
  | finite (x : Binary64)
  | infinite (negative : Bool)
  | notANumber
deriving DecidableEq, Repr

/-- Whether the number is zero. -/
def RealNumber.isZero : RealNumber → Bool
  | .finite x => x.isZero
  | .infinite _ | .notANumber => false

/-- A tree of settings. -/
inductive Tree where
  /-- A place that was made but never given a value. -/
  | missing
  | bool (b : Bool)
  | int (n : Int)
  | real (x : RealNumber)
  | text (t : Text)
  /-- A day, a time of day or both, as it is written. -/
  | date (t : Text)
  | list (items : List Tree)
  | table (entries : List (Text × Tree))
deriving Repr

/-- The entries of a table. -/
abbrev Table := List (Text × Tree)

/-- A letter in lower case. Keys and words of the settings are ASCII, and the
Kelvin sign is the only other character that has an ASCII letter as its lower
case. -/
def lowerChar (c : Char) : Char :=
  if c = '\u212a' then 'k' else c.toLower

/-- A key in lower case. -/
def lower (key : Text) : Text := key.map lowerChar

namespace Tree

/-- The entries of a tree; one that is no table has none. -/
def entries : Tree → Table
  | .table entries => entries
  | _ => []

/-- The items of a tree; one that is no list has none. -/
def items : Tree → List Tree
  | .list items => items
  | _ => []

mutual

/-- Sets a key of a tree, which becomes a table if it is none. A table is merged
into the tree that is there; it makes a table of that tree only if it has keys
of its own. -/
def setKey (root : Tree) (key : Text) : Tree → Tree
  | .table entries =>
    let old := (root.entries.lookup (lower key)).getD (.table [])
    .table (Association.put root.entries (lower key) (setAll old entries))
  | value => .table (Association.put root.entries (lower key) value)

/-- Sets the keys of a table one after the other. -/
def setAll (root : Tree) : List (Text × Tree) → Tree
  | [] => root
  | (key, value) :: rest => setAll (setKey root key value) rest

end

end Tree

end NotebookExtract.Settings
