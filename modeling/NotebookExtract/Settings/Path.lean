import NotebookExtract.Settings.Tree
import NotebookExtract.Text.Digits

/-!
# Paths into a setting tree

A path names a place in a tree: a key, then keys after a dot and positions in
square brackets. A negative position counts from the end of the list. Setting
through a path makes what is missing on the way, and what is in the way gives
place to an empty table or list.
-/

namespace NotebookExtract.Settings

/-- One step of a path. -/
inductive PathStep where
  | key (name : Text)
  | position (n : Int)
deriving DecidableEq, Repr

/-- A path: a first key and further steps. -/
structure Path where
  head : Text
  steps : List PathStep
deriving DecidableEq, Repr

namespace Path

/-! ## Reading -/

/-- The characters of a key in a path. -/
def isKeyChar (c : Char) : Bool :=
  c.isAlphanum || c == '_' || c == '-' || c == ' '

/-- The positions that there are: those of 64 bits with a sign. -/
def isPosition (n : Int) : Bool :=
  -9223372036854775808 ≤ n && n ≤ 9223372036854775807

/-- A key and what follows it. -/
def takeKey? (s : Text) : Option (Text × Text) :=
  match s.takeWhile isKeyChar with
  | [] => none
  | key => some (key, s.dropWhile isKeyChar)

/-- A position and what follows it; blanks may stand around it. -/
def takePosition? (s : Text) : Option (Int × Text) :=
  let isBlank (c : Char) : Bool := c == ' ' || c == '\t'
  let s := s.dropWhile isBlank
  let negative := s.head? == some '-'
  let s := if negative then s.drop 1 else s
  match s.takeWhile Char.isDigit with
  | [] => none
  | digits =>
    let size : Int := Text.ofDigits 10 digits
    let n := if negative then -size else size
    if isPosition n then some (n, (s.dropWhile Char.isDigit).dropWhile isBlank) else none

/-- The steps after a path's first key. The fuel bounds their number. -/
def steps? : Nat → Text → Option (List PathStep)
  | _, [] => some []
  | 0, _ :: _ => none
  | fuel + 1, '.' :: rest => do
    let (key, rest) ← takeKey? rest
    return .key (lower key) :: (← steps? fuel rest)
  | fuel + 1, '[' :: rest => do
    let (n, rest) ← takePosition? rest
    match rest with
    | ']' :: rest => return .position n :: (← steps? fuel rest)
    | _ => none
  | _ + 1, _ => none

/-- The path that a text spells, if it spells one. -/
def ofText? (s : Text) : Option Path := do
  let (key, rest) ← takeKey? s
  return ⟨lower key, ← steps? rest.length rest⟩

/-! ## Setting -/

/-- The place in a list of the given length that a position names. -/
def place? (n : Int) (length : Nat) : Option Nat :=
  let k := if 0 ≤ n then n else length + n
  if 0 ≤ k then some k.toNat else none

/-- A list with at least `n` items. -/
def padTo (n : Nat) (items : List Tree) : List Tree :=
  items ++ List.replicate (n - items.length) .missing

/-- Sets a value below a tree. A position before the start of a list names no
place, and then nothing is set. -/
def setBelow (root : Tree) : List PathStep → Tree → Tree
  | [], value => value
  | [.key name], value => root.setKey name value
  | .key name :: rest, value =>
    let child := (root.entries.lookup name).getD .missing
    .table (Association.put root.entries name (setBelow child rest value))
  | .position n :: rest, value =>
    match place? n root.items.length with
    | none => root
    | some i =>
      let items := padTo (i + 1) root.items
      .list (items.set i (setBelow (items.getD i .missing) rest value))

/-- Sets a value at the place that a path names. -/
def set (root : Tree) (path : Path) (value : Tree) : Tree :=
  setBelow root (.key path.head :: path.steps) value

end Path

/-- Sets a top-level key of a file. The key is a path if it spells one, and else
a plain key. -/
def Tree.setTop (root : Tree) (key : Text) (value : Tree) : Tree :=
  match Path.ofText? key with
  | some path => path.set root value
  | none => root.setKey key value

/-- Lays the top-level keys of a file over a tree. -/
def Tree.layer (root : Tree) (file : Table) : Tree :=
  file.foldl (fun tree (key, value) => tree.setTop key value) root

end NotebookExtract.Settings
