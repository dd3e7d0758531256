import NotebookExtract.Settings.Tree
import NotebookExtract.Toml.Date

/-!
# Building the tables of a document

A table of a document comes to be in one of four ways: by a header of its own,
as a parent that a longer header implies, by a dotted key, or in braces. How it
came to be decides how it may grow. A header may name a table that so far was
only implied, and no other table that exists. A dotted key may extend tables that
dotted keys made, and no others. A table in braces does not grow. An array of
tables grows by its own headers, and longer headers reach into its last table.

The entries of a table keep the order in which they came. It decides one thing: a
table whose first key is a certain mark is no table but a date, given as a string
under that key.
-/

namespace NotebookExtract.Toml

open Settings

/-- How a table came to be. -/
inductive Origin where
  | header
  | implied
  | dotted
  | braces
deriving DecidableEq, Repr

/-- Part of a document that may still grow. -/
inductive Node where
  /-- A value without parts. -/
  | value (tree : Tree)
  | list (items : List Node)
  | table (origin : Origin) (entries : List (Text × Node))
  /-- An array of tables, the last one still open. -/
  | tables (nodes : List Node)

/-- The entries of a table that may still grow. -/
abbrev Entries := List (Text × Node)

/-! ## The finished document -/

/-- The first key of a table that stands for a date. -/
def dateMark : Text := "$__toml_private_datetime".toList

/-- The date that a node spells: only a string spells one. -/
def Node.toDate? : Node → Option Tree
  | .value (.text t) => if Reader.isDate t then some (.date t) else none
  | _ => none

mutual

/-- The finished tree of a node. Of a table that stands for a date, the entries
after the first are not looked at. -/
def Node.toTree? : Node → Option Tree
  | .value tree => some tree
  | .list items => (nodesToTrees? items).map .list
  | .table _ entries =>
    match entries.head? with
    | some (key, node) =>
      if key = dateMark then node.toDate? else (entriesToTable? entries).map .table
    | none => some (.table [])
  | .tables nodes => (nodesToTrees? nodes).map .list

/-- The finished table of some entries. -/
def entriesToTable? : List (Text × Node) → Option (List (Text × Tree))
  | [] => some []
  | (key, node) :: rest => do
    let tree ← node.toTree?
    return (key, tree) :: (← entriesToTable? rest)

/-- The finished trees of some nodes. -/
def nodesToTrees? : List Node → Option (List Tree)
  | [] => some []
  | node :: rest => do
    let tree ← node.toTree?
    return tree :: (← nodesToTrees? rest)

end

/-! ## Growing -/

/-- Changes the table at a path below one that came to be as given. Missing
tables on the way are made with the origin `made`; if that is a dotted key, the
path may not pass a table with a header of its own. No path passes braces. -/
def editAt (made : Origin) (edit : Origin → Entries → Option Entries) :
    List Text → Origin → Entries → Option Entries
  | [], origin, entries => edit origin entries
  | key :: rest, _, entries =>
    match entries.lookup key with
    | none => do
      return Association.put entries key (.table made (← editAt made edit rest made []))
    | some (.value _) | some (.list _) => none
    | some (.table origin inner) =>
      if origin = .braces ∨ (made = .dotted ∧ origin = .header) then
        none
      else do
        return Association.put entries key (.table origin (← editAt made edit rest origin inner))
    | some (.tables nodes) =>
      match nodes.getLast? with
      | some (.table origin inner) => do
        let last := Node.table origin (← editAt made edit rest origin inner)
        return Association.put entries key (.tables (nodes.dropLast ++ [last]))
      | _ => none

/-- Adds an entry under a dotted key, given as its last part and those before. -/
def insertDotted (parents : List Text) (key : Text) (value : Node)
    (entries : Entries) : Option Entries :=
  let add (origin : Origin) (entries : Entries) : Option Entries :=
    -- below dotted keys, only tables that dotted keys made may grow
    if parents ≠ [] ∧ origin ≠ .dotted then none
    else
      match entries.lookup key with
      | some _ => none
      | none => some (Association.put entries key value)
  editAt .dotted add parents .header entries

/-- Opens the table of a header. One that so far was implied goes behind its
siblings. -/
def openTable (parents : List Text) (key : Text) (entries : Entries) : Option Entries :=
  let start (_ : Origin) (entries : Entries) : Option Entries :=
    match entries.lookup key with
    | none => some (Association.put entries key (.table .header []))
    | some (.table .implied inner) =>
      some (Association.erase entries key ++ [(key, .table .header inner)])
    | some _ => none
  editAt .implied start parents .header entries

/-- Opens a further table of an array of tables. -/
def openElement (parents : List Text) (key : Text) (entries : Entries) : Option Entries :=
  let start (_ : Origin) (entries : Entries) : Option Entries :=
    let fresh := Node.table .header []
    match entries.lookup key with
    | none => some (Association.put entries key (.tables [fresh]))
    | some (.tables nodes) => some (Association.put entries key (.tables (nodes ++ [fresh])))
    | some _ => none
  editAt .implied start parents .header entries

/-- A line of a document that says something. A key is given as its last part
and those before. -/
inductive Statement where
  | header (parents : List Text) (key : Text)
  | elementHeader (parents : List Text) (key : Text)
  | entry (parents : List Text) (key : Text) (value : Node)

/-- Carries out statements from the table that the last header opened. -/
def build : List Statement → List Text → Entries → Option Entries
  | [], _, entries => some entries
  | .header parents key :: rest, _, entries => do
    build rest (parents ++ [key]) (← openTable parents key entries)
  | .elementHeader parents key :: rest, _, entries => do
    build rest (parents ++ [key]) (← openElement parents key entries)
  | .entry parents key value :: rest, current, entries => do
    let add (_ : Origin) (inner : Entries) := insertDotted parents key value inner
    build rest current (← editAt .implied add current .header entries)

end NotebookExtract.Toml
