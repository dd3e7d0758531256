import NotebookExtract.Toml.Date
import NotebookExtract.Toml.Number
import NotebookExtract.Toml.StringLiteral
import NotebookExtract.Toml.Table

/-!
# TOML documents

A document is a list of lines: entries, headers, comments and empty lines. An
inline table stands on one line and has no comma after its last entry; an array
may spread over lines and may have one. Values nest only so deep, and so do
dotted keys.
-/

namespace NotebookExtract.Toml

open Settings

/-- How deep values may nest, and how many parts a dotted key may have. -/
def nestingLimit : Nat := 79

namespace Reader

/-! ## Keys -/

/-- The characters of a key without quotes. -/
def isBareKey (c : Char) : Bool :=
  c.isAlphanum || c == '_' || c == '-'

/-- One part of a key. -/
def keyPart : Reader Text := do
  match ← peek with
  | some '"' => basicString
  | some '\'' => literalString
  | _ =>
    match ← takeRun isBareKey with
    | [] => failure
    | key => return key

/-- The parts of a key, with dots between them and blanks around them. -/
def keyParts : Nat → Reader (List Text)
  | 0 => failure
  | fuel + 1 => do
    blanks
    let part ← keyPart
    blanks
    if (← peek) = some '.' then
      advance
      return part :: (← keyParts fuel)
    else
      return [part]

/-- A key as its last part and those before. -/
def key : Reader (List Text × Text) := do
  let parts ← keyParts nestingLimit
  match parts.getLast? with
  | some last => return (parts.dropLast, last)
  | none => failure

/-! ## Values -/

/-- The items of an array, after its opening bracket or a comma. -/
def arrayRest (value : Reader Node) : Nat → Reader (List Node)
  | 0 => failure
  | fuel + 1 => do
    spread (← rounds)
    if (← peek) = some ']' then
      advance
      return []
    else
      let item ← value
      spread (← rounds)
      match ← peek with
      | some ',' =>
        advance
        return item :: (← arrayRest value fuel)
      | some ']' =>
        advance
        return [item]
      | _ => failure

/-- The entries of an inline table, from its first key on. -/
def inlineRest (value : Reader Node) : Nat → Entries → Reader Entries
  | 0, _ => failure
  | fuel + 1, entries => do
    let (parents, last) ← key
    word ['=']
    blanks
    let node ← value
    let entries ← insertDotted parents last node entries
    blanks
    match ← peek with
    | some ',' =>
      advance
      inlineRest value fuel entries
    | some '}' =>
      advance
      return entries
    | _ => failure

/-- An inline table, after its opening brace. -/
def inlineTable (value : Reader Node) : Reader Node := do
  blanks
  if (← peek) = some '}' then
    advance
    return .table .braces []
  else
    return .table .braces (← inlineRest value (← rounds) [])

/-- A value that starts here, with readers for what stands in brackets. -/
def valueWith (array table : Reader Node) : Reader Node := do
  match ← peek with
  | some '"' | some '\'' => return .value (.text (← string))
  | some '[' =>
    advance
    array
  | some '{' =>
    advance
    table
  | some 't' =>
    word "true".toList
    return .value (.bool true)
  | some 'f' =>
    word "false".toList
    return .value (.bool false)
  | _ =>
    match ← date? with
    | some date => return .value (.date date)
    | none => return .value (← number)

/-- A value that may nest as deep as the allowance. -/
def value : Nat → Reader Node
  | 0 => valueWith failure failure
  | n + 1 =>
    valueWith (do return .list (← arrayRest (value n) (← rounds))) (inlineTable (value n))

/-! ## Lines -/

/-- A line with a header. -/
def headerLine : Reader Statement := do
  if ← looksAt ['[', '['] then
    word ['[', '[']
    let (parents, last) ← key
    word [']', ']']
    lineTail
    return .elementHeader parents last
  else
    word ['[']
    let (parents, last) ← key
    word [']']
    lineTail
    return .header parents last

/-- A line with an entry. -/
def entryLine : Reader Statement := do
  let (parents, last) ← key
  word ['=']
  blanks
  let node ← value nestingLimit
  lineTail
  return .entry parents last node

/-- The lines of a document that say something. -/
def statements : Nat → Reader (List Statement)
  | 0 => failure
  | fuel + 1 => do
    blanks
    match ← peek with
    | none => return []
    | some '#' =>
      comment
      lineEnd
      statements fuel
    | some '\n' | some '\r' =>
      newline
      statements fuel
    | some '[' =>
      let line ← headerLine
      return line :: (← statements fuel)
    | some _ =>
      let line ← entryLine
      return line :: (← statements fuel)

end Reader

/-- A text without a byte order mark at its start. -/
def dropMark (text : Text) : Text :=
  match text with
  | '\ufeff' :: rest => rest
  | _ => text

/-- The table that a document describes, if it is TOML. A document as a whole is
no date. -/
def parse? (document : Text) : Option Table := do
  let (lines, _) ← Reader.statements (document.length + 1) (dropMark document)
  match ← (Node.table .header (← build lines [] [])).toTree? with
  | .table entries => return entries
  | _ => none

end NotebookExtract.Toml
