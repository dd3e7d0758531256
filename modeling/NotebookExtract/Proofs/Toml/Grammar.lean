import NotebookExtract.Toml.Document

/-!
# TOML texts

The grammar of setting files, said without any reader: which texts are written forms of a
value, of a line and of a document. A line is a header in brackets or an entry with a
dotted key; a value is a truth value, an integer, a string on one line, an array or a
table in braces. Blanks stand between tokens, comments at the end of lines, and lines end
with or without a carriage return.

An outline is what a document sets: entries, groups of entries whose keys share their
first part, and tables under headers. Its table can be read off it.
-/

namespace NotebookExtract.Toml

open Settings

/-! ## Between tokens -/

/-- Blanks, which may stand between the tokens of a line. -/
def IsBlanks (b : Text) : Prop := b.all Reader.isBlank = true

/-- A comment, or nothing. -/
inductive WrittenRemark : Text → Prop where
  | absent : WrittenRemark []
  | present {c : Text} (h : c.all Reader.isCommentChar = true) : WrittenRemark ('#' :: c)

/-- The end of a line. -/
inductive LineBreak : Text → Prop where
  | short : LineBreak ['\n']
  | long : LineBreak ['\r', '\n']

/-- What may stand between the tokens of an array: blanks, and lines without a token. -/
inductive Gap : Text → Prop where
  | blanks {b : Text} (hb : IsBlanks b) : Gap b
  | line {b r e g : Text} (hb : IsBlanks b) (hr : WrittenRemark r) (he : LineBreak e)
      (hg : Gap g) : Gap (b ++ (r ++ (e ++ g)))

/-! ## Strings and integers -/

/-- The letters behind a backslash, and what they stand for. -/
def escapeLetters : List (Char × Char) :=
  [('b', '\x08'), ('t', '\t'), ('n', '\n'), ('f', '\x0c'), ('r', '\r'), ('"', '"'),
    ('\\', '\\')]

/-- How many digits follow the letter of a code point. -/
def codeLengths : List (Char × Nat) := [('u', 4), ('U', 8)]

/-- The ways to write a character between double quotes. -/
inductive WrittenChar : Char → Text → Prop where
  | plain {c : Char} (h : Reader.isPlain c = true) (hquote : c ≠ '"') (hslash : c ≠ '\\') :
      WrittenChar c [c]
  | letter {e c : Char} (h : (e, c) ∈ escapeLetters) : WrittenChar c ['\\', e]
  | code {u c : Char} {digits : Text} (hlength : (u, digits.length) ∈ codeLengths)
      (hdigits : digits.all Text.isHexDigit = true)
      (hvalue : Text.ofDigits 16 digits = c.toNat) : WrittenChar c ('\\' :: u :: digits)

/-- The ways to write a text between double quotes, from after the opening quote. -/
inductive WrittenBasic : Text → Text → Prop where
  | close : WrittenBasic [] ['"']
  | cons {c : Char} {t p s : Text} (hc : WrittenChar c p) (h : WrittenBasic t s) :
      WrittenBasic (c :: t) (p ++ s)

/-- The ways to write a sign, and whether it is negative. -/
inductive WrittenSign : Bool → Text → Prop where
  | absent : WrittenSign false []
  | plus : WrittenSign false ['+']
  | minus : WrittenSign true ['-']

/-- The digits of an integer: at least one, and no zero before others. -/
structure IsWhole (digits : Text) : Prop where
  nonempty : digits ≠ []
  all_digits : digits.all Char.isDigit = true
  leading : ∀ d rest, digits ≠ '0' :: d :: rest

/-- The integer of a sign and digits. -/
def signed (negative : Bool) (digits : Text) : Int :=
  if negative then -(Text.ofDigits 10 digits : Int) else Text.ofDigits 10 digits

/-! ## Values -/

/-- The ways to write a value that has no parts. -/
inductive WrittenScalar : Tree → Text → Prop where
  | isTrue : WrittenScalar (.bool true) "true".toList
  | isFalse : WrittenScalar (.bool false) "false".toList
  | basic {t s : Text} (h : WrittenBasic t s) : WrittenScalar (.text t) ('"' :: s)
  | literal {t : Text} (h : t.all (fun c => Reader.isPlain c && c != '\'') = true) :
      WrittenScalar (.text t) ('\'' :: (t ++ ['\'']))
  | integer {negative : Bool} {sign digits : Text} (hsign : WrittenSign negative sign)
      (hdigits : IsWhole digits) (hleast : -9223372036854775808 ≤ signed negative digits)
      (hmost : signed negative digits ≤ 9223372036854775807) :
      WrittenScalar (.int (signed negative digits)) (sign ++ digits)

/-- The ways to write the items of an array up to its end, from after the opening bracket or
a comma. -/
inductive WrittenItems (one : Tree → Text → Prop) : List Tree → Text → Prop where
  | close {g : Text} (hg : Gap g) : WrittenItems one [] (g ++ [']'])
  | last {g s g' : Text} {item : Tree} (hg : Gap g) (hone : one item s) (hg' : Gap g') :
      WrittenItems one [item] (g ++ (s ++ (g' ++ [']'])))
  | cons {g s g' s' : Text} {item : Tree} {items : List Tree} (hg : Gap g) (hone : one item s)
      (hg' : Gap g') (h : WrittenItems one items s') :
      WrittenItems one (item :: items) (g ++ (s ++ (g' ++ ',' :: s')))

/-- A key without quotes. -/
structure IsBare (key : Text) : Prop where
  nonempty : key ≠ []
  bare : key.all Reader.isBareKey = true

/-- The ways to write the entries of a table in braces up to its end, from the first key
on. -/
inductive WrittenPairs (one : Tree → Text → Prop) : Table → Text → Prop where
  | last {b key b₁ b₂ s b₃ : Text} {tree : Tree} (hb : IsBlanks b) (hkey : IsBare key)
      (hb₁ : IsBlanks b₁) (hb₂ : IsBlanks b₂) (hone : one tree s) (hb₃ : IsBlanks b₃) :
      WrittenPairs one [(key, tree)] (b ++ (key ++ (b₁ ++ '=' :: (b₂ ++ (s ++ (b₃ ++ ['}']))))))
  | cons {b key b₁ b₂ s b₃ s' : Text} {tree : Tree} {entries : Table} (hb : IsBlanks b)
      (hkey : IsBare key) (hb₁ : IsBlanks b₁) (hb₂ : IsBlanks b₂) (hone : one tree s)
      (hb₃ : IsBlanks b₃) (h : WrittenPairs one entries s') :
      WrittenPairs one ((key, tree) :: entries)
        (b ++ (key ++ (b₁ ++ '=' :: (b₂ ++ (s ++ (b₃ ++ ',' :: s'))))))

/-- The ways to write a value, given those for what stands in brackets. -/
inductive WrittenWith (one : Tree → Text → Prop) : Tree → Text → Prop where
  | scalar {tree : Tree} {s : Text} (h : WrittenScalar tree s) : WrittenWith one tree s
  | array {items : List Tree} {s : Text} (h : WrittenItems one items s) :
      WrittenWith one (.list items) ('[' :: s)
  | empty {b : Text} (hb : IsBlanks b) : WrittenWith one (.table []) ('{' :: (b ++ ['}']))
  | braces {entries : Table} {s : Text} (h : WrittenPairs one entries s)
      (hkeys : (entries.map Prod.fst).Nodup) : WrittenWith one (.table entries) ('{' :: s)

/-- The ways to write a value in which brackets nest so deep at most. -/
def Written : Nat → Tree → Text → Prop
  | 0 => WrittenScalar
  | n + 1 => WrittenWith (Written n)

/-! ## Lines -/

/-- The ways to write a dotted key. -/
inductive WrittenKey : List Text → Text → Prop where
  | last {b key b' : Text} (hb : IsBlanks b) (hkey : IsBare key) (hb' : IsBlanks b') :
      WrittenKey [key] (b ++ (key ++ b'))
  | cons {b key b' s : Text} {keys : List Text} (hb : IsBlanks b) (hkey : IsBare key)
      (hb' : IsBlanks b') (h : WrittenKey keys s) :
      WrittenKey (key :: keys) (b ++ (key ++ (b' ++ '.' :: s)))

/-- A line that says something. A key is given as its last part and those before. -/
inductive Line where
  | header (parents : List Text) (key : Text)
  | entry (parents : List Text) (key : Text) (tree : Tree)

/-- The ways to write a line that says something, without its end. -/
inductive WrittenLine : Line → Text → Prop where
  | header {parents : List Text} {key b s b' r : Text} (hb : IsBlanks b)
      (hkey : WrittenKey (parents ++ [key]) s) (hlength : parents.length < nestingLimit)
      (hb' : IsBlanks b') (hr : WrittenRemark r) :
      WrittenLine (.header parents key) (b ++ '[' :: (s ++ ']' :: (b' ++ r)))
  | entry {parents : List Text} {key s b v b' r : Text} {tree : Tree}
      (hkey : WrittenKey (parents ++ [key]) s) (hlength : parents.length < nestingLimit)
      (hb : IsBlanks b) (hvalue : Written nestingLimit tree v) (hb' : IsBlanks b')
      (hr : WrittenRemark r) :
      WrittenLine (.entry parents key tree) (s ++ '=' :: (b ++ (v ++ (b' ++ r))))

/-- The ways to write lines, with a text behind them. -/
inductive WrittenLines (rest : Text) : List Line → Text → Prop where
  | rest : WrittenLines rest [] rest
  | remark {b r e s : Text} {lines : List Line} (hb : IsBlanks b) (hr : WrittenRemark r)
      (he : LineBreak e) (h : WrittenLines rest lines s) :
      WrittenLines rest lines (b ++ (r ++ (e ++ s)))
  | cons {p e s : Text} {line : Line} {lines : List Line} (hline : WrittenLine line p)
      (he : LineBreak e) (h : WrittenLines rest lines s) :
      WrittenLines rest (line :: lines) (p ++ (e ++ s))

/-- The ways to write the last line, which says something or not and has no end. -/
inductive WrittenLast : List Line → Text → Prop where
  | remark {b r : Text} (hb : IsBlanks b) (hr : WrittenRemark r) : WrittenLast [] (b ++ r)
  | line {line : Line} {p : Text} (h : WrittenLine line p) : WrittenLast [line] p

/-- A line that breaks off: behind a key stands neither what has to follow, an equals sign or
a bracket, nor what could go on with the key. -/
inductive BreaksOff : Text → Prop where
  | entry {b key b' rest : Text} (hb : IsBlanks b) (hkey : IsBare key) (hb' : IsBlanks b')
      (hrest : ∀ c ∈ rest.head?, c ≠ '=' ∧ c ≠ '.' ∧ Reader.isBlank c = false ∧
        (Reader.isBareKey c = true → b' ≠ [])) :
      BreaksOff (b ++ (key ++ (b' ++ rest)))
  | header {b₀ b key b' rest : Text} (hb₀ : IsBlanks b₀) (hb : IsBlanks b) (hkey : IsBare key)
      (hb' : IsBlanks b') (hrest : ∀ c ∈ rest.head?, c ≠ ']' ∧ c ≠ '.' ∧
        Reader.isBlank c = false ∧ (Reader.isBareKey c = true → b' ≠ [])) :
      BreaksOff (b₀ ++ '[' :: (b ++ (key ++ (b' ++ rest))))

/-- What may stand before the lines of a document: a byte order mark, or nothing. -/
inductive WrittenMark : Text → Prop where
  | absent : WrittenMark []
  | present : WrittenMark ['\ufeff']

/-- The ways to write a document with some lines. -/
inductive WrittenDocument : List Line → Text → Prop where
  | mk {lines last : List Line} {mark rest s : Text} (hmark : WrittenMark mark)
      (hlines : WrittenLines rest lines s) (hlast : WrittenLast last rest) :
      WrittenDocument (lines ++ last) (mark ++ s)

/-- The ways to write lines of which the last one breaks off. -/
inductive WrittenBroken : Text → Prop where
  | mk {lines : List Line} {mark rest s : Text} (hmark : WrittenMark mark)
      (hlines : WrittenLines rest lines s) (hrest : BreaksOff rest) : WrittenBroken (mark ++ s)

/-! ## Documents -/

/-- What a document sets before its first header. -/
inductive Part where
  /-- An entry. -/
  | entry (key : Text) (tree : Tree)
  /-- Entries whose keys have the same first part. -/
  | dotted (key : Text) (first : Text × Tree) (others : Table)

namespace Part

/-- The lines that set a part. -/
def lines : Part → List Line
  | .entry key tree => [.entry [] key tree]
  | .dotted key first others => (first :: others).map fun (name, tree) => .entry [key] name tree

/-- What the lines set. -/
def pair : Part → Text × Tree
  | .entry key tree => (key, tree)
  | .dotted key first others => (key, .table (first :: others))

/-- No key is given twice. -/
def Distinct : Part → Prop
  | .entry _ _ => True
  | .dotted _ first others => ((first :: others).map Prod.fst).Nodup

end Part

/-- What a document sets: first what stands before its headers, then the table of each
header. -/
structure Outline where
  parts : List Part
  tables : List (Text × Table)

namespace Outline

variable (outline : Outline)

/-- The lines of the table under a header. -/
def tableLines (table : Text × Table) : List Line :=
  .header [] table.1 :: table.2.map fun (name, tree) => .entry [] name tree

/-- The lines of a document. -/
def lines : List Line :=
  outline.parts.flatMap Part.lines ++ outline.tables.flatMap tableLines

/-- The table that a document describes. -/
def table : Table :=
  outline.parts.map Part.pair ++ outline.tables.map fun (key, entries) => (key, .table entries)

/-- No key is given twice. -/
structure Distinct : Prop where
  keys : (outline.table.map Prod.fst).Nodup
  parts : ∀ part ∈ outline.parts, part.Distinct
  tables : ∀ table ∈ outline.tables, (table.2.map Prod.fst).Nodup

end Outline

end NotebookExtract.Toml
