import NotebookExtract.Text.Lines

/-!
# Lexical modes

Where the scanner stands. Inside a line it is in code or in one of the two
one-line string literals; between lines it is in code or inside a documentation
block, and then the mode itself carries the delimiter that closes the block.
-/

namespace NotebookExtract

/-- The two delimiters of a documentation block. -/
inductive BlockQuote where
  | double
  | single
deriving DecidableEq, Repr

namespace BlockQuote

/-- The three characters of the delimiter. -/
def delimiter : BlockQuote → Text
  | .double => ['"', '"', '"']
  | .single => ['\'', '\'', '\'']

/-- Both delimiters, in the order in which a line is tested for them. -/
def all : List BlockQuote := [.double, .single]

/-- The delimiter that a text starts with, if any. -/
def leading? (text : Text) : Option BlockQuote :=
  all.find? fun q => q.delimiter.isPrefixOf text

end BlockQuote

/-- The lexical context at a position of the source. -/
inductive Mode where
  /-- Plain code: a quote opens a literal and `#` opens a comment. -/
  | code
  /-- Inside a literal in single quotes. -/
  | single
  /-- Inside a literal in double quotes. -/
  | double
  /-- Inside a documentation block that `q` closes. -/
  | block (q : BlockQuote)
deriving DecidableEq, Repr

namespace Mode

/-- The mode after one unescaped character. A quote of the other kind inside a
literal is an ordinary character, and so is every character inside a block. -/
def advance : Mode → Char → Mode
  | .code, '\'' => .single
  | .code, '"' => .double
  | .single, '\'' => .code
  | .double, '"' => .code
  | mode, _ => mode

/-- Whether the position is inside a one-line literal. -/
def inLiteral : Mode → Bool
  | .single | .double => true
  | .code | .block _ => false

/-- Whether the position is inside a documentation block. -/
def inBlock : Mode → Bool
  | .block _ => true
  | .code | .single | .double => false

end Mode

end NotebookExtract
