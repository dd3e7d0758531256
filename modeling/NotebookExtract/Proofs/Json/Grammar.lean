import NotebookExtract.Json.Skip

/-!
# JSON texts

The grammar that documents follow, said without any reader. A `Doc` is a JSON
text as its tokens nest: strings piece by piece and numbers digit by digit, but
nothing of the blanks between tokens and of the choice among spellings of one
piece. `Printed doc s` says that `s` is one of the ways to write `doc`.

A `Tree` is what a reader can make of a `Doc`. Some values nobody can read: a
number that is too large, a string with half a character, brackets that nest too
deep. They are harmless as long as nobody asks for them.
-/

namespace NotebookExtract.Json

/-- Blanks, which may stand between any two tokens. -/
def IsBlank (b : Text) : Prop := b.all isSpace = true

/-! ## Strings -/

/-- A piece of a string: a character, or one half of a character outside the basic
plane. -/
inductive Piece where
  | scalar (c : Char)
  | half (n : Nat)
deriving DecidableEq, Repr

/-- A string, piece by piece. -/
abbrev Literal := List Piece

/-- Four hexadecimal digits and their value. -/
structure HexFour (digits : Text) (n : Nat) : Prop where
  length_eq : digits.length = 4
  all_hex : digits.all Text.isHexDigit = true
  value_eq : Text.ofDigits 16 digits = n

/-- A code unit that is half a character. -/
def IsHalf (n : Nat) : Prop := isLeading n = true ∨ isTrailing n = true

/-- The ways to write a piece. -/
inductive Piece.Written : Piece → Text → Prop where
  /-- As it is, unless it is a control character, a quote or a backslash. -/
  | plain {c : Char} (hcontrol : 0x20 ≤ c.toNat) (hquote : c ≠ '"') (hslash : c ≠ '\\') :
      Written (.scalar c) [c]
  /-- By a backslash and a letter. -/
  | letter {e c : Char} (h : simpleEscape? e = some c) : Written (.scalar c) ['\\', e]
  /-- By the number of a character of the basic plane. -/
  | number {c : Char} {digits : Text} (h : HexFour digits c.toNat) :
      Written (.scalar c) ('\\' :: 'u' :: digits)
  /-- By the number of a code unit that is half a character. -/
  | half {n : Nat} {digits : Text} (h : HexFour digits n) (hn : IsHalf n) :
      Written (.half n) ('\\' :: 'u' :: digits)

namespace Literal

/-- The ways to write a string, from after its opening quote. -/
inductive Written : Literal → Text → Prop where
  | close : Written [] ['"']
  | cons {p : Piece} {l : Literal} {t s : Text} (hp : p.Written t) (hl : Written l s) :
      Written (p :: l) (t ++ s)

/-- The text that a string stands for. Halves have to come in pairs, a leading one
before a trailing one. -/
def text? : Literal → Option Text
  | [] => some []
  | .scalar c :: rest => (text? rest).map (c :: ·)
  | .half n :: .half m :: rest =>
    if isLeading n && isTrailing m then (text? rest).map (surrogatePair n m :: ·) else none
  | [.half _] => none
  | .half _ :: .scalar _ :: _ => none

end Literal

/-! ## Numbers -/

/-- Digits, at least one. -/
def IsDigits (digits : Text) : Prop := digits ≠ [] ∧ digits.all Char.isDigit = true

/-- The ways to write a fraction, or none. -/
inductive WrittenFraction : Option Text → Text → Prop where
  | absent : WrittenFraction none []
  | present {digits : Text} (h : IsDigits digits) : WrittenFraction (some digits) ('.' :: digits)

/-- The ways to write an exponent, or none. -/
inductive WrittenExponent : Option Int → Text → Prop where
  | absent : WrittenExponent none []
  | bare {letter : Char} {digits : Text} (hl : letter = 'e' ∨ letter = 'E') (h : IsDigits digits) :
      WrittenExponent (some (Text.ofDigits 10 digits)) (letter :: digits)
  | plus {letter : Char} {digits : Text} (hl : letter = 'e' ∨ letter = 'E') (h : IsDigits digits) :
      WrittenExponent (some (Text.ofDigits 10 digits)) (letter :: '+' :: digits)
  | minus {letter : Char} {digits : Text} (hl : letter = 'e' ∨ letter = 'E')
      (h : IsDigits digits) :
      WrittenExponent (some (-(Text.ofDigits 10 digits : Int))) (letter :: '-' :: digits)

/-- The ways to write a number. A leading zero stands alone. -/
inductive Numeral.Written : Numeral → Text → Prop where
  | mk {negative : Bool} {whole f e : Text} {fraction : Option Text} {exponent : Option Int}
      (hwhole : IsDigits whole) (hzero : ∀ d rest, whole ≠ '0' :: d :: rest)
      (hf : WrittenFraction fraction f) (he : WrittenExponent exponent e) :
      Written ⟨negative, whole, fraction, exponent⟩
        ((if negative then ['-'] else []) ++ (whole ++ (f ++ e)))

/-! ## Values -/

/-- A JSON text, as its tokens nest. -/
inductive Doc where
  | null
  | bool (b : Bool)
  | number (m : Numeral)
  | text (l : Literal)
  | array (items : List Doc)
  | object (entries : List (Literal × Doc))
deriving Repr

mutual

/-- The ways to write a value, from its first token to its last. -/
inductive Printed : Doc → Text → Prop where
  | null : Printed .null "null".toList
  | true : Printed (.bool true) "true".toList
  | false : Printed (.bool false) "false".toList
  | number {m : Numeral} {s : Text} (h : m.Written s) : Printed (.number m) s
  | text {l : Literal} {s : Text} (h : l.Written s) : Printed (.text l) ('"' :: s)
  | array {items : List Doc} {s : Text} (h : PrintedItems true items s) :
      Printed (.array items) ('[' :: s)
  | object {entries : List (Literal × Doc)} {s : Text} (h : PrintedEntries true entries s) :
      Printed (.object entries) ('{' :: s)

/-- The ways to write the items of an array up to its end, from after the opening
bracket or from after another item. -/
inductive PrintedItems : Bool → List Doc → Text → Prop where
  | close {first : Bool} {b : Text} (hb : IsBlank b) : PrintedItems first [] (b ++ [']'])
  | first {b p s : Text} {item : Doc} {items : List Doc} (hb : IsBlank b)
      (hp : Printed item p) (hs : PrintedItems false items s) :
      PrintedItems true (item :: items) (b ++ (p ++ s))
  | next {b b' p s : Text} {item : Doc} {items : List Doc} (hb : IsBlank b) (hb' : IsBlank b')
      (hp : Printed item p) (hs : PrintedItems false items s) :
      PrintedItems false (item :: items) (b ++ ',' :: (b' ++ (p ++ s)))

/-- The ways to write the entries of an object up to its end, from after the
opening brace or from after another entry. -/
inductive PrintedEntries : Bool → List (Literal × Doc) → Text → Prop where
  | close {first : Bool} {b : Text} (hb : IsBlank b) : PrintedEntries first [] (b ++ ['}'])
  | first {b k b₁ b₂ p s : Text} {key : Literal} {value : Doc} {entries : List (Literal × Doc)}
      (hb : IsBlank b) (hk : key.Written k) (hb₁ : IsBlank b₁) (hb₂ : IsBlank b₂)
      (hp : Printed value p) (hs : PrintedEntries false entries s) :
      PrintedEntries true ((key, value) :: entries)
        (b ++ '"' :: (k ++ (b₁ ++ ':' :: (b₂ ++ (p ++ s)))))
  | next {b b' k b₁ b₂ p s : Text} {key : Literal} {value : Doc}
      {entries : List (Literal × Doc)} (hb : IsBlank b) (hb' : IsBlank b') (hk : key.Written k)
      (hb₁ : IsBlank b₁) (hb₂ : IsBlank b₂) (hp : Printed value p)
      (hs : PrintedEntries false entries s) :
      PrintedEntries false ((key, value) :: entries)
        (b ++ ',' :: (b' ++ '"' :: (k ++ (b₁ ++ ':' :: (b₂ ++ (p ++ s))))))

end

/-- A whole text: one value, with blanks around it. -/
def Doc.Fills (doc : Doc) (s : Text) : Prop :=
  ∃ b p b', IsBlank b ∧ IsBlank b' ∧ Printed doc p ∧ s = b ++ (p ++ b')

/-! ## What can be made of a value -/

/-- What a reader can make of a value. -/
inductive Tree where
  | null
  | bool (b : Bool)
  | number (n : Number)
  | text (t : Text)
  | array (items : List Tree)
  | object (entries : List (Text × Tree))
  /-- A number that is too large, a string or a key with half a character, or
  brackets that nest too deep. -/
  | unreadable
deriving Repr

namespace Doc

/-- What a reader can make of a value, if brackets may nest so deep. -/
def tree : Nat → Doc → Tree
  | _, .null => .null
  | _, .bool b => .bool b
  | _, .number m =>
    match m.toNumber? with
    | some n => .number n
    | none => .unreadable
  | _, .text l =>
    match l.text? with
    | some t => .text t
    | none => .unreadable
  | 0, .array _ => .unreadable
  | n + 1, .array items => .array (items.map (tree n))
  | 0, .object _ => .unreadable
  | n + 1, .object entries =>
    match entries.mapM fun entry => entry.1.text?.map (·, tree n entry.2) with
    | some fields => .object fields
    | none => .unreadable

/-- What a reader can make of an entry of an object. -/
def field? (n : Nat) (entry : Literal × Doc) : Option (Text × Tree) :=
  entry.1.text?.map (·, entry.2.tree n)

theorem tree_array (n : Nat) (items : List Doc) :
    tree (n + 1) (.array items) = .array (items.map (tree n)) := rfl

theorem tree_object (n : Nat) (entries : List (Literal × Doc)) :
    tree (n + 1) (.object entries) =
      match entries.mapM (field? n) with
      | some fields => .object fields
      | none => .unreadable := rfl

end Doc

end NotebookExtract.Json
