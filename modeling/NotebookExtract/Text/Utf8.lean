import NotebookExtract.Text.Lines

/-!
# Texts as bytes

Files, streams and arguments are strings of bytes, and UTF-8 spells a text in them.
Bytes are decoded one by one: the first byte of a character says how many follow and
between which bounds the next one lies, so that no character has two spellings and
none is beyond the code points. Where bytes spell no character, the longest start of
one is a single fault. A text is what bytes without a fault spell; where a text is
wanted at any price, every fault becomes the replacement character.
-/

namespace NotebookExtract

/-- A string of bytes. -/
abbrev Bytes := List UInt8

namespace Text

/-- The bytes of a text. -/
def toUtf8 (text : Text) : Bytes :=
  text.flatMap String.utf8EncodeChar

/-- A character whose first bytes have been read. -/
structure Unfinished where
  /-- How many bytes come after the next one. -/
  later : Nat
  /-- The bits that have been read. -/
  bits : Nat
  /-- The bounds of the next byte. -/
  low : Nat := 0x80
  high : Nat := 0xBF
deriving DecidableEq, Repr

/-- The start of a character of more than one byte, by the first of them. -/
def Unfinished.start? (n : Nat) : Option Unfinished :=
  if 0xC2 ≤ n ∧ n ≤ 0xDF then
    some { later := 0, bits := n - 0xC0 }
  else if 0xE0 ≤ n ∧ n ≤ 0xEF then
    -- the smallest ones have shorter spellings, and some in between are no characters
    some { later := 1, bits := n - 0xE0,
           low := if n = 0xE0 then 0xA0 else 0x80, high := if n = 0xED then 0x9F else 0xBF }
  else if 0xF0 ≤ n ∧ n ≤ 0xF4 then
    some { later := 2, bits := n - 0xF0,
           low := if n = 0xF0 then 0x90 else 0x80, high := if n = 0xF4 then 0x8F else 0xBF }
  else
    none

/-- A byte between characters: what it yields, where `none` is a fault, and the
character that it starts. -/
def decodeFirst (byte : UInt8) : List (Option Char) × Option Unfinished :=
  if byte.toNat < 0x80 then ([some (Char.ofNat byte.toNat)], none)
  else
    match Unfinished.start? byte.toNat with
    | some start => ([], some start)
    | none => ([none], none)

/-- A byte after the start of a character. One that does not fit is a fault and
stands between characters. -/
def decodeNext (start : Unfinished) (byte : UInt8) : List (Option Char) × Option Unfinished :=
  if start.low ≤ byte.toNat ∧ byte.toNat ≤ start.high then
    let bits := start.bits * 64 + (byte.toNat - 0x80)
    match start.later with
    | 0 => ([some (Char.ofNat bits)], none)
    | later + 1 => ([], some { later := later, bits := bits })
  else
    let (found, next) := decodeFirst byte
    (none :: found, next)

/-- The characters that bytes spell after the start of one, with their faults. -/
def decodeFrom : Option Unfinished → Bytes → List (Option Char)
  | none, [] => []
  | some _, [] => [none]
  | none, byte :: rest => (decodeFirst byte).1 ++ decodeFrom (decodeFirst byte).2 rest
  | some start, byte :: rest =>
    (decodeNext start byte).1 ++ decodeFrom (decodeNext start byte).2 rest

/-- The text that bytes spell, unless they have a fault. -/
def ofUtf8? (bytes : Bytes) : Option Text :=
  (decodeFrom none bytes).mapM id

/-- The text that bytes spell, with a mark in the place of every fault. -/
def ofUtf8Lossy (bytes : Bytes) : Text :=
  (decodeFrom none bytes).map (·.getD '\ufffd')

end Text

end NotebookExtract
