import NotebookExtract.Text.Invisible

/-!
# Quoted text

A text between double quotes, as messages show it. Quotes and backslashes are
escaped, the common controls have a letter, and a character without a shape of
its own is given by its code point in lower-case hexadecimal.
-/

namespace NotebookExtract.Text

/-- A character that is named by its code point. -/
def codePoint (c : Char) : Text :=
  ['\\', 'u', '\x7b'] ++ Nat.toDigits 16 c.toNat ++ ['\x7d']

/-- One character inside a quoted text. -/
def quotedChar (c : Char) : Text :=
  if c = '"' then ['\\', '"']
  else if c = '\\' then ['\\', '\\']
  else if c = '\n' then ['\\', 'n']
  else if c = '\r' then ['\\', 'r']
  else if c = '\t' then ['\\', 't']
  else if c.toNat = 0 then ['\\', '0']
  else if isInvisible c then codePoint c
  else [c]

/-- A text between double quotes. -/
def quoted (text : Text) : Text :=
  '"' :: text.flatMap quotedChar ++ ['"']

end NotebookExtract.Text
