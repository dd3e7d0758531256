import NotebookExtract.Scan.Mode
import NotebookExtract.Text.Blank

/-!
# Trailing comments

A line of code ends where an unquoted `#` starts its comment. Quotes are
followed through the line; inside a literal a backslash protects the character
after it, so an escaped quote does not end the literal. A literal that is still
open at the end of the line hides every `#` in it.
-/

namespace NotebookExtract.Scan

/-- The line up to its comment, walked from the given mode. -/
def codeFrom : Mode → Text → Text
  | _, [] => []
  | mode, [c] =>
    if mode = .code ∧ c = '#' then [] else [c]
  | mode, c :: d :: rest =>
    if mode.inLiteral = true ∧ c = '\\' then
      c :: d :: codeFrom mode rest
    else if mode = .code ∧ c = '#' then
      []
    else
      c :: codeFrom (mode.advance c) (d :: rest)

/-- The walk keeps a front part of the line as it is. -/
theorem codeFrom_isPrefix (mode : Mode) (line : Text) : codeFrom mode line <+: line := by
  fun_induction codeFrom mode line with
  | case1 => exact List.prefix_refl _
  | case2 => exact List.nil_prefix
  | case3 => exact List.prefix_refl _
  | case4 mode c d rest _ ih => simpa using ih
  | case5 => exact List.nil_prefix
  | case6 mode c d rest _ _ ih => simpa using ih

/-- A line without its trailing comment and without whitespace at its end. -/
def dropComment (line : Text) : Text :=
  Text.trimEnd (codeFrom .code line)

end NotebookExtract.Scan
