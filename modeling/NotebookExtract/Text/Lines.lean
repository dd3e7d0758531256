/-!
# Texts and their lines

A text is the list of its characters. It is cut into physical lines at the
line feed and at nothing else, so a carriage return belongs to its line, and
every text has at least one line: the empty text has one empty line.
-/

namespace NotebookExtract

/-- A piece of text, as the list of its Unicode scalar values. -/
abbrev Text := List Char

namespace Text

/-- The physical lines of a text, without their line feeds. -/
def lines (text : Text) : List Text :=
  text.splitOn '\n'

/-- Lines put back together, one line feed between neighbours. -/
def ofLines (ls : List Text) : Text :=
  ['\n'].intercalate ls

/-- Cutting a text into lines loses nothing but the line feeds. -/
@[simp] theorem ofLines_lines (text : Text) : ofLines (lines text) = text := by
  simp [ofLines, lines]

/-- Lines that hold no line feed are found again after joining them. -/
theorem lines_ofLines {ls : List Text} (hne : ls ≠ []) (h : ∀ l ∈ ls, '\n' ∉ l) :
    lines (ofLines ls) = ls :=
  List.splitOn_intercalate '\n' h hne

/-- A line feed between two texts puts the lines of one before those of the other. -/
theorem lines_append_cons (a b : Text) : lines (a ++ '\n' :: b) = lines a ++ lines b :=
  List.splitOn_append_cons_self a b

end Text

end NotebookExtract
