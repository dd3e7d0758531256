import NotebookExtract.Artifact.Render
import NotebookExtract.Proofs.Reduce
import NotebookExtract.Proofs.Strip

/-!
# A script scanned as one source

A script is made of sections: a heading, and below it prose as comments or code
as it was kept. Scanned again as one source, every section starts and ends in
code, its heading and its prose leave nothing, and its code stays line by line.
So stripping a script gives the code of its cells back.
-/

namespace NotebookExtract.Render

open Scan

variable {options : Scan.Options} {cell : Cell}

/-! ## The lines of a section -/

/-- A heading is one line. -/
theorem not_mem_heading (cell : Cell) : '\n' ∉ heading cell := by
  have hnumber : '\n' ∉ Text.ofNat (cell.index + 1) := by
    intro hmem
    have hdigit : '\n'.isDigit = true :=
      Nat.isDigit_of_mem_toDigits (show 0 < 10 by decide) (show 10 ≤ 10 by decide) hmem
    exact absurd hdigit (by decide)
  have hlabel : '\n' ∉ cell.kind.label := by cases cell.kind <;> decide
  have hparts : heading cell = "Cell ".toList ++ Text.ofNat (cell.index + 1) ++
      " (".toList ++ cell.kind.label ++ [')'] := rfl
  rw [hparts]
  simp only [List.mem_append, not_or]
  exact ⟨⟨⟨⟨by decide, hnumber⟩, by decide⟩, hlabel⟩, by decide⟩

/-- Every line of prose becomes one comment. -/
theorem lines_commentOut (text : Text) :
    Text.lines (commentOut text) = (Text.lines text).map commentLine := by
  refine Text.lines_ofLines (by simp [Text.lines_ne_nil]) ?_
  intro line hline
  obtain ⟨prose, hprose, rfl⟩ := List.mem_map.mp hline
  have hone := Text.not_mem_of_mem_lines hprose
  unfold commentLine
  split <;> simp [hone]

/-- The first line of a section is its heading, the rest is the cell. -/
theorem lines_scriptSection (cell : Cell) :
    Text.lines (scriptSection cell) = ('#' :: ' ' :: heading cell) ::
      if cell.kind = .markdown then (Text.lines cell.text).map commentLine
      else Text.lines cell.text := by
  have hhead : '\n' ∉ '#' :: ' ' :: heading cell := by simp [not_mem_heading]
  have hsection : scriptSection cell = ('#' :: ' ' :: heading cell) ++ '\n' ::
      (if cell.kind = .markdown then commentOut cell.text else cell.text) := rfl
  rw [hsection, Text.lines_append_cons, Text.lines_of_not_mem hhead]
  split
  · rw [lines_commentOut]
    rfl
  · rfl

/-! ## The scan of a section -/

/-- A line that starts with `#` leaves nothing. -/
theorem inert_hash (hl : options.lineComments = true) (rest : Text) :
    Inert options ('#' :: rest) :=
  inert_comment hl Text.isBlank_nil rest

/-- Prose leaves nothing, line by line. -/
theorem inert_commentLine (hl : options.lineComments = true) (line : Text) :
    Inert options (commentLine line) := by
  unfold commentLine
  split
  · exact inert_hash hl []
  · exact inert_hash hl (' ' :: line)

/-- The lines of code that a cell contributes to a script. -/
def codeLines (cell : Cell) : List Text :=
  if cell.kind = .code then Text.lines cell.text else []

/-- A section whose code is settled is scanned from code to code, and its code is
what is kept. -/
theorem scanLines_scriptSection (hl : options.lineComments = true) (hraw : cell.kind ≠ .raw)
    (hcode : cell.kind = .code → ∀ line ∈ Text.lines cell.text, Settled options line) :
    scanLines options .code (Text.lines (scriptSection cell)) = (.code, codeLines cell) := by
  have hhead : scanLine options .code ('#' :: ' ' :: heading cell) = (.code, none) :=
    inert_hash hl _
  rw [lines_scriptSection, scanLines_cons, hhead]
  cases hkind : cell.kind with
  | raw => exact absurd hkind hraw
  | code =>
    have hbody := scanLines_of_settled (hcode hkind)
    simp [codeLines, hkind, hbody]
  | markdown =>
    have hprose : ∀ line ∈ (Text.lines cell.text).map commentLine, Inert options line := by
      intro line hline
      obtain ⟨prose, -, rfl⟩ := List.mem_map.mp hline
      exact inert_commentLine hl prose
    have hbody := scanLines_of_inert hprose
    simp [codeLines, hkind, hbody]

/-- The two line feeds between sections make one empty line. -/
theorem lines_intercalate_cons (first next : Text) (rest : List Text) :
    Text.lines ("\n\n".toList.intercalate (first :: next :: rest)) =
      Text.lines first ++ [] :: Text.lines ("\n\n".toList.intercalate (next :: rest)) := by
  have hlines := Text.lines_append_cons first
    ('\n' :: "\n\n".toList.intercalate (next :: rest))
  have hsep := Text.lines_append_cons [] ("\n\n".toList.intercalate (next :: rest))
  rw [List.nil_append] at hsep
  rw [hsep] at hlines
  simpa using hlines

/-- Sections that are scanned from code to code can be put one after the other:
the empty line between them leaves nothing. -/
theorem scanLines_sections {cells : List Cell}
    (h : ∀ cell ∈ cells,
      scanLines options .code (Text.lines (scriptSection cell)) = (.code, codeLines cell)) :
    scanLines options .code (Text.lines ("\n\n".toList.intercalate (cells.map scriptSection))) =
      (.code, cells.flatMap codeLines) := by
  have hempty : scanLine options .code [] = (.code, none) :=
    inert_of_isBlank options Text.isBlank_nil
  induction cells with
  | nil =>
    -- the empty script still has one line, which is blank
    show scanLines options .code [[]] = _
    rw [scanLines_cons, hempty]
    rfl
  | cons cell rest ih =>
    have hcell := h cell List.mem_cons_self
    have hrest := ih fun c hc => h c (List.mem_cons_of_mem cell hc)
    cases rest with
    | nil => simpa using hcell
    | cons next rest =>
      rw [List.map_cons] at hrest
      rw [List.map_cons, List.map_cons, lines_intercalate_cons, scanLines_append_of_code hcell,
        scanLines_cons, hempty, hrest]
      rfl

/-! ## The script of a reduction -/

/-- The code in a script is that of the code cells: leaving the raw cells out
takes no code away, and no kept cell is blank. -/
theorem flatMap_codeLines {cells : List Cell} (h : ∀ cell ∈ cells, Text.isBlank cell.text = false) :
    (cells.filter isRendered).flatMap codeLines =
      ((cells.filter (·.kind == .code)).map (·.text)).flatMap Text.lines := by
  induction cells with
  | nil => rfl
  | cons cell rest ih =>
    have hnb := h cell List.mem_cons_self
    have hrest := ih fun c hc => h c (List.mem_cons_of_mem cell hc)
    cases hkind : cell.kind <;> simp [isRendered, codeLines, hkind, hnb, hrest]

/-- Code that was stripped at all is settled. -/
theorem settled_of_stripped {options : Reduce.Options} {blocks : List Block} {r : Reduction}
    (hstrip : options.stripComments = true) (hnoop : options.scan.isNoop = false)
    (h : reduce options blocks = .ok r) (hcell : cell ∈ r.cells) (hcode : cell.kind = .code) :
    ∀ line ∈ Text.lines cell.text, Settled options.scan line := by
  -- the text of the cell is itself a result of stripping, and not a blank one
  have hnb := not_isBlank_of_mem_cells h hcell
  obtain ⟨text, htext⟩ := exists_strip_of_mem_cells hstrip h hcell hcode
  rw [htext] at hnb ⊢
  rw [lines_strip hnoop hnb]
  intro line hmem
  exact (mem_scanLines_lines hmem).1

/-- The code of a reduction with comments removed is settled. -/
theorem settled_of_mem_cells {options : Reduce.Options} {blocks : List Block} {r : Reduction}
    (hstrip : options.stripComments = true) (hline : options.scan.lineComments = true)
    (h : reduce options blocks = .ok r) (hcell : cell ∈ r.cells) (hcode : cell.kind = .code) :
    ∀ line ∈ Text.lines cell.text, Settled options.scan line := by
  have hnoop : options.scan.isNoop = false := by simp [Scan.Options.isNoop, hline]
  exact settled_of_stripped hstrip hnoop h hcell hcode

/-- **A script holds exactly the code.** Stripped as one source, the script of a
reduction gives the texts of its code cells, in order and joined by line feeds. -/
theorem strip_script {options : Reduce.Options} {blocks : List Block} {r : Reduction}
    (hstrip : options.stripComments = true) (hline : options.scan.lineComments = true)
    (h : reduce options blocks = .ok r) :
    Scan.strip options.scan (script r.cells) =
      Text.ofLines ((r.cells.filter (·.kind == .code)).map (·.text)) := by
  have hnoop : options.scan.isNoop = false := by simp [Scan.Options.isNoop, hline]
  have hsections : ∀ cell ∈ r.cells.filter isRendered,
      scanLines options.scan .code (Text.lines (scriptSection cell)) = (.code, codeLines cell) := by
    intro cell hmem
    obtain ⟨hcell, hrendered⟩ := List.mem_filter.mp hmem
    have hraw : cell.kind ≠ .raw := by
      intro hkind
      simp [isRendered, hkind] at hrendered
    exact scanLines_scriptSection hline hraw (settled_of_mem_cells hstrip hline h hcell)
  have hscan := scanLines_sections hsections
  rw [strip_eq hnoop, script, hscan,
    flatMap_codeLines fun cell hcell => not_isBlank_of_mem_cells h hcell,
    Text.ofLines_flatMap_lines]

/-- A notebook whose prose reads like code and like a heading, and whose first code
cell leaves a docstring open. -/
def trickyBlocks : List Block :=
  [⟨.markdown, "\"\"\"\nx = 1\n\n# Cell 9 (Code)".toList⟩,
    ⟨.code, "s = '#' # c\n\"\"\"open".toList⟩,
    ⟨.raw, "'''".toList⟩,
    ⟨.code, "print(s)\n'''v'''[0]".toList⟩]

/-- Its prose is kept as it is, and the open docstring is gone. -/
def trickyReduction : Reduction where
  cells := [⟨0, .markdown, "\"\"\"\nx = 1\n\n# Cell 9 (Code)".toList⟩,
    ⟨1, .code, "s = '#'".toList⟩,
    ⟨2, .raw, "'''".toList⟩,
    ⟨3, .code, "print(s)\n'''v'''[0]".toList⟩]
  codeCells := 2

theorem strip_script_trickyBlocks :
    reduce {} trickyBlocks = .ok trickyReduction ∧
      Scan.strip {} (script trickyReduction.cells) = "s = '#'\nprint(s)\n'''v'''[0]".toList := by
  have hreduce : reduce {} trickyBlocks = .ok trickyReduction := by rfl
  refine ⟨hreduce, ?_⟩
  have hscript := strip_script rfl rfl hreduce
  rw [hscript]
  decide

end NotebookExtract.Render
