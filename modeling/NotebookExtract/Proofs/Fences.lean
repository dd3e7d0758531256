import NotebookExtract.Proofs.Script
import NotebookExtract.Proofs.Selection

/-!
# Reading fenced code back

A document shows the code of a cell between an opening and a closing fence, as it is.
Read line by line, a block of code starts below a line that is the opening fence and
ends above the next line that starts with the closing one. So the code of a document is
found again exactly when no line of a cell starts with a fence itself; such a line, in a
string for instance, ends its block early.
-/

namespace NotebookExtract

namespace Text

/-- Texts that are joined have the lines of all of them. -/
theorem lines_ofLines_eq_flatMap {texts : List Text} (hne : texts ≠ []) :
    lines (ofLines texts) = texts.flatMap lines := by
  rw [← ofLines_flatMap_lines]
  apply lines_ofLines
  · intro hnil
    rcases List.exists_mem_of_ne_nil texts hne with ⟨text, htext⟩
    exact lines_ne_nil text (List.flatMap_eq_nil_iff.mp hnil text htext)
  · intro line hline
    rcases List.mem_flatMap.mp hline with ⟨text, -, hmem⟩
    exact not_mem_of_mem_lines hmem

end Text

namespace Render

variable {cell : Cell} {cells : List Cell} {line : Text} {body front rest : List Text}

/-! ## The reader -/

/-- The blocks of code among some lines, where a block may be open whose lines so far are
given. A block that no line closes is none. -/
def fencedFrom : Option (List Text) → List Text → List (List Text)
  | _, [] => []
  | none, line :: rest =>
    if line = fenceOpen then fencedFrom (some []) rest else fencedFrom none rest
  | some block, line :: rest =>
    if fenceClose.isPrefixOf line then block :: fencedFrom none rest
    else fencedFrom (some (block ++ [line])) rest

/-- The blocks of code in a document. -/
def readFences (text : Text) : List Text :=
  (fencedFrom none (Text.lines text)).map Text.ofLines

/-- No line of the text starts with a fence. -/
def HasNoFence (text : Text) : Prop :=
  ∀ line ∈ Text.lines text, ¬ fenceClose <+: line
deriving Decidable

/-- Lines that open no block are passed over. -/
theorem fencedFrom_none_append (h : ∀ line ∈ front, line ≠ fenceOpen) (rest : List Text) :
    fencedFrom none (front ++ rest) = fencedFrom none rest := by
  induction front with
  | nil => rfl
  | cons line front ih =>
    have hline : line ≠ fenceOpen := h line List.mem_cons_self
    have hfront := ih fun l hl => h l (List.mem_cons_of_mem line hl)
    rw [List.cons_append, fencedFrom, if_neg hline, hfront]

/-- Lines that start with no fence belong to the open block. -/
theorem fencedFrom_some_append (h : ∀ line ∈ body, ¬ fenceClose <+: line)
    (block rest : List Text) :
    fencedFrom (some block) (body ++ rest) = fencedFrom (some (block ++ body)) rest := by
  induction body generalizing block with
  | nil => rw [List.nil_append, List.append_nil]
  | cons line body ih =>
    have hline : ¬ fenceClose.isPrefixOf line = true := by
      rw [List.isPrefixOf_iff_prefix]
      exact h line List.mem_cons_self
    have hbody := ih fun l hl => h l (List.mem_cons_of_mem line hl)
    rw [List.cons_append, fencedFrom, if_neg hline, hbody]
    simp

/-- A line that starts with a fence ends the block. -/
theorem fencedFrom_some_cons (h : fenceClose <+: line) (block rest : List Text) :
    fencedFrom (some block) (line :: rest) = block :: fencedFrom none rest := by
  rw [fencedFrom, if_pos (List.isPrefixOf_iff_prefix.mpr h)]

/-! ## The lines of a document -/

/-- The lines of a section in front of its code. -/
def sectionHead (cell : Cell) : List Text :=
  ["## ".toList ++ heading cell, [], fenceOpen]

/-- A section with code is its head, the code, and a closing fence with an empty line. -/
theorem lines_documentSection (hcode : cell.kind = .code) :
    (documentSection cell).flatMap Text.lines =
      sectionHead cell ++ (Text.lines cell.text ++ [fenceClose, []]) := by
  have htitle : Text.lines ("## ".toList ++ heading cell ++ ['\n']) =
      ["## ".toList ++ heading cell, []] := by
    have hone : '\n' ∉ "## ".toList ++ heading cell := by
      rw [List.mem_append, not_or]
      exact ⟨by decide, not_mem_heading cell⟩
    rw [Text.lines_append_cons, Text.lines_of_not_mem hone, Text.lines_nil]
    rfl
  have hopen : Text.lines fenceOpen = [fenceOpen] := by decide
  have hclose : Text.lines (fenceClose ++ ['\n']) = [fenceClose, []] := by decide
  have hparts : documentSection cell = ["## ".toList ++ heading cell ++ ['\n'], fenceOpen,
      cell.text, fenceClose ++ ['\n']] := by
    rw [documentSection, if_pos hcode]
  rw [hparts, List.flatMap_cons, List.flatMap_cons, List.flatMap_cons, List.flatMap_cons, htitle,
    hopen, hclose]
  rfl

/-- A document has the lines of its title and of its sections. -/
theorem lines_document (cells : List Cell) :
    Text.lines (document cells) = Text.lines documentTitle ++
      (cells.filter isRendered).flatMap fun cell => (documentSection cell).flatMap Text.lines := by
  rw [document, Text.lines_ofLines_eq_flatMap (by simp), List.flatMap_cons, List.flatMap_assoc]

/-! ## Reading sections -/

/-- The head of a section opens a block. -/
theorem fencedFrom_sectionHead (cell : Cell) (rest : List Text) :
    fencedFrom none (sectionHead cell ++ rest) = fencedFrom (some []) rest := by
  have htitle : "## ".toList ++ heading cell ≠ fenceOpen := by
    intro heq
    have hhead : some '#' = fenceOpen.head? := congrArg List.head? heq
    exact absurd hhead (by decide)
  have hempty : ([] : Text) ≠ fenceOpen := by decide
  rw [sectionHead, List.cons_append, List.cons_append, List.cons_append, List.nil_append,
    fencedFrom, if_neg htitle, fencedFrom, if_neg hempty, fencedFrom, if_pos rfl]

/-- A section whose code has no fence gives its code. -/
theorem fencedFrom_section (hcode : cell.kind = .code) (h : HasNoFence cell.text)
    (rest : List Text) :
    fencedFrom none ((documentSection cell).flatMap Text.lines ++ rest) =
      Text.lines cell.text :: fencedFrom none rest := by
  have hblank : ∀ line ∈ [([] : Text)], line ≠ fenceOpen := by decide
  have hafter := fencedFrom_none_append hblank rest
  rw [lines_documentSection hcode, List.append_assoc, fencedFrom_sectionHead, List.append_assoc,
    fencedFrom_some_append h]
  have hclose := fencedFrom_some_cons (List.prefix_refl fenceClose) (Text.lines cell.text)
    ([[]] ++ rest)
  rw [hafter] at hclose
  exact hclose

/-- A section whose code has a fence gives the lines in front of that line. -/
theorem fencedFrom_section_of_fence (hcode : cell.kind = .code)
    (hlines : Text.lines cell.text = front ++ line :: body)
    (hfront : ∀ l ∈ front, ¬ fenceClose <+: l) (hline : fenceClose <+: line)
    (rest : List Text) :
    ∃ more, fencedFrom none ((documentSection cell).flatMap Text.lines ++ rest) = front :: more := by
  refine ⟨fencedFrom none (body ++ ([fenceClose, []] ++ rest)), ?_⟩
  rw [lines_documentSection hcode, List.append_assoc, fencedFrom_sectionHead, hlines,
    List.append_assoc, List.append_assoc, fencedFrom_some_append hfront, List.cons_append,
    fencedFrom_some_cons hline, List.nil_append]

/-- Some lines have a first one that starts with a fence, or none of them does. -/
theorem exists_fence_or_none (ls : List Text) :
    (∀ line ∈ ls, ¬ fenceClose <+: line) ∨
      ∃ front line body, ls = front ++ line :: body ∧
        (∀ l ∈ front, ¬ fenceClose <+: l) ∧ fenceClose <+: line := by
  induction ls with
  | nil => exact Or.inl (List.forall_mem_nil _)
  | cons first rest ih =>
    by_cases hfirst : fenceClose <+: first
    · exact Or.inr ⟨[], first, rest, rfl, List.forall_mem_nil _, hfirst⟩
    · rcases ih with hnone | ⟨front, line, body, rfl, hfront, hline⟩
      · exact Or.inl (List.forall_mem_cons.mpr ⟨hfirst, hnone⟩)
      · exact Or.inr ⟨first :: front, line, body, rfl,
          List.forall_mem_cons.mpr ⟨hfirst, hfront⟩, hline⟩

/-- The lines in front of another one of a text that is not blank are not the whole text. -/
theorem ofLines_ne_of_front {text : Text} (hnb : Text.isBlank text = false)
    (hlines : Text.lines text = front ++ line :: body) : Text.ofLines front ≠ text := by
  intro heq
  by_cases hfront : front = []
  · rw [hfront] at heq
    rw [← heq] at hnb
    cases hnb
  · have hone : ∀ l ∈ front, '\n' ∉ l := by
      intro l hl
      have hmem : l ∈ Text.lines text := by
        rw [hlines]
        exact List.mem_append_left _ hl
      exact Text.not_mem_of_mem_lines hmem
    have hback : Text.lines text = front := by
      rw [← heq, Text.lines_ofLines hfront hone]
    rw [hback] at hlines
    have hlength := congrArg List.length hlines
    rw [List.length_append, List.length_cons] at hlength
    omega

/-- The sections of code cells give the code of all cells exactly when none of it has a
fence. -/
theorem fencedFrom_sections (hcode : ∀ cell ∈ cells, cell.kind = .code)
    (hnb : ∀ cell ∈ cells, Text.isBlank cell.text = false) :
    (fencedFrom none
        (cells.flatMap fun cell => (documentSection cell).flatMap Text.lines)).map Text.ofLines =
      cells.map (·.text) ↔ ∀ cell ∈ cells, HasNoFence cell.text := by
  induction cells with
  | nil => simp [fencedFrom]
  | cons cell rest ih =>
    have hrest := ih (fun c hc => hcode c (List.mem_cons_of_mem cell hc))
      fun c hc => hnb c (List.mem_cons_of_mem cell hc)
    have hhere := hcode cell List.mem_cons_self
    rw [List.flatMap_cons, List.map_cons, List.forall_mem_cons]
    rcases exists_fence_or_none (Text.lines cell.text) with
      hnone | ⟨front, line, body, hlines, hfront, hline⟩
    · rw [fencedFrom_section hhere hnone, List.map_cons, Text.ofLines_lines, List.cons.injEq, hrest]
      constructor
      · rintro ⟨-, hall⟩
        exact ⟨hnone, hall⟩
      · rintro ⟨-, hall⟩
        exact ⟨rfl, hall⟩
    · -- the block of this cell ends too early, and no later one can make up for it
      rcases fencedFrom_section_of_fence hhere hlines hfront hline
        (rest.flatMap fun cell => (documentSection cell).flatMap Text.lines) with ⟨more, hmore⟩
      rw [hmore, List.map_cons, List.cons.injEq]
      constructor
      · rintro ⟨hfirst, -⟩
        exact absurd hfirst (ofLines_ne_of_front (hnb cell List.mem_cons_self) hlines)
      · rintro ⟨hnone, -⟩
        refine absurd hline (hnone line ?_)
        rw [hlines]
        simp

/-! ## Documents of reductions -/

/-- Where only code is wanted, a reduction has only code. -/
theorem kind_eq_code_of_mem {options : Reduce.Options} {blocks : List Block} {r : Reduction}
    (honly : options.keepOnlyCode = true) (h : reduce options blocks = .ok r)
    (hcell : cell ∈ r.cells) : cell.kind = .code := by
  rcases (mem_cells_iff h cell).mp hcell with ⟨block, -, heligible, -, hkind, -⟩
  rw [hkind]
  exact heligible.2 honly

/-- **Fenced code is found again exactly where it holds no fence.** For the code cells of
a notebook, reading the document gives the texts of the cells, in order, if and only if no
line of a text starts with a fence. -/
theorem readFences_document_iff {options : Reduce.Options} {blocks : List Block} {r : Reduction}
    (honly : options.keepOnlyCode = true) (h : reduce options blocks = .ok r) :
    readFences (document r.cells) = r.cells.map (·.text) ↔
      ∀ cell ∈ r.cells, HasNoFence cell.text := by
  have hcode : ∀ cell ∈ r.cells, cell.kind = .code := fun cell => kind_eq_code_of_mem honly h
  have hnb : ∀ cell ∈ r.cells, Text.isBlank cell.text = false :=
    fun cell hcell => not_isBlank_of_mem_cells h hcell
  have hrendered : r.cells.filter isRendered = r.cells := by
    rw [List.filter_eq_self]
    intro cell hcell
    simp [isRendered, hcode cell hcell, hnb cell hcell]
  have htitle : ∀ line ∈ Text.lines documentTitle, line ≠ fenceOpen := by decide
  rw [readFences, lines_document, hrendered, fencedFrom_none_append htitle,
    fencedFrom_sections hcode hnb]

/-- Prose with a fence, which is left out, and code with fences inside its lines. -/
def inlineFences : List Block :=
  [⟨.markdown, "```python\nold = 0\n```".toList⟩, ⟨.code, "x = '```python'  # ```\n\nx".toList⟩,
    ⟨.code, "  '''```'''[0]".toList⟩]

def inlineReduction : Reduction where
  cells := [⟨1, .code, "x = '```python'\nx".toList⟩, ⟨2, .code, "  '''```'''[0]".toList⟩]
  codeCells := 2

theorem readFences_inlineFences :
    reduce { keepOnlyCode := true } inlineFences = .ok inlineReduction ∧
      readFences (document inlineReduction.cells) = inlineReduction.cells.map (·.text) := by
  have hreduce : reduce { keepOnlyCode := true } inlineFences = .ok inlineReduction := by rfl
  have hnone : ∀ cell ∈ inlineReduction.cells, HasNoFence cell.text := by decide
  exact ⟨hreduce, (readFences_document_iff rfl hreduce).mpr hnone⟩

/-- Code with a string over three lines, the second of which is a fence. -/
def fencedString : List Block :=
  [⟨.code, "s = \"\"\"\n```\nend\"\"\"".toList⟩]

def fencedReduction : Reduction where
  cells := [⟨0, .code, "s = \"\"\"\n```\nend\"\"\"".toList⟩]
  codeCells := 1

/-- Stripping keeps the string, and reading stops inside it. -/
theorem readFences_fencedString :
    reduce { keepOnlyCode := true } fencedString = .ok fencedReduction ∧
      readFences (document fencedReduction.cells) = ["s = \"\"\"".toList] ∧
      readFences (document fencedReduction.cells) ≠ fencedReduction.cells.map (·.text) := by
  have hread : readFences (document fencedReduction.cells) = ["s = \"\"\"".toList] := by decide
  refine ⟨by rfl, hread, ?_⟩
  rw [hread]
  decide

end Render

end NotebookExtract
