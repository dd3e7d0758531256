import NotebookExtract.Artifact.Extract
import NotebookExtract.Proofs.Sections
import NotebookExtract.Proofs.Selection

/-!
# What an artifact shows

An artifact has one section for each cell that is kept and rendered. Whether a
notebook has content is asked before its code is stripped and without regard to raw
cells, so an artifact can come out without any section: when all eligible blocks are
raw, or code of which stripping leaves nothing. The main statement says when that
happens, and that every other block has its section in the artifact.
-/

namespace NotebookExtract

namespace Render

variable {format : ArtifactFormat} {cell : Cell} {cells : List Cell}

/-- The section of a cell in an artifact of the given format. -/
def sectionText (format : ArtifactFormat) (cell : Cell) : Text :=
  match format with
  | .python => scriptSection cell
  | .markdown => Text.ofLines (documentSection cell)

/-- An artifact without sections: an empty script, or a document with its title alone. -/
def frame (format : ArtifactFormat) : Text :=
  match format with
  | .python => []
  | .markdown => documentTitle

/-- Every rendered cell has its section in the artifact. -/
theorem sectionText_isInfix (format : ArtifactFormat) (hcell : cell ∈ cells)
    (hrendered : isRendered cell = true) : sectionText format cell <:+: render format cells := by
  obtain ⟨before, after, hsplit⟩ := List.append_of_mem (List.mem_filter.mpr ⟨hcell, hrendered⟩)
  cases format with
  | python =>
    have hpart : [scriptSection cell] <:+: (cells.filter isRendered).map scriptSection := by
      rw [hsplit]
      exact ⟨before.map scriptSection, after.map scriptSection, by simp⟩
    have hjoined := Text.intercalate_isInfix "\n\n".toList hpart
    rwa [List.intercalate_singleton] at hjoined
  | markdown =>
    have hpart : documentSection cell <:+:
        documentTitle :: (cells.filter isRendered).flatMap documentSection := by
      rw [hsplit]
      exact ⟨documentTitle :: before.flatMap documentSection, after.flatMap documentSection,
        by simp⟩
    exact Text.intercalate_isInfix ['\n'] hpart

/-- An artifact has no section exactly when no cell is rendered. -/
theorem render_eq_frame_iff (format : ArtifactFormat) (cells : List Cell) :
    render format cells = frame format ↔ cells.filter isRendered = [] := by
  constructor
  · intro h
    cases hcells : cells.filter isRendered with
    | nil => rfl
    | cons first rest =>
      -- a section makes the artifact longer than its frame
      cases format with
      | python => cases rest <;> simp [render, frame, script, hcells, scriptSection] at h
      | markdown =>
        have hparts : (first :: rest).flatMap documentSection ≠ [] := by
          rw [List.flatMap_cons, documentSection]
          split <;> simp
        rw [render, document, hcells, Text.ofLines, List.intercalate_cons_of_ne_nil hparts] at h
        simp [frame] at h
  · intro h
    cases format with
    | python => simp [render, frame, script, h]
    | markdown => simp [render, frame, document, h, Text.ofLines]

end Render

/-- The block has a section in the artifact: it is eligible, it is not raw, and
stripping leaves something of it. -/
def Block.HasSection (options : Reduce.Options) (block : Block) : Prop :=
  block.IsEligible options ∧ block.kind ≠ .raw ∧ ¬ block.IsEmptied options
deriving Decidable

/-- The cells that are rendered are the blocks that have a section. -/
theorem mem_filter_isRendered_iff {options : Reduce.Options} {blocks : List Block} {r : Reduction}
    (h : reduce options blocks = .ok r) (cell : Cell) : cell ∈ r.cells.filter Render.isRendered ↔
      ∃ block, blocks[cell.index]? = some block ∧ block.HasSection options ∧
        cell.kind = block.kind ∧ cell.text = block.reducedText options := by
  rw [Render.filter_isRendered h, List.mem_filter, mem_cells_iff h, bne_iff_ne]
  constructor
  · rintro ⟨⟨block, hblock, heligible, hkept, hkind, htext⟩, hraw⟩
    exact ⟨block, hblock, ⟨heligible, hkind ▸ hraw, hkept⟩, hkind, htext⟩
  · rintro ⟨block, hblock, ⟨heligible, hraw, hkept⟩, hkind, htext⟩
    exact ⟨⟨block, hblock, heligible, hkept, hkind, htext⟩, hkind ▸ hraw⟩

/-- No cell is rendered exactly when no block has a section. -/
theorem filter_isRendered_eq_nil_iff {options : Reduce.Options} {blocks : List Block}
    {r : Reduction} (h : reduce options blocks = .ok r) :
    r.cells.filter Render.isRendered = [] ↔ ∀ block ∈ blocks, ¬ block.HasSection options := by
  rw [List.eq_nil_iff_forall_not_mem]
  constructor
  · intro hnone block hblock hsection
    obtain ⟨i, hi⟩ := List.mem_iff_getElem?.mp hblock
    refine hnone ⟨i, block.kind, block.reducedText options⟩ ?_
    exact (mem_filter_isRendered_iff h _).mpr ⟨block, hi, hsection, rfl, rfl⟩
  · intro hnone cell hcell
    obtain ⟨block, hblock, hsection, -, -⟩ := (mem_filter_isRendered_iff h cell).mp hcell
    exact hnone block (List.mem_of_getElem? hblock) hsection

variable {options : Extract.Options} {name? : Option Text} {notebook : Notebook}
  {artifact : Artifact}

/-- There is an artifact exactly when there is a reduction, and this is it. -/
theorem extract_eq_ok_iff : extract options name? notebook = .ok artifact ↔
    ∃ r, reduce options.reduce notebook.blocks = .ok r ∧
      artifact = {
        content := render options.format r.cells
        fileName := Naming.fileName name? options.format
        codeCells := r.codeCells } := by
  unfold extract
  cases reduce options.reduce notebook.blocks with
  | error why => simp [bind, Except.bind]
  | ok r =>
    constructor
    · intro h
      cases h
      exact ⟨r, rfl, rfl⟩
    · rintro ⟨r', hr', rfl⟩
      cases hr'
      rfl

/-- There is none exactly when there is no reduction. -/
theorem extract_eq_error_iff : extract options name? notebook = .error .noContent ↔
    reduce options.reduce notebook.blocks = .error .noContent := by
  unfold extract
  cases reduce options.reduce notebook.blocks with
  | error why => simp [bind, Except.bind]
  | ok r =>
    constructor
    · intro h
      cases h
    · intro h
      cases h

/-- **What an artifact shows.** There is no artifact exactly when no block is eligible.
An artifact has the section of every block that is not raw and of which stripping
leaves something, and it is a bare frame exactly when there is no such block. -/
theorem extract_sections (options : Extract.Options) (name? : Option Text)
    (notebook : Notebook) :
    (extract options name? notebook = .error .noContent ↔
      ∀ block ∈ notebook.blocks, ¬ block.IsEligible options.reduce) ∧
    ∀ artifact, extract options name? notebook = .ok artifact →
      (∀ i block, notebook.blocks[i]? = some block → block.HasSection options.reduce →
        Render.sectionText options.format ⟨i, block.kind, block.reducedText options.reduce⟩ <:+:
          artifact.content) ∧
      (artifact.content = Render.frame options.format ↔
        ∀ block ∈ notebook.blocks, ¬ block.HasSection options.reduce) := by
  refine ⟨extract_eq_error_iff.trans reduce_eq_error_iff, ?_⟩
  intro artifact hartifact
  obtain ⟨r, hr, rfl⟩ := extract_eq_ok_iff.mp hartifact
  refine ⟨?_, (Render.render_eq_frame_iff _ _).trans (filter_isRendered_eq_nil_iff hr)⟩
  intro i block hblock hsection
  have hcell := (mem_filter_isRendered_iff hr ⟨i, block.kind, block.reducedText options.reduce⟩).mpr
    ⟨block, hblock, hsection, rfl, rfl⟩
  obtain ⟨hmem, hrendered⟩ := List.mem_filter.mp hcell
  exact Render.sectionText_isInfix options.format hmem hrendered

/-- A notebook with one code cell, and in it a comment and no code. -/
def commentNotebook : Notebook where
  cells := [{ kind := .code, source := some (.whole "# note".toList) }]

/-- It has content, so there is an artifact, and the artifact is empty. -/
theorem extract_commentNotebook : ∃ artifact,
    extract {} none commentNotebook = .ok artifact ∧ artifact.content = [] ∧
      artifact.codeCells = 1 := by
  have hok : extract {} none commentNotebook =
      .ok ⟨[], "notebook_extracted.py".toList, 1⟩ := by rfl
  obtain ⟨-, hsections⟩ := extract_sections {} none commentNotebook
  obtain ⟨-, hframe⟩ := hsections _ hok
  have hnone : ∀ block ∈ commentNotebook.blocks, ¬ block.HasSection {} := by decide
  exact ⟨_, hok, hframe.mpr hnone, rfl⟩

end NotebookExtract
