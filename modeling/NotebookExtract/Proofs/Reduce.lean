import NotebookExtract.Cell.Reduce

/-!
# What a reduction holds

A reduction is determined by the eligible cells of a notebook. These lemmas say
which cell a kept one comes from and what became of its text.
-/

namespace NotebookExtract

namespace Reduce

variable {options : Options} {cell kept : Cell}

/-- A kept cell keeps its place and kind. Its text is stripped when it is code
that is to be stripped, and then it is not blank; any other text stays. -/
theorem reduceCell?_eq_some_iff : reduceCell? options cell = some kept ↔
    if cell.kind = .code ∧ options.stripComments = true then
      kept = { cell with text := Scan.strip options.scan cell.text } ∧
        Text.isBlank kept.text = false
    else kept = cell := by
  unfold reduceCell?
  split
  · rw [Option.ite_none_left_eq_some, Option.some.injEq]
    constructor
    · rintro ⟨hnb, rfl⟩
      exact ⟨rfl, by simpa using hnb⟩
    · rintro ⟨rfl, hnb⟩
      exact ⟨by simpa using hnb, rfl⟩
  · rw [Option.some.injEq]
    exact eq_comm

end Reduce

variable {options : Reduce.Options} {blocks : List Block} {r : Reduction}

/-- A reduction succeeds exactly when some cell is eligible, and this is its
result. -/
theorem reduce_eq_ok_iff : reduce options blocks = .ok r ↔
    Reduce.selectCells options.keepOnlyCode blocks ≠ [] ∧
      r = {
        cells := (Reduce.selectCells options.keepOnlyCode blocks).filterMap
          (Reduce.reduceCell? options)
        codeCells := (Reduce.selectCells options.keepOnlyCode blocks).countP
          (·.kind == .code) } := by
  unfold reduce
  cases hsel : Reduce.selectCells options.keepOnlyCode blocks with
  | nil =>
    constructor
    · intro h
      cases h
    · rintro ⟨hne, -⟩
      exact absurd rfl hne
  | cons cell rest =>
    constructor
    · intro h
      cases h
      exact ⟨by simp, rfl⟩
    · rintro ⟨-, rfl⟩
      rfl

/-- No cell of a reduction is blank. -/
theorem not_isBlank_of_mem_cells (h : reduce options blocks = .ok r) {cell : Cell}
    (hcell : cell ∈ r.cells) : Text.isBlank cell.text = false := by
  obtain ⟨-, rfl⟩ := reduce_eq_ok_iff.mp h
  obtain ⟨origin, horigin, hkept⟩ := List.mem_filterMap.mp hcell
  rw [Reduce.reduceCell?_eq_some_iff] at hkept
  split at hkept
  · exact hkept.2
  · -- the text is that of an eligible cell
    have helig := (List.mem_filter.mp horigin).2
    rw [Reduce.isEligible, Bool.and_eq_true] at helig
    rw [hkept]
    simpa using helig.1

/-- The text of a stripped code cell is the result of stripping. -/
theorem exists_strip_of_mem_cells (hstrip : options.stripComments = true)
    (h : reduce options blocks = .ok r) {cell : Cell} (hcell : cell ∈ r.cells)
    (hcode : cell.kind = .code) : ∃ text, cell.text = Scan.strip options.scan text := by
  obtain ⟨-, rfl⟩ := reduce_eq_ok_iff.mp h
  obtain ⟨origin, -, hkept⟩ := List.mem_filterMap.mp hcell
  rw [Reduce.reduceCell?_eq_some_iff] at hkept
  split at hkept
  · exact ⟨origin.text, by rw [hkept.1]⟩
  · rename_i hnot
    rw [hkept] at hcode
    exact absurd ⟨hcode, hstrip⟩ hnot

end NotebookExtract
