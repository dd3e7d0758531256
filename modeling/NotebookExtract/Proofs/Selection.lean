import NotebookExtract.Proofs.Reduce

/-!
# What becomes of each block

A reduction treats every block on its own. Whether a block is eligible, which
text it ends with and whether it is left out can be read off the block itself,
and its position is its number. The main statement says which cells a reduction
has, in which order, and how many code cells it counts.
-/

namespace NotebookExtract

/-! ## One block -/

namespace Block

/-- A block passes the filters: it is not blank, and it is code if only code is
wanted. -/
def IsEligible (options : Reduce.Options) (block : Block) : Prop :=
  Text.isBlank block.text = false ∧ (options.keepOnlyCode = true → block.kind = .code)
deriving Decidable

/-- Only code is stripped, and only if stripping is asked for. -/
def IsStripped (options : Reduce.Options) (block : Block) : Prop :=
  block.kind = .code ∧ options.stripComments = true
deriving Decidable

/-- The text that a block ends with. -/
def reducedText (options : Reduce.Options) (block : Block) : Text :=
  if block.IsStripped options then Scan.strip options.scan block.text else block.text

/-- Stripping leaves nothing of the block. -/
def IsEmptied (options : Reduce.Options) (block : Block) : Prop :=
  block.IsStripped options ∧ Text.isBlank (block.reducedText options) = true
deriving Decidable

end Block

/-- The block that a cell was made of. -/
def Cell.block (cell : Cell) : Block :=
  ⟨cell.kind, cell.text⟩

namespace Reduce

variable {options : Options} {blocks : List Block} {cell kept : Cell}

/-! ## Numbered blocks -/

theorem map_block_numberFrom (i : Nat) (blocks : List Block) :
    (numberFrom i blocks).map Cell.block = blocks := by
  induction blocks generalizing i with
  | nil => rfl
  | cons block rest ih =>
    rw [numberFrom, List.map_cons, ih]
    rfl

/-- A numbered block stands where its number says. -/
theorem mem_numberFrom_iff {i : Nat} :
    cell ∈ numberFrom i blocks ↔ i ≤ cell.index ∧ blocks[cell.index - i]? = some cell.block := by
  induction blocks generalizing i with
  | nil => simp [numberFrom]
  | cons block rest ih =>
    rw [numberFrom, List.mem_cons, ih]
    constructor
    · rintro (rfl | ⟨hi, hcell⟩)
      · simp [Cell.block]
      · have hnext : cell.index - i = cell.index - (i + 1) + 1 := by omega
        exact ⟨by omega, by rw [hnext, List.getElem?_cons_succ, hcell]⟩
    · rintro ⟨hi, hcell⟩
      by_cases hhere : cell.index = i
      · -- the first block
        left
        rw [hhere, Nat.sub_self, List.getElem?_cons_zero, Option.some.injEq] at hcell
        rw [hcell, ← hhere]
        rfl
      · right
        have hnext : cell.index - i = cell.index - (i + 1) + 1 := by omega
        rw [hnext, List.getElem?_cons_succ] at hcell
        exact ⟨by omega, hcell⟩

/-- Numbers grow along the list. -/
theorem pairwise_numberFrom (i : Nat) (blocks : List Block) :
    (numberFrom i blocks).Pairwise fun a b => a.index < b.index := by
  induction blocks generalizing i with
  | nil => exact List.Pairwise.nil
  | cons block rest ih =>
    refine List.Pairwise.cons ?_ (ih (i + 1))
    intro later hlater
    obtain ⟨hi, -⟩ := mem_numberFrom_iff.mp hlater
    exact hi

/-! ## The two filters and stripping, block by block -/

theorem isEligible_iff :
    isEligible options.keepOnlyCode cell = true ↔ cell.block.IsEligible options := by
  cases hkeep : options.keepOnlyCode <;> simp [isEligible, Block.IsEligible, Cell.block, hkeep]

/-- The eligible cells are the eligible blocks with their numbers. -/
theorem mem_selectCells_iff : cell ∈ selectCells options.keepOnlyCode blocks ↔
    blocks[cell.index]? = some cell.block ∧ cell.block.IsEligible options := by
  rw [selectCells, List.mem_filter, mem_numberFrom_iff, isEligible_iff]
  simp

/-- There is nothing to select exactly when no block is eligible. -/
theorem selectCells_eq_nil_iff : selectCells options.keepOnlyCode blocks = [] ↔
    ∀ block ∈ blocks, ¬ block.IsEligible options := by
  rw [List.eq_nil_iff_forall_not_mem]
  constructor
  · intro hnone block hblock heligible
    obtain ⟨i, hi⟩ := List.mem_iff_getElem?.mp hblock
    exact hnone ⟨i, block.kind, block.text⟩ (mem_selectCells_iff.mpr ⟨hi, heligible⟩)
  · intro hnone cell hcell
    obtain ⟨hblock, heligible⟩ := mem_selectCells_iff.mp hcell
    exact hnone cell.block (List.mem_of_getElem? hblock) heligible

/-- A kept cell has the number and the kind of its block and the text that the
block ends with; only a block of which stripping leaves nothing is not kept. -/
theorem reduceCell?_iff_block : reduceCell? options cell = some kept ↔
    ¬ cell.block.IsEmptied options ∧
      kept = { cell with text := cell.block.reducedText options } := by
  rw [reduceCell?_eq_some_iff]
  by_cases hstrip : cell.block.IsStripped options
  · have hcond : cell.kind = .code ∧ options.stripComments = true := hstrip
    have htext : cell.block.reducedText options = Scan.strip options.scan cell.text := by
      rw [Block.reducedText, if_pos hstrip]
      rfl
    rw [if_pos hcond, Block.IsEmptied, htext]
    constructor
    · rintro ⟨rfl, hnb⟩
      exact ⟨fun hempty => by simp [hempty.2] at hnb, rfl⟩
    · rintro ⟨hnot, rfl⟩
      refine ⟨rfl, ?_⟩
      rw [← Bool.not_eq_true]
      intro hblank
      exact hnot ⟨hstrip, hblank⟩
  · have hcond : ¬ (cell.kind = .code ∧ options.stripComments = true) := hstrip
    have htext : cell.block.reducedText options = cell.text := by
      rw [Block.reducedText, if_neg hstrip]
      rfl
    rw [if_neg hcond, htext]
    constructor
    · rintro rfl
      exact ⟨fun hempty => hstrip hempty.1, rfl⟩
    · rintro ⟨-, rfl⟩
      rfl

/-- Numbers still grow after filtering and stripping. -/
theorem pairwise_filterMap_reduceCell? :
    ((selectCells options.keepOnlyCode blocks).filterMap (reduceCell? options)).Pairwise
      fun a b => a.index < b.index := by
  refine List.Pairwise.filterMap _ ?_ ((pairwise_numberFrom 0 blocks).filter _)
  intro a b hab a' ha b' hb
  obtain ⟨-, rfl⟩ := reduceCell?_iff_block.mp ha
  obtain ⟨-, rfl⟩ := reduceCell?_iff_block.mp hb
  exact hab

/-- The code cells that are counted are the eligible code blocks. -/
theorem countP_selectCells :
    (selectCells options.keepOnlyCode blocks).countP (·.kind == .code) =
      blocks.countP fun block => decide (block.IsEligible options ∧ block.kind = .code) := by
  rw [selectCells, List.countP_filter]
  conv => rhs; rw [← map_block_numberFrom 0 blocks, List.countP_map]
  refine List.countP_congr ?_
  intro cell _
  rw [Function.comp_apply, decide_eq_true_eq, Bool.and_eq_true, isEligible_iff, beq_iff_eq,
    and_comm]
  rfl

end Reduce

/-! ## The whole reduction -/

variable {options : Reduce.Options} {blocks : List Block} {r : Reduction}

/-- Which cells a reduction holds. -/
theorem mem_cells_iff (h : reduce options blocks = .ok r) (cell : Cell) : cell ∈ r.cells ↔
    ∃ block, blocks[cell.index]? = some block ∧ block.IsEligible options ∧
      ¬ block.IsEmptied options ∧ cell.kind = block.kind ∧
        cell.text = block.reducedText options := by
  obtain ⟨-, rfl⟩ := reduce_eq_ok_iff.mp h
  rw [List.mem_filterMap]
  constructor
  · rintro ⟨origin, horigin, hkept⟩
    obtain ⟨hblock, heligible⟩ := Reduce.mem_selectCells_iff.mp horigin
    obtain ⟨hnot, rfl⟩ := Reduce.reduceCell?_iff_block.mp hkept
    exact ⟨origin.block, hblock, heligible, hnot, rfl, rfl⟩
  · rintro ⟨block, hblock, heligible, hnot, hkind, htext⟩
    refine ⟨⟨cell.index, block.kind, block.text⟩,
      Reduce.mem_selectCells_iff.mpr ⟨hblock, heligible⟩,
      Reduce.reduceCell?_iff_block.mpr ⟨hnot, ?_⟩⟩
    calc cell = ⟨cell.index, cell.kind, cell.text⟩ := rfl
      _ = ⟨cell.index, block.kind, block.reducedText options⟩ := by rw [hkind, htext]

/-- A reduction fails exactly when no block is eligible. -/
theorem reduce_eq_error_iff : reduce options blocks = .error .noContent ↔
    ∀ block ∈ blocks, ¬ block.IsEligible options := by
  rw [← Reduce.selectCells_eq_nil_iff]
  unfold reduce
  cases Reduce.selectCells options.keepOnlyCode blocks with
  | nil => exact ⟨fun _ => rfl, fun _ => rfl⟩
  | cons cell rest =>
    constructor
    · intro h
      cases h
    · intro h
      cases h

/-- **The meaning of a reduction.** It fails exactly when no block is eligible.
Otherwise its cells are, by growing number, the eligible blocks with the text that
each ends with, less the code of which stripping leaves nothing; none is blank,
and the count is that of the eligible code blocks, the emptied ones included. What
becomes of a block depends on that block alone. -/
theorem reduce_blockwise (options : Reduce.Options) (blocks : List Block) :
    (reduce options blocks = .error .noContent ↔
      ∀ block ∈ blocks, ¬ block.IsEligible options) ∧
    ((∃ block ∈ blocks, block.IsEligible options) → ∃ r, reduce options blocks = .ok r ∧
      r.cells.Pairwise (fun a b => a.index < b.index) ∧
      (∀ cell, cell ∈ r.cells ↔
        ∃ block, blocks[cell.index]? = some block ∧ block.IsEligible options ∧
          ¬ block.IsEmptied options ∧ cell.kind = block.kind ∧
            cell.text = block.reducedText options) ∧
      (∀ cell ∈ r.cells, Text.isBlank cell.text = false) ∧
      r.codeCells =
        blocks.countP (fun block => decide (block.IsEligible options ∧ block.kind = .code)) ∧
      ∀ others r', reduce options others = .ok r' →
        ∀ cell : Cell, others[cell.index]? = blocks[cell.index]? →
          (cell ∈ r'.cells ↔ cell ∈ r.cells)) := by
  refine ⟨reduce_eq_error_iff, ?_⟩
  rintro ⟨block, hblock, heligible⟩
  have hselect : Reduce.selectCells options.keepOnlyCode blocks ≠ [] := by
    intro hnil
    exact Reduce.selectCells_eq_nil_iff.mp hnil block hblock heligible
  have hok := reduce_eq_ok_iff.mpr ⟨hselect, rfl⟩
  refine ⟨_, hok, Reduce.pairwise_filterMap_reduceCell?, mem_cells_iff hok,
    fun cell hcell => not_isBlank_of_mem_cells hok hcell, Reduce.countP_selectCells, ?_⟩
  -- both reductions read the fate of the cell off the same block
  intro others r' hothers cell hsame
  rw [mem_cells_iff hothers, mem_cells_iff hok, hsame]

/-- Code that leaves a docstring open, a blank cell, code with a comment, a comment
and nothing else, and prose. -/
def mixedBlocks : List Block :=
  [⟨.code, "'''\nnever closed".toList⟩, ⟨.raw, " \n".toList⟩, ⟨.code, "z = 3  # c".toList⟩,
    ⟨.code, "# only a comment".toList⟩, ⟨.markdown, "# Title".toList⟩]

theorem reduce_mixedBlocks : (∃ block ∈ mixedBlocks, block.IsEligible {}) ∧
    ∃ r, reduce {} mixedBlocks = .ok r ∧ r.codeCells = 3 ∧
      ⟨2, .code, "z = 3".toList⟩ ∈ r.cells ∧ ⟨3, .code, []⟩ ∉ r.cells := by
  have heligible : ∃ block ∈ mixedBlocks, block.IsEligible {} := by decide
  refine ⟨heligible, ?_⟩
  obtain ⟨r, hok, -, hcells, hnb, hcount, -⟩ := (reduce_blockwise {} mixedBlocks).2 heligible
  refine ⟨r, hok, by rw [hcount]; decide, ?_, ?_⟩
  · rw [hcells]
    exact ⟨⟨.code, "z = 3  # c".toList⟩, rfl, by decide, by decide, rfl, by decide⟩
  · intro hmem
    exact absurd (hnb _ hmem) (by decide)

end NotebookExtract
