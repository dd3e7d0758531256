import Mathlib.Data.List.Basic
import NotebookExtract.Proofs.Script

/-!
# Reading a script back

No line of a section is empty: prose has become comments, and code that was
stripped has no blank line. So the empty lines of a script are exactly the
borders between its sections, whatever the cells say, and each section can be
read back: its heading gives the place and the kind of the cell, its code stands
there as it is, and its prose up to what stood on blank lines.
-/

namespace NotebookExtract.Render

/-! ## What a script shows of a cell -/

/-- A line, or nothing at all if the line is blank. -/
def emptyIfBlank (line : Text) : Text :=
  if Text.isBlank line then [] else line

/-- A text with every blank line made empty. -/
def emptyBlankLines (text : Text) : Text :=
  Text.ofLines ((Text.lines text).map emptyIfBlank)

/-- What a script shows of a cell: the whole of its code, its prose without what
stands on blank lines. -/
def shown (cell : Cell) : Cell :=
  if cell.kind = .markdown then { cell with text := emptyBlankLines cell.text } else cell

variable {a b cell : Cell}

/-! ## One section -/

/-- A number has only digits, so the blank after it ends it. -/
theorem blank_not_mem_ofNat (n : Nat) : ' ' ∉ Text.ofNat n := by
  intro hmem
  have hdigit : ' '.isDigit = true :=
    Nat.isDigit_of_mem_toDigits (show 0 < 10 by decide) (show 10 ≤ 10 by decide) hmem
  exact absurd hdigit (by decide)

/-- Numbers are written differently. -/
theorem ofNat_inj {m n : Nat} (h : Text.ofNat m = Text.ofNat n) : m = n := by
  have hvalue := congrArg (fun digits => Nat.ofDigitChars 10 digits 0) h
  simpa [Text.ofNat] using hvalue

/-- Headings tell cells apart by place and kind. -/
theorem heading_eq_iff : heading a = heading b ↔ a.index = b.index ∧ a.kind = b.kind := by
  have hparts : ∀ cell : Cell, heading cell = "Cell ".toList ++
      (Text.ofNat (cell.index + 1) ++ ' ' :: '(' :: (cell.kind.label ++ [')'])) := by
    intro cell
    unfold heading
    rw [List.append_assoc, List.append_assoc, List.append_assoc]
    rfl
  constructor
  · intro h
    rw [hparts, hparts, List.append_cancel_left_eq] at h
    have hlast : ' ' ∉ '(' :: (a.kind.label ++ [')']) := by cases a.kind <;> decide
    obtain ⟨hnumber, -, hlabel⟩ :=
      (List.append_cons_inj_of_notMem (blank_not_mem_ofNat _) hlast).mp h
    constructor
    · exact Nat.succ.inj (ofNat_inj hnumber)
    · revert hlabel
      cases a.kind <;> cases b.kind <;> decide
  · rintro ⟨hindex, hkind⟩
    rw [hparts a, hparts b, hindex, hkind]

/-- A comment shows its line, unless the line is blank. -/
theorem commentLine_eq_iff (l m : Text) :
    commentLine l = commentLine m ↔ emptyIfBlank l = emptyIfBlank m := by
  have hne : ∀ {line : Text}, Text.isBlank line = false → line ≠ [] := by
    rintro _ h rfl
    cases h
  cases hl : Text.isBlank l <;> cases hm : Text.isBlank m
  · simp [commentLine, emptyIfBlank, hl, hm]
  · simp [commentLine, emptyIfBlank, hl, hm, hne hl]
  · simp [commentLine, emptyIfBlank, hl, hm, Ne.symm (hne hm)]
  · simp [commentLine, emptyIfBlank, hl, hm]

/-- Lists of things that one function tells apart as well as another. -/
theorem map_eq_map_iff_of_forall {α β γ : Type} {f : α → β} {g : α → γ}
    (h : ∀ x y, f x = f y ↔ g x = g y) (xs ys : List α) :
    xs.map f = ys.map f ↔ xs.map g = ys.map g := by
  induction xs generalizing ys with
  | nil => simp
  | cons x xs ih =>
    cases ys with
    | nil => simp
    | cons y ys => simp [h x y, ih ys]

/-- Prose as comments shows its lines, less what stands on blank ones. -/
theorem map_commentLine_eq_iff (s t : Text) :
    (Text.lines s).map commentLine = (Text.lines t).map commentLine ↔
      emptyBlankLines s = emptyBlankLines t := by
  have hne : ∀ text : Text, (Text.lines text).map emptyIfBlank ≠ [] := by
    intro text
    simp [Text.lines_ne_nil]
  have hone : ∀ text : Text, ∀ line ∈ (Text.lines text).map emptyIfBlank, '\n' ∉ line := by
    intro text line hline
    obtain ⟨prose, hprose, rfl⟩ := List.mem_map.mp hline
    unfold emptyIfBlank
    split
    · simp
    · exact Text.not_mem_of_mem_lines hprose
  rw [map_eq_map_iff_of_forall commentLine_eq_iff, emptyBlankLines, emptyBlankLines,
    Text.ofLines_inj (hne s) (hne t) (hone s) (hone t)]

/-- Two cells have the same section exactly when a script shows the same of them. -/
theorem scriptSection_eq_iff (a b : Cell) :
    scriptSection a = scriptSection b ↔ shown a = shown b := by
  have hlines : ∀ s t : Text, s = t ↔ Text.lines s = Text.lines t := by
    intro s t
    constructor
    · intro h
      rw [h]
    · intro h
      rw [← Text.ofLines_lines s, h, Text.ofLines_lines]
  have hshown : ∀ c : Cell, (shown c).index = c.index ∧ (shown c).kind = c.kind := by
    intro c
    unfold shown
    split <;> exact ⟨rfl, rfl⟩
  rw [hlines, lines_scriptSection, lines_scriptSection, List.cons.injEq, List.cons.injEq,
    List.cons.injEq]
  constructor
  · rintro ⟨⟨-, -, hheading⟩, hbody⟩
    obtain ⟨hindex, hkind⟩ := heading_eq_iff.mp hheading
    obtain ⟨i, kind, s⟩ := a
    obtain ⟨j, kind', t⟩ := b
    obtain rfl : i = j := hindex
    obtain rfl : kind = kind' := hkind
    by_cases hm : kind = .markdown
    · have hprose := (map_commentLine_eq_iff s t).mp (by simpa [hm] using hbody)
      simp [shown, hm, hprose]
    · have htext : s = t := (hlines s t).mpr (by simpa [hm] using hbody)
      rw [htext]
  · intro h
    have hindex : a.index = b.index := by rw [← (hshown a).1, h, (hshown b).1]
    have hkind : a.kind = b.kind := by rw [← (hshown a).2, h, (hshown b).2]
    refine ⟨⟨rfl, rfl, heading_eq_iff.mpr ⟨hindex, hkind⟩⟩, ?_⟩
    have htext := congrArg Cell.text h
    by_cases hm : b.kind = .markdown
    · simp only [shown, hkind, hm, ↓reduceIte] at htext
      simpa [hkind, hm] using (map_commentLine_eq_iff a.text b.text).mpr htext
    · simp only [shown, hkind, hm, ↓reduceIte] at htext
      simp [hkind, hm, htext]

/-! ## The borders between sections -/

/-- No line of the cell's section is empty. -/
def HasFullLines (cell : Cell) : Prop :=
  [] ∉ Text.lines (scriptSection cell)

/-- The sections of a script: every empty line is a border. -/
def readSections (text : Text) : List Text :=
  if text = [] then [] else ((Text.lines text).splitOn []).map Text.ofLines

/-- Prose and settled code have no empty line. -/
theorem hasFullLines_of_code (h : cell.kind ≠ .markdown →
    ∀ line ∈ Text.lines cell.text, Text.isBlank line = false) : HasFullLines cell := by
  unfold HasFullLines
  rw [lines_scriptSection]
  intro hmem
  rcases List.mem_cons.mp hmem with hhead | hbody
  · cases hhead
  · split at hbody
    · obtain ⟨line, -, hline⟩ := List.mem_map.mp hbody
      unfold commentLine at hline
      split at hline <;> cases hline
    · rename_i hkind
      exact absurd (h hkind [] hbody) (by decide)

/-- The lines of joined sections are those of the sections, with empty lines
between them. -/
theorem lines_intercalate {sections : List Text} (hne : sections ≠ []) :
    Text.lines ("\n\n".toList.intercalate sections) =
      [[]].intercalate (sections.map Text.lines) := by
  induction sections with
  | nil => exact absurd rfl hne
  | cons first rest ih =>
    cases rest with
    | nil => simp
    | cons next rest =>
      rw [lines_intercalate_cons, ih (by simp)]
      simp

/-- The sections of a script can be read back, if none has an empty line. -/
theorem readSections_script {cells : List Cell}
    (h : ∀ cell ∈ cells.filter isRendered, HasFullLines cell) :
    readSections (script cells) = (cells.filter isRendered).map scriptSection := by
  unfold script
  cases hcells : cells.filter isRendered with
  | nil => rfl
  | cons first rest =>
    rw [hcells] at h
    -- a section starts with its heading, so the script is not empty
    have hsome : "\n\n".toList.intercalate ((first :: rest).map scriptSection) ≠ [] := by
      cases rest <;> simp [scriptSection]
    have hfull : ∀ ls ∈ ((first :: rest).map scriptSection).map Text.lines, [] ∉ ls := by
      intro ls hls
      rw [List.map_map] at hls
      obtain ⟨cell, hcell, rfl⟩ := List.mem_map.mp hls
      exact h cell hcell
    rw [readSections, if_neg hsome, lines_intercalate (by simp),
      List.splitOn_intercalate [] hfull (by simp), List.map_map]
    simp

/-! ## Scripts of reductions -/

variable {options options₁ options₂ : Reduce.Options} {blocks blocks₁ blocks₂ : List Block}
  {r r₁ r₂ : Reduction}

/-- The cells that a script renders are all that are not raw. -/
theorem filter_isRendered (h : reduce options blocks = .ok r) :
    r.cells.filter isRendered = r.cells.filter (·.kind != .raw) := by
  refine List.filter_congr ?_
  intro cell hcell
  simp [isRendered, not_isBlank_of_mem_cells h hcell]

/-- The script of a reduction with stripped code has no empty line inside a section. -/
theorem hasFullLines_of_mem (hstrip : options.stripComments = true)
    (hnoop : options.scan.isNoop = false) (h : reduce options blocks = .ok r)
    (hcell : cell ∈ r.cells.filter isRendered) : HasFullLines cell := by
  obtain ⟨hmem, hrendered⟩ := List.mem_filter.mp hcell
  refine hasFullLines_of_code ?_
  intro hkind line hline
  have hcode : cell.kind = .code := by
    cases hk : cell.kind with
    | code => rfl
    | markdown => exact absurd hk hkind
    | raw => simp [isRendered, hk] at hrendered
  exact (Scan.settled_iff.mp (settled_of_stripped hstrip hnoop h hmem hcode line hline)).2.2

/-- **A script is unambiguous.** Two reductions with stripped code have the same
script exactly when their cells that are not raw are the same, in place, kind and
text; code to the letter, and prose up to what stands on blank lines. -/
theorem script_eq_iff
    (hstrip₁ : options₁.stripComments = true) (hnoop₁ : options₁.scan.isNoop = false)
    (h₁ : reduce options₁ blocks₁ = .ok r₁)
    (hstrip₂ : options₂.stripComments = true) (hnoop₂ : options₂.scan.isNoop = false)
    (h₂ : reduce options₂ blocks₂ = .ok r₂) :
    script r₁.cells = script r₂.cells ↔
      (r₁.cells.filter (·.kind != .raw)).map shown =
        (r₂.cells.filter (·.kind != .raw)).map shown := by
  rw [← filter_isRendered h₁, ← filter_isRendered h₂,
    ← map_eq_map_iff_of_forall scriptSection_eq_iff]
  constructor
  · intro h
    rw [← readSections_script fun cell => hasFullLines_of_mem hstrip₁ hnoop₁ h₁, h,
      readSections_script fun cell => hasFullLines_of_mem hstrip₂ hnoop₂ h₂]
  · intro h
    rw [script, h, script]

/-- Prose that looks like a border and a heading, with code below it. -/
def disguisedBlocks : List Block :=
  [⟨.markdown, "a\n \n# Cell 2 (Code)".toList⟩, ⟨.code, "x = 1".toList⟩]

/-- The same without the blank on the second line, and with more that no script shows. -/
def plainBlocks : List Block :=
  [⟨.markdown, "a\n\n# Cell 2 (Code)".toList⟩, ⟨.code, "x = 1 # one".toList⟩, ⟨.raw, ['r']⟩]

def disguisedReduction : Reduction where
  cells := [⟨0, .markdown, "a\n \n# Cell 2 (Code)".toList⟩, ⟨1, .code, "x = 1".toList⟩]
  codeCells := 1

def plainReduction : Reduction where
  cells := [⟨0, .markdown, "a\n\n# Cell 2 (Code)".toList⟩, ⟨1, .code, "x = 1".toList⟩,
    ⟨2, .raw, ['r']⟩]
  codeCells := 1

theorem script_disguisedBlocks :
    reduce {} disguisedBlocks = .ok disguisedReduction ∧
      reduce { scan := { blockStrings := false } } plainBlocks = .ok plainReduction ∧
        script disguisedReduction.cells = script plainReduction.cells := by
  have hdisguised : reduce {} disguisedBlocks = .ok disguisedReduction := by rfl
  have hplain : reduce { scan := { blockStrings := false } } plainBlocks = .ok plainReduction := by
    rfl
  refine ⟨hdisguised, hplain, ?_⟩
  rw [script_eq_iff rfl rfl hdisguised rfl rfl hplain]
  decide

end NotebookExtract.Render
