import NotebookExtract.Proofs.Line

/-!
# Runs of the scanner

From one line to a whole text. A *settled* line is one that a scan in code hands
on as it is, an *inert* line one that it drops and forgets. Every line that a scan
keeps is settled, whatever mode it was read in, so the result of stripping passes
a second scan unchanged.
-/

namespace NotebookExtract.Scan

variable {options : Options} {mode : Mode} {line text : Text} {ls : List Text}

/-- A scan in code hands the line on as it is and stays in code. -/
def Settled (options : Options) (line : Text) : Prop :=
  scanLine options .code line = (.code, some line)

/-- A scan in code drops the line and stays in code. -/
def Inert (options : Options) (line : Text) : Prop :=
  scanLine options .code line = (.code, none)

/-! ## Inert lines -/

/-- A blank line is inert under all options. -/
theorem inert_of_isBlank (options : Options) (h : Text.isBlank line = true) :
    Inert options line := by
  have hkept : keptText? options line = none := by
    rw [keptText?_eq_none_iff, dropComment, codeFrom_of_isBlank h]
    split <;> simp [h]
  rw [Inert, scanLine_of_no_opener fun _ => opener?_of_isBlank h, hkept]

/-- A comment on a line of its own is inert where comments are removed. -/
theorem inert_comment (hl : options.lineComments = true) {indent : Text}
    (h : Text.isBlank indent = true) (rest : Text) : Inert options (indent ++ '#' :: rest) := by
  have hopen : opener? (indent ++ '#' :: rest) = none := by
    have hstart : Text.trimStart (indent ++ '#' :: rest) = '#' :: rest := by
      rw [Text.trimStart_append_of_isBlank h, Text.trimStart_cons_of_not_isSpace (by decide)]
    exact opener?_eq_none_of_head hstart (by intro q; cases q <;> decide)
  have hwalk : codeFrom .code (indent ++ '#' :: rest) = indent := by
    simpa using codeFrom_plain_append (all_isPlain_of_isBlank h) ('#' :: rest)
  have hkept : keptText? options (indent ++ '#' :: rest) = none := by
    rw [keptText?_eq_none_iff, if_pos hl, dropComment, hwalk, Text.isBlank_trimEnd]
    exact h
  rw [Inert, scanLine_of_no_opener fun _ => hopen, hkept]

/-! ## What a run keeps -/

/-- What makes a line settled: it opens no block, has no comment to lose and is
not blank. -/
theorem settled_iff : Settled options line ↔
    (options.blockStrings = true → opener? line = none) ∧
      (options.lineComments = true → dropComment line = line) ∧ Text.isBlank line = false := by
  constructor
  · intro h
    have hsnd : (scanLine options .code line).2 = some line := by rw [h]
    obtain ⟨-, hkept, hopen⟩ := scanLine_kept hsnd
    obtain ⟨hwhole, hnb⟩ := keptText?_eq_some_iff.mp hkept
    refine ⟨hopen, ?_, hnb⟩
    intro hl
    rwa [if_pos hl] at hwhole
  · rintro ⟨hopen, hwhole, hnb⟩
    have hkept : keptText? options line = some line := by
      refine keptText?_eq_some_iff.mpr ⟨?_, hnb⟩
      split
      · exact hwhole ‹_›
      · rfl
    rw [Settled, scanLine_of_no_opener hopen, hkept]

/-- Whatever mode a line is read in, the text kept of it is settled: its comment
is gone, it is not blank, and it opens no block that the line itself did not. -/
theorem settled_of_kept (h : (scanLine options mode line).2 = some text) :
    Settled options text := by
  obtain ⟨-, hkept, hopen⟩ := scanLine_kept h
  obtain ⟨htext, hnb⟩ := keptText?_eq_some_iff.mp hkept
  rw [settled_iff]
  by_cases hl : options.lineComments = true
  · -- the text is the line without its comment
    rw [if_pos hl] at htext
    subst htext
    exact ⟨fun hb => opener?_dropComment (hopen hb), fun _ => dropComment_dropComment line, hnb⟩
  · -- the text is the line itself
    rw [if_neg hl] at htext
    subst htext
    exact ⟨hopen, fun h => absurd h hl, hnb⟩

/-- What is kept of a line stands at its front. -/
theorem isPrefix_of_kept (h : (scanLine options mode line).2 = some text) : text <+: line := by
  obtain ⟨-, hkept, -⟩ := scanLine_kept h
  obtain ⟨rfl, -⟩ := keptText?_eq_some_iff.mp hkept
  split
  · exact dropComment_isPrefix line
  · exact List.prefix_refl line

/-- Nothing is kept of a blank line. -/
theorem not_isBlank_of_kept (h : (scanLine options mode line).2 = some text) :
    Text.isBlank line = false := by
  obtain ⟨rest, rfl⟩ := isPrefix_of_kept h
  have htext := (settled_iff.mp (settled_of_kept h)).2.2
  simp [htext]

/-- One step of a run. -/
theorem scanLines_cons (options : Options) (mode : Mode) (line : Text) (rest : List Text) :
    scanLines options mode (line :: rest) =
      ((scanLines options (scanLine options mode line).1 rest).1,
        (scanLine options mode line).2.toList ++
          (scanLines options (scanLine options mode line).1 rest).2) := rfl

/-- Every text that a run keeps was kept of one of its lines. -/
theorem exists_kept_of_mem_scanLines (h : text ∈ (scanLines options mode ls).2) :
    ∃ m, ∃ line ∈ ls, (scanLine options m line).2 = some text := by
  induction ls generalizing mode with
  | nil => cases h
  | cons line rest ih =>
    rw [scanLines_cons, List.mem_append] at h
    rcases h with hhere | hlater
    · exact ⟨mode, line, List.mem_cons_self, Option.mem_toList.mp hhere⟩
    · obtain ⟨m, l, hl, hkept⟩ := ih hlater
      exact ⟨m, l, List.mem_cons_of_mem line hl, hkept⟩

/-- A run keeps front parts of its lines, so it brings no line feed in. -/
theorem not_mem_of_mem_scanLines (hls : ∀ line ∈ ls, '\n' ∉ line)
    (h : text ∈ (scanLines options mode ls).2) : '\n' ∉ text := by
  obtain ⟨m, line, hline, hkept⟩ := exists_kept_of_mem_scanLines h
  intro hmem
  exact hls line hline ((isPrefix_of_kept hkept).subset hmem)

/-- A run in which no line changes the mode keeps what each line keeps. -/
theorem scanLines_of_steady {kept? : Text → Option Text}
    (h : ∀ line ∈ ls, scanLine options mode line = (mode, kept? line)) :
    scanLines options mode ls = (mode, ls.filterMap kept?) := by
  induction ls with
  | nil => rfl
  | cons line rest ih =>
    have hline := h line List.mem_cons_self
    have hrest := ih fun l hl => h l (List.mem_cons_of_mem line hl)
    rw [scanLines_cons, hline, hrest, List.filterMap_cons]
    cases kept? line <;> rfl

/-- Settled lines pass a run as they are. -/
theorem scanLines_of_settled (h : ∀ line ∈ ls, Settled options line) :
    scanLines options .code ls = (.code, ls) := by
  simpa using scanLines_of_steady h

/-- Inert lines leave no trace in a run. -/
theorem scanLines_of_inert (h : ∀ line ∈ ls, Inert options line) :
    scanLines options .code ls = (.code, []) := by
  rw [scanLines_of_steady h, List.filterMap_eq_nil_iff.mpr fun _ _ => rfl]

/-- Lines inside a block without its delimiter leave the block open. -/
theorem scanLines_block {q : BlockQuote}
    (h : ∀ line ∈ ls, Text.contains line q.delimiter = false) :
    scanLines options (.block q) ls = (.block q, []) := by
  have hsteady : ∀ line ∈ ls, scanLine options (.block q) line = (.block q, none) := by
    intro line hline
    simp [scanLine_block, h line hline]
  rw [scanLines_of_steady hsteady, List.filterMap_eq_nil_iff.mpr fun _ _ => rfl]

/-- A run that starts in code or in a block ends in code or in a block. -/
theorem scanLines_mode (options : Options) (ls : List Text)
    (h : mode = .code ∨ ∃ q, mode = .block q) :
    (scanLines options mode ls).1 = .code ∨ ∃ q, (scanLines options mode ls).1 = .block q := by
  induction ls generalizing mode with
  | nil => exact h
  | cons line rest ih => exact ih (scanLine_mode options mode line)

/-- Lines without a delimiter lead into no block that it closes. -/
theorem scanLines_ne_block {q : BlockQuote} (hmode : mode ≠ .block q)
    (h : ∀ line ∈ ls, Text.contains line q.delimiter = false) :
    (scanLines options mode ls).1 ≠ .block q := by
  induction ls generalizing mode with
  | nil => exact hmode
  | cons line rest ih =>
    have hnext := scanLine_ne_block options hmode (h line List.mem_cons_self)
    exact ih hnext fun l hl => h l (List.mem_cons_of_mem line hl)

/-- Two runs of which the first ends in code. -/
theorem scanLines_append_of_code {as bs kept : List Text}
    (h : scanLines options mode as = (.code, kept)) :
    scanLines options mode (as ++ bs) =
      ((scanLines options .code bs).1, kept ++ (scanLines options .code bs).2) := by
  rw [scanLines_append, h]

/-! ## Stripping -/

/-- Unless nothing is to be removed, stripping is a scan from code. -/
theorem strip_eq (hnoop : options.isNoop = false) (text : Text) :
    strip options text = Text.ofLines (scanLines options .code (Text.lines text)).2 := by
  simp [strip, hnoop]

/-- Stripping joined lines scans these lines. -/
theorem strip_ofLines (hnoop : options.isNoop = false) (h : ∀ line ∈ ls, '\n' ∉ line) :
    strip options (Text.ofLines ls) = Text.ofLines (scanLines options .code ls).2 := by
  rw [strip_eq hnoop]
  by_cases hne : ls = []
  · -- no lines at all join to the empty text, which has one blank line
    have hblank : ∀ line ∈ [([] : Text)], Inert options line := by
      intro line hline
      exact inert_of_isBlank options (by simp [List.mem_singleton.mp hline])
    have hnil : Text.ofLines ([] : List Text) = [] := rfl
    rw [hne, hnil, Text.lines_nil, scanLines_of_inert hblank]
    rfl
  · rw [Text.lines_ofLines hne h]

/-- The lines that stripping keeps are settled and hold no line feed. -/
theorem mem_scanLines_lines (h : line ∈ (scanLines options .code (Text.lines text)).2) :
    Settled options line ∧ '\n' ∉ line := by
  obtain ⟨m, l, -, hkept⟩ := exists_kept_of_mem_scanLines h
  exact ⟨settled_of_kept hkept, not_mem_of_mem_scanLines (fun _ => Text.not_mem_of_mem_lines) h⟩

/-- A result that is not blank has the lines that the scan kept. -/
theorem lines_strip (hnoop : options.isNoop = false)
    (hnb : Text.isBlank (strip options text) = false) :
    Text.lines (strip options text) = (scanLines options .code (Text.lines text)).2 := by
  -- no kept line at all would make the result empty
  have hne : (scanLines options .code (Text.lines text)).2 ≠ [] := by
    intro hnil
    rw [strip_eq hnoop, hnil] at hnb
    cases hnb
  rw [strip_eq hnoop, Text.lines_ofLines hne fun line hline => (mem_scanLines_lines hline).2]

/-- Stripping a text a second time changes nothing, under all options and for
every text, however its quotes and blocks are broken. -/
theorem strip_idempotent (options : Options) (text : Text) :
    strip options (strip options text) = strip options text := by
  cases hnoop : options.isNoop with
  | true => simp [strip, hnoop]
  | false =>
    -- the second scan meets only lines that the first one kept
    have hkept : ∀ line ∈ (scanLines options .code (Text.lines text)).2,
        Settled options line ∧ '\n' ∉ line := fun _ => mem_scanLines_lines
    rw [strip_eq hnoop text, strip_ofLines hnoop fun line hline => (hkept line hline).2,
      scanLines_of_settled fun line hline => (hkept line hline).1]

end NotebookExtract.Scan
