import Mathlib.Data.List.Forall2
import NotebookExtract.Proofs.Compose

/-!
# What stripping can keep

A line has one *candidate*: the line without its comment where comments are removed,
and else the line itself. Whatever mode a line is read in, a scan keeps its candidate
or nothing, so the lines of a stripped text are candidates in the order of the text,
and none of them is half-kept. Only blocks make the difference: where they are not
looked for, or no line starts like one, every candidate that is not blank is kept.
-/

namespace NotebookExtract

namespace Text

/-- The lines of a text, and none at all if the text is empty. -/
def linesOrNone (text : Text) : List Text :=
  if text = [] then [] else lines text

/-- Lines with something in them are found again after joining them, also if there are
none. -/
theorem linesOrNone_ofLines {ls : List Text} (hsome : ∀ line ∈ ls, line ≠ [])
    (h : ∀ line ∈ ls, '\n' ∉ line) : linesOrNone (ofLines ls) = ls := by
  by_cases hls : ls = []
  · rw [hls]
    rfl
  · have hne : ofLines ls ≠ [] := mt (ofLines_eq_nil_iff hsome).mp hls
    rw [linesOrNone, if_neg hne, lines_ofLines hls h]

end Text

namespace Scan

variable {options : Options} {mode : Mode} {line text : Text} {ls : List Text}

/-! ## Candidates -/

/-- What a line is cut to. -/
def cutLine (options : Options) (line : Text) : Text :=
  if options.lineComments then dropComment line else line

/-- The lines of a text, each cut, without those that are blank then. -/
def candidates (options : Options) (text : Text) : List Text :=
  ((Text.lines text).map (cutLine options)).filter (!Text.isBlank ·)

/-- A line stands at the front of another, with something in it, and where comments are
removed it has none and no whitespace at its end. -/
structure CutFrom (options : Options) (cut line : Text) : Prop where
  isPrefix : cut <+: line
  notBlank : Text.isBlank cut = false
  trimmed : options.lineComments = true → Text.trimEnd cut = cut
  uncommented : options.lineComments = true → dropComment cut = cut

/-- A line that is cut and not blank then is cut from itself. -/
theorem cutFrom_cutLine (h : Text.isBlank (cutLine options line) = false) :
    CutFrom options (cutLine options line) line := by
  cases hl : options.lineComments with
  | false =>
    have hwhole : cutLine options line = line := by simp [cutLine, hl]
    rw [hwhole] at h ⊢
    exact ⟨List.prefix_refl line, h, fun hon => by simp [hl] at hon, fun hon => by simp [hl] at hon⟩
  | true =>
    have hcut : cutLine options line = dropComment line := by simp [cutLine, hl]
    rw [hcut] at h ⊢
    refine ⟨dropComment_isPrefix line, h, ?_, ?_⟩
    · intro _
      exact Text.trimEnd_trimEnd _
    · intro _
      exact dropComment_dropComment line

/-- The candidates are what the lines leave outside blocks. -/
theorem filterMap_keptText? (options : Options) (ls : List Text) :
    ls.filterMap (keptText? options) =
      (ls.map (cutLine options)).filter (!Text.isBlank ·) := by
  induction ls with
  | nil => rfl
  | cons line rest ih =>
    have hkept : keptText? options line =
        if Text.isBlank (cutLine options line) then none else some (cutLine options line) := rfl
    cases hblank : Text.isBlank (cutLine options line) <;> simp [hkept, hblank, ih]

/-! ## A scan keeps candidates only -/

/-- Of one line a scan keeps what it would keep outside blocks, or nothing. -/
theorem toList_scanLine_sublist (options : Options) (mode : Mode) (line : Text) :
    (scanLine options mode line).2.toList.Sublist (keptText? options line).toList := by
  cases hkept : (scanLine options mode line).2 with
  | none => exact List.nil_sublist _
  | some text =>
    rw [(scanLine_kept hkept).2.1]

/-- So it does of a run of lines. -/
theorem scanLines_sublist (options : Options) (mode : Mode) (ls : List Text) :
    (scanLines options mode ls).2.Sublist (ls.filterMap (keptText? options)) := by
  induction ls generalizing mode with
  | nil => exact List.Sublist.refl []
  | cons line rest ih =>
    have hline := toList_scanLine_sublist options mode line
    have hrest := ih (scanLine options mode line).1
    have hsplit : (line :: rest).filterMap (keptText? options) =
        (keptText? options line).toList ++ rest.filterMap (keptText? options) := by
      cases hkept : keptText? options line <;> simp [hkept]
    rw [scanLines_cons, hsplit]
    exact hline.append hrest

/-- A line that does not start with a delimiter opens no block. -/
theorem opener?_eq_none_of_trim (h : ∀ q : BlockQuote, ¬ q.delimiter <+: Text.trim line) :
    opener? line = none := by
  rw [opener?_eq_none_iff]
  intro q hq
  have htrim : q.delimiter <+: Text.trim line :=
    (Text.isPrefix_trimEnd_iff q.trimEnd_delimiter).mpr hq
  exact absurd htrim (h q)

/-- Where no line opens a block, a run keeps all that it can. -/
theorem scanLines_of_no_opener
    (h : ∀ line ∈ ls, options.blockStrings = true → opener? line = none) :
    scanLines options .code ls = (.code, ls.filterMap (keptText? options)) := by
  apply scanLines_of_steady
  intro line hline
  exact scanLine_of_no_opener (h line hline)

/-! ## The lines of a stripped text -/

/-- The lines of a stripped text are those that the scan kept. -/
theorem linesOrNone_strip (hnoop : options.isNoop = false) (text : Text) :
    Text.linesOrNone (strip options text) = (scanLines options .code (Text.lines text)).2 := by
  rw [strip_eq hnoop]
  apply Text.linesOrNone_ofLines
  · intro line hline
    exact ne_nil_of_mem_scanLines hline
  · intro line hline
    exact (mem_scanLines_lines hline).2

theorem linesOrNone_strip_sublist (hnoop : options.isNoop = false) (text : Text) :
    (Text.linesOrNone (strip options text)).Sublist (candidates options text) := by
  have hscan := scanLines_sublist options .code (Text.lines text)
  rw [filterMap_keptText?] at hscan
  rw [linesOrNone_strip hnoop]
  exact hscan

/-- Each line of a stripped text has a line of the text from which it was cut, and these
stand in the same order. -/
theorem exists_cutFrom (hnoop : options.isNoop = false) (text : Text) :
    ∃ origins : List Text, origins.Sublist (Text.lines text) ∧
      List.Forall₂ (CutFrom options) (Text.linesOrNone (strip options text)) origins := by
  have hcandidates := linesOrNone_strip_sublist hnoop text
  have hcuts := hcandidates.trans List.filter_sublist
  rcases List.sublist_map_iff.mp hcuts with ⟨origins, horigins, hlines⟩
  refine ⟨origins, horigins, ?_⟩
  rw [hlines] at hcandidates ⊢
  rw [List.forall₂_map_left_iff, List.forall₂_same]
  intro line hline
  have hmem : cutLine options line ∈ candidates options text :=
    hcandidates.subset (List.mem_map_of_mem hline)
  have hnb := (List.mem_filter.mp hmem).2
  exact cutFrom_cutLine (by simpa using hnb)

theorem linesOrNone_strip_eq (hnoop : options.isNoop = false)
    (h : options.blockStrings = false ∨
      ∀ line ∈ Text.lines text, ∀ q : BlockQuote, ¬ q.delimiter <+: Text.trim line) :
    Text.linesOrNone (strip options text) = candidates options text := by
  have hopen : ∀ line ∈ Text.lines text, options.blockStrings = true → opener? line = none := by
    intro line hline hon
    rcases h with hoff | hstart
    · rw [hoff] at hon
      cases hon
    · exact opener?_eq_none_of_trim (hstart line hline)
  rw [linesOrNone_strip hnoop, scanLines_of_no_opener hopen, filterMap_keptText?]
  rfl

/-- Looking for blocks can only take lines away, also from a text that is else left as
it is. -/
theorem strip_blocks_sublist (comments : Bool) (text : Text) :
    (Text.linesOrNone (strip ⟨comments, true⟩ text)).Sublist
      (Text.linesOrNone (strip ⟨comments, false⟩ text)) := by
  have hnoop : Options.isNoop ⟨comments, true⟩ = false := by simp [Options.isNoop]
  have hcandidates := linesOrNone_strip_sublist hnoop text
  cases comments with
  | true =>
    -- the candidates are the same for both, and without blocks all of them stay
    have hall : Text.linesOrNone (strip ⟨true, false⟩ text) = candidates ⟨true, false⟩ text :=
      linesOrNone_strip_eq rfl (Or.inl rfl)
    rw [hall]
    exact hcandidates
  | false =>
    have hverbatim : strip ⟨false, false⟩ text = text := rfl
    rw [hverbatim]
    by_cases htext : text = []
    · rw [htext]
      exact List.Sublist.refl _
    · have hlines : Text.linesOrNone text = Text.lines text := if_neg htext
      have hwhole : (Text.lines text).map (cutLine ⟨false, true⟩) = Text.lines text :=
        List.map_id _
      rw [candidates, hwhole] at hcandidates
      rw [hlines]
      exact hcandidates.trans List.filter_sublist

/-- **Nothing is invented, moved or half-kept.** The lines of a stripped text are
candidates of the text, in its order: each was cut from a line of the text, has something
in it and nothing left to remove. All candidates are there if blocks are not looked for or
no line starts with a delimiter, and looking for blocks takes whole lines away. -/
theorem strip_keeps_candidates (hnoop : options.isNoop = false) (text : Text) :
    (strip options text = [] ∨
      (Text.lines (strip options text)).Sublist (candidates options text)) ∧
    (∃ origins : List Text, origins.Sublist (Text.lines text) ∧
      List.Forall₂ (CutFrom options) (Text.linesOrNone (strip options text)) origins) ∧
    (options.blockStrings = false ∨
        (∀ line ∈ Text.lines text, ∀ q : BlockQuote, ¬ q.delimiter <+: Text.trim line) →
      Text.linesOrNone (strip options text) = candidates options text) ∧
    (Text.linesOrNone (strip { options with blockStrings := true } text)).Sublist
      (Text.linesOrNone (strip { options with blockStrings := false } text)) := by
  refine ⟨?_, exists_cutFrom hnoop text, linesOrNone_strip_eq hnoop,
    strip_blocks_sublist options.lineComments text⟩
  by_cases hempty : strip options text = []
  · exact Or.inl hempty
  · have hlines : Text.linesOrNone (strip options text) = Text.lines (strip options text) :=
      if_neg hempty
    rw [← hlines]
    exact Or.inr (linesOrNone_strip_sublist hnoop text)

/-- A text with a documentation block between two lines of code. -/
def blockBetween : Text :=
  "x = '#'  # one\n\"\"\"doc # two\nend\"\"\"\n \n  y = 2 ".toList

/-- Its block goes with both of its lines, which are candidates like the others. -/
theorem strip_keeps_candidates_blockBetween :
    candidates {} blockBetween =
        ["x = '#'".toList, "\"\"\"doc # two".toList, "end\"\"\"".toList, "  y = 2".toList] ∧
      Text.lines (strip {} blockBetween) = ["x = '#'".toList, "  y = 2".toList] ∧
      (Text.lines (strip {} blockBetween)).Sublist (candidates {} blockBetween) ∧
      Text.linesOrNone (strip { blockStrings := false } blockBetween) =
        candidates {} blockBetween := by
  have hon := @strip_keeps_candidates {} rfl blockBetween
  have hoff := @strip_keeps_candidates { blockStrings := false } rfl blockBetween
  refine ⟨by decide, by decide, ?_, hoff.2.2.1 (Or.inl rfl)⟩
  rcases hon.1 with hempty | hsublist
  · exact absurd hempty (by decide)
  · exact hsublist

end Scan

end NotebookExtract
