import Mathlib.Data.List.Forall2
import NotebookExtract.Proofs.Removed

/-!
# Whitespace has no influence

Stripping does not see how a text is laid out. Blank lines may be put in and taken out
anywhere, inside blocks too: in every mode a blank line is passed over. And where
comments are removed, whitespace at the end of a line changes nothing, wherever it
falls: behind code it is trimmed, in a comment it goes with the comment, in a literal
that the line leaves open it is trimmed all the same, even behind a backslash, and a
delimiter has no whitespace in it.
-/

namespace NotebookExtract

namespace Text

variable {line padded space text : Text}

/-! ## Two ways to lay out a text -/

/-- The lines of a text that are not blank. Two texts that have the same ones differ in
blank lines only. -/
def fullLines (text : Text) : List Text :=
  (lines text).filter (!isBlank ·)

/-- The line with whitespace appended to it, or with nothing. -/
def PaddedLine (line padded : Text) : Prop :=
  ∃ space, isBlank space = true ∧ padded = line ++ space

/-- The text with whitespace appended to the ends of any of its lines. The lines stay
lines, so none of the whitespace is a line feed. -/
def Padded (text padded : Text) : Prop :=
  List.Forall₂ PaddedLine (lines text) (lines padded)

/-- The text with a carriage return in front of every line feed. -/
def toCrlf (text : Text) : Text :=
  text.flatMap fun c => if c = '\n' then ['\r', '\n'] else [c]

/-- Carriage returns are whitespace at the ends of lines. -/
theorem padded_toCrlf (text : Text) : Padded text (toCrlf text) := by
  induction text with
  | nil => exact .cons ⟨[], rfl, rfl⟩ .nil
  | cons c rest ih =>
    by_cases hc : c = '\n'
    · have hcrlf : toCrlf (c :: rest) = ['\r'] ++ '\n' :: toCrlf rest := by simp [toCrlf, hc]
      rw [Padded, hcrlf, lines_append_cons, hc, lines_cons_newline]
      exact .cons ⟨['\r'], by decide, rfl⟩ ih
    · have hcrlf : toCrlf (c :: rest) = c :: toCrlf rest := by simp [toCrlf, hc]
      obtain ⟨first, later, hlines⟩ := List.exists_cons_of_ne_nil (lines_ne_nil rest)
      rw [Padded, hlines] at ih
      -- the character joins the first line on both sides
      obtain ⟨first', later', ⟨space, hblank, rfl⟩, hlater, hlines'⟩ := List.forall₂_cons_left_iff.mp ih
      rw [Padded, hcrlf, lines_cons_of_ne hc hlines, lines_cons_of_ne hc hlines']
      exact .cons ⟨space, hblank, rfl⟩ hlater

/-- Trimming at both ends does not see whitespace at the end. -/
theorem trim_append_of_isBlank (line : Text) (h : isBlank space = true) :
    trim (line ++ space) = trim line := by
  cases hline : isBlank line with
  | true =>
    rw [trim, trim, trimStart_append_of_isBlank hline, trimStart_of_isBlank h,
      trimStart_of_isBlank hline]
  | false => rw [trim, trim, trimStart_append_of_not_isBlank hline, trimEnd_append_of_isBlank _ h]

end Text

namespace Scan

variable {options : Options} {mode : Mode} {q : BlockQuote} {line space text : Text}
  {ls padded : List Text}

/-! ## Blank lines -/

/-- In code and in a block a blank line is passed over. -/
theorem scanLine_of_isBlank (options : Options) (hmode : mode = .code ∨ ∃ q, mode = .block q)
    (h : Text.isBlank line = true) : scanLine options mode line = (mode, none) := by
  rcases hmode with rfl | ⟨q, rfl⟩
  · exact inert_of_isBlank options h
  · have hheld : Text.contains line q.delimiter = false :=
      contains_delimiter_of_not_mem (Text.not_mem_of_isBlank h q.isSpace_char)
    rw [scanLine_block, hheld]
    rfl

/-- A run reads only the lines that are not blank. -/
theorem scanLines_filter_isBlank (options : Options) (ls : List Text)
    (hmode : mode = .code ∨ ∃ q, mode = .block q) :
    scanLines options mode (ls.filter (!Text.isBlank ·)) = scanLines options mode ls := by
  induction ls generalizing mode with
  | nil => rfl
  | cons line rest ih =>
    cases hblank : Text.isBlank line with
    | true =>
      rw [List.filter_cons_of_neg (by simp [hblank]), scanLines_cons,
        scanLine_of_isBlank options hmode hblank, ih hmode]
      rfl
    | false =>
      rw [List.filter_cons_of_pos (by simp [hblank]), scanLines_cons, scanLines_cons,
        ih (scanLine_mode options mode line)]

/-! ## Whitespace at the end of a line -/

/-- Up to trimming, the walk does not see whitespace at the end: a comment is found in
front of it or not at all. -/
theorem trimEnd_codeFrom_append (mode : Mode) (line : Text) (h : Text.isBlank space = true) :
    Text.trimEnd (codeFrom mode (line ++ space)) = Text.trimEnd (codeFrom mode line) := by
  have hhash : '#' ∉ space := Text.not_mem_of_isBlank h (by decide)
  rcases codeFrom_append_comment mode (line ++ space) with hall | ⟨comment, hcut⟩
  · -- no comment: the walk keeps the line, then the whitespace
    have hfront : line <+: codeFrom mode (line ++ space) := by
      rw [hall]
      exact List.prefix_append line space
    rw [hall, codeFrom_of_isPrefix hfront, Text.trimEnd_append_of_isBlank line h]
  · have hne : codeFrom mode (line ++ space) ≠ line ++ space := by
      intro hall
      rw [hall] at hcut
      simp at hcut
    rcases List.append_eq_append_iff.mp hcut with ⟨rest, -, hspace⟩ | ⟨rest, hline, hrest⟩
    · exact absurd (by simp [hspace]) hhash
    · -- the comment starts within the line
      cases rest with
      | nil =>
        have hspace : space = '#' :: comment := hrest.symm
        exact absurd (by simp [hspace]) hhash
      | cons d rest =>
        obtain ⟨rfl, -⟩ := List.cons.inj hrest
        have hwalk := codeFrom_append_hash hne rest
        rw [← hline] at hwalk
        rw [hwalk]

theorem dropComment_append_of_isBlank (line : Text) (h : Text.isBlank space = true) :
    dropComment (line ++ space) = dropComment line :=
  trimEnd_codeFrom_append .code line h

/-- Whether and how a line opens a block does not depend on whitespace at its end. -/
theorem opener?_append_of_isBlank (line : Text) (h : Text.isBlank space = true) :
    opener? (line ++ space) = opener? line := by
  rw [opener?, opener?, dropComment_append_of_isBlank line h, Text.trim_append_of_isBlank line h]

/-- Nor does whether it holds a delimiter. -/
theorem contains_append_of_isBlank (q : BlockQuote) (line : Text)
    (h : Text.isBlank space = true) :
    Text.contains (line ++ space) q.delimiter = Text.contains line q.delimiter := by
  have hfront : ∀ text : Text, q.delimiter <+: text ++ space ↔ q.delimiter <+: text := by
    intro text
    rw [← Text.isPrefix_trimEnd_iff q.trimEnd_delimiter, Text.trimEnd_append_of_isBlank text h,
      Text.isPrefix_trimEnd_iff q.trimEnd_delimiter]
  induction line with
  | nil =>
    have hspace : Text.contains space q.delimiter = false :=
      contains_delimiter_of_not_mem (Text.not_mem_of_isBlank h q.isSpace_char)
    rw [List.nil_append, hspace, contains_delimiter_of_not_mem (by simp)]
  | cons c line ih =>
    have hhere := hfront (c :: line)
    rw [Bool.eq_iff_iff, List.cons_append, Text.contains, Text.contains, ih]
    simpa using or_congr_left hhere

/-- Behind the delimiter that opens a block the whitespace still is at the end. -/
theorem afterOpener_append (h : opener? line = some q) (space : Text) :
    afterOpener q (line ++ space) = afterOpener q line ++ space := by
  have hlead := (opener?_eq_some_iff.mp h).1
  have hnb : Text.isBlank line = false := by
    rw [← Bool.not_eq_true]
    intro hblank
    rw [opener?_of_isBlank hblank] at h
    cases h
  rw [afterOpener, afterOpener, Text.trimStart_append_of_not_isBlank hnb,
    List.drop_append_of_le_length hlead.length_le]

/-- Where comments are removed, a scan does not see whitespace at the end of a line. -/
theorem scanLine_append_of_isBlank (hl : options.lineComments = true) (mode : Mode) (line : Text)
    (h : Text.isBlank space = true) :
    scanLine options mode (line ++ space) = scanLine options mode line := by
  have hopener := opener?_append_of_isBlank line h
  have hkept : keptText? options (line ++ space) = keptText? options line := by
    rw [keptText?, keptText?, if_pos hl, if_pos hl, dropComment_append_of_isBlank line h]
  have hcode : scanLine options .code (line ++ space) = scanLine options .code line := by
    by_cases hopens : ∃ q, options.blockStrings = true ∧ opener? line = some q
    · obtain ⟨q, hblocks, hopen⟩ := hopens
      rw [scanLine_of_opener hblocks hopen, scanLine_of_opener hblocks (hopener.trans hopen),
        afterOpener_append hopen, contains_append_of_isBlank q _ h]
    · have hnone : options.blockStrings = true → opener? line = none := by
        intro hblocks
        rw [Option.eq_none_iff_forall_ne_some]
        intro q hopen
        exact hopens ⟨q, hblocks, hopen⟩
      rw [scanLine_of_no_opener hnone, scanLine_of_no_opener (by rwa [hopener]), hkept]
  cases mode with
  | block q => rw [scanLine_block, scanLine_block, contains_append_of_isBlank q line h]
  | code | single | double => exact hcode

/-- Nor does a run. -/
theorem scanLines_of_paddedLines (hl : options.lineComments = true)
    (h : List.Forall₂ Text.PaddedLine ls padded) :
    scanLines options mode padded = scanLines options mode ls := by
  induction h generalizing mode with
  | nil => rfl
  | cons hline _ ih =>
    obtain ⟨space, hblank, rfl⟩ := hline
    rw [scanLines_cons, scanLines_cons, scanLine_append_of_isBlank hl mode _ hblank, ih]

/-! ## Two runs -/

/-- **Layout has no influence.** Unless nothing is to be removed, two texts that differ
in blank lines only are stripped to the same text. Where comments are removed, so is a
text with whitespace at the ends of its lines, and with it a text whose lines end in a
carriage return and a line feed. -/
theorem strip_eq_of_layout (hnoop : options.isNoop = false) (text : Text) :
    (∀ other, Text.fullLines other = Text.fullLines text →
      strip options other = strip options text) ∧
    (options.lineComments = true →
      (∀ padded, Text.Padded text padded → strip options padded = strip options text) ∧
        strip options (Text.toCrlf text) = strip options text) := by
  refine ⟨?_, ?_⟩
  · intro other hfull
    have hrun : ∀ t : Text, strip options t =
        Text.ofLines (scanLines options .code (Text.fullLines t)).2 := by
      intro t
      rw [strip_eq hnoop, Text.fullLines, scanLines_filter_isBlank options _ (Or.inl rfl)]
    rw [hrun, hrun, hfull]
  · intro hl
    have hpadded : ∀ padded, Text.Padded text padded →
        strip options padded = strip options text := by
      intro padded h
      rw [strip_eq hnoop, strip_eq hnoop, scanLines_of_paddedLines hl h]
    exact ⟨hpadded, hpadded _ (Text.padded_toCrlf text)⟩

/-- An open literal that ends in a backslash, a block, and code with a comment. -/
def laidOut : Text :=
  "s = 'a\\\n\"\"\"Notes\nmore\n\"\"\"\ny = 1  # one".toList

/-- The same with blank lines between all others and at the end. -/
def laidOutWide : Text :=
  "s = 'a\\\n \n\"\"\"Notes\n\n\nmore\n\"\"\"\n\t\r\ny = 1  # one\n".toList

/-- The same with whitespace behind the backslash, the delimiters and the comment. -/
def laidOutPadded : Text :=
  "s = 'a\\  \n\"\"\"Notes\t\nmore\n\"\"\"\r\ny = 1  # one ".toList

theorem strip_laidOut :
    Text.fullLines laidOutWide = Text.fullLines laidOut ∧ Text.Padded laidOut laidOutPadded ∧
      strip {} laidOutWide = "s = 'a\\\ny = 1".toList ∧
      strip {} laidOutPadded = "s = 'a\\\ny = 1".toList := by
  have hstrip : strip {} laidOut = "s = 'a\\\ny = 1".toList := by decide
  have hfull : Text.fullLines laidOutWide = Text.fullLines laidOut := by decide
  have hpadded : Text.Padded laidOut laidOutPadded :=
    .cons ⟨"  ".toList, by decide, rfl⟩ (.cons ⟨['\t'], by decide, rfl⟩ (.cons ⟨[], rfl, rfl⟩
      (.cons ⟨['\r'], by decide, rfl⟩ (.cons ⟨[' '], by decide, rfl⟩ .nil))))
  obtain ⟨hwide, hcomments⟩ := @strip_eq_of_layout {} rfl laidOut
  refine ⟨hfull, hpadded, ?_, ?_⟩
  · rw [hwide laidOutWide hfull, hstrip]
  · rw [(hcomments rfl).1 laidOutPadded hpadded, hstrip]

-- Where only blocks are removed, whitespace at the end of a line is kept with the line.
example : strip { lineComments := false } "x ".toList = "x ".toList := by
  decide

end Scan

end NotebookExtract
