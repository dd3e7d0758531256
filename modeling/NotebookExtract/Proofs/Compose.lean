import NotebookExtract.Proofs.Strip

/-!
# Texts and passes in sequence

Two laws of stripping. A text that is put together from two parts is stripped part by
part: the second part is read in the mode in which the first one ends, and inside a
block that means from the line after the one that closes it. And the full strip is two
passes with one purpose each, first the blocks and then the comments.

The order of the passes matters. A comment may hold the delimiter that ends a block on
the line that opens it, so a pass that removes comments first can leave that block open.
-/

namespace NotebookExtract

/-! ## One text above another -/

namespace Text

variable {as bs : List Text}

/-- One text above another; an empty one takes no line. -/
def stack (x y : Text) : Text :=
  if y = [] then x else if x = [] then y else x ++ '\n' :: y

/-- Nothing is below. -/
@[simp] theorem stack_nil (x : Text) : stack x [] = x := by
  simp [stack]

/-- Lines with something in them join to an empty text only when there are none. -/
theorem ofLines_eq_nil_iff (h : ∀ line ∈ as, line ≠ []) : ofLines as = [] ↔ as = [] :=
  intercalate_eq_nil_iff ['\n'] h

/-- Two runs of lines with something in each, joined one above the other. -/
theorem ofLines_append_eq_stack (ha : ∀ line ∈ as, line ≠ []) (hb : ∀ line ∈ bs, line ≠ []) :
    ofLines (as ++ bs) = stack (ofLines as) (ofLines bs) := by
  by_cases hbs : bs = []
  · simp [hbs, ofLines]
  · have hbs' : ofLines bs ≠ [] := mt (ofLines_eq_nil_iff hb).mp hbs
    by_cases has : as = []
    · simp [has, stack, ofLines]
    · have has' : ofLines as ≠ [] := mt (ofLines_eq_nil_iff ha).mp has
      rw [ofLines_append has hbs, stack, if_neg hbs', if_neg has']

end Text

namespace Scan

variable {options : Options} {mode : Mode} {line : Text} {ls : List Text}

/-! ## A text in two parts -/

/-- What is left of a text behind its first line that holds the delimiter. -/
def afterBlock (q : BlockQuote) (text : Text) : Text :=
  Text.ofLines ((Text.lines text).dropWhile fun line => !Text.contains line q.delimiter).tail

/-- Every line that a run keeps has something in it. -/
theorem ne_nil_of_mem_scanLines (h : line ∈ (scanLines options mode ls).2) : line ≠ [] := by
  obtain ⟨m, origin, -, hkept⟩ := exists_kept_of_mem_scanLines h
  rintro rfl
  exact absurd (settled_iff.mp (settled_of_kept hkept)).2.2 (by decide)

/-- Inside a block a run keeps what it keeps of the lines behind the one that closes
the block. -/
theorem scanLines_block_eq (options : Options) (q : BlockQuote) (ls : List Text) :
    (scanLines options (.block q) ls).2 =
      (scanLines options .code
        (ls.dropWhile fun line => !Text.contains line q.delimiter).tail).2 := by
  induction ls with
  | nil => rfl
  | cons line rest ih =>
    rw [scanLines_cons, scanLine_block]
    cases hheld : Text.contains line q.delimiter with
    | true => simp [hheld]
    | false => simpa [hheld] using ih

/-- The second of two parts is read in the mode in which the first one ends. -/
theorem strip_append_cons (hnoop : options.isNoop = false) (a b : Text) :
    strip options (a ++ '\n' :: b) =
      Text.stack (strip options a)
        (Text.ofLines
          (scanLines options (scanLines options .code (Text.lines a)).1 (Text.lines b)).2) := by
  rw [strip_eq hnoop, strip_eq hnoop, Text.lines_append_cons, scanLines_append]
  exact Text.ofLines_append_eq_stack (fun _ => ne_nil_of_mem_scanLines)
    fun _ => ne_nil_of_mem_scanLines

/-- Behind a block, stripping starts anew. -/
theorem strip_afterBlock (hnoop : options.isNoop = false) (q : BlockQuote) (text : Text) :
    strip options (afterBlock q text) =
      Text.ofLines (scanLines options (.block q) (Text.lines text)).2 := by
  have hlines : ∀ line ∈ ((Text.lines text).dropWhile fun line =>
      !Text.contains line q.delimiter).tail, '\n' ∉ line := by
    intro line hline
    exact Text.not_mem_of_mem_lines
      ((List.dropWhile_sublist _).subset (List.mem_of_mem_tail hline))
  rw [afterBlock, strip_ofLines hnoop hlines, scanLines_block_eq]

/-- **Stripping two parts.** When the first part ends in code, the parts are stripped
each on its own. When it ends in a block, the second part counts from behind the line
that closes the block, and not at all without such a line. -/
theorem strip_append (hnoop : options.isNoop = false) (a b : Text) :
    ((scanLines options .code (Text.lines a)).1 = .code →
      strip options (a ++ '\n' :: b) = Text.stack (strip options a) (strip options b)) ∧
    ∀ q, (scanLines options .code (Text.lines a)).1 = .block q →
      ((∀ line ∈ Text.lines b, Text.contains line q.delimiter = false) →
        strip options (a ++ '\n' :: b) = strip options a) ∧
      ((∃ line ∈ Text.lines b, Text.contains line q.delimiter = true) →
        strip options (a ++ '\n' :: b) =
          Text.stack (strip options a) (strip options (afterBlock q b))) := by
  have hseam := strip_append_cons hnoop a b
  refine ⟨?_, ?_⟩
  · intro hcode
    rw [hseam, hcode, ← strip_eq hnoop]
  · intro q hblock
    rw [hblock] at hseam
    refine ⟨?_, ?_⟩
    · intro hnone
      rw [hseam, scanLines_block hnone]
      exact Text.stack_nil _
    · intro _
      rw [hseam, strip_afterBlock hnoop]

/-- A text that ends inside a block. -/
def openPart : Text :=
  "x = 1  # one\n\"\"\"open".toList

/-- A text whose second line closes that block. -/
def closingPart : Text :=
  "a\nb \"\"\" c\n\ny = 2  # two".toList

/-- Of the second part only its last line counts. -/
theorem strip_append_closingPart :
    (scanLines {} .code (Text.lines openPart)).1 = .block .double ∧
      afterBlock .double closingPart = "\ny = 2  # two".toList ∧
      strip {} (openPart ++ '\n' :: closingPart) = "x = 1\ny = 2".toList := by
  have hblock : (scanLines {} .code (Text.lines openPart)).1 = .block .double := by decide
  have hafter : afterBlock .double closingPart = "\ny = 2  # two".toList := by decide
  have hheld : ∃ line ∈ Text.lines closingPart,
      Text.contains line BlockQuote.double.delimiter = true := by decide
  refine ⟨hblock, hafter, ?_⟩
  rw [((strip_append rfl openPart closingPart).2 .double hblock).2 hheld, hafter]
  decide

/-! ## Two passes -/

/-- Keeping a line without its comment is keeping it whole first and then without its
comment: a line that is blank as it stands is blank without its comment. -/
theorem keptText?_eq_bind (line : Text) :
    keptText? {} line =
      (keptText? { lineComments := false } line).bind (keptText? { blockStrings := false }) := by
  cases hblank : Text.isBlank line with
  | true =>
    have hwhole : keptText? { lineComments := false } line = none :=
      keptText?_eq_none_iff.mpr hblank
    have hcut : Text.isBlank (dropComment line) = true := by
      rw [dropComment, codeFrom_of_isBlank hblank, Text.isBlank_trimEnd, hblank]
    rw [hwhole]
    exact keptText?_eq_none_iff.mpr hcut
  | false =>
    have hwhole : keptText? { lineComments := false } line = some line :=
      keptText?_eq_some_iff.mpr ⟨rfl, hblank⟩
    rw [hwhole]
    rfl

/-- The full scan of a line is the scan for blocks, with the comment removed from what
that one keeps. -/
theorem scanLine_eq_bind (mode : Mode) (line : Text) :
    scanLine {} mode line =
      ((scanLine { lineComments := false } mode line).1,
        (scanLine { lineComments := false } mode line).2.bind
          (keptText? { blockStrings := false })) := by
  cases mode with
  | block q => rfl
  | code | single | double =>
    cases hopen : opener? line with
    | some q => simp [scanLine, hopen]
    | none => simp [scanLine, hopen, keptText?_eq_bind]

/-- So is the full scan of a run of lines. -/
theorem scanLines_eq_filterMap (mode : Mode) (ls : List Text) :
    scanLines {} mode ls =
      ((scanLines { lineComments := false } mode ls).1,
        (scanLines { lineComments := false } mode ls).2.filterMap
          (keptText? { blockStrings := false })) := by
  induction ls generalizing mode with
  | nil => rfl
  | cons line rest ih =>
    rw [scanLines_cons, scanLines_cons, scanLine_eq_bind, ih, List.filterMap_append]
    cases (scanLine { lineComments := false } mode line).2 with
    | none => rfl
    | some text => cases hkept : keptText? { blockStrings := false } text <;> simp [hkept]

/-- Without blocks to remove, each line is read on its own. -/
theorem scanLines_comments (comments : Bool) (ls : List Text) :
    scanLines ⟨comments, false⟩ .code ls = (.code, ls.filterMap (keptText? ⟨comments, false⟩)) := by
  apply scanLines_of_steady
  intro line _
  exact scanLine_of_no_opener fun h => absurd h Bool.false_ne_true

/-- **Two passes make the full strip.** Removing blocks and comments together is
removing the blocks first and then the comments from what is left. -/
theorem strip_eq_comments_after_blocks (text : Text) :
    strip {} text = strip { blockStrings := false } (strip { lineComments := false } text) := by
  have hlines : ∀ line ∈ (scanLines { lineComments := false } .code (Text.lines text)).2,
      '\n' ∉ line := fun line hline => (mem_scanLines_lines hline).2
  rw [strip_eq rfl text, strip_eq rfl text, strip_ofLines rfl hlines, scanLines_comments,
    scanLines_eq_filterMap]

-- The other order removes the comment that ends the block, and so the code below it.
example :
    strip {} "\"\"\"a\" # \"\"\"\nx = 1".toList = "x = 1".toList ∧
      strip { lineComments := false }
        (strip { blockStrings := false } "\"\"\"a\" # \"\"\"\nx = 1".toList) = [] := by
  decide

end Scan

end NotebookExtract
