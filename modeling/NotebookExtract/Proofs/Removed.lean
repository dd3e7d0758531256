import Mathlib.Data.List.Infix
import NotebookExtract.Proofs.Strip

/-!
# Removed text has no influence

What stripping removes does not steer it. A comment may be reworded, and a line inside
a block may be replaced by any other that does not close the block: the result is the
same.

One kind of comment is different. The line that opens a block is searched for a second
delimiter up to its very end, so a comment there decides whether the block ends with
the line, unless the code before it has already ended the block.
-/

namespace NotebookExtract.Scan

variable {options : Options} {mode : Mode} {q : BlockQuote} {code comment line line' : Text}
  {ls : List Text} {j : Nat}

/-! ## Another comment -/

/-- A walk that ends at a comment ends there whatever the comment says. -/
theorem codeFrom_append_hash (h : codeFrom mode line ≠ line) (comment : Text) :
    codeFrom mode (codeFrom mode line ++ '#' :: comment) = codeFrom mode line := by
  fun_induction codeFrom mode line with
  | case1 => exact absurd rfl h
  | case2 mode c hhash =>
    rw [hhash.1]
    exact codeFrom_hash comment
  | case3 => exact absurd rfl h
  | case4 mode c d rest hesc ih =>
    obtain ⟨hlit, rfl⟩ := hesc
    have hrest : codeFrom mode rest ≠ rest := by simpa using h
    rw [List.cons_append, List.cons_append, codeFrom_escape hlit, ih hrest]
  | case5 mode c d rest hesc hhash =>
    rw [hhash.1]
    exact codeFrom_hash comment
  | case6 mode c d rest hesc hhash ih =>
    have hrest : codeFrom (mode.advance c) (d :: rest) ≠ d :: rest := by simpa using h
    rw [List.cons_append, codeFrom_cons hesc hhash, ih hrest]

/-- The code of a line is the same under another comment. -/
theorem dropComment_append_hash (h : codeFrom .code (code ++ '#' :: comment) = code)
    (comment' : Text) :
    dropComment (code ++ '#' :: comment') = dropComment (code ++ '#' :: comment) := by
  have hne : codeFrom .code (code ++ '#' :: comment) ≠ code ++ '#' :: comment := by
    rw [h]
    simp
  have hwalk := codeFrom_append_hash hne comment'
  rw [h] at hwalk
  rw [dropComment, dropComment, h, hwalk]

/-- A delimiter in front of a line is in front of its code. -/
theorem delimiter_isPrefix_trimStart_iff :
    q.delimiter <+: Text.trimStart (code ++ '#' :: comment) ↔
      q.delimiter <+: Text.trimStart code := by
  cases hblank : Text.isBlank code with
  | true =>
    rw [Text.trimStart_append_of_isBlank hblank, Text.trimStart_cons_of_not_isSpace (by decide),
      Text.trimStart_of_isBlank hblank]
    exact @BlockQuote.delimiter_isPrefix_append_hash_iff q [] comment
  | false =>
    rw [Text.trimStart_append_of_not_isBlank hblank]
    exact BlockQuote.delimiter_isPrefix_append_hash_iff

/-- A line opens the same block under another comment. -/
theorem opener?_append_hash (h : codeFrom .code (code ++ '#' :: comment) = code)
    (comment' : Text) :
    opener? (code ++ '#' :: comment') = opener? (code ++ '#' :: comment) := by
  ext q
  simp only [opener?_eq_some_iff, delimiter_isPrefix_trimStart_iff,
    dropComment_append_hash h comment']

/-- A block that ends within the code of its first line ends there under every comment. -/
theorem contains_afterOpener_append (h : Text.contains (afterOpener q code) q.delimiter = true)
    (rest : Text) : Text.contains (afterOpener q (code ++ rest)) q.delimiter = true := by
  have hfront : afterOpener q code <+: afterOpener q (code ++ rest) :=
    (Text.trimStart_isPrefix_trimStart (List.prefix_append code rest)).drop _
  exact Text.contains_iff.mpr ((Text.contains_iff.mp h).trans hfront.isInfix)

/-! ## Lines that differ in removed text -/

/-- The two lines differ only in text that a scan in this mode removes unread: in their
comment, which on a line that opens a block must come after the end of the block, or,
inside a block, in any way that does not close the block. -/
inductive SameButRemoved (options : Options) : Mode → Text → Text → Prop where
  | comment {code old new : Text}
      (cut : codeFrom .code (code ++ '#' :: old) = code)
      (unread : options.blockStrings = false ∨ opener? (code ++ '#' :: old) = none ∨
        ∃ q, opener? (code ++ '#' :: old) = some q ∧
          Text.contains (afterOpener q code) q.delimiter = true) :
      SameButRemoved options .code (code ++ '#' :: old) (code ++ '#' :: new)
  | block {q : BlockQuote} {old new : Text}
      (old_open : Text.contains old q.delimiter = false)
      (new_open : Text.contains new q.delimiter = false) :
      SameButRemoved options (.block q) old new

/-- A scan cannot tell such lines apart. -/
theorem scanLine_of_sameButRemoved (hl : options.lineComments = true)
    (h : SameButRemoved options mode line line') :
    scanLine options mode line' = scanLine options mode line := by
  cases h with
  | block old_open new_open => rw [scanLine_block, scanLine_block, old_open, new_open]
  | @comment code old new cut unread =>
    have hopener : opener? (code ++ '#' :: new) = opener? (code ++ '#' :: old) :=
      opener?_append_hash cut new
    have hkept : keptText? options (code ++ '#' :: new) = keptText? options (code ++ '#' :: old) := by
      simp only [keptText?, hl, if_true, dropComment_append_hash cut new]
    -- outside a block the line is kept as far as its comment
    have hkeeps (hnone : options.blockStrings = true → opener? (code ++ '#' :: old) = none) :
        scanLine options .code (code ++ '#' :: new) =
          scanLine options .code (code ++ '#' :: old) := by
      rw [scanLine_of_no_opener hnone, scanLine_of_no_opener (by rwa [hopener]), hkept]
    by_cases hblocks : options.blockStrings = true
    · rcases unread with hoff | hnone | ⟨q, hsome, hclosed⟩
      · rw [hblocks] at hoff
        cases hoff
      · exact hkeeps fun _ => hnone
      · rw [scanLine_of_opener hblocks hsome, scanLine_of_opener hblocks (hopener.trans hsome),
          contains_afterOpener_append hclosed, contains_afterOpener_append hclosed]
    · exact hkeeps fun h => absurd h hblocks

/-! ## Two runs -/

/-- A run cannot tell two lines apart that a scan in the mode of their place cannot. -/
theorem scanLines_set (hj : ls[j]? = some line)
    (h : scanLine options (scanLines options mode (ls.take j)).1 line' =
      scanLine options (scanLines options mode (ls.take j)).1 line) :
    scanLines options mode (ls.set j line') = scanLines options mode ls := by
  obtain ⟨hlt, hline⟩ := List.getElem?_eq_some_iff.mp hj
  have hls : ls = ls.take j ++ line :: ls.drop (j + 1) := by
    rw [← hline, List.getElem_cons_drop, List.take_append_drop]
  have hset : ls.set j line' = ls.take j ++ line' :: ls.drop (j + 1) := by
    rw [List.set_eq_take_append_cons_drop, if_pos hlt]
  calc scanLines options mode (ls.set j line')
      = scanLines options mode (ls.take j ++ line' :: ls.drop (j + 1)) := by rw [hset]
    _ = scanLines options mode (ls.take j ++ line :: ls.drop (j + 1)) := by
      rw [scanLines_append, scanLines_append, scanLines_cons, scanLines_cons, h]
    _ = scanLines options mode ls := by rw [← hls]

/-- **Removed text has no influence.** Where comments are removed, a line may be replaced
by one that differs from it only in removed text. -/
theorem strip_set_of_sameButRemoved (hl : options.lineComments = true) {text : Text}
    (hj : (Text.lines text)[j]? = some line)
    (h : SameButRemoved options (scanLines options .code ((Text.lines text).take j)).1 line line')
    (hline' : '\n' ∉ line') :
    strip options (Text.ofLines ((Text.lines text).set j line')) = strip options text := by
  have hnoop : options.isNoop = false := by simp [Options.isNoop, hl]
  have hlines : ∀ l ∈ (Text.lines text).set j line', '\n' ∉ l := by
    intro l hmem
    rcases List.mem_or_eq_of_mem_set hmem with hold | rfl
    · exact Text.not_mem_of_mem_lines hold
    · exact hline'
  rw [strip_ofLines hnoop hlines, strip_eq hnoop,
    scanLines_set hj (scanLine_of_sameButRemoved hl h)]

/-- A block on one line with a comment, a block over three lines, and an assignment. -/
def twoBlocks : Text :=
  "\"\"\"Docs.\"\"\"  # see (1)\n'''\nold notes\n'''\nx = 1  # one".toList

/-- The comment may hold a delimiter, and the line inside the block may look like code. -/
theorem strip_set_twoBlocks :
    strip {} (Text.ofLines ((Text.lines twoBlocks).set 0
        ("\"\"\"Docs.\"\"\"  ".toList ++ '#' :: " not \"\"\" [open]".toList))) = "x = 1".toList ∧
      strip {} (Text.ofLines ((Text.lines twoBlocks).set 2
        "y = \"\"\"2\"\"\"  # two".toList)) = "x = 1".toList := by
  have hstrip : strip {} twoBlocks = "x = 1".toList := by decide
  rw [← hstrip]
  constructor
  · have hline : (Text.lines twoBlocks)[0]? =
        some ("\"\"\"Docs.\"\"\"  ".toList ++ '#' :: " see (1)".toList) := by decide
    have hclosed : Text.contains (afterOpener .double "\"\"\"Docs.\"\"\"  ".toList)
        BlockQuote.double.delimiter = true := by decide
    exact strip_set_of_sameButRemoved rfl hline
      (.comment (by decide) (Or.inr (Or.inr ⟨.double, by decide, hclosed⟩))) (by decide)
  · have hline : (Text.lines twoBlocks)[2]? = some "old notes".toList := by decide
    have hmode : (scanLines {} .code ((Text.lines twoBlocks).take 2)).1 = .block .single := by
      decide
    refine strip_set_of_sameButRemoved rfl hline ?_ (by decide)
    rw [hmode]
    exact .block (by decide) (by decide)

-- On a line that opens a block and does not end it in its code, the comment is read.
example :
    strip {} "\"\"\"a\" # \"\"\"\nx = 1".toList = "x = 1".toList ∧
      strip {} "\"\"\"a\" # b\nx = 1".toList = [] := by
  decide

end NotebookExtract.Scan
