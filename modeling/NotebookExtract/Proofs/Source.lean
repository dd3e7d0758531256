import NotebookExtract.Proofs.Strip

/-!
# Well-formed source

A small grammar of the sources that the scanner is made for: lines of code with
closed literals, empty lines and comment lines, one-line docstrings, and
docstrings over several lines. Each kind of element carries its own conditions,
so that every list of elements is a source.

Of such a source stripping leaves exactly the code: the code lines, each without
its comment and trimmed at its end, and nothing of anything else.
-/

namespace NotebookExtract.Source

open Scan

/-! ## Code -/

/-- One unit of the text between the quotes of a literal. -/
inductive LiteralUnit (q : BlockQuote) where
  | plain (c : Char) (h : c ≠ '\\' ∧ c ≠ q.char)
  /-- A backslash protects the character after it, whatever that is. -/
  | escaped (c : Char)

/-- One item of a line of code: a character that stands for itself, or a closed
literal. -/
inductive Item where
  | plain (c : Char) (h : isPlain c = true)
  | literal (q : BlockQuote) (units : List (LiteralUnit q))

def LiteralUnit.text {q : BlockQuote} : LiteralUnit q → Text
  | .plain c _ => [c]
  | .escaped c => ['\\', c]

def Item.text : Item → Text
  | .plain c _ => [c]
  | .literal q units => q.char :: (units.flatMap LiteralUnit.text ++ [q.char])

/-- Items, one right after the other. -/
def codeText (items : List Item) : Text :=
  items.flatMap Item.text

/-- The walk reads a literal unit by unit. -/
theorem codeFrom_units {q : BlockQuote} (units : List (LiteralUnit q)) (rest : Text) :
    codeFrom q.literalMode (units.flatMap LiteralUnit.text ++ rest) =
      units.flatMap LiteralUnit.text ++ codeFrom q.literalMode rest := by
  induction units with
  | nil => rfl
  | cons u units ih =>
    rw [List.flatMap_cons, List.append_assoc, List.append_assoc]
    cases u with
    | plain c h =>
      have hstep := codeFrom_literal (q := q) h.1 h.2 (units.flatMap LiteralUnit.text ++ rest)
      simpa [LiteralUnit.text, ih] using hstep
    | escaped c =>
      have hlit : q.literalMode.inLiteral = true := by cases q <;> rfl
      have hstep := codeFrom_escape hlit c (units.flatMap LiteralUnit.text ++ rest)
      simpa [LiteralUnit.text, ih] using hstep

/-- The walk passes every item in code and is in code again behind it, so nothing
inside a literal can end it. -/
theorem codeFrom_codeText (items : List Item) (rest : Text) :
    codeFrom .code (codeText items ++ rest) = codeText items ++ codeFrom .code rest := by
  induction items with
  | nil => rfl
  | cons item items ih =>
    rw [codeText, List.flatMap_cons, ← codeText, List.append_assoc, List.append_assoc, ← ih]
    cases item with
    | plain c h => exact codeFrom_plain h _
    | literal q units =>
      simp only [Item.text, List.cons_append, List.append_assoc, List.nil_append]
      rw [codeFrom_open, codeFrom_units, codeFrom_close]

/-! ## Comments -/

/-- A comment at the end of a line, or nothing. -/
def commentText : Option Text → Text
  | none => []
  | some t => '#' :: t

/-- In code the walk stops at a comment. -/
@[simp] theorem codeFrom_commentText (comment? : Option Text) :
    codeFrom .code (commentText comment?) = [] := by
  cases comment? with
  | none => rfl
  | some t => exact codeFrom_hash t

/-- No part of a comment takes part in a leading delimiter. -/
theorem delimiter_isPrefix_of_comment {q : BlockQuote} {code : Text} {comment? : Option Text}
    (h : q.delimiter <+: code ++ commentText comment?) : q.delimiter <+: code := by
  cases comment? with
  | none => simpa [commentText] using h
  | some t => exact BlockQuote.delimiter_isPrefix_append_hash_iff.mp h

/-! ## Elements -/

/-- A line of code, with a comment or without. It may start with a triple quote
only when it is seen to hold a value. -/
structure CodeLine where
  items : List Item
  comment? : Option Text
  nonblank : Text.isBlank (codeText items) = false
  value : ∀ q : BlockQuote, q.delimiter <+: Text.trimStart (codeText items) →
    (codeText items).any isValueMark = true
  oneLine : '\n' ∉ codeText items ++ commentText comment?

/-- A line without code: blank, with a comment or without. -/
structure EmptyLine where
  indent : Text
  comment? : Option Text
  blank : Text.isBlank indent = true
  oneLine : '\n' ∉ indent ++ commentText comment?

/-- A docstring on one line, with a comment behind it or without. -/
structure DocLine where
  indent : Text
  quote : BlockQuote
  body : Text
  trailing : Text
  comment? : Option Text
  indent_blank : Text.isBlank indent = true
  trailing_blank : Text.isBlank trailing = true
  no_quote : quote.char ∉ body
  no_backslash : '\\' ∉ body
  no_mark : body.any isValueMark = false
  oneLine : '\n' ∉ indent ++ (body ++ (trailing ++ commentText comment?))

/-- A docstring over several lines, up to the first one that holds its delimiter
again. -/
structure DocBlock where
  indent : Text
  quote : BlockQuote
  first : Text
  body : List Text
  closing : Text
  indent_blank : Text.isBlank indent = true
  first_open : Text.contains first quote.delimiter = false
  no_mark : first.any isValueMark = false
  body_open : ∀ line ∈ body, Text.contains line quote.delimiter = false
  closes : Text.contains closing quote.delimiter = true
  oneLine : ∀ line ∈ indent :: first :: closing :: body, '\n' ∉ line

/-- A piece of well-formed source. -/
inductive Element where
  | codeLine (line : CodeLine)
  | emptyLine (line : EmptyLine)
  | docLine (doc : DocLine)
  | docBlock (doc : DocBlock)

def CodeLine.text (line : CodeLine) : Text :=
  codeText line.items ++ commentText line.comment?

def EmptyLine.text (line : EmptyLine) : Text :=
  line.indent ++ commentText line.comment?

def DocLine.text (doc : DocLine) : Text :=
  doc.indent ++ (doc.quote.delimiter ++
    (doc.body ++ (doc.quote.delimiter ++ (doc.trailing ++ commentText doc.comment?))))

def DocBlock.opening (doc : DocBlock) : Text :=
  doc.indent ++ (doc.quote.delimiter ++ doc.first)

/-- The lines of an element. -/
def Element.lines : Element → List Text
  | .codeLine line => [line.text]
  | .emptyLine line => [line.text]
  | .docLine doc => [doc.text]
  | .docBlock doc => doc.opening :: (doc.body ++ [doc.closing])

/-- The lines of code that an element stands for. -/
def Element.code : Element → List Text
  | .codeLine line => [Text.trimEnd (codeText line.items)]
  | .emptyLine _ | .docLine _ | .docBlock _ => []

/-! ## The scan of an element -/

/-- A code line is kept up to its comment. -/
theorem scanLine_codeLine (line : CodeLine) :
    scanLine {} .code line.text = (.code, some (Text.trimEnd (codeText line.items))) := by
  have hdrop : dropComment line.text = Text.trimEnd (codeText line.items) := by
    rw [dropComment, CodeLine.text, codeFrom_codeText, codeFrom_commentText, List.append_nil]
  have hopen : opener? line.text = none := by
    rw [opener?_eq_none_iff, hdrop, any_isValueMark_trimEnd]
    intro q hq
    -- the code is not blank, so a delimiter in front is in front of the code
    rw [CodeLine.text, Text.trimStart_append_of_not_isBlank line.nonblank] at hq
    exact line.value q (delimiter_isPrefix_of_comment hq)
  have hkept : keptText? {} line.text = some (Text.trimEnd (codeText line.items)) :=
    keptText?_eq_some_iff.mpr ⟨hdrop, by simp [line.nonblank]⟩
  rw [scanLine_of_no_opener fun _ => hopen, hkept]

/-- A line without code is dropped. -/
theorem inert_emptyLine (line : EmptyLine) : Inert {} line.text := by
  rw [EmptyLine.text]
  cases line.comment? with
  | none => exact inert_of_isBlank {} (by simp [commentText, line.blank])
  | some t => exact inert_comment rfl line.blank t

/-- A docstring on one line is dropped. -/
theorem inert_docLine (doc : DocLine) : Inert {} doc.text := by
  -- the walk comes out of the body in code, so marks in the comment do not count
  have hwalk : codeFrom .code doc.text = doc.indent ++ (doc.quote.delimiter ++
      (doc.body ++ (doc.quote.delimiter ++ doc.trailing))) := by
    rw [DocLine.text, codeFrom_plain_append (all_isPlain_of_isBlank doc.indent_blank),
      codeFrom_delimiter, codeFrom_literal_append doc.no_backslash doc.no_quote,
      codeFrom_literal_delimiter, codeFrom_plain_append (all_isPlain_of_isBlank doc.trailing_blank),
      codeFrom_commentText, List.append_nil]
  have hmark : (codeFrom .code doc.text).any isValueMark = false := by
    simp [hwalk, any_isValueMark_of_isBlank doc.indent_blank,
      any_isValueMark_of_isBlank doc.trailing_blank, doc.no_mark]
  have hopen : opener? doc.text = some doc.quote := opener?_indent doc.indent_blank _ hmark
  have hclosed : Text.contains (afterOpener doc.quote doc.text) doc.quote.delimiter = true := by
    rw [DocLine.text, afterOpener_indent doc.indent_blank, Text.contains_iff]
    exact ⟨doc.body, _, List.append_assoc _ _ _⟩
  rw [Inert, scanLine_of_opener rfl hopen, if_pos hclosed]

/-- The first line of a longer docstring opens its block. -/
theorem scanLine_opening (doc : DocBlock) :
    scanLine {} .code doc.opening = (.block doc.quote, none) := by
  have hmark : (codeFrom .code doc.opening).any isValueMark = false := by
    apply any_isValueMark_codeFrom
    simp [DocBlock.opening, any_isValueMark_of_isBlank doc.indent_blank, doc.no_mark]
  have hopen : opener? doc.opening = some doc.quote := opener?_indent doc.indent_blank _ hmark
  have hafter : afterOpener doc.quote doc.opening = doc.first :=
    afterOpener_indent doc.indent_blank _ _
  rw [scanLine_of_opener rfl hopen, hafter, doc.first_open, if_neg Bool.false_ne_true]

/-- A scan that reaches an element in code keeps its code and leaves it in code. -/
theorem scanLines_element (element : Element) :
    scanLines {} .code element.lines = (.code, element.code) := by
  cases element with
  | codeLine line =>
    rw [Element.lines, scanLines_cons, scanLine_codeLine]
    rfl
  | emptyLine line => exact scanLines_of_inert (by simpa [Element.lines] using inert_emptyLine line)
  | docLine doc => exact scanLines_of_inert (by simpa [Element.lines] using inert_docLine doc)
  | docBlock doc =>
    -- the block opens, stays open through its body and ends with the closing line
    rw [Element.lines, scanLines_cons, scanLine_opening, scanLines_append,
      scanLines_block doc.body_open, scanLines_cons, scanLine_block, if_pos doc.closes]
    rfl

/-- A scan of a whole source keeps its code. -/
theorem scanLines_source (source : List Element) :
    scanLines {} .code (source.flatMap Element.lines) = (.code, source.flatMap Element.code) := by
  induction source with
  | nil => rfl
  | cons element source ih =>
    rw [List.flatMap_cons, scanLines_append_of_code (scanLines_element element), ih]
    rfl

/-- The lines of an element are lines. -/
theorem not_mem_line_of_element {element : Element} {line : Text} (h : line ∈ element.lines) :
    '\n' ∉ line := by
  cases element with
  | codeLine code =>
    rw [List.mem_singleton.mp h]
    exact code.oneLine
  | emptyLine empty =>
    rw [List.mem_singleton.mp h]
    exact empty.oneLine
  | docLine doc =>
    have hline := doc.oneLine
    rw [List.mem_singleton.mp h, DocLine.text]
    simp only [List.mem_append, not_or] at hline ⊢
    have hdelim := doc.quote.not_mem_delimiter
    exact ⟨hline.1, hdelim, hline.2.1, hdelim, hline.2.2⟩
  | docBlock doc =>
    rw [Element.lines, List.mem_cons, List.mem_append, List.mem_singleton] at h
    rcases h with rfl | hbody | rfl
    · simp only [DocBlock.opening, List.mem_append, not_or]
      exact ⟨doc.oneLine _ (by simp), doc.quote.not_mem_delimiter, doc.oneLine _ (by simp)⟩
    · exact doc.oneLine _ (by simp [hbody])
    · exact doc.oneLine _ (by simp)

/-- **Stripping is right on well-formed source**: what is left of it is its code,
line by line, without comments and without docstrings. -/
theorem strip_source (source : List Element) :
    strip {} (Text.ofLines (source.flatMap Element.lines)) =
      Text.ofLines (source.flatMap Element.code) := by
  have hline : ∀ line ∈ source.flatMap Element.lines, '\n' ∉ line := by
    intro line h
    obtain ⟨element, -, hmem⟩ := List.mem_flatMap.mp h
    exact not_mem_line_of_element hmem
  rw [strip_ofLines rfl hline, scanLines_source]

/-- A source with every kind of element: a docstring over three lines whose body
looks like code, a literal with a `#` and an escaped quote in it, a docstring whose
comment holds the marks of a value, a comment line, and a value between triple
quotes. -/
def mixedSource : List Element :=
  [.docBlock {
      indent := [], quote := .double, first := "Notes".toList
      body := ["a = (b) # '''".toList], closing := "end \"\"\" # x".toList
      indent_blank := by decide, first_open := by decide, no_mark := by decide
      body_open := by decide, closes := by decide, oneLine := by decide },
    .codeLine {
      items := [.plain 'x' rfl, .plain '=' rfl,
        .literal .double [.plain '#' (by decide), .escaped '"', .plain '\'' (by decide)],
        .plain ' ' rfl]
      comment? := some " it's".toList
      nonblank := by decide, value := fun q => by cases q <;> decide, oneLine := by decide },
    .docLine {
      indent := "  ".toList, quote := .single, body := "Docs # \"".toList, trailing := [' ']
      comment? := some " see [1]".toList
      indent_blank := by decide, trailing_blank := by decide, no_quote := by decide
      no_backslash := by decide, no_mark := by decide, oneLine := by decide },
    .emptyLine {
      indent := ['\t'], comment? := some "only \"\"\"".toList
      blank := by decide, oneLine := by decide },
    .codeLine {
      items := [.literal .single [], .literal .single [.plain 'v' (by decide)],
        .literal .single [], .plain '[' rfl, .plain '0' rfl, .plain ']' rfl]
      comment? := none
      nonblank := by decide, value := fun q => by cases q <;> decide, oneLine := by decide }]

theorem strip_mixedSource :
    strip {} (Text.ofLines (mixedSource.flatMap Element.lines)) =
      "x=\"#\\\"'\"\n'''v'''[0]".toList := by
  rw [strip_source]
  decide

end NotebookExtract.Source
