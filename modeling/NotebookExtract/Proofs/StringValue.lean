import NotebookExtract.Proofs.Strip

/-!
# String values over several lines

A string value between triple quotes is recognised on its first line only, by the
marks of a value there. The scanner does not remember that such a value is open:
its lines are read one by one as code, and the line that closes it, when it holds
the delimiter alone, looks like the start of a documentation block.

So the closing line of every such value is lost, and with it all code that follows
in the cell. Of the lines before it those are kept whole that have no `#` outside
the quotes of their own line and open no block of the other delimiter.
-/

namespace NotebookExtract.Scan

variable {ls : List Text} {line : Text}

/-! ## Lines that lose nothing -/

/-- The line opens no block and has no comment. -/
def Whole (line : Text) : Prop :=
  opener? line = none ∧ codeFrom .code line = line

/-- A blank line is whole. -/
theorem whole_of_isBlank (h : Text.isBlank line = true) : Whole line :=
  ⟨opener?_of_isBlank h, codeFrom_of_isBlank h⟩

/-- A whole line is kept up to whitespace at its end. -/
theorem scanLine_of_whole (h : Whole line) :
    scanLine {} .code line =
      (.code, if Text.isBlank line then none else some (Text.trimEnd line)) := by
  have hkept : keptText? {} line =
      if Text.isBlank line then none else some (Text.trimEnd line) := by
    have hdrop : dropComment line = Text.trimEnd line := by rw [dropComment, h.2]
    simp [keptText?, hdrop]
  rw [scanLine_of_no_opener fun _ => h.1, hkept]

/-- A line that is kept up to whitespace at its end is whole. -/
theorem whole_of_kept (h : (scanLine {} .code line).2 = some (Text.trimEnd line)) :
    Whole line := by
  obtain ⟨-, hkept, hopen⟩ := scanLine_kept h
  obtain ⟨hdrop, -⟩ := keptText?_eq_some_iff.mp hkept
  exact ⟨hopen rfl, trimEnd_codeFrom_eq_iff.mp hdrop⟩

/-- A run never keeps more lines than it reads that are not blank. -/
theorem length_scanLines_le (options : Options) (mode : Mode) (ls : List Text) :
    (scanLines options mode ls).2.length ≤ (ls.filter (!Text.isBlank ·)).length := by
  induction ls generalizing mode with
  | nil => simp [scanLines]
  | cons line rest ih =>
    have hrest := ih (scanLine options mode line).1
    rw [scanLines_cons, List.length_append]
    cases hkept : (scanLine options mode line).2 with
    | none =>
      have hsub := (List.sublist_cons_self line rest).filter (!Text.isBlank ·)
      simpa using Nat.le_trans hrest hsub.length_le
    | some text =>
      have hnb : Text.isBlank line = false := not_isBlank_of_kept hkept
      rw [List.filter_cons_of_pos (by simp [hnb]), Option.toList_some, List.length_singleton,
        List.length_cons]
      omega

/-- Up to whitespace at their ends, a run in code keeps all of its lines exactly
when all of them are whole. -/
theorem scanLines_eq_map_trimEnd_iff :
    (scanLines {} .code ls).2 = (ls.filter (!Text.isBlank ·)).map Text.trimEnd ↔
      ∀ line ∈ ls, Whole line := by
  induction ls with
  | nil => simp [scanLines]
  | cons line rest ih =>
    rw [scanLines_cons, List.forall_mem_cons, ← ih]
    cases hblank : Text.isBlank line with
    | true =>
      -- a blank line is whole and leaves both sides to the rest
      have hwhole := whole_of_isBlank hblank
      rw [scanLine_of_whole hwhole]
      simp [hblank, hwhole]
    | false =>
      rw [List.filter_cons_of_pos (by simp [hblank]), List.map_cons]
      constructor
      · intro h
        cases hkept : (scanLine {} .code line).2 with
        | none =>
          -- one line fewer than there should be
          have hle := length_scanLines_le {} (scanLine {} .code line).1 rest
          have hlen := congrArg List.length h
          simp only [hkept, Option.toList_none, List.nil_append, List.length_cons,
            List.length_map] at hlen
          omega
        | some text =>
          -- the heads agree, and what kept the head goes on in code
          rw [hkept, Option.toList_some, List.singleton_append, List.cons.injEq] at h
          rw [(scanLine_kept hkept).1] at h
          rw [h.1] at hkept
          exact ⟨whole_of_kept hkept, h.2⟩
      · rintro ⟨hwhole, hrest⟩
        rw [scanLine_of_whole hwhole, hblank, if_neg Bool.false_ne_true, hrest]
        rfl

/-! ## The cell -/

/-- A cell that assigns a string value over several lines and goes on with plain
code: `front` and the delimiter with `first` behind it, the `body` of the value,
the delimiter alone, and the code `after` it. -/
structure ValueCell where
  front : Text
  quote : BlockQuote
  first : Text
  body : List Text
  indent : Text
  after : List Text
  front_plain : front.all isPlain = true ∧ '\\' ∉ front
  front_starts : ∃ c rest, front = c :: rest ∧ Text.isSpace c = false
  front_assigns : '=' ∈ front
  first_open : Text.contains first quote.delimiter = false ∧ '\\' ∉ first
  body_open : ∀ line ∈ body, Text.contains line quote.delimiter = false ∧ '\\' ∉ line
  indent_blank : Text.isBlank indent = true
  after_plain : ∀ line ∈ after,
    Text.isBlank line = false ∧ line.all isPlain = true ∧ '\\' ∉ line
  oneLine : ∀ line ∈ front :: first :: indent :: (body ++ after), '\n' ∉ line

namespace ValueCell

variable (v : ValueCell)

def opening : Text :=
  v.front ++ (v.quote.delimiter ++ v.first)

def closing : Text :=
  v.indent ++ v.quote.delimiter

/-- The lines of the value before the one that closes it. -/
def value : List Text :=
  v.opening :: v.body

def text : Text :=
  Text.ofLines (v.value ++ v.closing :: v.after)

/-! ## What becomes of it -/

/-- The first character of the cell is plain and no whitespace. -/
theorem opening_eq : ∃ c rest, v.opening = c :: rest ∧ Text.isSpace c = false ∧
    isPlain c = true := by
  obtain ⟨c, rest, hfront, hspace⟩ := v.front_starts
  have hall := v.front_plain.1
  rw [hfront, List.all_cons, Bool.and_eq_true] at hall
  exact ⟨c, rest ++ (v.quote.delimiter ++ v.first), by rw [opening, hfront, List.cons_append],
    hspace, hall.1⟩

/-- The first line opens no block and is kept up to its comment. -/
theorem scanLine_opening :
    scanLine {} .code v.opening = (.code, some (dropComment v.opening)) := by
  obtain ⟨c, rest, hopening, hspace, hplain⟩ := v.opening_eq
  have hopen : opener? v.opening = none := by
    have hstart : Text.trimStart v.opening = c :: rest := by
      rw [hopening, Text.trimStart_cons_of_not_isSpace hspace]
    exact opener?_eq_none_of_head hstart (ne_char_of_isPlain hplain)
  have hnb : Text.isBlank (dropComment v.opening) = false := by
    rw [dropComment, Text.isBlank_trimEnd, hopening, codeFrom_plain hplain]
    simp [hspace]
  have hkept : keptText? {} v.opening = some (dropComment v.opening) :=
    keptText?_eq_some_iff.mpr ⟨rfl, hnb⟩
  rw [scanLine_of_no_opener fun _ => hopen, hkept]

/-- The closing line holds no quote but its own. -/
theorem not_mem_closing {p : BlockQuote} (h : p ≠ v.quote) : p.char ∉ v.closing := by
  have hindent : p.char ∉ v.indent := Text.not_mem_of_isBlank v.indent_blank p.isSpace_char
  have hdelim : p.char ∉ v.quote.delimiter := by
    rw [v.quote.delimiter_eq]
    cases p <;> cases hq : v.quote <;> simp_all [BlockQuote.char]
  simp [closing, hindent, hdelim]

/-- In code the closing line opens a block. -/
theorem scanLine_closing : scanLine {} .code v.closing = (.block v.quote, none) := by
  have hclosing : v.closing = v.indent ++ (v.quote.delimiter ++ []) := by
    rw [closing, List.append_nil]
  have hopen : opener? v.closing = some v.quote := by
    rw [hclosing]
    refine opener?_indent v.indent_blank v.quote (any_isValueMark_codeFrom ?_)
    simp [any_isValueMark_of_isBlank v.indent_blank]
  have hafter : afterOpener v.quote v.closing = [] := by
    rw [hclosing, afterOpener_indent v.indent_blank]
  have hempty : Text.contains [] v.quote.delimiter = false := by
    cases v.quote <;> decide
  rw [scanLine_of_opener rfl hopen, hafter, hempty, if_neg Bool.false_ne_true]

/-- No line of code after the value can close a block. -/
theorem contains_after {line : Text} (h : line ∈ v.after) (q : BlockQuote) :
    Text.contains line q.delimiter = false := by
  apply contains_delimiter_of_not_mem
  intro hmem
  have hplain := List.all_eq_true.mp (v.after_plain line h).2.1 q.char hmem
  exact ne_char_of_isPlain hplain q rfl

/-- The scan comes out of the value in code or in a block of the other delimiter,
and from there nothing is kept any more. -/
theorem scanLines_closing :
    (scanLines {} (scanLines {} .code v.value).1 (v.closing :: v.after)).2 = [] := by
  have hvalue : (scanLines {} .code v.value).1 = (scanLines {} .code v.body).1 := by
    rw [value, scanLines_cons, v.scanLine_opening]
  have hne : (scanLines {} .code v.body).1 ≠ .block v.quote :=
    scanLines_ne_block (by simp) fun line hline => (v.body_open line hline).1
  rw [hvalue]
  rcases scanLines_mode {} v.body (Or.inl rfl) with hcode | ⟨p, hblock⟩
  · -- in code: the closing line opens a block that nothing after it closes
    rw [hcode, scanLines_cons, v.scanLine_closing,
      scanLines_block fun line hline => v.contains_after hline v.quote]
    rfl
  · -- in a block of the other delimiter: no line left to scan holds that one
    have hp : p ≠ v.quote := by
      rintro rfl
      exact hne hblock
    have hopen : ∀ line ∈ v.closing :: v.after, Text.contains line p.delimiter = false := by
      intro line hline
      rcases List.mem_cons.mp hline with rfl | hafter
      · exact contains_delimiter_of_not_mem (v.not_mem_closing hp)
      · exact v.contains_after hafter p
    rw [hblock, scanLines_block hopen]

/-- A scan of the cell keeps what a scan of the value without its closing line
keeps. -/
theorem scanLines_value :
    (scanLines {} .code (v.value ++ v.closing :: v.after)).2 = (scanLines {} .code v.value).2 := by
  rw [scanLines_append, v.scanLines_closing, List.append_nil]

/-- No line of the value starts with its closing line. -/
theorem not_closing_isPrefix {line : Text} (h : line ∈ v.value) : ¬ v.closing <+: line := by
  intro hpre
  rcases List.mem_cons.mp h with rfl | hbody
  · -- the first line starts with a character that is neither whitespace nor a quote
    obtain ⟨c, rest, hopening, hspace, hplain⟩ := v.opening_eq
    rw [hopening, closing] at hpre
    cases hindent : v.indent with
    | nil =>
      rw [hindent, List.nil_append, v.quote.delimiter_eq, List.cons_prefix_cons] at hpre
      exact ne_char_of_isPlain hplain v.quote hpre.1.symm
    | cons d more =>
      rw [hindent, List.cons_append, List.cons_prefix_cons] at hpre
      have hblank := v.indent_blank
      rw [hindent, Text.isBlank_cons, hpre.1, hspace] at hblank
      cases hblank
  · have hheld : v.quote.delimiter <:+: line :=
      (List.suffix_append v.indent v.quote.delimiter).isInfix.trans hpre.isInfix
    have hcontains := Text.contains_iff.mpr hheld
    rw [(v.body_open line hbody).1] at hcontains
    cases hcontains

/-- The lines of the cell are lines. -/
theorem not_mem_line {line : Text} (h : line ∈ v.value ++ v.closing :: v.after) :
    '\n' ∉ line := by
  have hdelim := v.quote.not_mem_delimiter
  rw [value, List.cons_append, List.mem_cons, List.mem_append, List.mem_cons] at h
  rcases h with rfl | hbody | rfl | hafter
  · simp only [opening, List.mem_append, not_or]
    exact ⟨v.oneLine _ (by simp), hdelim, v.oneLine _ (by simp)⟩
  · exact v.oneLine _ (by simp [hbody])
  · simp only [closing, List.mem_append, not_or]
    exact ⟨v.oneLine _ (by simp), hdelim⟩
  · exact v.oneLine _ (by simp [hafter])

/-- The closing line has no whitespace at its end. -/
theorem trimEnd_closing : Text.trimEnd v.closing = v.closing := by
  have hnb : Text.isBlank v.quote.delimiter = false := by cases v.quote <;> decide
  rw [closing, Text.trimEnd_append_of_not_isBlank v.indent hnb, v.quote.trimEnd_delimiter]

/-- **The end of a string value is lost.** Stripping a cell that assigns a string
over several lines gives what stripping it without the closing line and without
all code after that line gives; the closing line is not in the result. What is
before the closing line is kept, up to whitespace at the ends of lines, exactly
when no line there has a `#` outside its own quotes or opens a block. -/
theorem strip_valueCell :
    strip {} v.text = strip {} (Text.ofLines v.value) ∧
      Text.trimEnd v.closing ∉ Text.lines (strip {} v.text) ∧
      (strip {} v.text = Text.ofLines ((v.value.filter (!Text.isBlank ·)).map Text.trimEnd) ↔
        ∀ line ∈ v.value, Whole line) := by
  have hvalue : ∀ line ∈ v.value, '\n' ∉ line := fun line hline =>
    v.not_mem_line (List.mem_append_left _ hline)
  have hstrip : strip {} v.text = Text.ofLines (scanLines {} .code v.value).2 := by
    rw [text, strip_ofLines rfl fun line hline => v.not_mem_line hline, v.scanLines_value]
  have hfirst : (scanLines {} .code v.value).2 =
      dropComment v.opening :: (scanLines {} .code v.body).2 := by
    rw [value, scanLines_cons, v.scanLine_opening]
    rfl
  have hne : (scanLines {} .code v.value).2 ≠ [] := by simp [hfirst]
  have hkept : ∀ line ∈ (scanLines {} .code v.value).2, '\n' ∉ line := fun line =>
    not_mem_of_mem_scanLines hvalue
  refine ⟨?_, ?_, ?_⟩
  · rw [hstrip, strip_ofLines rfl hvalue]
  · -- a kept line stands at the front of a line of the value
    rw [hstrip, Text.lines_ofLines hne hkept, v.trimEnd_closing]
    intro hmem
    obtain ⟨m, line, hline, hfrom⟩ := exists_kept_of_mem_scanLines hmem
    exact v.not_closing_isPrefix hline (isPrefix_of_kept hfrom)
  · -- both sides are joined lines, so the texts agree when the lists of lines do
    have hopening : Text.isBlank v.opening = false := by
      obtain ⟨c, rest, hopening, hspace, -⟩ := v.opening_eq
      simp [hopening, hspace]
    have hne' : (v.value.filter (!Text.isBlank ·)).map Text.trimEnd ≠ [] := by
      simp [value, hopening]
    have hwhole : ∀ line ∈ (v.value.filter (!Text.isBlank ·)).map Text.trimEnd, '\n' ∉ line := by
      intro line hline hmem
      obtain ⟨origin, horigin, rfl⟩ := List.mem_map.mp hline
      have horigin' := (List.mem_filter.mp horigin).1
      exact hvalue origin horigin' ((Text.trimEnd_isPrefix origin).subset hmem)
    rw [hstrip, Text.ofLines_inj hne hne' hkept hwhole, scanLines_eq_map_trimEnd_iff]

end ValueCell

/-- A value of one line, closed on a line of its own, and an assignment after it. -/
def shortValue : ValueCell where
  front := "x = ".toList
  quote := .double
  first := []
  body := ["abc".toList]
  indent := []
  after := ["y = 1".toList]
  front_plain := by decide
  front_starts := ⟨'x', " = ".toList, rfl, rfl⟩
  front_assigns := by decide
  first_open := by decide
  body_open := by decide
  indent_blank := Text.isBlank_nil
  after_plain := by decide
  oneLine := by decide

/-- The assignment after the value is gone. -/
theorem strip_shortValue :
    shortValue.text = "x = \"\"\"\nabc\n\"\"\"\ny = 1".toList ∧
      strip {} shortValue.text = "x = \"\"\"\nabc".toList := by
  refine ⟨by decide, ?_⟩
  rw [shortValue.strip_valueCell.1]
  decide

end NotebookExtract.Scan
