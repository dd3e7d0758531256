import NotebookExtract.Proofs.Text
import NotebookExtract.Scan.Strip

/-!
# One line of source

What the scanner does with a single line. The walk through the characters is
described by one equation for each kind of step, the test for a documentation
block by an equivalence, and the scan of a line by the three things that can
happen to it: it belongs to an open block, it opens one, or it is kept as far as
its comment.
-/

namespace NotebookExtract

/-! ## Delimiters -/

namespace BlockQuote

variable {p q : BlockQuote} {text : Text}

/-- The quote character that a delimiter repeats. -/
def char : BlockQuote → Char
  | .double => '"'
  | .single => '\''

/-- The mode inside a one-line literal between two of these characters. -/
def literalMode : BlockQuote → Mode
  | .double => .double
  | .single => .single

theorem delimiter_eq (q : BlockQuote) : q.delimiter = [q.char, q.char, q.char] := by
  cases q <;> rfl

@[simp] theorem length_delimiter (q : BlockQuote) : q.delimiter.length = 3 := by
  cases q <;> rfl

@[simp] theorem trimEnd_delimiter (q : BlockQuote) : Text.trimEnd q.delimiter = q.delimiter := by
  cases q <;> decide

@[simp] theorem isSpace_char (q : BlockQuote) : Text.isSpace q.char = false := by
  cases q <;> decide

/-- A delimiter is on one line. -/
theorem not_mem_delimiter (q : BlockQuote) : '\n' ∉ q.delimiter := by
  cases q <;> decide

/-- A text starts with one delimiter at most. -/
theorem eq_of_delimiter_isPrefix (hp : p.delimiter <+: text) (hq : q.delimiter <+: text) :
    p = q := by
  have h : p.delimiter <+: q.delimiter := List.prefix_of_prefix_length_le hp hq (by simp)
  cases p <;> cases q <;> simp_all [delimiter]

/-- The test for a leading delimiter finds the one that is there. -/
theorem leading?_eq_some_iff : leading? text = some q ↔ q.delimiter <+: text := by
  -- what is found is there; that nothing else is found follows from uniqueness
  have hsound : ∀ p, leading? text = some p → p.delimiter <+: text := by
    intro p h
    have hp : p.delimiter.isPrefixOf text = true := by simpa using List.find?_some h
    exact List.isPrefixOf_iff_prefix.mp hp
  constructor
  · exact hsound q
  · intro h
    cases hl : leading? text with
    | none =>
      have hq : ¬ q.delimiter.isPrefixOf text = true :=
        List.find?_eq_none.mp hl q (by cases q <;> simp [all])
      exact absurd (List.isPrefixOf_iff_prefix.mpr h) hq
    | some p => rw [eq_of_delimiter_isPrefix (hsound p hl) h]

/-- No part of a comment takes part in a leading delimiter. -/
theorem delimiter_isPrefix_append_hash_iff {code comment : Text} :
    q.delimiter <+: code ++ '#' :: comment ↔ q.delimiter <+: code := by
  constructor
  · intro h
    rcases List.prefix_or_prefix_of_prefix h (List.prefix_append code _) with hcode | ⟨rest, hrest⟩
    · exact hcode
    · -- the delimiter would have to go on with the comment's `#`
      rw [← hrest, List.prefix_append_right_inj, List.prefix_cons_iff] at h
      rcases h with hnil | ⟨more, hmore, -⟩
      · exact ⟨[], by simp [← hrest, hnil]⟩
      · have hmem : '#' ∈ q.delimiter := by simp [← hrest, hmore]
        cases q <;> exact absurd hmem (by decide)
  · intro h
    exact h.trans (List.prefix_append _ _)

end BlockQuote

namespace Scan

variable {options : Options} {mode : Mode} {q : BlockQuote} {c : Char} {line rest text : Text}

/-! ## The walk to the comment -/

/-- In code a `#` ends the walk. -/
@[simp] theorem codeFrom_hash (rest : Text) : codeFrom .code ('#' :: rest) = [] := by
  cases rest <;> simp [codeFrom, Mode.inLiteral]

/-- In a literal a backslash takes the next character along. -/
theorem codeFrom_escape (h : mode.inLiteral = true) (c : Char) (rest : Text) :
    codeFrom mode ('\\' :: c :: rest) = '\\' :: c :: codeFrom mode rest := by
  simp [codeFrom, h]

/-- Every other character is kept and may change the mode. -/
theorem codeFrom_cons (hesc : ¬(mode.inLiteral = true ∧ c = '\\'))
    (hhash : ¬(mode = .code ∧ c = '#')) (rest : Text) :
    codeFrom mode (c :: rest) = c :: codeFrom (mode.advance c) rest := by
  cases rest with
  | nil => simp only [codeFrom, if_neg hhash]
  | cons d rest => rw [codeFrom, if_neg hesc, if_neg hhash]

/-- A character that neither opens a literal nor starts a comment. -/
def isPlain (c : Char) : Bool :=
  c != '\'' && c != '"' && c != '#'

/-- A plain character is no quote. -/
theorem ne_char_of_isPlain (h : isPlain c = true) (q : BlockQuote) : c ≠ q.char := by
  rintro rfl
  cases q <;> exact absurd h (by decide)

/-- A plain character leaves the walk in code. -/
theorem codeFrom_plain (h : isPlain c = true) (rest : Text) :
    codeFrom .code (c :: rest) = c :: codeFrom .code rest := by
  obtain ⟨⟨hsingle, hdouble⟩, hhash⟩ : (c ≠ '\'' ∧ c ≠ '"') ∧ c ≠ '#' := by
    simpa [isPlain] using h
  have hadv : Mode.code.advance c = .code := by simp [Mode.advance, hsingle, hdouble]
  rw [codeFrom_cons (by simp [Mode.inLiteral]) (by simp [hhash]), hadv]

/-- Plain text is kept and the walk goes on behind it. -/
theorem codeFrom_plain_append {front : Text} (h : front.all isPlain = true) (rest : Text) :
    codeFrom .code (front ++ rest) = front ++ codeFrom .code rest := by
  induction front with
  | nil => rfl
  | cons c front ih =>
    rw [List.all_cons, Bool.and_eq_true] at h
    rw [List.cons_append, codeFrom_plain h.1, ih h.2, List.cons_append]

/-- Whitespace is plain. -/
theorem isPlain_of_isSpace (h : Text.isSpace c = true) : isPlain c = true := by
  rw [isPlain, Bool.and_eq_true, Bool.and_eq_true]
  refine ⟨⟨?_, ?_⟩, ?_⟩
  all_goals
    rw [bne_iff_ne]
    rintro rfl
    exact absurd h (by decide)

/-- Blank text is plain. -/
theorem all_isPlain_of_isBlank (h : Text.isBlank text = true) : text.all isPlain = true := by
  rw [List.all_eq_true]
  intro c hc
  exact isPlain_of_isSpace (List.all_eq_true.mp h c hc)

/-- The walk keeps blank text. -/
theorem codeFrom_of_isBlank (h : Text.isBlank text = true) : codeFrom .code text = text := by
  simpa [codeFrom] using codeFrom_plain_append (all_isPlain_of_isBlank h) []

/-- A quote opens a literal. -/
theorem codeFrom_open (q : BlockQuote) (rest : Text) :
    codeFrom .code (q.char :: rest) = q.char :: codeFrom q.literalMode rest := by
  cases q with
  | double => exact codeFrom_cons (by decide) (by decide) rest
  | single => exact codeFrom_cons (by decide) (by decide) rest

/-- The same quote closes it again. -/
theorem codeFrom_close (q : BlockQuote) (rest : Text) :
    codeFrom q.literalMode (q.char :: rest) = q.char :: codeFrom .code rest := by
  cases q with
  | double => exact codeFrom_cons (by decide) (by decide) rest
  | single => exact codeFrom_cons (by decide) (by decide) rest

/-- Any other character but a backslash is text of the literal. -/
theorem codeFrom_literal (hback : c ≠ '\\') (hquote : c ≠ q.char) (rest : Text) :
    codeFrom q.literalMode (c :: rest) = c :: codeFrom q.literalMode rest := by
  have hadv : q.literalMode.advance c = q.literalMode := by
    cases q with
    | double => simp [BlockQuote.literalMode, Mode.advance, show c ≠ '"' from hquote]
    | single => simp [BlockQuote.literalMode, Mode.advance, show c ≠ '\'' from hquote]
  have hmode : q.literalMode ≠ .code := by cases q <;> simp [BlockQuote.literalMode]
  rw [codeFrom_cons (by simp [hback]) (by simp [hmode]), hadv]

/-- Text without the quote and without backslashes stays inside the literal. -/
theorem codeFrom_literal_append {body : Text} (hback : '\\' ∉ body) (hquote : q.char ∉ body)
    (rest : Text) :
    codeFrom q.literalMode (body ++ rest) = body ++ codeFrom q.literalMode rest := by
  induction body with
  | nil => rfl
  | cons c body ih =>
    rw [List.mem_cons, not_or] at hback hquote
    rw [List.cons_append, codeFrom_literal (Ne.symm hback.1) (Ne.symm hquote.1),
      ih hback.2 hquote.2, List.cons_append]

/-- A delimiter in code leaves the walk inside a literal: two of its quotes make
an empty literal and the third one opens the next. -/
theorem codeFrom_delimiter (q : BlockQuote) (rest : Text) :
    codeFrom .code (q.delimiter ++ rest) = q.delimiter ++ codeFrom q.literalMode rest := by
  simp only [q.delimiter_eq, List.cons_append, List.nil_append, codeFrom_open, codeFrom_close]

/-- A delimiter in a literal of its quote leaves the walk in code. -/
theorem codeFrom_literal_delimiter (q : BlockQuote) (rest : Text) :
    codeFrom q.literalMode (q.delimiter ++ rest) = q.delimiter ++ codeFrom .code rest := by
  simp only [q.delimiter_eq, List.cons_append, List.nil_append, codeFrom_open, codeFrom_close]

/-- The walk takes the same way through any front part of what it keeps, even one
that ends between a backslash and the character it protects. -/
theorem codeFrom_of_isPrefix {front : Text} (h : front <+: codeFrom mode line) :
    codeFrom mode front = front := by
  fun_induction codeFrom mode line generalizing front with
  | case1 mode =>
    rw [List.prefix_nil.mp h, codeFrom]
  | case2 mode c hhash =>
    rw [List.prefix_nil.mp h, codeFrom]
  | case3 mode c hhash =>
    rcases List.prefix_cons_iff.mp h with rfl | ⟨tail, rfl, htail⟩
    · rw [codeFrom]
    · rw [List.prefix_nil.mp htail, codeFrom, if_neg hhash]
  | case4 mode c d rest hesc ih =>
    obtain ⟨hlit, rfl⟩ := hesc
    rcases List.prefix_cons_iff.mp h with rfl | ⟨tail, rfl, htail⟩
    · rw [codeFrom]
    · rcases List.prefix_cons_iff.mp htail with rfl | ⟨front, rfl, hfront⟩
      · -- cut inside the escaped pair: a lone backslash is still kept
        simp [codeFrom]
      · rw [codeFrom_escape hlit, ih hfront]
  | case5 mode c d rest hesc hhash =>
    rw [List.prefix_nil.mp h, codeFrom]
  | case6 mode c d rest hesc hhash ih =>
    rcases List.prefix_cons_iff.mp h with rfl | ⟨tail, rfl, htail⟩
    · rw [codeFrom]
    · rw [codeFrom_cons hesc hhash, ih htail]

/-- What the walk leaves out, if anything, starts with `#`. -/
theorem codeFrom_append_comment (mode : Mode) (line : Text) :
    codeFrom mode line = line ∨ ∃ comment, line = codeFrom mode line ++ '#' :: comment := by
  fun_induction codeFrom mode line with
  | case1 => exact Or.inl rfl
  | case2 mode c hhash => exact Or.inr ⟨[], by rw [hhash.2]; rfl⟩
  | case3 => exact Or.inl rfl
  | case4 mode c d rest hesc ih =>
    rcases ih with hall | ⟨comment, hcut⟩
    · exact Or.inl (by rw [hall])
    · exact Or.inr ⟨comment, by rw [List.cons_append, List.cons_append, ← hcut]⟩
  | case5 mode c d rest hesc hhash => exact Or.inr ⟨d :: rest, by rw [hhash.2]; rfl⟩
  | case6 mode c d rest hesc hhash ih =>
    rcases ih with hall | ⟨comment, hcut⟩
    · exact Or.inl (by rw [hall])
    · exact Or.inr ⟨comment, by rw [List.cons_append, ← hcut]⟩

/-- Trimming hides no comment: a line that the walk cuts is cut before a character
that trimming would keep. -/
theorem trimEnd_codeFrom_eq_iff :
    Text.trimEnd (codeFrom mode line) = Text.trimEnd line ↔ codeFrom mode line = line := by
  constructor
  · intro h
    rcases codeFrom_append_comment mode line with hall | ⟨comment, hcut⟩
    · exact hall
    · -- the `#` survives trimming, so the trimmed line is longer than what was walked
      have hhash : Text.isSpace '#' = false := by decide
      have hnb : Text.isBlank ('#' :: comment) = false := by simp [hhash]
      have hlonger := Text.trimEnd_append_of_not_isBlank (codeFrom mode line) hnb
      rw [← hcut, ← h] at hlonger
      have hle := (Text.trimEnd_isPrefix (codeFrom mode line)).length_le
      have hpos : 0 < (Text.trimEnd ('#' :: comment)).length := by
        rw [List.length_pos_iff, ne_eq, Text.trimEnd_eq_nil_iff, hnb]
        exact Bool.false_ne_true
      rw [hlonger, List.length_append] at hle
      omega
  · intro h
    rw [h]

/-- A line loses only what stands at its end. -/
theorem dropComment_isPrefix (line : Text) : dropComment line <+: line :=
  (Text.trimEnd_isPrefix _).trans (codeFrom_isPrefix .code line)

/-- What is left of a line has no comment to lose. -/
@[simp] theorem dropComment_dropComment (line : Text) :
    dropComment (dropComment line) = dropComment line := by
  have hwalk : codeFrom .code (dropComment line) = dropComment line :=
    codeFrom_of_isPrefix (Text.trimEnd_isPrefix (codeFrom .code line))
  rw [dropComment, hwalk, dropComment, Text.trimEnd_trimEnd]

/-! ## Documentation blocks -/

/-- A line opens a block when a delimiter is the first thing on it and its code
holds no mark of a value. -/
theorem opener?_eq_some_iff : opener? line = some q ↔
    q.delimiter <+: Text.trimStart line ∧ (dropComment line).any isValueMark = false := by
  cases hmark : (dropComment line).any isValueMark with
  | true => simp [opener?, hmark]
  | false =>
    have hlead : q.delimiter <+: Text.trim line ↔ q.delimiter <+: Text.trimStart line :=
      Text.isPrefix_trimEnd_iff q.trimEnd_delimiter
    simp [opener?, hmark, BlockQuote.leading?_eq_some_iff, hlead]

/-- The lines that open no block. -/
theorem opener?_eq_none_iff : opener? line = none ↔
    ∀ q : BlockQuote, q.delimiter <+: Text.trimStart line →
      (dropComment line).any isValueMark = true := by
  rw [Option.eq_none_iff_forall_ne_some]
  simp [opener?_eq_some_iff]

/-- A blank line opens no block. -/
theorem opener?_of_isBlank (h : Text.isBlank line = true) : opener? line = none := by
  rw [opener?_eq_none_iff]
  intro q hq
  rw [Text.trimStart_of_isBlank h, List.prefix_nil] at hq
  cases q <;> cases hq

/-- A line whose first visible character is no quote opens no block. -/
theorem opener?_eq_none_of_head (h : Text.trimStart line = c :: rest)
    (hc : ∀ q : BlockQuote, c ≠ q.char) : opener? line = none := by
  rw [opener?_eq_none_iff]
  intro q hq
  rw [h, q.delimiter_eq, List.cons_prefix_cons] at hq
  exact absurd hq.1.symm (hc q)

/-- A line that opens a block holds its delimiter. -/
theorem contains_of_opener? (h : opener? line = some q) :
    Text.contains line q.delimiter = true := by
  have hlead := (opener?_eq_some_iff.mp h).1
  exact Text.contains_iff.mpr (hlead.isInfix.trans (List.dropWhile_suffix _).isInfix)

/-- A line without the quote does not hold the delimiter. -/
theorem contains_delimiter_of_not_mem (h : q.char ∉ line) :
    Text.contains line q.delimiter = false := by
  rw [Bool.eq_false_iff]
  intro hcontains
  have hheld := Text.contains_iff.mp hcontains
  exact h (hheld.subset (by simp [q.delimiter_eq]))

/-- A line that opens no block opens none without its comment either: the marks
of a value are looked for in what is kept. -/
theorem opener?_dropComment (h : opener? line = none) : opener? (dropComment line) = none := by
  rw [opener?_eq_none_iff] at h ⊢
  intro q hq
  -- a delimiter in front of the cut line is in front of the whole line
  have hmono := Text.trimStart_isPrefix_trimStart (dropComment_isPrefix line)
  rw [dropComment_dropComment]
  exact h q (hq.trans hmono)

/-- Behind blank space a delimiter is the first thing on a line. -/
theorem trimStart_indent {indent : Text} (h : Text.isBlank indent = true) (q : BlockQuote)
    (rest : Text) :
    Text.trimStart (indent ++ (q.delimiter ++ rest)) = q.delimiter ++ rest := by
  rw [Text.trimStart_append_of_isBlank h, q.delimiter_eq]
  exact Text.trimStart_cons_of_not_isSpace q.isSpace_char _

/-- What follows the delimiter on such a line. -/
theorem afterOpener_indent {indent : Text} (h : Text.isBlank indent = true) (q : BlockQuote)
    (rest : Text) : afterOpener q (indent ++ (q.delimiter ++ rest)) = rest := by
  rw [afterOpener, trimStart_indent h, List.drop_left]

/-- The marks of a value are no whitespace. -/
theorem not_isSpace_of_isValueMark (h : isValueMark c = true) : Text.isSpace c = false := by
  simp only [isValueMark, Bool.or_eq_true, beq_iff_eq] at h
  rcases h with (rfl | rfl) | rfl <;> decide

/-- Trimming keeps the marks of a value. -/
theorem any_isValueMark_trimEnd (text : Text) :
    (Text.trimEnd text).any isValueMark = text.any isValueMark := by
  rw [Bool.eq_iff_iff, List.any_eq_true, List.any_eq_true]
  constructor
  · rintro ⟨c, hc, hmark⟩
    exact ⟨c, (Text.mem_trimEnd_iff (not_isSpace_of_isValueMark hmark)).mp hc, hmark⟩
  · rintro ⟨c, hc, hmark⟩
    exact ⟨c, (Text.mem_trimEnd_iff (not_isSpace_of_isValueMark hmark)).mpr hc, hmark⟩

/-- Blank text holds no mark of a value. -/
theorem any_isValueMark_of_isBlank (h : Text.isBlank text = true) :
    text.any isValueMark = false := by
  rw [List.any_eq_false]
  intro c hc hmark
  exact Text.not_mem_of_isBlank h (not_isSpace_of_isValueMark hmark) hc

/-- A delimiter holds no mark of a value. -/
@[simp] theorem any_isValueMark_delimiter (q : BlockQuote) :
    q.delimiter.any isValueMark = false := by
  cases q <;> decide

/-- What the walk leaves out can only take marks away. -/
theorem any_isValueMark_codeFrom (h : line.any isValueMark = false) :
    (codeFrom mode line).any isValueMark = false := by
  rw [List.any_eq_false] at h ⊢
  intro c hc
  exact h c ((codeFrom_isPrefix mode line).subset hc)

/-- A line opens a block when a delimiter comes first on it and there is no mark
of a value in its code. -/
theorem opener?_indent {indent : Text} (h : Text.isBlank indent = true) (q : BlockQuote)
    (hmark : (codeFrom .code (indent ++ (q.delimiter ++ rest))).any isValueMark = false) :
    opener? (indent ++ (q.delimiter ++ rest)) = some q := by
  rw [opener?_eq_some_iff, trimStart_indent h, dropComment, any_isValueMark_trimEnd]
  exact ⟨List.prefix_append _ _, hmark⟩

/-! ## The scan of a line -/

/-- Inside a block a line only decides whether the block ends. -/
theorem scanLine_block (options : Options) (q : BlockQuote) (line : Text) :
    scanLine options (.block q) line =
      (if Text.contains line q.delimiter then .code else .block q, none) := rfl

/-- A line that opens a block goes, and the block ends with it if the delimiter
comes again. -/
theorem scanLine_of_opener (hb : options.blockStrings = true) (h : opener? line = some q) :
    scanLine options .code line =
      (if Text.contains (afterOpener q line) q.delimiter then .code else .block q, none) := by
  simp [scanLine, hb, h]

/-- Any other line is kept as far as its comment. -/
theorem scanLine_of_no_opener (h : options.blockStrings = true → opener? line = none) :
    scanLine options .code line = (.code, keptText? options line) := by
  cases hb : options.blockStrings with
  | true => simp [scanLine, hb, h hb]
  | false => simp [scanLine, hb]

/-- Between lines the scanner is in code or in a block. -/
theorem scanLine_mode (options : Options) (mode : Mode) (line : Text) :
    (scanLine options mode line).1 = .code ∨ ∃ q, (scanLine options mode line).1 = .block q := by
  unfold scanLine
  split
  · split
    · exact Or.inl rfl
    · exact Or.inr ⟨_, rfl⟩
  · split
    · split
      · exact Or.inl rfl
      · exact Or.inr ⟨_, rfl⟩
    · exact Or.inl rfl

/-- Without its delimiter no line opens a block. -/
theorem scanLine_ne_block (options : Options) (hmode : mode ≠ .block q)
    (h : Text.contains line q.delimiter = false) : (scanLine options mode line).1 ≠ .block q := by
  intro hblock
  unfold scanLine at hblock
  split at hblock
  · -- inside a block: it ends or stays the one that it was
    rename_i p
    split at hblock
    · cases hblock
    · exact hmode hblock
  · split at hblock
    · rename_i p hopen
      split at hblock
      · cases hblock
      · -- the block was opened here, so the line holds the delimiter
        cases hblock
        have hopener : opener? line = some q := by
          split at hopen
          · exact hopen
          · cases hopen
        rw [contains_of_opener? hopener] at h
        cases h
    · cases hblock

/-- Only a line outside every block that opens none is kept, and then the next
line is read as code. -/
theorem scanLine_kept (h : (scanLine options mode line).2 = some text) :
    (scanLine options mode line).1 = .code ∧ keptText? options line = some text ∧
      (options.blockStrings = true → opener? line = none) := by
  cases mode with
  | block q => simp [scanLine_block] at h
  | code | single | double =>
    cases hopen : (if options.blockStrings then opener? line else none) with
    | some q => simp [scanLine, hopen] at h
    | none =>
      simp only [scanLine, hopen] at h ⊢
      refine ⟨trivial, h, ?_⟩
      intro hb
      simpa [hb] using hopen

/-- What is kept of a line outside blocks, unless it is blank. -/
theorem keptText?_eq_some_iff : keptText? options line = some text ↔
    (if options.lineComments then dropComment line else line) = text ∧
      Text.isBlank text = false := by
  rw [keptText?, Option.ite_none_left_eq_some, Option.some.injEq]
  constructor
  · rintro ⟨hnb, rfl⟩
    exact ⟨rfl, by simpa using hnb⟩
  · rintro ⟨rfl, hnb⟩
    exact ⟨by simp [hnb], rfl⟩

/-- Nothing is kept of a line exactly when it is blank up to its comment. -/
theorem keptText?_eq_none_iff : keptText? options line = none ↔
    Text.isBlank (if options.lineComments then dropComment line else line) = true := by
  simp [keptText?]

end Scan

end NotebookExtract
