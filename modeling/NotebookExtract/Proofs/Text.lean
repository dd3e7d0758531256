import Mathlib.Data.List.DropRight
import NotebookExtract.Proofs.Lists
import NotebookExtract.Text.Blank

/-!
# Trimming, blanks and lines

How trimming and cutting into lines behave on a text that is put together from
pieces. The two `append` laws of each trim are the whole of its meaning: a blank
piece at the edge disappears, and a piece that is not blank protects everything
on its other side.
-/

namespace NotebookExtract.Text

variable {a b text : Text}

/-! ## Letters -/

theorem isUpper_iff {c : Char} : c.isUpper = true ↔ 'A'.val ≤ c.val ∧ c.val ≤ 'Z'.val :=
  decide_eq_true_iff

theorem isLower_iff {c : Char} : c.isLower = true ↔ 'a'.val ≤ c.val ∧ c.val ≤ 'z'.val := by
  change (decide ('a'.val ≤ c.val) && decide (c.val ≤ 'z'.val)) = true ↔ _
  rw [Bool.and_eq_true, decide_eq_true_iff, decide_eq_true_iff]

/-- A letter in lower case is the letter itself, or it was an upper-case letter and is a
lower-case one. -/
theorem toLower_eq_or (c : Char) :
    c.toLower = c ∨ (c.isUpper = true ∧ c.toLower.isLower = true) := by
  unfold Char.toLower
  split
  · rename_i hupper
    right
    constructor
    · exact isUpper_iff.mpr hupper
    · rw [isLower_iff]
      simp [UInt32.le_iff_toNat_le] at hupper ⊢
      omega
  · exact Or.inl rfl

/-! ## Blank texts -/

@[simp] theorem isBlank_nil : isBlank [] = true := rfl

@[simp] theorem isBlank_cons (c : Char) (rest : Text) :
    isBlank (c :: rest) = (isSpace c && isBlank rest) := rfl

@[simp] theorem isBlank_append (a b : Text) : isBlank (a ++ b) = (isBlank a && isBlank b) :=
  List.all_append

/-- A blank text holds only whitespace, so a character that is none is not in it. -/
theorem not_mem_of_isBlank {c : Char} (h : isBlank text = true) (hc : isSpace c = false) :
    c ∉ text := by
  intro hmem
  have hsp : isSpace c = true := List.all_eq_true.mp h c hmem
  rw [hc] at hsp
  cases hsp

/-! ## Trimming at the end -/

theorem trimEnd_concat (text : Text) (c : Char) :
    trimEnd (text ++ [c]) = if isSpace c then trimEnd text else text ++ [c] := by
  induction text with
  | nil => simp [trimEnd]
  | cons d text ih =>
    rw [List.cons_append, trimEnd, ih]
    by_cases hc : isSpace c = true
    · simp only [if_pos hc, trimEnd]
    · simp [hc]

/-- Trimming at the end drops whitespace from the right. -/
theorem trimEnd_eq_rdropWhile (text : Text) : trimEnd text = text.rdropWhile isSpace := by
  induction text using List.reverseRecOn with
  | nil => rfl
  | append_singleton text c ih => rw [trimEnd_concat, List.rdropWhile_concat, ih]

/-- Trimming at the end leaves nothing exactly when there was nothing to keep. -/
theorem trimEnd_eq_nil_iff (text : Text) : trimEnd text = [] ↔ isBlank text = true := by
  rw [trimEnd_eq_rdropWhile, List.rdropWhile_eq_nil_iff, isBlank, List.all_eq_true]

/-- Trimming at the end twice is trimming once. -/
@[simp] theorem trimEnd_trimEnd (text : Text) : trimEnd (trimEnd text) = trimEnd text := by
  simp only [trimEnd_eq_rdropWhile, List.rdropWhile_idempotent]

/-- What trimming at the end keeps stands at the front of the text. -/
theorem trimEnd_isPrefix (text : Text) : trimEnd text <+: text := by
  rw [trimEnd_eq_rdropWhile]
  exact List.rdropWhile_prefix _ _

/-- Whitespace at the end goes, whatever stands before it. -/
theorem trimEnd_append_of_isBlank (a : Text) (h : isBlank b = true) :
    trimEnd (a ++ b) = trimEnd a := by
  induction a with
  | nil => simpa [trimEnd] using (trimEnd_eq_nil_iff b).mpr h
  | cons c a ih => simp only [List.cons_append, trimEnd, ih]

/-- A last piece that is not blank protects all that stands before it. -/
theorem trimEnd_append_of_not_isBlank (a : Text) (h : isBlank b = false) :
    trimEnd (a ++ b) = a ++ trimEnd b := by
  induction a with
  | nil => rfl
  | cons c a ih =>
    have hb : trimEnd b ≠ [] := by
      intro hnil
      rw [(trimEnd_eq_nil_iff b).mp hnil] at h
      cases h
    obtain ⟨d, rest, hd⟩ := List.exists_cons_of_ne_nil (List.append_ne_nil_of_right_ne_nil a hb)
    rw [List.cons_append, trimEnd, ih, hd, List.cons_append, hd]

/-- Trimming keeps the order of front parts. -/
theorem trimEnd_isPrefix_trimEnd (h : a <+: b) : trimEnd a <+: trimEnd b := by
  obtain ⟨c, rfl⟩ := h
  cases hc : isBlank c with
  | true => simp only [trimEnd_append_of_isBlank a hc, List.prefix_refl]
  | false =>
    rw [trimEnd_append_of_not_isBlank a hc]
    exact (trimEnd_isPrefix a).trans (List.prefix_append a _)

/-- A piece that ends in no whitespace stands at the front of the trimmed text
exactly when it stands at the front of the text. -/
theorem isPrefix_trimEnd_iff (h : trimEnd a = a) : a <+: trimEnd b ↔ a <+: b := by
  constructor
  · intro hab
    exact hab.trans (trimEnd_isPrefix b)
  · intro hab
    have hmono := trimEnd_isPrefix_trimEnd hab
    rwa [h] at hmono

/-- Trimming neither makes a text blank nor fills it. -/
@[simp] theorem isBlank_trimEnd (text : Text) : isBlank (trimEnd text) = isBlank text := by
  rw [Bool.eq_iff_iff, ← trimEnd_eq_nil_iff, ← trimEnd_eq_nil_iff, trimEnd_trimEnd]

/-- A character that is no whitespace is trimmed away from nowhere. -/
theorem mem_trimEnd_iff {c : Char} (hc : isSpace c = false) : c ∈ trimEnd text ↔ c ∈ text := by
  constructor
  · intro hmem
    exact (trimEnd_isPrefix text).subset hmem
  · intro hmem
    -- everything up to the last such character is protected by it
    obtain ⟨front, rest, rfl⟩ := List.append_of_mem hmem
    have hnb : isBlank (c :: rest) = false := by simp [hc]
    rw [trimEnd_append_of_not_isBlank front hnb]
    cases hr : trimEnd rest <;> simp [trimEnd, hr, hc]

/-! ## Trimming at the start -/

/-- Whitespace at the start goes, whatever follows. -/
theorem trimStart_append_of_isBlank (h : isBlank a = true) (b : Text) :
    trimStart (a ++ b) = trimStart b :=
  List.dropWhile_append_of_pos (by simpa [isBlank] using h)

/-- Nothing is left of a blank text. -/
theorem trimStart_of_isBlank (h : isBlank text = true) : trimStart text = [] := by
  simpa [trimStart] using trimStart_append_of_isBlank h []

/-- A first piece that is not blank protects all that follows. -/
theorem trimStart_append_of_not_isBlank (h : isBlank a = false) (b : Text) :
    trimStart (a ++ b) = trimStart a ++ b := by
  induction a with
  | nil => cases h
  | cons c a ih =>
    cases hc : isSpace c with
    | true =>
      have ha : isBlank a = false := by simpa [hc] using h
      simpa [trimStart, hc] using ih ha
    | false => simp [trimStart, hc]

/-- Trimming keeps the order of front parts. -/
theorem trimStart_isPrefix_trimStart (h : a <+: b) : trimStart a <+: trimStart b := by
  obtain ⟨c, rfl⟩ := h
  cases ha : isBlank a with
  | true =>
    rw [trimStart_of_isBlank ha]
    exact List.nil_prefix
  | false =>
    rw [trimStart_append_of_not_isBlank ha]
    exact List.prefix_append _ c

/-- A text that starts with no whitespace stays. -/
theorem trimStart_cons_of_not_isSpace {c : Char} (hc : isSpace c = false) (rest : Text) :
    trimStart (c :: rest) = c :: rest := by
  simp [trimStart, hc]

/-! ## Lines -/

@[simp] theorem lines_nil : lines [] = [[]] := rfl

/-- A text without line feeds is one line. -/
theorem lines_of_not_mem (h : '\n' ∉ text) : lines text = [text] :=
  List.splitOn_eq_singleton h

/-- Every text has a line. -/
theorem lines_ne_nil (text : Text) : lines text ≠ [] :=
  List.splitOn_ne_nil '\n' text

/-- A line feed at the start makes an empty first line. -/
theorem lines_cons_newline (rest : Text) : lines ('\n' :: rest) = [] :: lines rest :=
  lines_append_cons [] rest

/-- Any other character joins the first line. -/
theorem lines_cons_of_ne {c : Char} {rest first : Text} {later : List Text} (hc : c ≠ '\n')
    (h : lines rest = first :: later) : lines (c :: rest) = (c :: first) :: later := by
  have hsplit : rest.splitOn '\n' = first :: later := h
  rw [lines, List.splitOn_cons_eq_if_modifyHead, hsplit]
  simp [hc]

/-- No line holds a line feed. -/
theorem not_mem_of_mem_lines {line : Text} (h : line ∈ lines text) : '\n' ∉ line :=
  Lists.not_mem_of_mem_splitOn h

/-- Joining lines loses nothing. -/
theorem ofLines_inj {as bs : List Text} (ha : as ≠ []) (hb : bs ≠ [])
    (has : ∀ line ∈ as, '\n' ∉ line) (hbs : ∀ line ∈ bs, '\n' ∉ line) :
    ofLines as = ofLines bs ↔ as = bs := by
  constructor
  · intro h
    rw [← lines_ofLines ha has, h, lines_ofLines hb hbs]
  · intro h
    rw [h]

/-- Pieces with something in them join to an empty text only when there are none. -/
theorem intercalate_eq_nil_iff (sep : Text) {as : List Text} (h : ∀ a ∈ as, a ≠ []) :
    sep.intercalate as = [] ↔ as = [] := by
  constructor
  · intro hnil
    cases as with
    | nil => rfl
    | cons a rest =>
      have hfirst : a <+: sep.intercalate (a :: rest) := by
        cases rest with
        | nil => simp
        | cons next rest => simp
      rw [hnil, List.prefix_nil] at hfirst
      exact absurd hfirst (h a List.mem_cons_self)
  · rintro rfl
    exact List.intercalate_nil

/-- Pieces that stand together are joined together. -/
theorem intercalate_isInfix (sep : Text) {as bs : List Text} (h : as <:+: bs) :
    sep.intercalate as <:+: sep.intercalate bs := by
  obtain ⟨front, rest, rfl⟩ := h
  by_cases ha : as = []
  · rw [ha, List.intercalate_nil]
    exact List.nil_infix
  · have hfront : sep.intercalate as <:+ sep.intercalate (front ++ as) := by
      by_cases hf : front = []
      · simp [hf]
      · rw [Lists.intercalate_append sep hf ha, ← List.append_assoc]
        exact List.suffix_append _ _
    have hrest : sep.intercalate (front ++ as) <+: sep.intercalate (front ++ as ++ rest) := by
      by_cases hr : rest = []
      · simp [hr]
      · rw [Lists.intercalate_append sep (by simp [ha]) hr]
        exact List.prefix_append _ _
    exact hfront.isInfix.trans hrest.isInfix

/-- Two runs of lines, joined one after the other. -/
theorem ofLines_append {as bs : List Text} (ha : as ≠ []) (hb : bs ≠ []) :
    ofLines (as ++ bs) = ofLines as ++ '\n' :: ofLines bs :=
  Lists.intercalate_append ['\n'] ha hb

/-- Joining texts or joining all of their lines is the same. -/
theorem ofLines_flatMap_lines (texts : List Text) :
    ofLines (texts.flatMap lines) = ofLines texts := by
  induction texts with
  | nil => rfl
  | cons t rest ih =>
    cases rest with
    | nil => simp [ofLines, lines]
    | cons u rest =>
      have hne : (u :: rest).flatMap lines ≠ [] := by simp [lines_ne_nil]
      rw [List.flatMap_cons, ofLines_append (lines_ne_nil t) hne, ih, ofLines_lines]
      simp [ofLines]

end NotebookExtract.Text
