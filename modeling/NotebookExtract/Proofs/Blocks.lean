import NotebookExtract.Proofs.Strip

/-!
# The life of a documentation block

A run of the scanner reads its lines one after the other, and each line brings the
options under which it is read. Between lines the scanner remembers one thing: the
block that it is in, if any. Here that memory is tied to the lines already read: the
scanner is in a block exactly when one of them opened it in code and none since then
holds the delimiter.

The options enter in one place only, where a line is read in code and may open a
block. So the modes of a run do not depend on whether comments are removed, and
inside a block the options of a line do not matter at all.
-/

namespace NotebookExtract.Scan

variable {options options' : Options} {mode : Mode} {p q : BlockQuote} {line text : Text}

/-! ## One line -/

/-- The line starts a block and leaves it open: behind its indentation stand the
delimiter and a text in which the delimiter does not come again, and the code of the
line holds no mark of a value. -/
structure LeavesOpen (q : BlockQuote) (line : Text) : Prop where
  starts : ∃ indent rest, line = indent ++ (q.delimiter ++ rest) ∧
    Text.isBlank indent = true ∧ Text.contains rest q.delimiter = false
  no_mark : '=' ∉ dropComment line ∧ '(' ∉ dropComment line ∧ '[' ∉ dropComment line

/-- The marks of a value, one by one. -/
theorem any_isValueMark_eq_false_iff :
    text.any isValueMark = false ↔ '=' ∉ text ∧ '(' ∉ text ∧ '[' ∉ text := by
  rw [List.any_eq_false]
  constructor
  · intro h
    exact ⟨fun hmem => h _ hmem rfl, fun hmem => h _ hmem rfl, fun hmem => h _ hmem rfl⟩
  · rintro ⟨heq, hparen, hbracket⟩ c hmem hmark
    simp only [isValueMark, Bool.or_eq_true, beq_iff_eq] at hmark
    rcases hmark with (rfl | rfl) | rfl
    · exact heq hmem
    · exact hparen hmem
    · exact hbracket hmem

/-- The two tests of the scanner decide whether a line leaves a block open. -/
theorem leavesOpen_iff : LeavesOpen q line ↔
    opener? line = some q ∧ Text.contains (afterOpener q line) q.delimiter = false := by
  constructor
  · rintro ⟨⟨indent, rest, rfl, hblank, hrest⟩, hmark⟩
    refine ⟨opener?_eq_some_iff.mpr ⟨?_, any_isValueMark_eq_false_iff.mpr hmark⟩, ?_⟩
    · rw [trimStart_indent hblank]
      exact List.prefix_append _ _
    · rwa [afterOpener_indent hblank]
  · rintro ⟨hopener, hafter⟩
    obtain ⟨⟨rest, hrest⟩, hmark⟩ := opener?_eq_some_iff.mp hopener
    -- the indentation is what trimming takes away
    have hline : line = line.takeWhile Text.isSpace ++ (q.delimiter ++ rest) := by
      rw [hrest, Text.trimStart, List.takeWhile_append_dropWhile]
    have hblank : Text.isBlank (line.takeWhile Text.isSpace) = true := List.all_takeWhile
    refine ⟨⟨_, rest, hline, hblank, ?_⟩, any_isValueMark_eq_false_iff.mp hmark⟩
    rwa [afterOpener, ← hrest, List.drop_left] at hafter

/-- Out of code a line leads into a block exactly when it opens the block and leaves it
open. -/
theorem scanLine_code_eq_block_iff : (scanLine options .code line).1 = .block q ↔
    options.blockStrings = true ∧ LeavesOpen q line := by
  rw [leavesOpen_iff]
  constructor
  · intro h
    cases hopener : opener? line with
    | none =>
      rw [scanLine_of_no_opener fun _ => hopener] at h
      cases h
    | some p =>
      cases hblocks : options.blockStrings with
      | false =>
        rw [scanLine_of_no_opener (by simp [hblocks])] at h
        cases h
      | true =>
        rw [scanLine_of_opener hblocks hopener] at h
        split at h
        · cases h
        · rename_i hafter
          cases h
          exact ⟨rfl, rfl, by simpa using hafter⟩
  · rintro ⟨hblocks, hopener, hafter⟩
    rw [scanLine_of_opener hblocks hopener, hafter]
    rfl

/-- A block goes on exactly over the lines that do not hold its delimiter. -/
theorem scanLine_block_eq_block_iff : (scanLine options (.block p) line).1 = .block q ↔
    p = q ∧ Text.contains line q.delimiter = false := by
  rw [scanLine_block]
  constructor
  · intro h
    split at h
    · cases h
    · rename_i hheld
      cases h
      exact ⟨rfl, by simpa using hheld⟩
  · rintro ⟨rfl, hheld⟩
    rw [hheld]
    rfl

/-- Outside blocks the mode after a line depends on one of the options, inside a block
on none. -/
theorem scanLine_mode_congr
    (h : mode.inBlock = false → options'.blockStrings = options.blockStrings) :
    (scanLine options' mode line).1 = (scanLine options mode line).1 := by
  cases mode with
  | block p => rfl
  | code | single | double =>
    simp only [scanLine, h rfl]
    cases (if options.blockStrings then opener? line else none) <;> rfl

/-- Inside a block the options do not matter. -/
theorem scanLine_congr (h : mode.inBlock = false → options' = options) :
    scanLine options' mode line = scanLine options mode line := by
  cases mode with
  | block p => rfl
  | code | single | double => rw [h rfl]

/-! ## A run -/

/-- A line and the options under which it is read. -/
structure Reading where
  line : Text
  options : Options
deriving DecidableEq, Repr

/-- Reads the line in a mode. -/
def Reading.scan (r : Reading) (mode : Mode) : Mode × Option Text :=
  scanLine r.options mode r.line

/-- The mode in which a run that starts in code reads its line `k`: the mode after the
`k` lines before it. -/
def modeAt (rs : List Reading) (k : Nat) : Mode :=
  (rs.take k).foldl (fun mode r => (r.scan mode).1) .code

/-- What the run keeps of its line `k`. -/
def keptAt (rs : List Reading) (k : Nat) : Option Text :=
  rs[k]?.bind fun r => (r.scan (modeAt rs k)).2

variable {rs rs' : List Reading} {r : Reading} {i j k : Nat}

/-- One step of a run. -/
theorem modeAt_succ (h : rs[k]? = some r) : modeAt rs (k + 1) = (r.scan (modeAt rs k)).1 := by
  simp [modeAt, List.take_add_one, h]

/-- Behind its last line a run stays in its mode. -/
theorem modeAt_succ_of_none (h : rs[k]? = none) : modeAt rs (k + 1) = modeAt rs k := by
  simp [modeAt, List.take_add_one, h]

/-- A run in which all lines are read under the same options is a scan of these lines. -/
theorem scanLines_take_eq (h : ∀ r ∈ rs, r.options = options) (k : Nat) :
    scanLines options .code ((rs.take k).map Reading.line) =
      (modeAt rs k, (List.range k).filterMap (keptAt rs)) := by
  induction k with
  | zero => rfl
  | succ k ih =>
    rw [List.take_add_one, List.map_append, scanLines_append, ih, List.range_succ,
      List.filterMap_append]
    cases hk : rs[k]? with
    | none =>
      have hkept : keptAt rs k = none := by simp [keptAt, hk]
      simp [modeAt_succ_of_none hk, hkept, scanLines]
    | some r =>
      have hscan : scanLine options (modeAt rs k) r.line = r.scan (modeAt rs k) := by
        rw [Reading.scan, h r (List.mem_of_getElem? hk)]
      have hkept : keptAt rs k = (r.scan (modeAt rs k)).2 := by simp [keptAt, hk]
      rw [modeAt_succ hk, Option.toList_some, List.map_singleton, scanLines_cons, hscan]
      cases hout : (r.scan (modeAt rs k)).2 with
      | none => simp [scanLines, hkept, hout]
      | some text => simp [scanLines, hkept, hout]

/-- Between lines a run is in code or in a block. -/
theorem modeAt_mode (rs : List Reading) (k : Nat) :
    modeAt rs k = .code ∨ ∃ q, modeAt rs k = .block q := by
  induction k with
  | zero => exact Or.inl rfl
  | succ k ih =>
    cases hk : rs[k]? with
    | none => rwa [modeAt_succ_of_none hk]
    | some r =>
      rw [modeAt_succ hk]
      exact scanLine_mode r.options (modeAt rs k) r.line

/-- A line read inside a block is dropped. -/
theorem keptAt_of_block (h : modeAt rs k = .block q) : keptAt rs k = none := by
  cases hk : rs[k]? with
  | none => simp [keptAt, hk]
  | some r => simp [keptAt, hk, h, Reading.scan, scanLine_block]

/-- A line after which the run is in a block is dropped. -/
theorem keptAt_of_block_succ (h : modeAt rs (k + 1) = .block q) : keptAt rs k = none := by
  cases hk : rs[k]? with
  | none => simp [keptAt, hk]
  | some r =>
    cases hkept : (r.scan (modeAt rs k)).2 with
    | none => simp [keptAt, hk, hkept]
    | some text =>
      -- what keeps a line goes on in code
      have hcode : (r.scan (modeAt rs k)).1 = .code := (scanLine_kept hkept).1
      rw [modeAt_succ hk, hcode] at h
      cases h

/-! ## Where a block was opened -/

/-- Whether the run has a line `k` and that line holds the delimiter. -/
def holdsAt (rs : List Reading) (q : BlockQuote) (k : Nat) : Bool :=
  rs[k]?.any fun r => Text.contains r.line q.delimiter

theorem holdsAt_eq (hk : rs[k]? = some r) :
    holdsAt rs q k = Text.contains r.line q.delimiter := by
  simp [holdsAt, hk]

/-- Line `i` of the run, read in code, opens a block, and no line between it and line
`k` holds the delimiter that closes it. -/
structure OpenSince (rs : List Reading) (q : BlockQuote) (i k : Nat) : Prop where
  lt : i < k
  code : modeAt rs i = .code
  opens : ∃ r, rs[i]? = some r ∧ r.options.blockStrings = true ∧ LeavesOpen q r.line
  unclosed : ∀ m, i < m → m < k → holdsAt rs q m = false

namespace OpenSince

/-- A block that is still open at some line was open at every line before it. -/
theorem restrict (h : OpenSince rs q i k) (hlt : i < j) (hle : j ≤ k) : OpenSince rs q i j :=
  ⟨hlt, h.code, h.opens, fun m him hmj => h.unclosed m him (by omega)⟩

/-- A block stays open up to the next line that holds its delimiter. -/
theorem extend (h : OpenSince rs q i j) (hle : j ≤ k)
    (hunclosed : ∀ m, j ≤ m → m < k → holdsAt rs q m = false) : OpenSince rs q i k := by
  refine ⟨Nat.lt_of_lt_of_le h.lt hle, h.code, h.opens, ?_⟩
  intro m him hmk
  rcases Nat.lt_or_ge m j with hmj | hjm
  · exact h.unclosed m him hmj
  · exact hunclosed m hjm hmk

/-- One line more. -/
theorem succ (h : OpenSince rs q i k) (hk : holdsAt rs q k = false) : OpenSince rs q i (k + 1) := by
  apply h.extend (by omega)
  intro m hkm hmk
  obtain rfl : m = k := by omega
  exact hk

/-- While a block is open the run is in it. -/
theorem modeAt_eq (h : OpenSince rs q i k) : modeAt rs k = .block q := by
  obtain ⟨hlt, hcode, ⟨r, hr, hblocks, hopens⟩, hunclosed⟩ := h
  induction hlt with
  | refl =>
    rw [modeAt_succ hr, hcode]
    exact scanLine_code_eq_block_iff.mpr ⟨hblocks, hopens⟩
  | @step k hik ih =>
    have hmode := ih fun m him hmk => hunclosed m him (by omega)
    cases hk : rs[k]? with
    | none => rwa [modeAt_succ_of_none hk]
    | some s =>
      have hheld := hunclosed k hik (by omega)
      rw [holdsAt_eq hk] at hheld
      rw [modeAt_succ hk, hmode]
      exact scanLine_block_eq_block_iff.mpr ⟨rfl, hheld⟩

/-- Only one line can have opened the block that is open at line `k`. -/
theorem unique (h : OpenSince rs q i k) (h' : OpenSince rs p j k) : p = q ∧ j = i := by
  have hmode : Mode.block p = .block q := by rw [← h'.modeAt_eq, h.modeAt_eq]
  refine ⟨Mode.block.inj hmode, ?_⟩
  -- the later of two openers would have been read inside the block of the other
  rcases Nat.lt_trichotomy i j with hij | hij | hji
  · have hblock := (h.restrict hij (Nat.le_of_lt h'.lt)).modeAt_eq
    rw [h'.code] at hblock
    cases hblock
  · exact hij.symm
  · have hblock := (h'.restrict hji (Nat.le_of_lt h.lt)).modeAt_eq
    rw [h.code] at hblock
    cases hblock

/-- From its opener on, every line of an open block is dropped. -/
theorem keptAt_eq_none (h : OpenSince rs q i k) (hij : i ≤ j) (hjk : j < k) :
    keptAt rs j = none :=
  keptAt_of_block_succ (h.restrict (by omega) hjk).modeAt_eq

end OpenSince

/-- A run is in a block exactly when one of the lines before opened it in code and none
since then has closed it. -/
theorem modeAt_eq_block_iff : modeAt rs k = .block q ↔ ∃ i, OpenSince rs q i k := by
  constructor
  · intro h
    induction k with
    | zero => cases h
    | succ k ih =>
      cases hk : rs[k]? with
      | none =>
        rw [modeAt_succ_of_none hk] at h
        obtain ⟨i, hi⟩ := ih h
        exact ⟨i, hi.succ (by simp [holdsAt, hk])⟩
      | some r =>
        rw [modeAt_succ hk, Reading.scan] at h
        rcases modeAt_mode rs k with hcode | ⟨p, hblock⟩
        · -- opened by the line just read
          rw [hcode] at h
          obtain ⟨hblocks, hopens⟩ := scanLine_code_eq_block_iff.mp h
          exact ⟨k, by omega, hcode, ⟨r, hk, hblocks, hopens⟩, fun m hkm hmk => by omega⟩
        · -- open before, and the line just read does not close it
          rw [hblock] at h
          obtain ⟨rfl, hheld⟩ := scanLine_block_eq_block_iff.mp h
          obtain ⟨i, hi⟩ := ih hblock
          exact ⟨i, hi.succ (by rw [holdsAt_eq hk, hheld])⟩
  · rintro ⟨i, hi⟩
    exact hi.modeAt_eq

/-! ## Other options -/

/-- The same lines under other options, of which `part` is as before for every line
that the first run reads outside blocks. -/
structure AgreeOutside {α : Type} (part : Options → α) (rs rs' : List Reading) : Prop where
  lines : rs'.map Reading.line = rs.map Reading.line
  part_eq : ∀ k r r', rs[k]? = some r → rs'[k]? = some r' → (modeAt rs k).inBlock = false →
    part r'.options = part r.options

namespace AgreeOutside

variable {α : Type} {part : Options → α}

/-- Both runs have the same lines at the same places. -/
theorem getElem?_eq (h : AgreeOutside part rs rs') (k : Nat) :
    (rs[k]? = none ∧ rs'[k]? = none) ∨
      ∃ r r', rs[k]? = some r ∧ rs'[k]? = some r' ∧ r'.line = r.line := by
  have hline : rs'[k]?.map Reading.line = rs[k]?.map Reading.line := by
    rw [← List.getElem?_map, ← List.getElem?_map, h.lines]
  cases hr : rs[k]? with
  | none =>
    rw [hr] at hline
    exact Or.inl ⟨rfl, by simpa using hline⟩
  | some r =>
    rw [hr] at hline
    obtain ⟨r', hr', hlines⟩ := Option.map_eq_some_iff.mp hline
    exact Or.inr ⟨r, r', rfl, hr', hlines⟩

/-- Whether comments are removed, and all options of lines inside blocks, do not change
the modes of a run. -/
theorem modeAt_eq (h : AgreeOutside Options.blockStrings rs rs') (k : Nat) :
    modeAt rs' k = modeAt rs k := by
  induction k with
  | zero => rfl
  | succ k ih =>
    rcases h.getElem?_eq k with ⟨hr, hr'⟩ | ⟨r, r', hr, hr', hline⟩
    · rw [modeAt_succ_of_none hr, modeAt_succ_of_none hr', ih]
    · rw [modeAt_succ hr, modeAt_succ hr', ih, Reading.scan, Reading.scan, hline]
      exact scanLine_mode_congr (h.part_eq k r r' hr hr')

/-- The options of lines inside blocks do not change what a run keeps. -/
theorem keptAt_eq (h : AgreeOutside id rs rs') (k : Nat) : keptAt rs' k = keptAt rs k := by
  have hmode : modeAt rs' k = modeAt rs k := by
    refine modeAt_eq ⟨h.lines, ?_⟩ k
    intro m r r' hr hr' hout
    exact congrArg Options.blockStrings (h.part_eq m r r' hr hr' hout)
  rcases h.getElem?_eq k with ⟨hr, hr'⟩ | ⟨r, r', hr, hr', hline⟩
  · simp [keptAt, hr, hr']
  · simp only [keptAt, hr, hr', hmode, Option.bind_some, Reading.scan, hline]
    exact congrArg Prod.snd (scanLine_congr (h.part_eq k r r' hr hr'))

end AgreeOutside

/-! ## What a run remembers -/

/-- **What a run remembers.** After every line the scanner is in code or in a block. It
is in a block exactly when a line read in code has opened it and no line since then
holds the delimiter. There is one such line only; it, all lines after it and the line
that closes the block are dropped. The modes depend on no option but that of removing
blocks, and on this one only for lines outside blocks; inside a block no option has any
effect. -/
theorem block_history (rs : List Reading) :
    (∀ j, modeAt rs (j + 1) = .code ∨ ∃ q, modeAt rs (j + 1) = .block q) ∧
    (∀ j q, modeAt rs (j + 1) = .block q ↔ ∃ i, OpenSince rs q i (j + 1)) ∧
    (∀ j q i, OpenSince rs q i (j + 1) →
      (∀ p i', OpenSince rs p i' (j + 1) → p = q ∧ i' = i) ∧
      (∀ k, i ≤ k → k ≤ j → keptAt rs k = none) ∧
      (∀ k, j < k → holdsAt rs q k = true → (∀ m, j < m → m < k → holdsAt rs q m = false) →
        keptAt rs k = none)) ∧
    (∀ rs', AgreeOutside Options.blockStrings rs rs' → ∀ k, modeAt rs' k = modeAt rs k) ∧
    (∀ rs', AgreeOutside id rs rs' → ∀ k, keptAt rs' k = keptAt rs k) := by
  refine ⟨fun j => modeAt_mode rs (j + 1), fun j q => modeAt_eq_block_iff, ?_,
    fun rs' h => h.modeAt_eq, fun rs' h => h.keptAt_eq⟩
  intro j q i hopen
  refine ⟨fun p i' h' => hopen.unique h', ?_, ?_⟩
  · intro k hik hkj
    exact hopen.keptAt_eq_none hik (by omega)
  · intro k hjk _ hfirst
    exact keptAt_of_block (hopen.extend hjk fun m hjm hmk => hfirst m hjm hmk).modeAt_eq

/-- A block with an assignment inside, where the lines in the block have options of
their own. -/
def notedRun (inside : Options) : List Reading :=
  [⟨"x = 1  # one".toList, {}⟩, ⟨"    \"\"\"Notes".toList, { lineComments := false }⟩,
    ⟨"y = '''2'''  # two".toList, inside⟩, ⟨"\"\"\" + z".toList, inside⟩, ⟨"w".toList, {}⟩]

/-- The second line opens the block, the fourth closes it, and the options of the third
and the fourth do not matter. -/
theorem block_history_notedRun :
    OpenSince (notedRun .none) .double 1 3 ∧ modeAt (notedRun .none) 3 = .block .double ∧
      keptAt (notedRun .none) 2 = none ∧ holdsAt (notedRun .none) .double 3 = true ∧
      keptAt (notedRun .none) 3 = none ∧ AgreeOutside id (notedRun .none) (notedRun {}) ∧
      keptAt (notedRun {}) 3 = keptAt (notedRun .none) 3 := by
  obtain ⟨-, hiff, hblock, -, hkept⟩ := block_history (notedRun .none)
  have hopen : OpenSince (notedRun .none) .double 1 3 := by
    refine ⟨by decide, by decide, ⟨_, rfl, rfl, ?_⟩, ?_⟩
    · exact ⟨⟨"    ".toList, "Notes".toList, by decide, by decide, by decide⟩, by decide⟩
    · intro m hm1 hm3
      obtain rfl : m = 2 := by omega
      decide
  have hholds : holdsAt (notedRun .none) .double 3 = true := by decide
  have hagree : AgreeOutside id (notedRun .none) (notedRun {}) := by
    have hsame : ∀ k < 5, (modeAt (notedRun .none) k).inBlock = false →
        (notedRun {})[k]? = (notedRun .none)[k]? := by decide
    refine ⟨by decide, ?_⟩
    intro k r r' hr hr' hout
    have hk : k < 5 := (List.getElem?_eq_some_iff.mp hr).1
    rw [hsame k hk hout, hr, Option.some.injEq] at hr'
    rw [hr']
  obtain ⟨-, hdropped, hclosing⟩ := hblock 2 .double 1 hopen
  exact ⟨hopen, (hiff 2 .double).mpr ⟨1, hopen⟩, hdropped 2 (by omega) (by omega), hholds,
    hclosing 3 (by omega) hholds (fun m hm2 hm3 => by omega), hagree, hkept (notedRun {}) hagree 3⟩

end NotebookExtract.Scan
