import NotebookExtract.Command.Machine
import NotebookExtract.Command.Run
import NotebookExtract.Proofs.Naming
import NotebookExtract.Proofs.Utf8

/-!
# Paths and where they lead

The path beside another starts where that one starts and has its names but for the last,
which is replaced. A path that ends in no name leads to a folder, so what can be read or
written has a name of its own. An artifact's file name is one plain name.
-/

namespace NotebookExtract

/-! ## File names of artifacts -/

namespace Naming

variable {name? : Option Text} {format : ArtifactFormat}

/-- No character of a file name divides a path. -/
theorem isSeparator_of_mem_fileName {c : Char} (h : c ∈ fileName name? format) :
    isSeparator c = false := by
  rw [fileName, List.mem_append, List.mem_append] at h
  rcases h with (hbase | hmiddle) | hext
  · exact isSeparator_of_isSafe (isSafe_of_mem_baseName hbase)
  · have hnone : "_extracted.".toList.all (!isSeparator ·) = true := by decide
    simpa using List.all_eq_true.mp hnone c hmiddle
  · have hnone : format.extension.all (!isSeparator ·) = true := by cases format <;> decide
    simpa using List.all_eq_true.mp hnone c hext

/-- A file name is one name on a path. -/
theorem slash_not_mem_fileName : Disk.slash ∉ Text.toUtf8 (fileName name? format) := by
  intro h
  have hmem : '/' ∈ fileName name? format := Text.slash_mem_toUtf8_iff.mp h
  exact absurd (isSeparator_of_mem_fileName hmem) (by decide)

theorem isIdle_fileName : Disk.isIdle (Text.toUtf8 (fileName name? format)) = false := by
  rw [← Bool.not_eq_true]
  intro hidle
  rw [Disk.isIdle, Bool.or_eq_true, List.isEmpty_iff, beq_iff_eq] at hidle
  -- as texts they are too short
  have hshort : fileName name? format = [] ∨ fileName name? format = ['.'] := by
    rcases hidle with hnil | hdot
    · exact Or.inl (Text.toUtf8_inj.mp hnil)
    · exact Or.inr (Text.toUtf8_inj.mp (hdot.trans (by decide)))
  have hlength : 11 ≤ (fileName name? format).length := by
    rw [fileName, List.length_append, List.length_append]
    have hmiddle : "_extracted.".toList.length = 11 := by decide
    omega
  rcases hshort with h | h
  · simp [h] at hlength
  · simp [h] at hlength

end Naming

/-! ## Pieces of a path -/

namespace Disk

variable {disk : Disk} {path name : Bytes} {here location : Location}

theorem not_mem_of_mem_pieces {piece : Bytes} (h : piece ∈ pieces path) : slash ∉ piece :=
  Lists.not_mem_of_mem_splitOn h

theorem pieces_ne_nil (path : Bytes) : pieces path ≠ [] :=
  List.splitOn_ne_nil slash path

/-- A name without slashes is a path of one piece. -/
theorem pieces_of_not_mem (h : slash ∉ name) : pieces name = [name] :=
  List.splitOn_eq_singleton h

/-- The pieces that a path is joined from are found again. -/
theorem pieces_intercalate {ps : List Bytes} (hne : ps ≠ []) (h : ∀ p ∈ ps, slash ∉ p) :
    pieces ([slash].intercalate ps) = ps :=
  List.splitOn_intercalate slash h hne

/-- A path is joined from its pieces. -/
theorem intercalate_pieces (path : Bytes) : [slash].intercalate (pieces path) = path :=
  List.intercalate_splitOn slash

/-- A path starts at the root exactly when its first piece is empty and another follows. -/
theorem isAbsolute_iff :
    isAbsolute path = true ↔ ∃ next rest, pieces path = [] :: next :: rest := by
  cases path with
  | nil => simp [isAbsolute, pieces]
  | cons c path =>
    obtain ⟨first, later, hsplit⟩ := List.exists_cons_of_ne_nil (List.splitOn_ne_nil slash path)
    rw [pieces, List.splitOn_cons_eq_if_modifyHead, hsplit]
    by_cases hc : c = slash
    · simp [isAbsolute, hc]
    · simp [isAbsolute, hc]

/-- A piece that is the name of something in its folder. -/
def isName (piece : Bytes) : Bool := !isIdle piece && piece != up

/-- The last piece of a path is a name, so that it may be that of a file. -/
def EndsInName (path : Bytes) : Prop :=
  ∃ last, (pieces path).getLast? = some last ∧ isName last = true

theorem isIdle_of_isName {piece : Bytes} (h : isName piece = true) : isIdle piece = false := by
  rw [isName, Bool.and_eq_true] at h
  simpa using h.1

theorem ne_up_of_isName {piece : Bytes} (h : isName piece = true) : piece ≠ up := by
  rw [isName, Bool.and_eq_true] at h
  simpa using h.2

/-- The last name on such a path is its last piece. -/
theorem names_eq_of_getLast? {last : Bytes} (hlast : (pieces path).getLast? = some last)
    (hname : isName last = true) :
    names path = (names path).dropLast ++ [last] := by
  obtain ⟨front, hpieces⟩ := List.getLast?_eq_some_iff.mp hlast
  have hnames : names path = front.filter (!isIdle ·) ++ [last] := by
    rw [names, hpieces, List.filter_append]
    simp [isIdle_of_isName hname]
  rw [hnames, List.dropLast_concat]

/-! ## Following a path -/

/-- A folder that was come to: it and all above it are folders. -/
def IsOpen (disk : Disk) (here : Location) : Prop :=
  ∀ above, above <+: here → disk.get? above = some .folder

theorem isOpen_nil (disk : Disk) : disk.IsOpen [] := by
  intro above habove
  simp [List.prefix_nil.mp habove, get?]

theorem isOpen_home (disk : Disk) : disk.IsOpen disk.home := by
  intro above habove
  rw [get?, if_pos (List.isPrefixOf_iff_prefix.mpr habove)]

theorem IsOpen.start (h : disk.IsOpen here) (path : Bytes) : disk.IsOpen (start here path) := by
  rw [Disk.start]
  split
  · exact isOpen_nil disk
  · exact h

theorem IsOpen.dropLast (h : disk.IsOpen here) : disk.IsOpen here.dropLast :=
  fun above habove => h above (habove.trans (List.dropLast_prefix here))

theorem IsOpen.append (h : disk.IsOpen here) (hfolder : disk.get? (here ++ [name]) = some .folder) :
    disk.IsOpen (here ++ [name]) := by
  intro above habove
  rcases List.prefix_concat_iff.mp habove with rfl | hhere
  · exact hfolder
  · exact h above hhere

/-- Pieces whose last one is no name lead to a folder, if what follows a link does. -/
theorem get?_of_followWith {again : Location → List Bytes → Except FileFailure Location}
    (hagain : ∀ here ps last location, disk.IsOpen here → ps.getLast? = some last →
      isName last = false → again here ps = .ok location → disk.get? location = some .folder)
    {ps : List Bytes} {last : Bytes} (hopen : disk.IsOpen here) (hlast : ps.getLast? = some last)
    (hname : isName last = false) (h : disk.followWith again here ps = .ok location) :
    disk.get? location = some .folder := by
  induction ps generalizing here with
  | nil => simp at hlast
  | cons piece rest ih =>
    rw [followWith] at h
    cases rest with
    | nil =>
      -- the last piece leads to where it was found, or one up
      rw [List.getLast?_singleton, Option.some.injEq] at hlast
      subst hlast
      rw [followWith, followWith] at h
      split at h
      · rw [Except.ok.injEq] at h
        exact h ▸ hopen here (List.prefix_refl here)
      · rename_i hidle
        have hup : piece = up := by
          simpa [isName, hidle] using hname
        subst hup
        split at h
        · cases h
        · rw [if_pos rfl, Except.ok.injEq] at h
          exact h ▸ hopen.dropLast _ (List.prefix_refl _)
    | cons next rest =>
      rw [List.getLast?_cons_cons] at hlast
      split at h
      · exact ih hopen hlast h
      · split at h
        · cases h
        · split at h
          · exact ih hopen.dropLast hlast h
          · split at h
            · cases h
            · split at h
              · rename_i hfolder
                exact ih (hopen.append hfolder) hlast h
              · rename_i target hlink
                refine hagain _ _ last _ (hopen.start target) ?_ hname h
                rw [List.getLast?_append, hlast]
                rfl
              all_goals simp at h

theorem get?_of_follow {links : Nat} {ps : List Bytes} {last : Bytes} (hopen : disk.IsOpen here)
    (hlast : ps.getLast? = some last) (hname : isName last = false)
    (h : disk.follow links here ps = .ok location) : disk.get? location = some .folder := by
  induction links generalizing here ps last location with
  | zero => exact get?_of_followWith (by simp) hopen hlast hname h
  | succ links ih =>
    refine get?_of_followWith ?_ hopen hlast hname h
    intro here ps last location hopen hlast hname h
    exact ih hopen hlast hname h

/-- A path that leads to something else than a folder ends in a name. -/
theorem endsInName_of_locate (h : disk.locate path = .ok location)
    (hfolder : disk.get? location ≠ some .folder) : EndsInName path := by
  have hlast := List.getLast?_eq_some_getLast (pieces_ne_nil path)
  refine ⟨_, hlast, ?_⟩
  by_contra hname
  rw [Bool.not_eq_true] at hname
  rw [locate] at h
  split at h
  · cases h
  · exact hfolder (get?_of_follow (disk.isOpen_home.start path) hlast hname h)

/-- What can be read has a name of its own. -/
theorem endsInName_of_read {content : Bytes} (h : disk.read path = .ok content) :
    EndsInName path := by
  rw [read] at h
  cases hlocate : disk.locate path with
  | error why =>
    rw [hlocate] at h
    cases h
  | ok location =>
    refine endsInName_of_locate hlocate ?_
    intro hfolder
    rw [hlocate, Except.bind, readAt, hfolder] at h
    split at h <;> cases h

end Disk

/-! ## The path beside another -/

namespace Command

open Disk

variable {path name : Bytes}

theorem filter_dropIdle (ps : List Bytes) :
    (dropIdle ps).filter (!isIdle ·) = ps.filter (!isIdle ·) := by
  have hdrop : ∀ ps : List Bytes, (ps.dropWhile isIdle).filter (!isIdle ·) =
      ps.filter (!isIdle ·) := by
    intro ps
    induction ps with
    | nil => rfl
    | cons p ps ih =>
      cases hp : isIdle p with
      | true => simpa [hp] using ih
      | false => simp [hp]
  rw [dropIdle, List.filter_reverse, hdrop, ← List.filter_reverse, List.reverse_reverse]

theorem mem_of_mem_dropIdle {piece : Bytes} {ps : List Bytes} (h : piece ∈ dropIdle ps) :
    piece ∈ ps :=
  List.mem_reverse.mp ((List.dropWhile_sublist _).subset (List.mem_reverse.mp h))

/-- What is left without the idle pieces at the end, ends in a name. -/
theorem isIdle_getLast_dropIdle {ps front : List Bytes} {last : Bytes}
    (h : dropIdle ps = front ++ [last]) : isIdle last = false := by
  have hreverse : ps.reverse.dropWhile isIdle = last :: front.reverse := by
    rw [← List.reverse_reverse (ps.reverse.dropWhile isIdle)]
    exact (congrArg List.reverse h).trans (by simp)
  have hhead := List.head?_dropWhile_not isIdle ps.reverse
  rw [hreverse] at hhead
  simpa using hhead

/-- The pieces above the last name, in the two shapes they can have. -/
theorem parentPieces_cases (path : Bytes) :
    (∃ first rest, pieces path = first :: rest ∧ parentPieces path = [] ∧
      rest.filter (!isIdle ·) = []) ∨
    ∃ first rest front last, pieces path = first :: rest ∧ dropIdle rest = front ++ [last] ∧
      isIdle last = false ∧ parentPieces path = first :: dropIdle front := by
  obtain ⟨first, rest, hpieces⟩ := List.exists_cons_of_ne_nil (pieces_ne_nil path)
  unfold parentPieces
  rw [hpieces]
  dsimp only
  rcases List.eq_nil_or_concat (dropIdle rest) with hnone | ⟨front, last, hnamed⟩
  · left
    refine ⟨first, rest, rfl, by rw [hnone], ?_⟩
    rw [← filter_dropIdle, hnone]
    rfl
  · right
    rw [List.concat_eq_append] at hnamed
    refine ⟨first, rest, front, last, rfl, hnamed, isIdle_getLast_dropIdle hnamed, ?_⟩
    rw [hnamed]
    cases front with
    | nil => rfl
    | cons next front =>
      change first :: dropIdle (next :: front ++ [last]).dropLast = _
      rw [List.dropLast_concat]

/-- The path beside another has the pieces above the last name, and the new name. -/
theorem pieces_sibling (path : Bytes) (hslash : slash ∉ name) :
    pieces (sibling path name) = parentPieces path ++ [name] := by
  have hclean : ∀ p ∈ parentPieces path, slash ∉ p := by
    intro p hp
    rcases parentPieces_cases path with ⟨first, rest, hpieces, hnone, -⟩ |
      ⟨first, rest, front, last, hpieces, hnamed, -, hparents⟩
    · simp [hnone] at hp
    · have hmem : p ∈ pieces path := by
        rw [hparents] at hp
        rw [hpieces]
        rcases List.mem_cons.mp hp with rfl | hfront
        · exact List.mem_cons_self
        · apply List.mem_cons_of_mem first
          apply mem_of_mem_dropIdle
          rw [hnamed]
          exact List.mem_append_left _ (mem_of_mem_dropIdle hfront)
      exact not_mem_of_mem_pieces hmem
  unfold sibling
  cases hparents : parentPieces path with
  | nil => exact pieces_of_not_mem hslash
  | cons first rest =>
    have hjoined : [slash].intercalate (first :: rest) ++ slash :: name =
        [slash].intercalate (first :: rest ++ [name]) := by
      rw [Lists.intercalate_append [slash] (by simp) (by simp), List.intercalate_singleton]
      rfl
    dsimp only
    rw [hjoined, pieces_intercalate (by simp)]
    intro p hp
    rcases List.mem_append.mp hp with hparent | hlast
    · exact hclean p (hparents ▸ hparent)
    · rwa [List.mem_singleton.mp hlast]

/-- It has the names of the other but for the last, and the new one. -/
theorem names_sibling (path : Bytes) (hslash : slash ∉ name) (hidle : isIdle name = false) :
    names (sibling path name) = (names path).dropLast ++ [name] := by
  rw [names, pieces_sibling path hslash, List.filter_append]
  have hname : [name].filter (!isIdle ·) = [name] := by simp [hidle]
  rw [hname, names]
  rcases parentPieces_cases path with ⟨first, rest, hpieces, hnone, hidles⟩ |
    ⟨first, rest, front, last, hpieces, hnamed, hlast, hparents⟩
  · rw [hpieces, hnone, List.filter_cons, hidles]
    split <;> rfl
  · have hrest : rest.filter (!isIdle ·) = front.filter (!isIdle ·) ++ [last] := by
      rw [← filter_dropIdle, hnamed, List.filter_append]
      simp [hlast]
    rw [hpieces, hparents, List.filter_cons, List.filter_cons, filter_dropIdle, hrest]
    split
    · rw [← List.cons_append, List.dropLast_concat]
    · rw [List.dropLast_concat]

/-- Both paths start at the root or neither does, where the other has a name at all. -/
theorem isAbsolute_sibling (hslash : slash ∉ name) (hnames : names path ≠ []) :
    isAbsolute (sibling path name) = isAbsolute path := by
  rw [Bool.eq_iff_iff, isAbsolute_iff, isAbsolute_iff, pieces_sibling path hslash]
  rcases parentPieces_cases path with ⟨first, rest, hpieces, hnone, hidles⟩ |
    ⟨first, rest, front, last, hpieces, hnamed, hlast, hparents⟩
  · -- the only name is the first piece
    have hfirst : first ≠ [] := by
      rintro rfl
      rw [names, hpieces, List.filter_cons, hidles] at hnames
      exact hnames rfl
    rw [hnone, hpieces]
    simp [hfirst]
  · have hmore : rest ≠ [] := by
      rintro rfl
      simp [dropIdle] at hnamed
    obtain ⟨next, more, hrest⟩ := List.exists_cons_of_ne_nil hmore
    obtain ⟨next', more', hfront⟩ := List.exists_cons_of_ne_nil
      (show dropIdle front ++ [name] ≠ [] by simp)
    rw [hparents, hpieces, hrest, List.cons_append, hfront]
    simp

/-- Of the paths that end in a name only the dash stands for standard input. -/
theorem isStandardInput_eq_false (hname : EndsInName path) (hdash : path ≠ [dash]) :
    isStandardInput path = false := by
  rw [← Bool.not_eq_true]
  intro hinput
  obtain ⟨last, hlast, hisName⟩ := hname
  have hidle := isIdle_of_isName hisName
  obtain ⟨first, rest, hpieces⟩ := List.exists_cons_of_ne_nil (pieces_ne_nil path)
  rw [isStandardInput, hpieces] at hinput
  dsimp only at hinput
  rw [Bool.and_eq_true, beq_iff_eq, List.all_eq_true] at hinput
  obtain ⟨hfirst, hrest⟩ := hinput
  cases rest with
  | nil =>
    -- one piece is the whole path
    apply hdash
    rw [← intercalate_pieces path, hpieces, List.intercalate_singleton, hfirst]
  | cons second rest =>
    -- the last piece is behind the first one and not idle
    rw [hpieces, List.getLast?_cons_cons] at hlast
    rw [hrest last (List.mem_of_getLast? hlast)] at hidle
    cases hidle

end Command

end NotebookExtract
