import NotebookExtract.Proofs.Command.Sinks

/-!
# When the notebook is overwritten

Without an output path the artifact is written beside the notebook, under a name that is
made from the notebook's own. A base name that is made from an artifact's file name has
two words more than the base name in it, so no file name is made from itself, whatever
the notebook is called. The path of the artifact therefore parts from that of the notebook
at its last name, and what a run changes is where another path leads.

This holds as far as the notebook's path is a text. From a path that is none no name is
made, and the artifact is called as one without a notebook's name. If the notebook is
called so as well, the two paths are one, and the notebook is overwritten.
-/

namespace NotebookExtract

/-! ## Names made from file names -/

namespace Naming

variable {name? : Option Text} {format : ArtifactFormat} {path file : Text}

/-- The words of a file name: those of its base name, and two more. -/
theorem words_fileName (name? : Option Text) (format : ArtifactFormat) :
    words (fileName name? format) =
      words (baseName name?) ++ ["extracted".toList, format.extension] := by
  have hsplit : fileName name? format =
      baseName name? ++ '_' :: ("extracted.".toList ++ format.extension) := by
    rw [fileName, List.append_assoc]
    rfl
  have hend : words ("extracted.".toList ++ format.extension) =
      ["extracted".toList, format.extension] := by
    cases format <;> decide
  rw [hsplit, words_append_cons (by decide), hend]

/-- A file name ends in no extension of a notebook, so nothing is taken off it. -/
theorem isStem_fileName (name? : Option Text) (format : ArtifactFormat) :
    IsStem (fileName name? format) (fileName name? format) := by
  refine Or.inr ⟨rfl, ?_⟩
  intro front suffix hsuffix hends
  -- in lower case the one ends in a `b`, the other in a `y` or a `d`
  have hb : (suffix.map Char.toLower).getLast? = some 'b' := by
    rw [show suffix.map Char.toLower = notebookSuffix from hsuffix]
    decide
  have hlast : ((fileName name? format).map Char.toLower).getLast? = some 'b' := by
    rw [hends, List.map_append, List.getLast?_append, hb]
    rfl
  have hne : format.extension.map Char.toLower ≠ [] := by cases format <;> decide
  rw [fileName, List.map_append, List.getLast?_append_of_ne_nil _ hne] at hlast
  cases format <;> exact absurd hlast (by decide)

/-- A name made from the file name of an artifact goes on behind the name that this one
was made from. -/
theorem baseName_of_isLastPart_fileName (h : IsLastPart path (fileName name? format)) :
    baseName (some path) = baseName name? ++ "_extracted_".toList ++ format.extension := by
  rcases exists_words_of_baseName name? with ⟨ws, hne, hws, hbase⟩
  have hwords : words (fileName name? format) = ws ++ ["extracted".toList, format.extension] := by
    rw [words_fileName, hbase, words_joinWords hws]
  rw [baseName_of_isStem h (isStem_fileName name? format), hwords, if_neg (by simp), joinWords,
    Lists.intercalate_append ['_'] hne (by simp), hbase, joinWords]
  simp

/-- No file name is made from itself. -/
theorem fileName_ne_of_isLastPart (h : IsLastPart path file) :
    fileName (some path) format ≠ file := by
  rintro rfl
  have hlonger := congrArg List.length (baseName_of_isLastPart_fileName h)
  have hmiddle : "_extracted_".toList.length = 11 := by decide
  rw [List.length_append, List.length_append] at hlonger
  omega

/-- What stands behind the last slash of a path stands behind its last separator, unless
it has a separator in it. -/
theorem isLastPart_of_splitOn {front : List Text} (hparts : path.splitOn '/' = front ++ [file])
    (hfile : ∀ c ∈ file, isSeparator c = false) : IsLastPart path file := by
  have hjoined : path = ['/'].intercalate (front ++ [file]) := by
    rw [← hparts, List.intercalate_splitOn]
  refine ⟨hfile, ?_⟩
  by_cases hfront : front = []
  · left
    rw [hjoined, hfront, List.nil_append, List.intercalate_singleton]
  · right
    refine ⟨['/'].intercalate front, '/', by decide, ?_⟩
    rw [hjoined, Lists.intercalate_append ['/'] hfront (by simp), List.intercalate_singleton]
    rfl

/-- The file name made from a path is not the name behind its last slash. -/
theorem getLast?_splitOn_ne_fileName (path : Text) (format : ArtifactFormat) :
    (path.splitOn '/').getLast? ≠ some (fileName (some path) format) := by
  intro hlast
  rcases List.getLast?_eq_some_iff.mp hlast with ⟨front, hparts⟩
  have hpart : IsLastPart path (fileName (some path) format) :=
    isLastPart_of_splitOn hparts fun c => isSeparator_of_mem_fileName
  exact fileName_ne_of_isLastPart hpart rfl

end Naming

/-! ## Paths that are one, and paths that part -/

namespace Disk

/-- Two paths start alike and have the same names, so they are one path in two
spellings. -/
structure SamePath (path other : Bytes) : Prop where
  start : isAbsolute other = isAbsolute path
  names : names other = names path

/-- Two paths start alike and have the same names but for the last one. So they are
different paths, and not only two spellings of one. -/
structure PartAtLast (path other : Bytes) : Prop where
  start : isAbsolute other = isAbsolute path
  folder : (names other).dropLast = (names path).dropLast
  last : (names other).getLast? ≠ (names path).getLast?

variable {disk : Disk} {path : Bytes} {here location : Location}

/-- Without its idle pieces a path ends in the same name. -/
theorem getLast?_filter_of_isName {ps : List Bytes} {last : Bytes}
    (hlast : ps.getLast? = some last) (hname : isName last = true) :
    (ps.filter (!isIdle ·)).getLast? = some last := by
  obtain ⟨front, rfl⟩ := List.getLast?_eq_some_iff.mp hlast
  rw [List.filter_append, List.getLast?_append]
  simp [isIdle_of_isName hname]

/-- On a disk without links, pieces that end in a name lead to a place of that name. -/
theorem getLast?_of_followWith {again : Location → List Bytes → Except FileFailure Location}
    (hlinks : ∀ place target, disk.get? place ≠ some (.link target)) {ps : List Bytes}
    {last : Bytes} (hlast : ps.getLast? = some last) (hname : isName last = true)
    (h : disk.followWith again here ps = .ok location) : location.getLast? = some last := by
  induction ps generalizing here with
  | nil => simp at hlast
  | cons piece rest ih =>
    rw [followWith] at h
    cases rest with
    | nil =>
      rw [List.getLast?_singleton, Option.some.injEq] at hlast
      subst hlast
      rw [isIdle_of_isName hname, if_neg Bool.false_ne_true, if_neg (ne_up_of_isName hname)] at h
      split at h
      · cases h
      · split at h
        · cases h
        · split at h
          · rw [followWith, Except.ok.injEq] at h
            rw [← h, List.getLast?_concat]
          · rename_i target hlink
            exact absurd hlink (hlinks _ target)
          all_goals
            rw [List.isEmpty_nil, if_pos rfl, Except.ok.injEq] at h
            rw [← h, List.getLast?_concat]
    | cons next rest =>
      rw [List.getLast?_cons_cons] at hlast
      split at h
      · exact ih hlast h
      · split at h
        · cases h
        · split at h
          · exact ih hlast h
          · split at h
            · cases h
            · split at h
              · exact ih hlast h
              · rename_i target hlink
                exact absurd hlink (hlinks _ target)
              all_goals simp at h

/-- On a disk without links, a path that ends in a name leads to a place of that name. -/
theorem getLast?_of_locate (hlinks : ∀ place target, disk.get? place ≠ some (.link target))
    {last : Bytes} (hlast : (pieces path).getLast? = some last) (hname : isName last = true)
    (h : disk.locate path = .ok location) : location.getLast? = some last := by
  rw [locate] at h
  split at h
  · cases h
  · exact getLast?_of_followWith hlinks hlast hname h

/-- Idle pieces before the last name on a path do not matter. -/
theorem followWith_filter {again : Location → List Bytes → Except FileFailure Location}
    (hagain : ∀ here ps qs last, ps.filter (!isIdle ·) = qs.filter (!isIdle ·) →
      ps.getLast? = some last → qs.getLast? = some last → isName last = true →
        again here ps = again here qs)
    {ps : List Bytes} {last : Bytes} (hlast : ps.getLast? = some last)
    (hname : isName last = true) :
    disk.followWith again here ps = disk.followWith again here (ps.filter (!isIdle ·)) := by
  induction ps generalizing here with
  | nil => rfl
  | cons piece rest ih =>
    by_cases hrest : rest = []
    · subst hrest
      rw [List.getLast?_singleton, Option.some.injEq] at hlast
      simp [hlast, isIdle_of_isName hname]
    · rw [List.getLast?_cons_of_ne_nil hrest] at hlast
      cases hidle : isIdle piece with
      | true =>
        rw [followWith, if_pos hidle, ih hlast]
        simp [hidle]
      | false =>
        have hfilter : (piece :: rest).filter (!isIdle ·) =
            piece :: rest.filter (!isIdle ·) := by simp [hidle]
        have hfront := getLast?_filter_of_isName hlast hname
        have hleft : (rest.filter (!isIdle ·)).isEmpty = rest.isEmpty := by
          rw [Bool.eq_iff_iff, List.isEmpty_iff, List.isEmpty_iff]
          refine ⟨?_, fun hnil => absurd hnil hrest⟩
          intro hnil
          simp [hnil] at hfront
        have hlink : ∀ target, again (start here target) (pieces target ++ rest) =
            again (start here target) (pieces target ++ rest.filter (!isIdle ·)) := by
          intro target
          refine hagain _ _ _ last ?_ ?_ ?_ hname
          · simp
          · rw [List.getLast?_append, hlast]
            rfl
          · rw [List.getLast?_append, hfront]
            rfl
        rw [hfilter, followWith, followWith, hleft, ih hlast, ih hlast, ih hlast]
        simp only [hlink]

/-- Paths that end in the same name and have the same names on them lead to one place. -/
theorem follow_congr {links : Nat} {ps qs : List Bytes} {last : Bytes}
    (hfilter : ps.filter (!isIdle ·) = qs.filter (!isIdle ·)) (hps : ps.getLast? = some last)
    (hqs : qs.getLast? = some last) (hname : isName last = true) :
    disk.follow links here ps = disk.follow links here qs := by
  induction links generalizing here ps qs last with
  | zero =>
    rw [follow, followWith_filter (by simp) hps hname, hfilter,
      ← followWith_filter (by simp) hqs hname]
  | succ links ih =>
    have hagain : ∀ here ps qs last, ps.filter (!isIdle ·) = qs.filter (!isIdle ·) →
        ps.getLast? = some last → qs.getLast? = some last → isName last = true →
          disk.follow links here ps = disk.follow links here qs :=
      fun _ _ _ _ => ih
    rw [follow, followWith_filter hagain hps hname, hfilter,
      ← followWith_filter hagain hqs hname]

/-- A path in two spellings leads to one place. -/
theorem locate_eq_of_samePath {other : Bytes} {place : Location} (hsame : SamePath path other)
    (hpath : EndsInName path) (hother : EndsInName other)
    (hlocate : disk.locate path = .ok location) (hplace : disk.locate other = .ok place) :
    place = location := by
  obtain ⟨last, hlast, hname⟩ := hpath
  obtain ⟨last', hlast', hname'⟩ := hother
  have hnames := congrArg List.getLast? hsame.names
  rw [names_eq_of_getLast? hlast hname, names_eq_of_getLast? hlast' hname',
    List.getLast?_concat, List.getLast?_concat, Option.some.injEq] at hnames
  subst hnames
  rw [locate] at hlocate hplace
  split at hlocate
  · cases hlocate
  split at hplace
  · cases hplace
  have hstart : start disk.home other = start disk.home path := by
    rw [start, start, hsame.start]
  rw [hstart, follow_congr hsame.names hlast' hlast hname, hlocate] at hplace
  exact (Except.ok.inj hplace).symm

end Disk

/-! ## The path of the artifact -/

namespace Command

open Disk

variable {machine : Machine} {args : List Bytes} {request : Request}
  {options : Extract.Options} {notebook : Notebook} {artifact : Artifact} {input : Bytes}
  {format : ArtifactFormat} {location : Location}

/-- A path that is no text, and whose last name is that of an artifact without a
notebook's name. -/
def Clashes (input : Bytes) (format : ArtifactFormat) : Prop :=
  Text.ofUtf8? input = none ∧
    (pieces input).getLast? = some (Text.toUtf8 (Naming.fileName none format))

/-- The name made from a path is the last name on it only if the path is no text. -/
theorem getLast?_pieces_eq_iff :
    (pieces input).getLast? = some (Text.toUtf8 (Naming.fileName (Text.ofUtf8? input) format)) ↔
      Clashes input format := by
  cases hinput : Text.ofUtf8? input with
  | none =>
    rw [Clashes, hinput]
    simp
  | some path =>
    rw [Clashes, hinput]
    simp only [reduceCtorEq, false_and, iff_false]
    obtain rfl := Text.ofUtf8?_eq_some_iff.mp hinput
    intro hlast
    have hsplit : pieces (Text.toUtf8 path) = (path.splitOn '/').map Text.toUtf8 :=
      Text.splitOn_toUtf8 path
    rw [hsplit, List.getLast?_map, Option.map_eq_some_iff] at hlast
    obtain ⟨part, hpart, hname⟩ := hlast
    rw [Text.toUtf8_inj] at hname
    exact Naming.getLast?_splitOn_ne_fileName path format (hname ▸ hpart)

/-- What the path of the artifact is made of, beside a notebook that is read from a
path. -/
theorem targetPath_beside (hdash : request.input ≠ [dash]) (hname : EndsInName request.input)
    (hout : request.output = none)
    (hmakes : extract options (sourceName? request.input) notebook = .ok artifact) :
    ∃ last, (names request.input) = (names request.input).dropLast ++ [last] ∧
      names (targetPath request artifact) = (names request.input).dropLast ++
        [Text.toUtf8 (Naming.fileName (Text.ofUtf8? request.input) options.format)] ∧
      isAbsolute (targetPath request artifact) = isAbsolute request.input ∧
      (Clashes request.input options.format ↔
        last = Text.toUtf8 (Naming.fileName (Text.ofUtf8? request.input) options.format)) := by
  have hinput := isStandardInput_eq_false hname hdash
  have hsource : sourceName? request.input = Text.ofUtf8? request.input := by
    rw [sourceName?, hinput, if_neg Bool.false_ne_true]
  have hfile : artifact.fileName =
      Naming.fileName (Text.ofUtf8? request.input) options.format := by
    obtain ⟨r, -, rfl⟩ := extract_eq_ok_iff.mp hmakes
    rw [hsource]
  have htarget : targetPath request artifact = sibling request.input
      (Text.toUtf8 (Naming.fileName (Text.ofUtf8? request.input) options.format)) := by
    simp [targetPath, hout, hinput, hfile]
  obtain ⟨last, hlast, hisName⟩ := hname
  have hnames := names_eq_of_getLast? hlast hisName
  have hnonempty : names request.input ≠ [] := by
    rw [hnames]
    simp
  refine ⟨last, hnames, ?_, ?_, ?_⟩
  · rw [htarget, names_sibling _ Naming.slash_not_mem_fileName Naming.isIdle_fileName]
  · rw [htarget, isAbsolute_sibling Naming.slash_not_mem_fileName hnonempty]
  · rw [← getLast?_pieces_eq_iff, hlast, Option.some.injEq]

/-- Without an output path the artifact's path is the notebook's exactly where the two
clash, and else parts from it at the last name. -/
theorem samePath_iff_clashes (hdash : request.input ≠ [dash])
    (hname : EndsInName request.input) (hout : request.output = none)
    (hmakes : extract options (sourceName? request.input) notebook = .ok artifact) :
    (SamePath request.input (targetPath request artifact) ↔
      Clashes request.input options.format) ∧
    (¬ Clashes request.input options.format →
      PartAtLast request.input (targetPath request artifact)) := by
  obtain ⟨last, hnames, htarget, hstart, hclash⟩ :=
    targetPath_beside hdash hname hout hmakes
  refine ⟨⟨?_, ?_⟩, ?_⟩
  · intro hsame
    have hlast := congrArg List.getLast? hsame.names
    rw [htarget, hnames, List.getLast?_concat, List.getLast?_concat, Option.some.injEq] at hlast
    exact hclash.mpr hlast.symm
  · intro h
    refine ⟨hstart, ?_⟩
    rw [htarget, ← hclash.mp h, ← hnames]
  · intro h
    refine ⟨hstart, ?_, ?_⟩
    · rw [htarget, List.dropLast_concat]
    · rw [htarget, hnames, List.getLast?_concat, List.getLast?_concat]
      intro hsame
      exact h (hclash.mpr (Option.some.inj hsame).symm)

/-! ## The notebook after the run -/

/-- A run that ends well, with a notebook that it found in a file, and without a word on
where the artifact goes. -/
structure WritesBeside (machine : Machine) (args : List Bytes) (request : Request)
    (options : Extract.Options) (artifact : Artifact) (location : Location)
    (document : Bytes) : Prop where
  produces : ∃ notebook, Produces machine args request options notebook artifact
  given : request.input ≠ [dash]
  unnamed : request.output = none
  unasked : request.stdout = false
  found : machine.disk.locate request.input = .ok location
  file : machine.disk.get? location = some (.file document)
  done : (machine.run args).1.exitCode = 0

theorem WritesBeside.endsInName {document : Bytes}
    (h : WritesBeside machine args request options artifact location document) :
    EndsInName request.input :=
  endsInName_of_locate h.found (by simp [h.file])

/-- What the disk holds after a run that wrote its artifact: a file where the artifact's
path leads, or all that it held, where that is a stream. -/
theorem exists_locate_of_done (h : Produces machine args request options notebook artifact)
    (hstdout : request.stdout = false) (hdone : (machine.run args).1.exitCode = 0) :
    ∃ place, machine.disk.locate (targetPath request artifact) = .ok place ∧
      EndsInName (targetPath request artifact) ∧
      ((∀ other, (machine.run args).2.disk.get? other = if other = place
          then some (.file (Text.toUtf8 artifact.content)) else machine.disk.get? other) ∨
        (machine.run args).2.disk = machine.disk ∧
          ∃ stream, machine.disk.get? place = some (.stream stream)) := by
  rw [run_of_produces h, outcome_deliver_of_file hstdout, Machine.write] at hdone ⊢
  cases hsink : machine.disk.sink (targetPath request artifact) with
  | error why =>
    rw [hsink] at hdone
    cases hdone
  | ok sink =>
    cases sink with
    | file place =>
      obtain ⟨hlocate, hfolder, -⟩ := locate_of_sink_file hsink
      refine ⟨place, hlocate, endsInName_of_locate hlocate hfolder, Or.inl ?_⟩
      exact get?_put (isPrefixOf_home_eq_false hfolder) _
    | stream stream =>
      obtain ⟨place, hlocate, hreached⟩ := locate_of_sink_stream hsink
      have hfolder : machine.disk.get? place ≠ some .folder := by simp [hreached]
      refine ⟨place, hlocate, endsInName_of_locate hlocate hfolder, Or.inr ⟨?_, stream, hreached⟩⟩
      change (if stream.isOutput then machine.appear _ else machine).disk = machine.disk
      split <;> rfl

/-- A notebook whose path clashes with that of the artifact is gone after the run. -/
theorem WritesBeside.get?_of_clashes {document : Bytes}
    (h : WritesBeside machine args request options artifact location document)
    (hclash : Clashes request.input options.format) :
    (machine.run args).2.disk.get? location = some (.file (Text.toUtf8 artifact.content)) := by
  obtain ⟨notebook, hproduces⟩ := h.produces
  obtain ⟨place, hlocate, hends, hafter⟩ := exists_locate_of_done hproduces h.unasked h.done
  have hsame : SamePath request.input (targetPath request artifact) :=
    (samePath_iff_clashes h.given h.endsInName h.unnamed hproduces.makes).1.mpr hclash
  obtain rfl := locate_eq_of_samePath hsame h.endsInName hends h.found hlocate
  rcases hafter with hput | ⟨-, stream, hstream⟩
  · rw [hput, if_pos rfl]
  · -- it is a file, so no stream
    rw [h.file] at hstream
    cases hstream

/-- Else what the run changes is where another path leads, and without links this is
another place. -/
theorem WritesBeside.get?_of_not_clashes {document : Bytes}
    (h : WritesBeside machine args request options artifact location document)
    (hclash : ¬ Clashes request.input options.format)
    (hlinks : ∀ place target, machine.disk.get? place ≠ some (.link target)) :
    (machine.run args).2.disk.get? location = some (.file document) := by
  obtain ⟨notebook, hproduces⟩ := h.produces
  obtain ⟨place, hlocate, hends, hafter⟩ := exists_locate_of_done hproduces h.unasked h.done
  have hparts : PartAtLast request.input (targetPath request artifact) :=
    (samePath_iff_clashes h.given h.endsInName h.unnamed hproduces.makes).2 hclash
  rcases hafter with hput | ⟨hsame, -⟩
  · rw [hput, if_neg ?_, h.file]
    rintro rfl
    obtain ⟨last, hlast, hname⟩ := h.endsInName
    obtain ⟨last', hlast', hname'⟩ := hends
    have hplace := getLast?_of_locate hlinks hlast hname h.found
    rw [getLast?_of_locate hlinks hlast' hname' hlocate] at hplace
    apply hparts.last
    rw [names_eq_of_getLast? hlast hname, names_eq_of_getLast? hlast' hname',
      List.getLast?_concat, List.getLast?_concat, hplace]
  · rw [hsame, h.file]

/-- A byte that no text has. -/
def strayFolder : Bytes := [0xff]

/-- A path that is no text, to a notebook that is called as an artifact. -/
def strayPath : Bytes := strayFolder ++ named "/notebook_extracted.py"

/-- Where it leads. -/
def strayLocation : Location := [strayFolder, named "notebook_extracted.py"]

def strayMachine : Machine where
  disk := { entries := [([strayFolder], .folder),
    (strayLocation, .file (Text.toUtf8 Notebook.plainText))] }

def strayArtifact : Artifact := ⟨plainContent, "notebook_extracted.py".toList, 1⟩

theorem produces_stray : Produces strayMachine [strayPath] (bareRequest strayPath) {}
    plainNotebook strayArtifact := by
  have hlocate : strayMachine.disk.locate strayPath = .ok strayLocation := by decide +kernel
  have hsource : strayMachine.source strayPath = .ok (Text.toUtf8 Notebook.plainText) := by
    have hinput : isStandardInput strayPath = false := by decide +kernel
    rw [Machine.source, hinput, if_neg Bool.false_ne_true, Disk.read, hlocate]
    rfl
  exact ⟨by decide +kernel, by rfl, ⟨Notebook.plainText, hsource, ofText_plainText⟩,
    by decide +kernel⟩

/-- A path that is a text, to a notebook of the same name. -/
def earlierPath : Bytes := named "d/..//d/./notebook_extracted.py"

end Command

end NotebookExtract
