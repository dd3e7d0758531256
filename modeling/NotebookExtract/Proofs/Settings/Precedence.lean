import NotebookExtract.Command.Plan
import NotebookExtract.Proofs.Lists
import NotebookExtract.Proofs.Settings.Keys
import NotebookExtract.Proofs.Toml.Documents

/-!
# Which layer decides

Files and flags are added to a loader in any order, and each option is decided on its own: by
the last flag that pins it, else by the last file that sets it, else by the default. A file
that cannot be read spoils every result. What a file sets is what its text says: a written
document sets the values of its outline. The layers of a command line are one such sequence.
-/

namespace NotebookExtract

namespace Settings

/-! ## Steps -/

/-- What is added to a loader: a file by its text, unless it is absent, or a flag. -/
inductive LayerStep where
  | file (text? : Option Text)
  | flag (key : Text) (value : Tree)

/-- A loader after one more step; there is none if a flag's key is no path. -/
def Loader.take? (loader : Loader) : LayerStep → Option Loader
  | .file text? => some (loader.addFile text?)
  | .flag key value => loader.addFlag? key value

/-- The loader after steps over the defaults. -/
def Loader.after? (steps : List LayerStep) : Option Loader :=
  steps.foldlM Loader.take? {}

/-- What is built after steps over the defaults. -/
def outcome? (steps : List LayerStep) : Option (Except Failure Extract.Options) :=
  (Loader.after? steps).map Loader.build

namespace LayerStep

/-- What a file step adds to the files. -/
def file? : LayerStep → Option (Option Table)
  | .file text? => some (text?.bind Toml.parse?)
  | .flag _ _ => none

/-- The table of a file step, if the file can be read. -/
def table? (step : LayerStep) : Option Table := step.file?.join

/-- What a flag step adds to the flags. -/
def flag? : LayerStep → Option (Path × Tree)
  | .file _ => none
  | .flag key value => (Path.ofText? key).map fun path => (path, value)

/-- The value that a file gives a key. -/
def fileValue? (key : SettingKey) (step : LayerStep) : Option Tree :=
  step.table?.bind fun table => (Tree.table table).at? key.part key.name

/-- The value that a flag gives a key. -/
def flagValue? (key : SettingKey) : LayerStep → Option Tree
  | .file _ => none
  | .flag spelled value => if spelled = key.dotted then some value else none

/-- The value that a place with its value gives a key. -/
def pinned? (key : SettingKey) (flag : Path × Tree) : Option Tree :=
  if flag.1 = key.path then some flag.2 else none

/-- If the step is a flag, it pins a key to a value that fits. -/
def Pins : LayerStep → Prop
  | .file _ => True
  | .flag spelled value => ∃ key : SettingKey, spelled = key.dotted ∧ key.Fits value

end LayerStep

instance (step : LayerStep) : Decidable step.Pins :=
  match step with
  | .file _ => isTrue trivial
  | .flag spelled value =>
    inferInstanceAs (Decidable (∃ key : SettingKey, spelled = key.dotted ∧ key.Fits value))

/-- A file whose keys are plain, whose parts are tables and whose values fit. -/
structure FileFits (file : Table) : Prop where
  plain : (Tree.table file).HasPlainKeys
  parts : ∀ key : SettingKey, ∀ part ∈ file.lookup key.part, part.HasPlainKeys
  values : ∀ key : SettingKey, ∀ value ∈ (Tree.table file).at? key.part key.name, key.Fits value

instance (file : Table) : Decidable (FileFits file) :=
  decidable_of_iff
    ((Tree.table file).HasPlainKeys ∧
      (∀ key : SettingKey, ∀ part ∈ file.lookup key.part, part.HasPlainKeys) ∧
      ∀ key : SettingKey, ∀ value ∈ (Tree.table file).at? key.part key.name, key.Fits value)
    ⟨fun h => ⟨h.1, h.2.1, h.2.2⟩, fun h => ⟨h.plain, h.parts, h.values⟩⟩

/-- If the step is a file, it can be read and fits. -/
def LayerStep.Reads : LayerStep → Prop
  | .file text? => ∃ table ∈ text?.bind Toml.parse?, FileFits table
  | .flag _ _ => True

instance (step : LayerStep) : Decidable step.Reads :=
  match step with
  | .file text? => inferInstanceAs (Decidable (∃ table ∈ text?.bind Toml.parse?, FileFits table))
  | .flag _ _ => isTrue trivial

/-- The step adds a file with a document of that outline. -/
inductive LayerStep.Holds : LayerStep → Toml.Outline → Prop where
  | file {outline : Toml.Outline} {text : Text} (hdistinct : outline.Distinct)
      (hwritten : Toml.WrittenDocument outline.lines text) : Holds (.file (some text)) outline

/-- The value of a key after steps: of the last flag on it, else of the last file that sets it,
else the default. -/
def decided (steps : List LayerStep) (key : SettingKey) : Tree :=
  ((steps.reverse.findSome? (·.flagValue? key)).or
    (steps.reverse.findSome? (·.fileValue? key))).getD key.default

/-! ## Runs -/

/-- A loader after steps has what they add, in order. -/
theorem eq_of_foldlM_take? {steps : List LayerStep} {loader after : Loader}
    (h : steps.foldlM Loader.take? loader = some after) :
    after = { files := loader.files ++ steps.filterMap LayerStep.file?
              flags := loader.flags ++ steps.filterMap LayerStep.flag? } := by
  induction steps generalizing loader with
  | nil => simpa using (Option.some.inj h).symm
  | cons step rest ih =>
    rw [List.foldlM_cons] at h
    rcases Option.bind_eq_some_iff.mp h with ⟨next, htake, hrest⟩
    rw [ih hrest]
    cases step with
    | file text? =>
      have hnext : next = loader.addFile text? := (Option.some.inj htake).symm
      simp [hnext, Loader.addFile, List.filterMap_cons, LayerStep.file?, LayerStep.flag?]
    | flag spelled value =>
      rcases Option.map_eq_some_iff.mp htake with ⟨path, hpath, rfl⟩
      simp [List.filterMap_cons, LayerStep.file?, LayerStep.flag?, hpath]

/-- No flag on a key of the options is refused. -/
theorem isSome_foldlM_take? {steps : List LayerStep} (h : ∀ step ∈ steps, step.Pins)
    (loader : Loader) : (steps.foldlM Loader.take? loader).isSome = true := by
  induction steps generalizing loader with
  | nil => rfl
  | cons step rest ih =>
    have hrest : ∀ step ∈ rest, step.Pins :=
      fun step hstep => h step (List.mem_cons_of_mem _ hstep)
    rw [List.foldlM_cons]
    cases step with
    | file text? => exact ih hrest _
    | flag spelled value =>
      rcases h _ List.mem_cons_self with ⟨key, rfl, -⟩
      rw [Loader.take?, Loader.addFlag?, key.ofText?_dotted]
      exact ih hrest _

theorem eq_of_after? {steps : List LayerStep} {loader : Loader}
    (h : Loader.after? steps = some loader) :
    loader = ⟨steps.filterMap LayerStep.file?, steps.filterMap LayerStep.flag?⟩ :=
  eq_of_foldlM_take? h

theorem after?_eq {steps : List LayerStep} (h : ∀ step ∈ steps, step.Pins) :
    Loader.after? steps =
      some ⟨steps.filterMap LayerStep.file?, steps.filterMap LayerStep.flag?⟩ := by
  rcases Option.isSome_iff_exists.mp (isSome_foldlM_take? h {}) with ⟨loader, hloader⟩
  rw [Loader.after?, hloader, eq_of_after? hloader]

/-- Where every layer gives a place its own value or leaves it alone, the last layer that gives
one decides. -/
theorem at?_foldl {α : Type} {add : Tree → α → Tree} {value? : α → Option Tree}
    {part name : Text} {layers : List α}
    (h : ∀ layer ∈ layers, ∀ tree,
      (add tree layer).at? part name = (value? layer).or (tree.at? part name))
    (tree : Tree) :
    (layers.foldl add tree).at? part name =
      (layers.reverse.findSome? value?).or (tree.at? part name) := by
  induction layers generalizing tree with
  | nil => simp
  | cons layer rest ih =>
    have hrest : ∀ layer ∈ rest, ∀ tree,
        (add tree layer).at? part name = (value? layer).or (tree.at? part name) :=
      fun layer hlayer => h layer (List.mem_cons_of_mem _ hlayer)
    -- the search from the end comes to the first layer only after all others
    rw [List.foldl_cons, ih hrest, h layer List.mem_cons_self, List.reverse_cons,
      List.findSome?_append, Option.or_assoc]
    simp

/-- A file that fits gives each key the value it has for it, and leaves the other keys alone. -/
theorem at?_layer_of_fits {text : Text} {file : Table} (hparse : Toml.parse? text = some file)
    (hfits : FileFits file) (key : SettingKey) (tree : Tree) :
    (tree.layer file).at? key.part key.name =
      ((Tree.table file).at? key.part key.name).or (tree.at? key.part key.name) := by
  rcases Toml.nodup_keys_of_parse? hparse with ⟨hnodup, hbelow⟩
  have hparts : ∀ part ∈ file.lookup key.part,
      ∃ below, part = .table below ∧ Tree.IsPlainTable below := by
    intro part hpart
    rcases Tree.exists_of_hasPlainKeys (hfits.parts key part hpart) with ⟨below, rfl⟩
    exact ⟨below, rfl, hfits.parts key _ hpart, hbelow _ (Association.mem_of_lookup hpart)⟩
  rw [Tree.at?_layer ⟨hfits.plain, hnodup⟩ hparts]
  cases hvalue : (Tree.table file).at? key.part key.name with
  | none => rfl
  | some value => simp [SettingKey.onto_of_fits (hfits.values key value hvalue)]

/-- A flag gives its key its value, and leaves the other keys alone. -/
theorem at?_set_of_fits {pinned : SettingKey} {value : Tree} (hfits : pinned.Fits value)
    (key : SettingKey) (tree : Tree) :
    (pinned.path.set tree value).at? key.part key.name =
      (if pinned = key then some value else none).or (tree.at? key.part key.name) := by
  rw [SettingKey.path, Tree.at?_set, pinned.lower_name]
  by_cases hkey : pinned = key
  · simp [hkey, SettingKey.onto_of_fits (hkey ▸ hfits)]
  · have hne : ¬(key.part = pinned.part ∧ key.name = pinned.name) :=
      fun h => hkey (SettingKey.name_inj h.2).symm
    simp [hkey, hne]

/-- A key has the value of the last file that sets it. -/
theorem at?_foldl_layer {steps : List LayerStep} (h : ∀ step ∈ steps, step.Reads)
    (key : SettingKey) (tree : Tree) :
    ((steps.filterMap LayerStep.table?).foldl Tree.layer tree).at? key.part key.name =
      (steps.reverse.findSome? (·.fileValue? key)).or (tree.at? key.part key.name) := by
  have hlayers : ∀ file ∈ steps.filterMap LayerStep.table?, ∀ tree : Tree,
      (tree.layer file).at? key.part key.name =
        ((Tree.table file).at? key.part key.name).or (tree.at? key.part key.name) := by
    intro file hfile
    rcases List.mem_filterMap.mp hfile with ⟨step, hstep, htable⟩
    cases step with
    | flag spelled value => simp [LayerStep.table?, LayerStep.file?] at htable
    | file text? =>
      have hread : text?.bind Toml.parse? = some file := htable
      rcases h _ hstep with ⟨file', hfile', hfits⟩
      have hsame : file' = file := Option.some.inj (hfile'.symm.trans hread)
      rcases Option.bind_eq_some_iff.mp hread with ⟨text, -, hparse⟩
      exact at?_layer_of_fits hparse (hsame ▸ hfits) key
  rw [at?_foldl hlayers, ← List.filterMap_reverse,
    Lists.findSome?_filterMap (h := fun step => step.fileValue? key) fun _ _ => rfl]

/-- A key has the value of the last flag on it. -/
theorem at?_foldl_set {steps : List LayerStep} (h : ∀ step ∈ steps, step.Pins)
    (key : SettingKey) (tree : Tree) :
    ((steps.filterMap LayerStep.flag?).foldl (fun tree (path, value) => path.set tree value)
      tree).at? key.part key.name =
      (steps.reverse.findSome? (·.flagValue? key)).or (tree.at? key.part key.name) := by
  have hlayers : ∀ flag ∈ steps.filterMap LayerStep.flag?, ∀ tree : Tree,
      (flag.1.set tree flag.2).at? key.part key.name =
        (LayerStep.pinned? key flag).or (tree.at? key.part key.name) := by
    intro flag hflag tree
    rcases List.mem_filterMap.mp hflag with ⟨step, hstep, hpinned⟩
    cases step with
    | file text? => simp [LayerStep.flag?] at hpinned
    | flag spelled value =>
      rcases h _ hstep with ⟨pinned, rfl, hfits⟩
      have hflag : flag = (pinned.path, value) := by
        simpa [LayerStep.flag?, pinned.ofText?_dotted] using hpinned.symm
      rw [hflag, at?_set_of_fits hfits]
      simp only [LayerStep.pinned?, SettingKey.path_inj]
  -- the keys of the options are told apart by their spelling as well as by their places
  have hvalues : ∀ step ∈ steps.reverse,
      step.flag?.bind (LayerStep.pinned? key) = step.flagValue? key := by
    intro step hstep
    cases step with
    | file text? => rfl
    | flag spelled value =>
      rcases h _ (List.mem_reverse.mp hstep) with ⟨pinned, rfl, -⟩
      simp only [LayerStep.flag?, pinned.ofText?_dotted, Option.map_some, Option.bind_some,
        LayerStep.flagValue?, LayerStep.pinned?, SettingKey.path_inj, SettingKey.dotted_inj]
  rw [at?_foldl hlayers, ← List.filterMap_reverse, Lists.findSome?_filterMap hvalues]

/-! ## What files say -/

theorem LayerStep.Holds.table?_eq {step : LayerStep} {outline : Toml.Outline}
    (h : step.Holds outline) : step.table? = some outline.table := by
  cases h with
  | file hdistinct hwritten => exact Toml.parse?_of_writtenDocument hdistinct hwritten

/-- A file with a document gives a key the value that the outline gives it. -/
theorem LayerStep.Holds.fileValue?_eq {step : LayerStep} {outline : Toml.Outline}
    (h : step.Holds outline) (key : SettingKey) :
    step.fileValue? key = (Tree.table outline.table).at? key.part key.name := by
  rw [fileValue?, h.table?_eq, Option.bind_some]

theorem LayerStep.Holds.reads {step : LayerStep} {outline : Toml.Outline}
    (h : step.Holds outline) (hfits : FileFits outline.table) : step.Reads := by
  cases h with
  | file hdistinct hwritten =>
    exact ⟨outline.table, Toml.parse?_of_writtenDocument hdistinct hwritten, hfits⟩

/-! ## What is built -/

theorem LayerStep.fits_flagValue? {step : LayerStep} {key : SettingKey} {value : Tree}
    (hpins : step.Pins) (h : step.flagValue? key = some value) : key.Fits value := by
  cases step with
  | file text? => simp [flagValue?] at h
  | flag spelled pinnedTo =>
    rcases hpins with ⟨pinned, rfl, hfits⟩
    rw [flagValue?, Option.ite_none_right_eq_some, SettingKey.dotted_inj] at h
    rcases h with ⟨rfl, hvalue⟩
    cases hvalue
    exact hfits

theorem LayerStep.fits_fileValue? {step : LayerStep} {key : SettingKey} {value : Tree}
    (hreads : step.Reads) (h : step.fileValue? key = some value) : key.Fits value := by
  cases step with
  | flag spelled pinnedTo => simp [fileValue?, table?, file?] at h
  | file text? =>
    rcases hreads with ⟨file, hfile, hfits⟩
    have hread : text?.bind Toml.parse? = some file := hfile
    apply hfits.values
    simpa [fileValue?, table?, file?, hread] using h

/-- What is decided fits, since every value that is given does. -/
theorem fits_decided {steps : List LayerStep} (hpins : ∀ step ∈ steps, step.Pins)
    (hreads : ∀ step ∈ steps, step.Reads) (key : SettingKey) : key.Fits (decided steps key) := by
  rw [decided]
  cases hflag : steps.reverse.findSome? (·.flagValue? key) with
  | some value =>
    rcases List.exists_of_findSome?_eq_some hflag with ⟨step, hstep, hvalue⟩
    exact LayerStep.fits_flagValue? (hpins step (List.mem_reverse.mp hstep)) hvalue
  | none =>
    cases hfile : steps.reverse.findSome? (·.fileValue? key) with
    | some value =>
      rcases List.exists_of_findSome?_eq_some hfile with ⟨step, hstep, hvalue⟩
      exact LayerStep.fits_fileValue? (hreads step (List.mem_reverse.mp hstep)) hvalue
    | none => exact key.fits_default

theorem mapM_files {steps : List LayerStep} (h : ∀ step ∈ steps, step.Reads) :
    (steps.filterMap LayerStep.file?).mapM id = some (steps.filterMap LayerStep.table?) := by
  rw [Lists.mapM_eq_some_iff]
  constructor
  · intro table? hmem
    rcases List.mem_filterMap.mp hmem with ⟨step, hstep, hadded⟩
    cases step with
    | flag spelled value => simp [LayerStep.file?] at hadded
    | file text? =>
      rcases h _ hstep with ⟨table, htable, -⟩
      have hsome : table? = some table := (Option.some.inj hadded).symm.trans htable
      simp [hsome]
  · rw [List.filterMap_filterMap]
    rfl

/-- Steps that fit build the options in which every key has the value that is decided. -/
theorem exists_outcome?_of_reads {steps : List LayerStep} (hpins : ∀ step ∈ steps, step.Pins)
    (hreads : ∀ step ∈ steps, step.Reads) :
    ∃ options, outcome? steps = some (.ok options) ∧
      ∀ key, valueOf options key = decided steps key := by
  rcases exists_valueOf_eq (fits_decided hpins hreads) with ⟨options, hvalues⟩
  refine ⟨options, ?_, hvalues⟩
  rw [outcome?, after?_eq hpins, Option.map_some, Loader.build, Loader.merge?, mapM_files hreads]
  refine congrArg some (toOptions_of_at? ?_)
  intro key
  rw [at?_foldl_set hpins, at?_foldl_layer hreads, key.at?_defaults, hvalues, decided,
    ← Option.or_assoc, Option.or_some]

/-- A file that cannot be read spoils the result, whatever else is added. -/
theorem outcome?_of_badFile {steps : List LayerStep} {text? : Option Text}
    (hfile : .file text? ∈ steps) (hbad : text?.bind Toml.parse? = none) :
    outcome? steps = (Loader.after? steps).map fun _ => .error .badFile := by
  have hmem : none ∈ steps.filterMap LayerStep.file? :=
    List.mem_filterMap.mpr ⟨_, hfile, congrArg some hbad⟩
  have hfiles : (steps.filterMap LayerStep.file?).mapM id = none := by
    rw [Option.eq_none_iff_forall_ne_some]
    intro tables htables
    have hread := (Lists.mapM_eq_some_iff.mp htables).1 none hmem
    simp at hread
  rw [outcome?]
  cases hafter : Loader.after? steps with
  | none => rfl
  | some loader =>
    rw [eq_of_after? hafter, Option.map_some, Loader.build, Loader.merge?, hfiles]
    rfl

end Settings

/-! ## The layers of a command line -/

namespace Command

open Settings

/-- What a request adds to the defaults: its setting file, if it names one, and then its
flags. -/
def requestSteps (request : Request) (file : Option Text) : List LayerStep :=
  (if request.config.isSome then [.file file] else []) ++
    (requestFlags request).map fun flag => .flag flag.1 flag.2

theorem pins_requestFlags {request : Request} {flag : Text × Tree}
    (h : flag ∈ requestFlags request) : (LayerStep.flag flag.1 flag.2).Pins := by
  simp only [requestFlags, List.mem_append, List.mem_ite_nil_right, List.mem_singleton] at h
  rcases h with (((hformat | ⟨-, rfl⟩) | ⟨-, rfl⟩) | ⟨-, rfl⟩) | ⟨-, rfl⟩
  · cases hasked : request.format with
    | none => simp [hasked] at hformat
    | some format =>
      have hflag : flag = ("output.format".toList, .text format.name) := by
        simpa [hasked] using hformat
      exact hflag ▸ ⟨.format, rfl, format, rfl⟩
  · exact ⟨.keepOnlyCode, rfl, true, rfl⟩
  · exact ⟨.stripComments, rfl, false, rfl⟩
  · exact ⟨.lineComments, rfl, false, rfl⟩
  · exact ⟨.blockStrings, rfl, false, rfl⟩

theorem pins_requestSteps {request : Request} {file : Option Text} {step : LayerStep}
    (h : step ∈ requestSteps request file) : step.Pins := by
  rcases List.mem_append.mp h with hfile | hflag
  · rcases List.mem_ite_nil_right.mp hfile with ⟨-, hstep⟩
    rw [List.mem_singleton.mp hstep]
    exact trivial
  · rcases List.mem_map.mp hflag with ⟨flag, hmem, rfl⟩
    exact pins_requestFlags hmem

/-- No flag of a request is passed over, so adding them is taking steps. -/
theorem foldlM_flags {flags : List (Text × Tree)}
    (h : ∀ flag ∈ flags, (LayerStep.flag flag.1 flag.2).Pins) (loader : Loader) :
    (flags.map fun flag => LayerStep.flag flag.1 flag.2).foldlM Loader.take? loader =
      some (addFlags loader flags) := by
  induction flags generalizing loader with
  | nil => rfl
  | cons flag rest ih =>
    rcases h flag List.mem_cons_self with ⟨key, hspelled, -⟩
    have hadded : loader.addFlag? flag.1 flag.2 =
        some { loader with flags := loader.flags ++ [(key.path, flag.2)] } := by
      rw [Loader.addFlag?, hspelled, key.ofText?_dotted, Option.map_some]
    have hadd : addFlags loader (flag :: rest) =
        addFlags ((loader.addFlag? flag.1 flag.2).getD loader) rest := rfl
    rw [List.map_cons, List.foldlM_cons, hadd, Loader.take?, hadded]
    exact ih (fun other hother => h other (List.mem_cons_of_mem _ hother)) _

theorem after?_requestSteps (request : Request) (file : Option Text) :
    Loader.after? (requestSteps request file) = some (requestLoader request file) := by
  have hpins : ∀ flag ∈ requestFlags request, (LayerStep.flag flag.1 flag.2).Pins :=
    fun flag hflag => pins_requestFlags hflag
  rw [Loader.after?, requestSteps, List.foldlM_append, requestLoader]
  by_cases hconfig : request.config.isSome
  · rw [if_pos hconfig, if_pos hconfig]
    exact foldlM_flags hpins _
  · rw [if_neg hconfig, if_neg hconfig]
    exact foldlM_flags hpins _

end Command

namespace Settings

/-! ## The last layer decides -/

theorem forall_mem_insert {P : LayerStep → Prop} {front back : List LayerStep} {step : LayerStep}
    (hstep : P step) (hothers : ∀ other ∈ front ++ back, P other) :
    ∀ other ∈ front ++ step :: back, P other := by
  intro other hother
  rcases List.mem_append.mp hother with hfront | hback
  · exact hothers other (List.mem_append_left _ hfront)
  · rcases List.mem_cons.mp hback with rfl | hback
    · exact hstep
    · exact hothers other (List.mem_append_right _ hback)

/-- A step that gives a key no value may come anywhere between the others. -/
theorem decided_insert {step : LayerStep} {key : SettingKey} (hflag : step.flagValue? key = none)
    (hfile : step.fileValue? key = none) (front back : List LayerStep) :
    decided (front ++ step :: back) key = decided (front ++ back) key := by
  simp [decided, hflag, hfile, List.findSome?_append]

/-- What a file sets that keeps only the code. -/
def codeOutline : Toml.Outline where
  parts := [.entry "title".toList (.int 1)]
  tables := [(extractKey,
    [("keep_only_code".toList, .bool true), ("block_strings".toList, .bool true)])]

/-- The file, with a comment, an empty line and no end of its last line. -/
def codeText : Text :=
  "title = 1\r\n[extract] # cells\nkeep_only_code = true\n\n\tblock_strings=true".toList

theorem holds_codeText : (LayerStep.file (some codeText)).Holds codeOutline := by
  have hnone : Toml.IsBlanks [] := rfl
  have hblank : Toml.IsBlanks [' '] := rfl
  have htab : Toml.IsBlanks ['\t'] := rfl
  have htitle : Toml.WrittenLine (.entry [] "title".toList (.int 1)) "title = 1".toList := by
    have hkey : Toml.WrittenKey ([] ++ ["title".toList]) "title ".toList :=
      .last hnone ⟨by decide, by decide⟩ hblank
    have hdigits : Toml.IsWhole ['1'] := ⟨by decide, by decide, by simp⟩
    exact .entry hkey (by decide) hblank
      (.scalar (.integer .absent hdigits (by decide) (by decide))) hnone .absent
  have hheader : Toml.WrittenLine (.header [] extractKey) "[extract] # cells".toList := by
    have hkey : Toml.WrittenKey ([] ++ [extractKey]) extractKey :=
      .last hnone ⟨by decide, by decide⟩ hnone
    have hremark : Toml.WrittenRemark "# cells".toList := .present (by decide)
    exact .header hnone hkey (by decide) hblank hremark
  have hcode : Toml.WrittenLine (.entry [] "keep_only_code".toList (.bool true))
      "keep_only_code = true".toList := by
    have hkey : Toml.WrittenKey ([] ++ ["keep_only_code".toList]) "keep_only_code ".toList :=
      .last hnone ⟨by decide, by decide⟩ hblank
    exact .entry hkey (by decide) hblank (.scalar .isTrue) hnone .absent
  have hlast : Toml.WrittenLast [.entry [] "block_strings".toList (.bool true)]
      "\tblock_strings=true".toList := by
    have hkey : Toml.WrittenKey ([] ++ ["block_strings".toList]) "\tblock_strings".toList :=
      .last htab ⟨by decide, by decide⟩ hnone
    exact .line (.entry hkey (by decide) hnone (.scalar .isTrue) hnone .absent)
  have hempty : Toml.WrittenLines "\tblock_strings=true".toList []
      "\n\tblock_strings=true".toList := .remark hnone .absent .short .rest
  have hlines := Toml.WrittenLines.cons htitle .long (.cons hheader .short (.cons hcode .short
    hempty))
  have hdocument := Toml.WrittenDocument.mk .absent hlines hlast
  refine .file ⟨by decide, by simp [codeOutline, Toml.Part.Distinct], by decide⟩ ?_
  convert hdocument using 1
  · rfl
  · decide +kernel

/-- Each file says something that another step says otherwise, and something that no flag
speaks of. -/
def mixedSteps : List LayerStep := [
  .flag "extract.block_strings".toList (.bool false),
  .file (some "output = \x7b format = 'python', theme = \"dark\" \x7d".toList),
  .file (some codeText),
  .flag "extract.strip_comments".toList (.bool true),
  .file (some "output.format = \"markdown\" # at last\n".toList),
  .flag "extract.strip_comments".toList (.bool false)]

end Settings

end NotebookExtract
