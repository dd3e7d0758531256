import NotebookExtract.Proofs.Settings.Merging
import NotebookExtract.Settings.Loader

/-!
# The keys of the options

The options are read from five keys of a setting tree. A tree that has a value of its kind at
each of them spells the options with these values, whatever else it holds.
-/

namespace NotebookExtract.Settings

/-- The keys that the options are read from. -/
inductive SettingKey where
  | keepOnlyCode
  | stripComments
  | lineComments
  | blockStrings
  | format
deriving DecidableEq, Repr

namespace SettingKey

/-- The part of the tree that holds the key. -/
def part : SettingKey → Text
  | .keepOnlyCode | .stripComments | .lineComments | .blockStrings => extractKey
  | .format => outputKey

/-- The key in its part. -/
def name : SettingKey → Text
  | .keepOnlyCode => "keep_only_code".toList
  | .stripComments => "strip_comments".toList
  | .lineComments => "line_comments".toList
  | .blockStrings => "block_strings".toList
  | .format => formatKey

/-- The key as a flag spells it. -/
def dotted (key : SettingKey) : Text := key.part ++ '.' :: key.name

/-- The place of the key in a tree. -/
def path (key : SettingKey) : Path := ⟨key.part, [.key key.name]⟩

/-- The values that the key may have. -/
def Fits : SettingKey → Tree → Prop
  | .keepOnlyCode, value | .stripComments, value | .lineComments, value
  | .blockStrings, value => ∃ b, value = .bool b
  | .format, value => ∃ format : ArtifactFormat, value = .text format.name

instance (value : Tree) : Decidable (∃ b, value = .bool b) :=
  match value with
  | .bool b => isTrue ⟨b, rfl⟩
  | .missing | .int _ | .real _ | .text _ | .date _ | .list _ | .table _ => isFalse (by simp)

instance (value : Tree) : Decidable (∃ format : ArtifactFormat, value = .text format.name) :=
  match value with
  | .text t => decidable_of_iff (∃ format ∈ [ArtifactFormat.python, .markdown], t = format.name) (by
      constructor
      · rintro ⟨format, -, rfl⟩
        exact ⟨format, rfl⟩
      · rintro ⟨format, hname⟩
        exact ⟨format, by cases format <;> simp, Tree.text.inj hname⟩)
  | .missing | .int _ | .real _ | .bool _ | .date _ | .list _ | .table _ => isFalse (by simp)

instance (key : SettingKey) (value : Tree) : Decidable (key.Fits value) :=
  match key with
  | .keepOnlyCode | .stripComments | .lineComments | .blockStrings =>
    inferInstanceAs (Decidable (∃ b, value = .bool b))
  | .format => inferInstanceAs (Decidable (∃ format : ArtifactFormat, value = .text format.name))

/-- All keys. -/
def all : List SettingKey :=
  [.keepOnlyCode, .stripComments, .lineComments, .blockStrings, .format]

theorem mem_all (key : SettingKey) : key ∈ all := by
  cases key <;> decide

instance (P : SettingKey → Prop) [DecidablePred P] : Decidable (∀ key, P key) :=
  decidable_of_iff (∀ key ∈ all, P key) ⟨fun h key => h key key.mem_all, fun h key _ => h key⟩

instance (P : SettingKey → Prop) [DecidablePred P] : Decidable (∃ key, P key) :=
  decidable_of_iff (∃ key ∈ all, P key)
    ⟨fun ⟨key, _, h⟩ => ⟨key, h⟩, fun ⟨key, h⟩ => ⟨key, key.mem_all, h⟩⟩

/-- The value of the key when nobody sets it. -/
def default : SettingKey → Tree
  | .keepOnlyCode => .bool false
  | .stripComments | .lineComments | .blockStrings => .bool true
  | .format => .text "python".toList

theorem ofText?_dotted (key : SettingKey) :
    Path.ofText? key.dotted = some key.path := by
  cases key <;> decide +kernel

theorem at?_defaults (key : SettingKey) : defaults.at? key.part key.name = some key.default := by
  cases key <;> rfl

theorem name_inj {key other : SettingKey} (h : key.name = other.name) : key = other := by
  cases key <;> cases other <;> first | rfl | exact absurd h (by decide +kernel)

theorem path_inj {key other : SettingKey} : key.path = other.path ↔ key = other := by
  constructor
  · intro h
    apply name_inj
    simpa [path] using congrArg Path.steps h
  · exact congrArg path

theorem dotted_inj {key other : SettingKey} : key.dotted = other.dotted ↔ key = other := by
  constructor
  · intro h
    have hpath : some key.path = some other.path := by
      rw [← ofText?_dotted, ← ofText?_dotted, h]
    exact path_inj.mp (Option.some.inj hpath)
  · exact congrArg dotted

theorem lower_name (key : SettingKey) : lower key.name = key.name := by
  cases key <;> decide +kernel

/-- A value that fits is no table, so it replaces whatever is there. -/
theorem onto_of_fits {key : SettingKey} {value : Tree} (h : key.Fits value)
    (old? : Option Tree) : value.onto old? = value := by
  cases key <;> rcases h with ⟨_, rfl⟩ <;> rfl

theorem fits_default (key : SettingKey) : key.Fits key.default := by
  cases key with
  | format => exact ⟨.python, rfl⟩
  | _ => exact ⟨_, rfl⟩

end SettingKey

/-- The value that options give a key. -/
def valueOf (options : Extract.Options) : SettingKey → Tree
  | .keepOnlyCode => .bool options.reduce.keepOnlyCode
  | .stripComments => .bool options.reduce.stripComments
  | .lineComments => .bool options.reduce.scan.lineComments
  | .blockStrings => .bool options.reduce.scan.blockStrings
  | .format => .text options.format.name

/-! ## From a tree to options -/

theorem exists_table_of_at? {tree value : Tree} {part name : Text}
    (h : tree.at? part name = some value) :
    ∃ entries, tree.entries.lookup part = some (.table entries) := by
  rcases Option.bind_eq_some_iff.mp h with ⟨inner, hinner, hvalue⟩
  cases inner with
  | table entries => exact ⟨entries, hinner⟩
  | _ => simp [Tree.entries] at hvalue

theorem lookup_of_at? {tree : Tree} {part : Text} {entries : Table}
    (h : tree.entries.lookup part = some (.table entries)) (name : Text) :
    entries.lookup name = tree.at? part name := by
  simp [Tree.at?, h]

theorem reduceOptions?_of_at? {tree : Tree} {options : Extract.Options} {kept : Table}
    (h : ∀ key : SettingKey, tree.at? key.part key.name = some (valueOf options key))
    (hpart : tree.entries.lookup extractKey = some (.table kept)) :
    reduceOptions? (.table kept) = some options.reduce := by
  have hkeep : kept.lookup "keep_only_code".toList = some (.bool options.reduce.keepOnlyCode) :=
    (lookup_of_at? hpart _).trans (h .keepOnlyCode)
  have hstrip : kept.lookup "strip_comments".toList = some (.bool options.reduce.stripComments) :=
    (lookup_of_at? hpart _).trans (h .stripComments)
  have hline : kept.lookup "line_comments".toList =
      some (.bool options.reduce.scan.lineComments) :=
    (lookup_of_at? hpart _).trans (h .lineComments)
  have hblock : kept.lookup "block_strings".toList =
      some (.bool options.reduce.scan.blockStrings) :=
    (lookup_of_at? hpart _).trans (h .blockStrings)
  simp only [reduceOptions?, Tree.fields?, extractKeys, List.mapM_cons, List.mapM_nil, hkeep,
    hstrip, hline, hblock, Tree.toBool?, Option.pure_def, Option.bind_eq_bind, Option.bind_some]

theorem artifactFormat?_of_at? {tree : Tree} {options : Extract.Options} {shown : Table}
    (h : ∀ key : SettingKey, tree.at? key.part key.name = some (valueOf options key))
    (hpart : tree.entries.lookup outputKey = some (.table shown)) :
    artifactFormat? (.table shown) = some options.format := by
  have hformat : shown.lookup formatKey = some (.text options.format.name) :=
    (lookup_of_at? hpart _).trans (h .format)
  have hname : ArtifactFormat.ofName? (lower options.format.name) = some options.format := by
    cases options.format <;> decide +kernel
  simp only [artifactFormat?, Tree.fields?, List.mapM_cons, List.mapM_nil, hformat,
    Tree.toFormat?, Option.pure_def, Option.bind_eq_bind, Option.bind_some, hname]

/-- A tree that has the values of some options at their keys spells these options. -/
theorem toOptions_of_at? {tree : Tree} {options : Extract.Options}
    (h : ∀ key : SettingKey, tree.at? key.part key.name = some (valueOf options key)) :
    tree.toOptions = .ok options := by
  rcases exists_table_of_at? (h .keepOnlyCode) with ⟨kept, hextract⟩
  rcases exists_table_of_at? (h .format) with ⟨shown, houtput⟩
  have hreduce : (tree.entries.lookup extractKey).bind reduceOptions? = some options.reduce :=
    (congrArg (·.bind reduceOptions?) hextract).trans (reduceOptions?_of_at? h hextract)
  have hformat : (tree.entries.lookup outputKey).bind artifactFormat? = some options.format :=
    (congrArg (·.bind artifactFormat?) houtput).trans (artifactFormat?_of_at? h houtput)
  rw [Tree.toOptions, hreduce, hformat]

/-- Fitting values are the values of some options. -/
theorem exists_valueOf_eq {value : SettingKey → Tree}
    (h : ∀ key : SettingKey, key.Fits (value key)) :
    ∃ options, ∀ key, valueOf options key = value key := by
  rcases h .keepOnlyCode with ⟨keep, hkeep⟩
  rcases h .stripComments with ⟨strip, hstrip⟩
  rcases h .lineComments with ⟨line, hline⟩
  rcases h .blockStrings with ⟨block, hblock⟩
  rcases h .format with ⟨format, hformat⟩
  refine ⟨⟨⟨keep, strip, ⟨line, block⟩⟩, format⟩, ?_⟩
  intro key
  cases key with
  | keepOnlyCode => exact hkeep.symm
  | stripComments => exact hstrip.symm
  | lineComments => exact hline.symm
  | blockStrings => exact hblock.symm
  | format => exact hformat.symm

end NotebookExtract.Settings
