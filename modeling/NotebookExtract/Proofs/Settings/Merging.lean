import Mathlib.Data.List.TakeWhile
import NotebookExtract.Proofs.Text
import NotebookExtract.Settings.Path

/-!
# What merging keeps

Settings are read two keys deep: a part of the tree, then a name in it. Laying a table of plain
keys over a tree gives each key of the table its value merged over what was there, and all
other keys keep theirs; setting through a path of two keys changes one place and no other.
-/

namespace NotebookExtract.Settings

/-! ## Plain keys -/

/-- The characters of a plain key. -/
def isPlainKeyChar (c : Char) : Bool :=
  c.isLower || c.isDigit || c == '_' || c == '-'

/-- A key of lower-case letters, digits, underscores and dashes only. -/
def IsPlainKey (key : Text) : Prop :=
  ∀ c ∈ key, isPlainKeyChar c = true

instance (key : Text) : Decidable (IsPlainKey key) :=
  decidable_of_iff (key.all isPlainKeyChar = true) List.all_eq_true

theorem isKeyChar_of_isPlainKeyChar {c : Char} (h : isPlainKeyChar c = true) :
    Path.isKeyChar c = true := by
  have halphanum : c.isAlphanum = (c.isUpper || c.isLower || c.isDigit) := rfl
  simp only [isPlainKeyChar, Bool.or_eq_true] at h
  rcases h with ((hlower | hdigit) | hline) | hdash
  · simp [Path.isKeyChar, halphanum, hlower]
  · simp [Path.isKeyChar, halphanum, hdigit]
  · simp [Path.isKeyChar, hline]
  · simp [Path.isKeyChar, hdash]

theorem not_isUpper_of_isPlainKeyChar {c : Char} (h : isPlainKeyChar c = true) :
    ¬c.isUpper = true := by
  intro hupper
  rw [Text.isUpper_iff] at hupper
  simp only [isPlainKeyChar, Bool.or_eq_true, Text.isLower_iff, beq_iff_eq] at h
  rcases h with ((hlower | hdigit) | rfl) | rfl
  · simp [UInt32.le_iff_toNat_le] at hupper hlower
    omega
  · simp [Char.isDigit, UInt32.le_iff_toNat_le] at hupper hdigit
    omega
  · exact absurd hupper (by decide)
  · exact absurd hupper (by decide)

theorem lowerChar_of_isPlainKeyChar {c : Char} (h : isPlainKeyChar c = true) :
    lowerChar c = c := by
  have hkelvin : c ≠ '\u212a' := by
    rintro rfl
    exact absurd h (by decide)
  rw [lowerChar, if_neg hkelvin]
  rcases Text.toLower_eq_or c with hsame | ⟨hupper, -⟩
  · exact hsame
  · exact absurd hupper (not_isUpper_of_isPlainKeyChar h)

theorem lower_of_isPlainKey {key : Text} (h : IsPlainKey key) : lower key = key := by
  have hchars : key.map lowerChar = key.map id :=
    List.map_congr_left fun c hc => lowerChar_of_isPlainKeyChar (h c hc)
  rw [lower, hchars, List.map_id]

/-- A plain key that is not empty is a path of one step. -/
theorem ofText?_of_isPlainKey {key : Text} (h : IsPlainKey key) (hne : key ≠ []) :
    Path.ofText? key = some ⟨key, []⟩ := by
  have hall : ∀ c ∈ key, Path.isKeyChar c = true :=
    fun c hc => isKeyChar_of_isPlainKeyChar (h c hc)
  have htaken : Path.takeKey? key = some (key, []) := by
    rw [Path.takeKey?, List.takeWhile_eq_self_iff.mpr hall, List.dropWhile_eq_nil_iff.mpr hall]
    cases key with
    | nil => exact absurd rfl hne
    | cons c rest => rfl
  simp [Path.ofText?, htaken, Path.steps?, lower_of_isPlainKey h]

namespace Tree

/-! ## Setting keys -/

@[simp] theorem entries_table (below : Table) : (Tree.table below).entries = below := rfl

/-- What a value becomes when it is set where `old?` is: a table is merged into it, and
anything else replaces it. -/
def onto (old? : Option Tree) : Tree → Tree
  | .table entries => (old?.getD (.table [])).setAll entries
  | value => value

theorem lookup_setKey (root : Tree) (key : Text) (value : Tree) (k : Text) :
    (root.setKey key value).entries.lookup k =
      if k == lower key then some (onto (root.entries.lookup (lower key)) value)
      else root.entries.lookup k := by
  cases value <;> simp only [setKey, entries_table, onto, Association.lookup_put]

/-- The tree is a table whose keys are plain. -/
def HasPlainKeys : Tree → Prop
  | .table entries => ∀ entry ∈ entries, IsPlainKey entry.1
  | .missing | .bool _ | .int _ | .real _ | .text _ | .date _ | .list _ => False

instance (tree : Tree) : Decidable tree.HasPlainKeys :=
  match tree with
  | .table entries => inferInstanceAs (Decidable (∀ entry ∈ entries, IsPlainKey entry.1))
  | .missing | .bool _ | .int _ | .real _ | .text _ | .date _ | .list _ => isFalse id

theorem exists_of_hasPlainKeys {tree : Tree} (h : tree.HasPlainKeys) :
    ∃ below, tree = .table below := by
  cases tree with
  | table below => exact ⟨below, rfl⟩
  | _ => exact False.elim h

/-- The keys of a table are plain, and none stands twice. -/
structure IsPlainTable (entries : Table) : Prop where
  plain : (Tree.table entries).HasPlainKeys
  nodup : (entries.map Prod.fst).Nodup

theorem IsPlainTable.of_cons {entry : Text × Tree} {rest : Table}
    (h : IsPlainTable (entry :: rest)) : IsPlainTable rest := by
  constructor
  · intro other hother
    exact h.plain other (List.mem_cons_of_mem _ hother)
  · exact (List.nodup_cons.mp h.nodup).2

/-- Setting the keys of a table merges each value over what is there. -/
theorem lookup_setAll {entries : Table} (h : IsPlainTable entries) (root : Tree) (k : Text) :
    (root.setAll entries).entries.lookup k =
      ((entries.lookup k).map (onto (root.entries.lookup k))).or (root.entries.lookup k) := by
  induction entries generalizing root with
  | nil => simp [setAll]
  | cons entry rest ih =>
    rcases entry with ⟨key, value⟩
    have hlower : lower key = key := lower_of_isPlainKey (h.plain _ List.mem_cons_self)
    rw [setAll, ih h.of_cons, lookup_setKey, hlower, List.lookup_cons]
    by_cases hk : k = key
    · -- the key does not come again, so its value is not merged a second time
      subst hk
      have hnotMem : k ∉ rest.map Prod.fst := (List.nodup_cons.mp h.nodup).1
      have hrest : rest.lookup k = none := by
        rw [List.lookup_eq_none_iff]
        intro other hother
        have hne : k ≠ other.1 := fun heq => hnotMem (heq ▸ List.mem_map_of_mem hother)
        simpa using hne
      simp [hrest]
    · have hbeq : (k == key) = false := by simpa using hk
      simp [hbeq]

/-- A plain key at the top of a file is a key and no longer path. -/
theorem setTop_of_isPlainKey {key : Text} (h : IsPlainKey key) (root value : Tree) :
    root.setTop key value = root.setKey key value := by
  cases key with
  | nil => rfl
  | cons c rest =>
    rw [setTop, ofText?_of_isPlainKey h (List.cons_ne_nil c rest)]
    rfl

theorem layer_eq_setAll {file : Table} (h : (Tree.table file).HasPlainKeys) (root : Tree) :
    root.layer file = root.setAll file := by
  induction file generalizing root with
  | nil => rfl
  | cons entry rest ih =>
    rcases entry with ⟨key, value⟩
    have hkey : IsPlainKey key := h _ List.mem_cons_self
    have hrest : (Tree.table rest).HasPlainKeys :=
      fun entry hentry => h entry (List.mem_cons_of_mem _ hentry)
    rw [setAll, ← setTop_of_isPlainKey hkey, ← ih hrest]
    rfl

/-! ## Two keys deep -/

/-- The tree under a name in a part of a tree. -/
def at? (tree : Tree) (part name : Text) : Option Tree :=
  (tree.entries.lookup part).bind fun inner => inner.entries.lookup name

/-- Laying a file over a tree merges the value at each place over what is there, and a place
that the file does not name keeps what it has. -/
theorem at?_layer {file : Table} {part : Text} (hfile : IsPlainTable file)
    (hpart : ∀ inner ∈ file.lookup part, ∃ below, inner = .table below ∧ IsPlainTable below)
    (root : Tree) (name : Text) :
    (root.layer file).at? part name =
      (((Tree.table file).at? part name).map (onto (root.at? part name))).or
        (root.at? part name) := by
  have hlayer : (root.layer file).entries.lookup part =
      ((file.lookup part).map (onto (root.entries.lookup part))).or
        (root.entries.lookup part) := by
    rw [layer_eq_setAll hfile.plain, lookup_setAll hfile]
  cases hinner : file.lookup part with
  | none => simp [at?, hlayer, hinner]
  | some inner =>
    rcases hpart inner hinner with ⟨below, rfl, hbelow⟩
    have hold : ((root.entries.lookup part).getD (.table [])).entries.lookup name =
        root.at? part name := by
      rw [at?]
      cases root.entries.lookup part <;> rfl
    have hnew : (Tree.table file).at? part name = below.lookup name := by
      simp [at?, hinner]
    rw [hnew, at?, hlayer, hinner, Option.map_some, Option.some_or, Option.bind_some, onto,
      lookup_setAll hbelow, hold]

/-- Setting through a path of two keys changes the place that it names and no other. -/
theorem at?_set (root : Tree) (part name : Text) (value : Tree) (p n : Text) :
    (Path.set root ⟨part, [.key name]⟩ value).at? p n =
      if p = part ∧ n = lower name then some (onto (root.at? part (lower name)) value)
      else root.at? p n := by
  have hold : ∀ k, ((root.entries.lookup part).getD .missing).entries.lookup k =
      root.at? part k := by
    intro k
    rw [at?]
    cases root.entries.lookup part <;> rfl
  have hset : Path.set root ⟨part, [.key name]⟩ value =
      .table (Association.put root.entries part
        (((root.entries.lookup part).getD .missing).setKey name value)) := rfl
  rw [hset, at?, entries_table, Association.lookup_put]
  by_cases hp : p = part
  · by_cases hn : n = lower name
    · simp [hp, hn, lookup_setKey, hold]
    · simp [hp, hn, lookup_setKey, hold]
  · simp [hp, at?]

end Tree

end NotebookExtract.Settings
