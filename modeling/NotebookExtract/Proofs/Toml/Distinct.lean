import NotebookExtract.Toml.Document

/-!
# No key twice

A TOML document gives a key of a table one value. The builder of a document refuses
whatever would give it a second one, and entries are put into tables under their keys, so
no table has a key twice, whichever way it came to be: by its header, as the parent of
another table, by dotted keys or in braces.
-/

namespace NotebookExtract

namespace Association

variable {κ α : Type} [BEq κ] [LawfulBEq κ] {entries : List (κ × α)} {key k : κ} {value : α}

theorem mem_of_lookup (h : entries.lookup key = some value) : (key, value) ∈ entries := by
  rcases List.lookup_eq_some_iff.mp h with ⟨front, rest, rfl, -⟩
  simp

theorem eq_or_mem_of_mem_put {entry : κ × α} (h : entry ∈ put entries key value) :
    entry = (key, value) ∨ entry ∈ entries := by
  induction entries with
  | nil => exact Or.inl (List.mem_singleton.mp h)
  | cons first rest ih =>
    rcases first with ⟨k, v⟩
    by_cases hk : k = key
    · have hput : put ((k, v) :: rest) key value = (key, value) :: rest := by simp [put, hk]
      rw [hput] at h
      rcases List.mem_cons.mp h with hhere | hlater
      · exact Or.inl hhere
      · exact Or.inr (List.mem_cons_of_mem _ hlater)
    · have hput : put ((k, v) :: rest) key value = (k, v) :: put rest key value := by
        simp [put, hk]
      rw [hput] at h
      rcases List.mem_cons.mp h with rfl | hlater
      · exact Or.inr List.mem_cons_self
      · rcases ih hlater with heq | hmem
        · exact Or.inl heq
        · exact Or.inr (List.mem_cons_of_mem _ hmem)

/-- Giving a key its value makes no key stand twice. -/
theorem nodup_keys_put (h : (entries.map Prod.fst).Nodup) (key : κ) (value : α) :
    ((put entries key value).map Prod.fst).Nodup := by
  induction entries with
  | nil => simp [put]
  | cons first rest ih =>
    rcases first with ⟨k, v⟩
    rw [List.map_cons, List.nodup_cons] at h
    by_cases hk : k = key
    · simpa [put, hk] using h
    · have hput : put ((k, v) :: rest) key value = (k, v) :: put rest key value := by
        simp [put, hk]
      rw [hput, List.map_cons, List.nodup_cons]
      refine ⟨?_, ih h.2⟩
      intro hmem
      rcases List.mem_map.mp hmem with ⟨entry, hentry, hfst⟩
      rcases eq_or_mem_of_mem_put hentry with rfl | hrest
      · exact hk hfst.symm
      · exact h.1 (List.mem_map.mpr ⟨entry, hrest, hfst⟩)

/-- A key that is taken out and added at the end still stands once. -/
theorem nodup_keys_erase_append (h : (entries.map Prod.fst).Nodup) (key : κ) (value : α) :
    ((erase entries key ++ [(key, value)]).map Prod.fst).Nodup := by
  have hkept : ((erase entries key).map Prod.fst).Nodup :=
    (List.filter_sublist.map Prod.fst).nodup h
  rw [List.map_append, List.nodup_append]
  refine ⟨hkept, by simp, ?_⟩
  intro k hk other hother heq
  rcases List.mem_map.mp hk with ⟨entry, hentry, rfl⟩
  have hne : entry.1 ≠ key := by simpa using (List.mem_filter.mp hentry).2
  have hkey : other = key := by simpa using hother
  exact hne (heq.trans hkey)

end Association

namespace Toml

open Settings

/-! ## Nodes without repeated keys -/

/-- No table in a node has a key twice. A value without parts is no table. -/
inductive Node.Distinct : Node → Prop
  | value {tree : Tree} (h : tree.entries = []) : Distinct (.value tree)
  | list {items : List Node} (h : ∀ item ∈ items, Distinct item) : Distinct (.list items)
  | table {origin : Origin} {entries : Entries} (hkeys : (entries.map Prod.fst).Nodup)
      (hnodes : ∀ entry ∈ entries, Distinct entry.2) : Distinct (.table origin entries)
  | tables {nodes : List Node} (h : ∀ node ∈ nodes, Distinct node) : Distinct (.tables nodes)

/-- No key stands twice in the entries, nor in a table below them. -/
structure DistinctEntries (entries : Entries) : Prop where
  keys : (entries.map Prod.fst).Nodup
  nodes : ∀ entry ∈ entries, entry.2.Distinct

namespace DistinctEntries

variable {entries : Entries} {key : Text} {node : Node} {origin : Origin}

theorem nil : DistinctEntries [] :=
  ⟨List.nodup_nil, fun _ hmem => absurd hmem List.not_mem_nil⟩

theorem table (h : DistinctEntries entries) : (Node.table origin entries).Distinct :=
  .table h.keys h.nodes

theorem of_table (h : (Node.table origin entries).Distinct) : DistinctEntries entries := by
  cases h with
  | table hkeys hnodes => exact ⟨hkeys, hnodes⟩

theorem lookup (h : DistinctEntries entries) (hkey : entries.lookup key = some node) :
    node.Distinct :=
  h.nodes _ (Association.mem_of_lookup hkey)

theorem put (h : DistinctEntries entries) (hnode : node.Distinct) (key : Text) :
    DistinctEntries (Association.put entries key node) := by
  refine ⟨Association.nodup_keys_put h.keys key node, ?_⟩
  intro entry hentry
  rcases Association.eq_or_mem_of_mem_put hentry with rfl | hold
  · exact hnode
  · exact h.nodes entry hold

theorem moveToEnd (h : DistinctEntries entries) (hnode : node.Distinct) (key : Text) :
    DistinctEntries (Association.erase entries key ++ [(key, node)]) := by
  refine ⟨Association.nodup_keys_erase_append h.keys key node, ?_⟩
  intro entry hentry
  rcases List.mem_append.mp hentry with hold | hnew
  · exact h.nodes entry (List.mem_filter.mp hold).1
  · rw [List.mem_singleton.mp hnew]
    exact hnode

end DistinctEntries

/-! ## Building -/

/-- A change of entries that brings no key in twice. -/
def KeepsDistinct (edit : Entries → Option Entries) : Prop :=
  ∀ entries after, DistinctEntries entries → edit entries = some after → DistinctEntries after

/-- A change somewhere below entries brings no key in twice if the change itself does not. -/
theorem keepsDistinct_editAt {made : Origin} {edit : Origin → Entries → Option Entries}
    (hedit : ∀ origin, KeepsDistinct (edit origin)) (path : List Text) (origin : Origin) :
    KeepsDistinct (editAt made edit path origin) := by
  induction path generalizing origin with
  | nil => exact hedit origin
  | cons key rest ih =>
    intro entries after hentries hafter
    rw [editAt] at hafter
    split at hafter
    · rcases Option.bind_eq_some_iff.mp hafter with ⟨inner, hinner, hput⟩
      cases hput
      exact hentries.put (ih made [] inner .nil hinner).table key
    · cases hafter
    · cases hafter
    · rename_i found old hfound
      split at hafter
      · cases hafter
      · rcases Option.bind_eq_some_iff.mp hafter with ⟨inner, hinner, hput⟩
        cases hput
        have hold := DistinctEntries.of_table (hentries.lookup hfound)
        exact hentries.put (ih found old inner hold hinner).table key
    · rename_i nodes hfound
      split at hafter
      · rename_i found old hlast
        rcases Option.bind_eq_some_iff.mp hafter with ⟨inner, hinner, hput⟩
        cases hput
        cases hentries.lookup hfound with
        | tables hnodes =>
          have hold := DistinctEntries.of_table (hnodes _ (List.mem_of_getLast? hlast))
          refine hentries.put (.tables ?_) key
          intro node hnode
          rcases List.mem_append.mp hnode with hfront | hnew
          · exact hnodes node ((List.dropLast_sublist nodes).subset hfront)
          · rw [List.mem_singleton.mp hnew]
            exact (ih found old inner hold hinner).table
      · cases hafter

theorem keepsDistinct_insertDotted {value : Node} (hvalue : value.Distinct) (parents : List Text)
    (key : Text) : KeepsDistinct (insertDotted parents key value) := by
  refine keepsDistinct_editAt ?_ parents .header
  intro origin entries after hentries hafter
  dsimp only at hafter
  split at hafter
  · cases hafter
  · split at hafter
    · cases hafter
    · cases hafter
      exact hentries.put hvalue key

theorem keepsDistinct_openTable (parents : List Text) (key : Text) :
    KeepsDistinct (openTable parents key) := by
  refine keepsDistinct_editAt ?_ parents .header
  intro origin entries after hentries hafter
  dsimp only at hafter
  split at hafter
  · cases hafter
    exact hentries.put DistinctEntries.nil.table key
  · rename_i inner hfound
    cases hafter
    have hinner := DistinctEntries.of_table (hentries.lookup hfound)
    exact hentries.moveToEnd hinner.table key
  · cases hafter

theorem keepsDistinct_openElement (parents : List Text) (key : Text) :
    KeepsDistinct (openElement parents key) := by
  have hfresh : (Node.table .header []).Distinct := DistinctEntries.nil.table
  refine keepsDistinct_editAt ?_ parents .header
  intro origin entries after hentries hafter
  dsimp only at hafter
  split at hafter
  · cases hafter
    refine hentries.put (.tables ?_) key
    intro node hnode
    rw [List.mem_singleton.mp hnode]
    exact hfresh
  · rename_i nodes hfound
    cases hafter
    cases hentries.lookup hfound with
    | tables hnodes =>
      refine hentries.put (.tables ?_) key
      intro node hnode
      rcases List.mem_append.mp hnode with hold | hnew
      · exact hnodes node hold
      · rw [List.mem_singleton.mp hnew]
        exact hfresh
  · cases hafter

/-- The value that a statement gives has no key twice. -/
def Statement.Distinct : Statement → Prop
  | .header _ _ | .elementHeader _ _ => True
  | .entry _ _ value => value.Distinct

/-- So the tables that statements make have no key twice. -/
theorem keepsDistinct_build {lines : List Statement} (hlines : ∀ line ∈ lines, line.Distinct)
    (current : List Text) : KeepsDistinct (build lines current) := by
  induction lines generalizing current with
  | nil =>
    intro entries after hentries hafter
    cases hafter
    exact hentries
  | cons line rest ih =>
    have hrest := ih fun l hl => hlines l (List.mem_cons_of_mem line hl)
    have hline := hlines line List.mem_cons_self
    intro entries after hentries hafter
    cases line with
    | header parents key =>
      rcases Option.bind_eq_some_iff.mp hafter with ⟨next, hnext, hafter⟩
      exact hrest _ next after (keepsDistinct_openTable parents key entries next hentries hnext) hafter
    | elementHeader parents key =>
      rcases Option.bind_eq_some_iff.mp hafter with ⟨next, hnext, hafter⟩
      exact hrest _ next after (keepsDistinct_openElement parents key entries next hentries hnext)
        hafter
    | entry parents key value =>
      rcases Option.bind_eq_some_iff.mp hafter with ⟨next, hnext, hafter⟩
      have hstep := keepsDistinct_editAt (fun _ => keepsDistinct_insertDotted hline parents key)
        current .header entries next hentries hnext
      exact hrest _ next after hstep hafter

/-! ## Reading -/

namespace Reader

variable {α β : Type} {reader : Reader α} {next : α → Reader β} {P : β → Prop} {Q : α → Prop}

/-- Whatever the reader takes off a text has the property. -/
def Yields (reader : Reader α) (Q : α → Prop) : Prop :=
  ∀ s a rest, reader s = some (a, rest) → Q a

theorem yields_pure {a : α} (h : Q a) : Yields (pure a) Q := by
  intro s b rest hread
  cases hread
  exact h

theorem yields_failure : Yields (failure : Reader α) Q := by
  intro s a rest hread
  cases hread

/-- One reader after another yields what the second one yields on the first one's result. -/
theorem Yields.bind (h : Yields reader Q) (hnext : ∀ a, Q a → Yields (next a) P) :
    Yields (reader >>= next) P := by
  intro s b rest hread
  rcases Option.bind_eq_some_iff.mp hread with ⟨⟨a, middle⟩, hfirst, hsecond⟩
  exact hnext a (h s a middle hfirst) middle b rest hsecond

theorem yields_bind (hnext : ∀ a, Yields (next a) P) : Yields (reader >>= next) P := by
  have hany : Yields reader fun _ => True := fun _ _ _ _ => trivial
  exact hany.bind fun a _ => hnext a

theorem yields_lift {option : Option α} (h : ∀ a, option = some a → Q a) :
    Yields (liftM option : Reader α) Q := by
  intro s a rest hread
  rcases Option.bind_eq_some_iff.mp hread with ⟨b, hoption, hpure⟩
  cases hpure
  exact h a hoption

theorem entries_int64? {n : Int} {tree : Tree} (h : int64? n = some tree) : tree.entries = [] := by
  unfold int64? at h
  split at h
  · cases h
    rfl
  · cases h

/-- A number is no table. -/
theorem yields_number : Yields number (·.entries = []) := by
  have hbased : ∀ base p, Yields (based base p) (·.entries = []) := by
    intro base p
    refine yields_bind fun _ => yields_bind fun _ => yields_bind fun digits => ?_
    exact yields_lift fun tree => entries_int64?
  have hdecimal : Yields decimal (·.entries = []) := by
    refine yields_bind fun sign => yields_bind fun isInfinite => ?_
    split
    · exact yields_bind fun _ => yields_pure rfl
    · refine yields_bind fun isNan => ?_
      split
      · exact yields_bind fun _ => yields_pure rfl
      · refine yields_bind fun whole => yields_bind fun c => ?_
        split
        · exact yields_bind fun _ => yields_bind fun fraction => yields_bind fun exponent =>
            yields_bind fun x => yields_pure rfl
        · refine yields_bind fun exponent => ?_
          split
          · exact yields_bind fun x => yields_pure rfl
          · exact yields_lift fun tree => entries_int64?
  refine yields_bind fun isHex => ?_
  split
  · exact hbased 16 _
  · refine yields_bind fun isOctal => ?_
    split
    · exact hbased 8 _
    · refine yields_bind fun isBinary => ?_
      split
      · exact hbased 2 _
      · exact hdecimal

/-- The items of an array have no key twice if its values do not. -/
theorem yields_arrayRest {value : Reader Node} (hvalue : Yields value Node.Distinct) (fuel : Nat) :
    Yields (arrayRest value fuel) fun items => ∀ item ∈ items, item.Distinct := by
  induction fuel with
  | zero => exact yields_failure
  | succ fuel ih =>
    refine yields_bind fun _ => yields_bind fun _ => yields_bind fun c => ?_
    split
    · exact yields_bind fun _ => yields_pure (by simp)
    · refine hvalue.bind fun item hitem => ?_
      refine yields_bind fun _ => yields_bind fun _ => yields_bind fun c => ?_
      split
      · refine yields_bind fun _ => ih.bind fun items hitems => yields_pure ?_
        exact List.forall_mem_cons.mpr ⟨hitem, hitems⟩
      · refine yields_bind fun _ => yields_pure ?_
        simpa using hitem
      · exact yields_failure

/-- Neither do the entries of a table in braces. -/
theorem yields_inlineRest {value : Reader Node} (hvalue : Yields value Node.Distinct) (fuel : Nat)
    {entries : Entries} (hentries : DistinctEntries entries) :
    Yields (inlineRest value fuel entries) DistinctEntries := by
  induction fuel generalizing entries with
  | zero => exact yields_failure
  | succ fuel ih =>
    refine yields_bind fun path => yields_bind fun _ => yields_bind fun _ => ?_
    refine hvalue.bind fun node hnode => ?_
    have hinsert : ∀ after, insertDotted path.1 path.2 node entries = some after →
        DistinctEntries after := fun after =>
      keepsDistinct_insertDotted hnode path.1 path.2 entries after hentries
    refine (yields_lift hinsert).bind fun after hafter => ?_
    refine yields_bind fun _ => yields_bind fun c => ?_
    split
    · exact yields_bind fun _ => ih hafter
    · exact yields_bind fun _ => yields_pure hafter
    · exact yields_failure

theorem yields_inlineTable {value : Reader Node} (hvalue : Yields value Node.Distinct) :
    Yields (inlineTable value) Node.Distinct := by
  refine yields_bind fun _ => yields_bind fun c => ?_
  split
  · exact yields_bind fun _ => yields_pure DistinctEntries.nil.table
  · refine yields_bind fun fuel => ?_
    exact (yields_inlineRest hvalue fuel .nil).bind fun entries hentries =>
      yields_pure hentries.table

theorem yields_valueWith {array table : Reader Node} (harray : Yields array Node.Distinct)
    (htable : Yields table Node.Distinct) : Yields (valueWith array table) Node.Distinct := by
  refine yields_bind fun c => ?_
  split
  · exact yields_bind fun _ => yields_pure (.value rfl)
  · exact yields_bind fun _ => yields_pure (.value rfl)
  · exact yields_bind fun _ => harray
  · exact yields_bind fun _ => htable
  · exact yields_bind fun _ => yields_pure (.value rfl)
  · exact yields_bind fun _ => yields_pure (.value rfl)
  · refine yields_bind fun date => ?_
    split
    · exact yields_pure (.value rfl)
    · exact yields_number.bind fun tree htree => yields_pure (.value htree)

/-- A value has no key twice, however deep it may nest. -/
theorem yields_value (n : Nat) : Yields (value n) Node.Distinct := by
  induction n with
  | zero => exact yields_valueWith yields_failure yields_failure
  | succ n ih =>
    refine yields_valueWith ?_ (yields_inlineTable ih)
    exact yields_bind fun fuel => (yields_arrayRest ih fuel).bind fun items hitems =>
      yields_pure (.list hitems)

/-- Nor do the values that the lines of a document give. -/
theorem yields_statements (fuel : Nat) :
    Yields (statements fuel) fun lines => ∀ line ∈ lines, line.Distinct := by
  have hheader : Yields headerLine Statement.Distinct := by
    refine yields_bind fun isElement => ?_
    split
    · exact yields_bind fun _ => yields_bind fun path => yields_bind fun _ => yields_bind fun _ =>
        yields_pure trivial
    · exact yields_bind fun _ => yields_bind fun path => yields_bind fun _ => yields_bind fun _ =>
        yields_pure trivial
  have hentry : Yields entryLine Statement.Distinct := by
    refine yields_bind fun path => yields_bind fun _ => yields_bind fun _ => ?_
    exact (yields_value nestingLimit).bind fun node hnode => yields_bind fun _ => yields_pure hnode
  induction fuel with
  | zero => exact yields_failure
  | succ fuel ih =>
    refine yields_bind fun _ => yields_bind fun c => ?_
    split
    · exact yields_pure (by simp)
    · exact yields_bind fun _ => yields_bind fun _ => ih
    · exact yields_bind fun _ => ih
    · exact yields_bind fun _ => ih
    · exact hheader.bind fun line hline => ih.bind fun lines hlines =>
        yields_pure (List.forall_mem_cons.mpr ⟨hline, hlines⟩)
    · exact hentry.bind fun line hline => ih.bind fun lines hlines =>
        yields_pure (List.forall_mem_cons.mpr ⟨hline, hlines⟩)

end Reader

/-! ## The finished document -/

/-- A finished table has the keys of its entries, and each of its trees was made from the
node under the key. -/
theorem entriesToTable?_eq_some {entries : Entries} {table : Table}
    (h : entriesToTable? entries = some table) :
    table.map Prod.fst = entries.map Prod.fst ∧
      ∀ entry ∈ table, ∃ node, (entry.1, node) ∈ entries ∧ node.toTree? = some entry.2 := by
  induction entries generalizing table with
  | nil =>
    cases h
    simp
  | cons first rest ih =>
    rcases first with ⟨key, node⟩
    rw [entriesToTable?] at h
    rcases Option.bind_eq_some_iff.mp h with ⟨tree, htree, hmore⟩
    rcases Option.bind_eq_some_iff.mp hmore with ⟨later, hlater, htable⟩
    cases htable
    rcases ih hlater with ⟨hkeys, hnodes⟩
    refine ⟨by rw [List.map_cons, List.map_cons, hkeys], ?_⟩
    intro entry hentry
    rcases List.mem_cons.mp hentry with rfl | hmem
    · exact ⟨node, List.mem_cons_self, htree⟩
    · rcases hnodes entry hmem with ⟨origin, horigin, hfinished⟩
      exact ⟨origin, List.mem_cons_of_mem _ horigin, hfinished⟩

/-- The entries of a finished tree, if any, are those of a table with the same keys. -/
theorem toTree?_cases {node : Node} {tree : Tree} (hnode : node.Distinct)
    (h : node.toTree? = some tree) : tree.entries = [] ∨
      ∃ origin entries, node = .table origin entries ∧
        entriesToTable? entries = some tree.entries := by
  cases hnode with
  | value hvalue =>
    cases h
    exact Or.inl hvalue
  | list _ | tables _ =>
    rw [Node.toTree?] at h
    rcases Option.map_eq_some_iff.mp h with ⟨trees, -, rfl⟩
    exact Or.inl rfl
  | @table origin entries hkeys hnodes =>
    rw [Node.toTree?] at h
    split at h
    · rename_i key first hfirst
      split at h
      · -- a table that stands for a date
        left
        cases first with
        | value t =>
          cases t with
          | text t =>
            rw [Node.toDate?] at h
            split at h
            · cases h
              rfl
            · cases h
          | _ => cases h
        | _ => cases h
      · rcases Option.map_eq_some_iff.mp h with ⟨table, htable, rfl⟩
        exact Or.inr ⟨origin, entries, rfl, htable⟩
    · cases h
      exact Or.inl rfl

theorem nodup_keys_of_toTree? {node : Node} {tree : Tree} (hnode : node.Distinct)
    (h : node.toTree? = some tree) : (tree.entries.map Prod.fst).Nodup := by
  rcases toTree?_cases hnode h with hnone | ⟨origin, entries, rfl, htable⟩
  · rw [hnone]
    exact List.nodup_nil
  · rw [(entriesToTable?_eq_some htable).1]
    exact (DistinctEntries.of_table hnode).keys

/-- **No key twice.** In the table of a TOML document every key stands once, and so it does
in each table right below it. -/
theorem nodup_keys_of_parse? {document : Text} {table : Table} (h : parse? document = some table) :
    (table.map Prod.fst).Nodup ∧ ∀ entry ∈ table, (entry.2.entries.map Prod.fst).Nodup := by
  rcases Option.bind_eq_some_iff.mp h with ⟨⟨lines, rest⟩, hlines, hbuild⟩
  rcases Option.bind_eq_some_iff.mp hbuild with ⟨entries, hentries, hfinish⟩
  rcases Option.bind_eq_some_iff.mp hfinish with ⟨tree, htree, htable⟩
  have hstatements := Reader.yields_statements _ _ _ _ hlines
  have hdistinct := keepsDistinct_build hstatements [] [] entries .nil hentries
  have htop : (Node.table .header entries).Distinct := hdistinct.table
  have hentriesOf : tree.entries = table := by
    split at htable
    · cases htable
      rfl
    · cases htable
  constructor
  · rw [← hentriesOf]
    exact nodup_keys_of_toTree? htop htree
  · intro entry hentry
    rcases toTree?_cases htop htree with hnone | ⟨origin, inner, hinner, hfinished⟩
    · rw [← hentriesOf, hnone] at hentry
      cases hentry
    · cases hinner
      rw [hentriesOf] at hfinished
      rcases (entriesToTable?_eq_some hfinished).2 entry hentry with ⟨node, hnode, hmade⟩
      exact nodup_keys_of_toTree? (hdistinct.nodes _ hnode) hmade

end Toml

end NotebookExtract
