import Mathlib.Logic.Relation
import NotebookExtract.Artifact.Extract
import NotebookExtract.Proofs.Json.Edits
import NotebookExtract.Proofs.Notebook.Conforming

/-!
# Layout

A notebook can be laid out in many ways that hold the same cells: the entries of its
objects in another order, other entries that nobody asks for, a source in one piece or
in many, other outputs and metadata. None of this can be seen in the artifact, because
an edited document still conforms and its cells have the kinds and texts that they had.
-/

namespace NotebookExtract

open Json

/-! ## Edits of a notebook -/

/-- An edit of a kernel: no field changes. -/
def KernelSpec.Edit : Doc → Doc → Prop := RecordEdit fieldNames fun _ _ _ => False

/-- An edit of a language: no field changes. -/
def LanguageInfo.Edit : Doc → Doc → Prop := RecordEdit fieldNames fun _ _ _ => False

/-- A change of a document's metadata: its kernel or its language is edited. -/
def NotebookMetadata.Change (name : Text) (before after : Option Doc) : Prop :=
  if name = "kernelspec".toList then ∃ b ∈ before, ∃ a ∈ after, KernelSpec.Edit b a
  else if name = "language_info".toList then ∃ b ∈ before, ∃ a ∈ after, LanguageInfo.Edit b a
  else False

/-- An edit of a document's metadata. -/
def NotebookMetadata.Edit : Doc → Doc → Prop := RecordEdit fieldNames Change

/-- The text of a cell's source, as it stands in a document. -/
inductive CellSource.Holds : Option Doc → Text → Prop where
  | absent : Holds none []
  | null : Holds (some .null) []
  | whole {l : Literal} {text : Text} (h : l.text? = some text) : Holds (some (.text l)) text
  | pieces {ls : List Literal} {texts : List Text} (h : ls.mapM Literal.text? = some texts) :
      Holds (some (.array (ls.map .text))) texts.flatten

/-- A field that is absent, or whose value conforms if brackets may nest so deep. -/
def Conforms {α : Type} (n : Nat) (read : Tree → Option α) (field : Option Doc) : Prop :=
  ∀ doc ∈ field, (read (doc.tree n)).isSome = true

/-- The nesting that is left to the fields of a cell: a cell stands in an array in a
record. -/
def StoredCell.allowance : Nat := nestingLimit - 3

/-- A change of a cell: another source with the same text, or any other conforming
values for what does not matter. -/
def StoredCell.Change (name : Text) (before after : Option Doc) : Prop :=
  if name = "source".toList then
    ∃ text, CellSource.Holds before text ∧ CellSource.Holds after text
  else if name = "metadata".toList then Conforms allowance Tree.object? after
  else if name = "execution_count".toList then
    Conforms allowance (Tree.orNull? (Tree.unsigned? 64)) after
  else if name = "outputs".toList then Conforms allowance (Tree.list? Tree.value?) after
  else False

/-- An edit of a cell. -/
def StoredCell.Edit : Doc → Doc → Prop := RecordEdit fieldNames Change

/-- An edit of one of the cells. -/
def StoredCell.EditOne (before after : Doc) : Prop :=
  ∃ front back cell cell', before = .array (front ++ cell :: back) ∧
    after = .array (front ++ cell' :: back) ∧ Edit cell cell'

/-- The nesting that is left to the fields of a document. -/
def Notebook.allowance : Nat := nestingLimit - 1

/-- A change of a document: one of its cells is edited, its metadata is edited or
exchanged, or it has other format numbers. -/
def Notebook.Change (name : Text) (before after : Option Doc) : Prop :=
  if name = "cells".toList then ∃ b ∈ before, ∃ a ∈ after, StoredCell.EditOne b a
  else if name = "metadata".toList then
    (∃ b ∈ before, ∃ a ∈ after, NotebookMetadata.Edit b a) ∨
      Conforms allowance NotebookMetadata.ofTree? after
  else if name = "nbformat".toList then Conforms allowance (Tree.unsigned? 32) after
  else if name = "nbformat_minor".toList then Conforms allowance (Tree.unsigned? 32) after
  else False

/-- One edit of a document. -/
def Notebook.Edit : Doc → Doc → Prop := RecordEdit fieldNames Change

/-! ## Edited documents conform -/

variable {n : Nat} {before after : Doc}

theorem KernelSpec.ofTree?_of_edit (h : Edit before after) {kernel : KernelSpec}
    (hkernel : ofTree? (before.tree n) = some kernel) : ofTree? (after.tree n) = some kernel := by
  simp only [ofTree?, Option.bind_eq_bind, Option.bind_eq_some_iff] at hkernel ⊢
  obtain ⟨fields, hfields, _, h₁, _, h₂, _, h₃, hkernel⟩ := hkernel
  obtain ⟨fields', hfields', hkept⟩ := h.exists_entries? (by decide) hfields
  refine ⟨fields', hfields', _, ?_, _, ?_, _, ?_, hkernel⟩
  · rw [(hkept _ (by decide)).given?_eq (fun _ _ => id), h₁]
  · rw [(hkept _ (by decide)).given?_eq (fun _ _ => id), h₂]
  · rw [(hkept _ (by decide)).given?_eq (fun _ _ => id), h₃]

theorem LanguageInfo.ofTree?_of_edit (h : Edit before after) {language : LanguageInfo}
    (hlanguage : ofTree? (before.tree n) = some language) :
    ofTree? (after.tree n) = some language := by
  simp only [ofTree?, Option.bind_eq_bind, Option.bind_eq_some_iff] at hlanguage ⊢
  obtain ⟨fields, hfields, _, h₁, _, h₂, hlanguage⟩ := hlanguage
  obtain ⟨fields', hfields', hkept⟩ := h.exists_entries? (by decide) hfields
  refine ⟨fields', hfields', _, ?_, _, ?_, hlanguage⟩
  · rw [(hkept _ (by decide)).given?_eq (fun _ _ => id), h₁]
  · rw [(hkept _ (by decide)).given?_eq (fun _ _ => id), h₂]

/-- An optional record that is edited keeps what it gives, if the record does. -/
theorem absentOr?_of_edit {α : Type} {names : List Text}
    {Change : Text → Option Doc → Option Doc → Prop} (h : RecordEdit names Change before after)
    {read : Tree → Option α}
    (hread : ∀ {x}, read (before.tree n) = some x → read (after.tree n) = some x)
    {y : Option (Option α)}
    (hy : Tree.absentOr? (Tree.orNull? read) (some (before.tree n)) = some y) :
    Tree.absentOr? (Tree.orNull? read) (some (after.tree n)) = some y := by
  have horNull : ∀ {t : Tree}, t ≠ .null → t.orNull? read = (read t).map some := by
    intro t ht
    cases t with
    | null => exact absurd rfl ht
    | _ => rfl
  -- a record is never `null`, so `null` for nothing plays no part
  rw [Tree.absentOr?, horNull (h.tree_ne_null n).1] at hy
  rw [Tree.absentOr?, horNull (h.tree_ne_null n).2]
  cases hx : read (before.tree n) with
  | none =>
    rw [hx] at hy
    cases hy
  | some x => rw [hread hx, ← hx, hy]

theorem NotebookMetadata.ofTree?_of_edit (h : Edit before after) {metadata : NotebookMetadata}
    (hmetadata : ofTree? (before.tree n) = some metadata) :
    ofTree? (after.tree n) = some metadata := by
  simp only [ofTree?, Option.bind_eq_bind, Option.bind_eq_some_iff] at hmetadata ⊢
  obtain ⟨fields, hfields, x₁, h₁, x₂, h₂, hmetadata⟩ := hmetadata
  obtain ⟨fields', hfields', hkept⟩ := h.exists_entries? (by decide) hfields
  have hkernel := (hkept "kernelspec".toList (by decide)).exists_given? h₁ (· = x₁) rfl <| by
    intro before after hchange hx
    obtain ⟨b, rfl, a, rfl, hedit⟩ : ∃ b ∈ before, ∃ a ∈ after, KernelSpec.Edit b a := hchange
    exact ⟨x₁, absentOr?_of_edit hedit (KernelSpec.ofTree?_of_edit hedit) hx, rfl⟩
  have hlanguage := (hkept "language_info".toList (by decide)).exists_given? h₂ (· = x₂) rfl <| by
    intro before after hchange hx
    obtain ⟨b, rfl, a, rfl, hedit⟩ : ∃ b ∈ before, ∃ a ∈ after, LanguageInfo.Edit b a := hchange
    exact ⟨x₂, absentOr?_of_edit hedit (LanguageInfo.ofTree?_of_edit hedit) hx, rfl⟩
  obtain ⟨_, h₁', rfl⟩ := hkernel
  obtain ⟨_, h₂', rfl⟩ := hlanguage
  exact ⟨fields', hfields', _, h₁', _, h₂', hmetadata⟩

/-! ### Cells -/

/-- The text of a source that may be absent. -/
def CellSource.textOf (source : Option (Option CellSource)) : Text :=
  match source.getD none with
  | none => []
  | some source => source.text

theorem text?_tree_text (n : Nat) (l : Literal) : ((Doc.text l).tree n).text? = l.text? := by
  rw [Doc.tree]
  cases l.text? <;> rfl

theorem mapM_text?_tree (n : Nat) (ls : List Literal) :
    ((ls.map Doc.text).map (Doc.tree n)).mapM Tree.text? = ls.mapM Literal.text? := by
  induction ls with
  | nil => rfl
  | cons l ls ih =>
    rw [List.map_cons, List.map_cons, List.mapM_cons, List.mapM_cons, text?_tree_text, ih]

/-- A source is read as the text that it holds. -/
theorem CellSource.Holds.exists_read {field : Option Doc} {text : Text} (h : Holds field text)
    (n : Nat) :
    ∃ source, Tree.absentOr? (Tree.orNull? ofTree?) (field.map (Doc.tree (n + 1))) = some source ∧
      textOf source = text := by
  cases h with
  | absent => exact ⟨none, rfl, rfl⟩
  | null => exact ⟨some none, rfl, rfl⟩
  | whole h =>
    refine ⟨some (some (.whole text)), ?_, rfl⟩
    rw [Option.map_some, Doc.tree, h]
    rfl
  | @pieces ls texts h =>
    refine ⟨some (some (.pieces texts)), ?_, rfl⟩
    have hpieces : ofTree? ((Doc.array (ls.map .text)).tree (n + 1)) = some (.pieces texts) := by
      rw [Doc.tree_array, ofTree?, mapM_text?_tree, h]
      rfl
    show ((ofTree? _).map some).map some = _
    rw [hpieces]
    rfl

theorem exists_of_conforms {α : Type} {read : Tree → Option α} {field : Option Doc}
    (h : Conforms n read field) : ∃ x, Tree.absentOr? read (field.map (Doc.tree n)) = some x := by
  cases field with
  | none => exact ⟨none, rfl⟩
  | some doc =>
    obtain ⟨x, hx⟩ := Option.isSome_iff_exists.mp (h doc rfl)
    exact ⟨some x, by simp [Tree.absentOr?, hx]⟩

/-- A field for which any conforming value will do still gives something. -/
theorem exists_given?_of_conforms {α : Type} {Change : Text → Option Doc → Option Doc → Prop}
    {fields fields' : List (Text × Tree)} {name : Text} {read : Tree → Option α} {x : Option α}
    (h : KeptOrChanged n Change fields fields' name) (hx : given? fields name read = some x)
    (hchange : ∀ before after, Change name before after → Conforms n read after) :
    ∃ y, given? fields' name read = some y := by
  obtain ⟨y, hy, -⟩ := h.exists_given? hx (fun _ => True) trivial <| by
    intro before after hname _
    obtain ⟨y, hy⟩ := exists_of_conforms (hchange before after hname)
    exact ⟨y, hy, trivial⟩
  exact ⟨y, hy⟩

/-- An edited cell is a cell of the same kind with the same text. -/
theorem StoredCell.exists_of_edit (h : Edit before after) {cell : StoredCell}
    (hcell : ofTree? (before.tree (allowance + 1)) = some cell) :
    ∃ cell', ofTree? (after.tree (allowance + 1)) = some cell' ∧ cell'.block = cell.block := by
  simp only [ofTree?, Option.bind_eq_bind, Option.bind_eq_some_iff] at hcell ⊢
  obtain ⟨fields, hfields, kind, hkind, source, hsource, metadata, hmetadata, count, hcount,
    outputs, houtputs, hcell⟩ := hcell
  obtain ⟨fields', hfields', hkept⟩ := h.exists_entries? (by decide) hfields
  -- no change concerns the kind, and one of the source keeps its text
  have hkind' : given? fields' "cell_type".toList CellKind.ofTree? = some kind := by
    rw [(hkept _ (by decide)).given?_eq (fun _ _ => id) _, hkind]
  obtain ⟨source', hsource', htext⟩ := (hkept "source".toList (by decide)).exists_given? hsource
      (fun y => CellSource.textOf y = CellSource.textOf source) rfl <| by
    intro before after hchange hx
    obtain ⟨text, hbefore, hafter⟩ :
      ∃ text, CellSource.Holds before text ∧ CellSource.Holds after text := hchange
    obtain ⟨x, hx', hbefore⟩ := hbefore.exists_read (allowance - 1)
    obtain ⟨y, hy, hafter⟩ := hafter.exists_read (allowance - 1)
    obtain rfl : x = source := Option.some.inj (hx'.symm.trans hx)
    exact ⟨y, hy, hafter.trans hbefore.symm⟩
  -- the others need only conform, since a block has nothing of them
  obtain ⟨metadata', hmetadata'⟩ :=
    exists_given?_of_conforms (hkept "metadata".toList (by decide)) hmetadata fun _ _ => id
  obtain ⟨count', hcount'⟩ :=
    exists_given?_of_conforms (hkept "execution_count".toList (by decide)) hcount fun _ _ => id
  obtain ⟨outputs', houtputs'⟩ :=
    exists_given?_of_conforms (hkept "outputs".toList (by decide)) houtputs fun _ _ => id
  obtain ⟨kind, rfl, rfl⟩ := Option.map_eq_some_iff.mp hcell
  refine ⟨_, ⟨fields', hfields', _, hkind', _, hsource', _, hmetadata', _, hcount', _, houtputs',
    rfl⟩, ?_⟩
  exact congrArg (Block.mk kind) htext

/-- Where one cell is edited, all cells are of the kinds that they were and have the
texts that they had. -/
theorem StoredCell.exists_of_editOne (h : EditOne before after) {cells : List StoredCell}
    (hcells : Tree.list? ofTree? (before.tree (allowance + 2)) = some cells) :
    ∃ cells', Tree.list? ofTree? (after.tree (allowance + 2)) = some cells' ∧
      cells'.map block = cells.map block := by
  obtain ⟨front, back, doc, doc', rfl, rfl, hedit⟩ := h
  -- the cells before the edited one and those after it are read as they were
  have hlist : ∀ docs, Tree.list? ofTree? ((Doc.array docs).tree (allowance + 2)) =
      (docs.map (Doc.tree (allowance + 1))).mapM ofTree? := fun _ => rfl
  rw [hlist, List.map_append, List.map_cons, List.mapM_append, List.mapM_cons] at hcells
  rw [hlist, List.map_append, List.map_cons, List.mapM_append, List.mapM_cons]
  simp only [Option.bind_eq_bind, Option.bind_eq_some_iff, Option.pure_def, Option.some.injEq]
    at hcells ⊢
  obtain ⟨front', hfront, _, ⟨cell, hcell, back', hback, rfl⟩, rfl⟩ := hcells
  obtain ⟨cell', hcell', hblock⟩ := exists_of_edit hedit hcell
  refine ⟨_, ⟨front', hfront, _, ⟨cell', hcell', back', hback, rfl⟩, rfl⟩, ?_⟩
  simp [hblock]

/-! ### Documents -/

namespace Notebook

/-- An edited document conforms, and its blocks are the same. -/
theorem exists_of_edit (h : Edit before after) {notebook : Notebook}
    (hnotebook : ofTree? (before.tree nestingLimit) = some notebook) :
    ∃ notebook', ofTree? (after.tree nestingLimit) = some notebook' ∧
      notebook'.blocks = notebook.blocks := by
  simp only [ofTree?, Option.bind_eq_bind, Option.bind_eq_some_iff] at hnotebook ⊢
  obtain ⟨fields, hfields, cells, hcells, metadata, hmetadata, major, hmajor, minor, hminor,
    hnotebook⟩ := hnotebook
  obtain ⟨fields', hfields', hkept⟩ := h.exists_entries? (by decide) hfields
  obtain ⟨cells', hcells', hblocks⟩ := (hkept "cells".toList (by decide)).exists_given? hcells
      (fun y => y.map (List.map StoredCell.block) = cells.map (List.map StoredCell.block)) rfl <| by
    intro before after hchange hx
    obtain ⟨b, rfl, a, rfl, hedit⟩ : ∃ b ∈ before, ∃ a ∈ after, StoredCell.EditOne b a := hchange
    obtain ⟨x, hb, rfl⟩ := Option.map_eq_some_iff.mp hx
    obtain ⟨y, hy, hblocks⟩ := StoredCell.exists_of_editOne hedit hb
    exact ⟨some y, congrArg (Option.map some) hy, congrArg some hblocks⟩
  obtain ⟨metadata', hmetadata', -⟩ :=
      (hkept "metadata".toList (by decide)).exists_given? hmetadata (fun _ => True) trivial <| by
    intro before after hchange hx
    have hchange : (∃ b ∈ before, ∃ a ∈ after, NotebookMetadata.Edit b a) ∨
      Conforms allowance NotebookMetadata.ofTree? after := hchange
    rcases hchange with ⟨b, rfl, a, rfl, hedit⟩ | hconforms
    · -- edited in place
      obtain ⟨x, hb, rfl⟩ := Option.map_eq_some_iff.mp hx
      have ha := NotebookMetadata.ofTree?_of_edit hedit hb
      exact ⟨some x, congrArg (Option.map some) ha, trivial⟩
    · -- exchanged as a whole
      exact (exists_of_conforms hconforms).imp fun _ h => ⟨h, trivial⟩
  obtain ⟨major', hmajor'⟩ :=
    exists_given?_of_conforms (hkept "nbformat".toList (by decide)) hmajor fun _ _ => id
  obtain ⟨minor', hminor'⟩ :=
    exists_given?_of_conforms (hkept "nbformat_minor".toList (by decide)) hminor fun _ _ => id
  obtain ⟨cells, rfl, rfl⟩ := Option.map_eq_some_iff.mp hnotebook
  obtain ⟨cells', rfl, hcellBlocks⟩ := Option.map_eq_some_iff.mp hblocks
  exact ⟨_, ⟨fields', hfields', _, hcells', _, hmetadata', _, hmajor', _, hminor', rfl⟩,
    hcellBlocks⟩

/-- So does a document after any number of edits. -/
theorem exists_of_edits (h : Relation.ReflTransGen Edit before after) {notebook : Notebook}
    (hnotebook : ofTree? (before.tree nestingLimit) = some notebook) :
    ∃ notebook', ofTree? (after.tree nestingLimit) = some notebook' ∧
      notebook'.blocks = notebook.blocks := by
  induction h with
  | refl => exact ⟨notebook, hnotebook, rfl⟩
  | tail _ hedit ih =>
    obtain ⟨middle, hmiddle, hblocks⟩ := ih
    obtain ⟨notebook', hnotebook', hblocks'⟩ := exists_of_edit hedit hmiddle
    exact ⟨notebook', hnotebook', hblocks'.trans hblocks⟩

/-- An artifact is made from the blocks of a notebook. -/
theorem extract_eq_of_blocks {a b : Notebook} (h : a.blocks = b.blocks)
    (options : Extract.Options) (name? : Option Text) :
    extract options name? a = extract options name? b := by
  rw [extract, extract, h]

/-- Every text that holds a notebook is the text of a document. However the document is
edited and written down again, it still holds a notebook, and the artifact is the same
for all options and every name. -/
theorem extract_eq_of_edits {s : Text} {notebook : Notebook} (h : ofText s = .ok notebook) :
    (∃ doc : Doc, doc.Fills s) ∧
    ∀ (doc doc' : Doc) (s' : Text), doc.Fills s → Relation.ReflTransGen Edit doc doc' →
      doc'.Fills s' →
      ∃ notebook', ofText s' = .ok notebook' ∧
        ∀ (options : Extract.Options) (name? : Option Text),
          extract options name? notebook' = extract options name? notebook := by
  have hparse := ofText_eq_ok_iff.mp h
  refine ⟨exists_fills_of_parse hparse, fun doc doc' s' hdoc hedits hdoc' => ?_⟩
  have hconforms := (parse_eq_ok_iff_of_fills hdoc).mp hparse
  obtain ⟨notebook', hnotebook', hblocks⟩ := exists_of_edits hedits hconforms
  refine ⟨notebook', ?_, fun options name? => extract_eq_of_blocks hblocks options name?⟩
  rw [ofText_eq_ok_iff, parse_eq_ok_iff_of_fills hdoc', hnotebook']

/-- A document with one cell. -/
def plainDoc : Doc := .object [(.plain "cells".toList, .array [.object [
  (.plain "cell_type".toList, .text (.plain "code".toList)),
  (.plain "source".toList, .text (.plain "x = 1 # a".toList))]])]

/-- Its text. -/
def plainText : Text :=
  "\x7b\"cells\":[\x7b\"cell_type\":\"code\",\"source\":\"x = 1 # a\"\x7d]\x7d".toList

/-- The same document with the source in two pieces and before the kind, and with an
unknown entry that is too large to be read. -/
def editedDoc : Doc := .object [
  (.plain "y".toList, .number ⟨false, ['1'], none, some 999⟩),
  (.plain "cells".toList, .array [.object [
    (.plain "source".toList,
      .array [.text (.plain "x = ".toList), .text (.plain "1 # a".toList)]),
    (.plain "cell_type".toList, .text (.plain "code".toList))]])]

/-- Its text. -/
def editedText : Text :=
  ("\x7b\"y\":1E+999,\n\"cells\":[\x7b\"source\":[\"x = \",\"1 # a\"]," ++
    "\"cell_type\":\"code\"\x7d]\x7d").toList

theorem plainDoc_fills : plainDoc.Fills plainText := by
  have hcell : Printed (.object [(.plain "cell_type".toList, .text (.plain "code".toList)),
      (.plain "source".toList, .text (.plain "x = 1 # a".toList))]) _ :=
    .object (.first_tight (Literal.written_plain (by decide)) (.plain (by decide))
      (.next_tight (Literal.written_plain (by decide)) (.plain (by decide)) .close_tight))
  refine ⟨[], _, [], rfl, rfl, .object (.first_tight (Literal.written_plain (by decide))
    (.array (.first_tight hcell .close_tight)) .close_tight), ?_⟩
  decide

theorem editedDoc_fills : editedDoc.Fills editedText := by
  have hnumber : Numeral.Written ⟨false, ['1'], none, some 999⟩ _ :=
    @Numeral.Written.mk false ['1'] [] _ none _ ⟨by decide, by decide⟩
      (fun _ _ h => absurd (List.cons.inj h).1 (by decide)) .absent
      (@WrittenExponent.plus 'E' ['9', '9', '9'] (.inr rfl) ⟨by decide, by decide⟩)
  have hsource :
      Printed (.array [.text (.plain "x = ".toList), .text (.plain "1 # a".toList)]) _ :=
    .array (.first_tight (.plain (by decide)) (.next_tight (.plain (by decide)) .close_tight))
  have hcell : Printed (.object [(.plain "source".toList,
      .array [.text (.plain "x = ".toList), .text (.plain "1 # a".toList)]),
      (.plain "cell_type".toList, .text (.plain "code".toList))]) _ :=
    .object (.first_tight (Literal.written_plain (by decide)) hsource
      (.next_tight (Literal.written_plain (by decide)) (.plain (by decide)) .close_tight))
  have hrest := @PrintedEntries.next [] ['\n'] _ [] [] _ _ _ _ _ rfl rfl
    (Literal.written_plain (show "cells".toList.all isVerbatim = true by decide)) rfl rfl
    (.array (.first_tight hcell .close_tight)) .close_tight
  refine ⟨[], _, [], rfl, rfl,
    .object (.first_tight (Literal.written_plain (by decide)) (.number hnumber) hrest), ?_⟩
  decide

/-- The entries of the cell change places, its source is cut, and an unknown entry
comes in. -/
theorem plainDoc_edits : Relation.ReflTransGen Edit plainDoc editedDoc := by
  have hcells : ∀ {cell cell' : Doc}, StoredCell.Edit cell cell' →
      Edit (.object [(.plain "cells".toList, .array [cell])])
        (.object [(.plain "cells".toList, .array [cell'])]) := by
    intro cell cell' hcell
    have hchange : ∃ b ∈ some (Doc.array [cell]), ∃ a ∈ some (Doc.array [cell']),
        StoredCell.EditOne b a :=
      ⟨_, rfl, _, rfl, [], [], cell, cell', rfl, rfl, hcell⟩
    exact @RecordEdit.entry _ _ "cells".toList [] (some (.plain "cells".toList, .array [cell]))
      (some (.plain "cells".toList, .array [cell'])) (by simp [Literal.text?_plain])
      (by simp [Literal.text?_plain]) (by simp) hchange
  have hpieces : ∃ text, CellSource.Holds (some (.text (.plain "x = 1 # a".toList))) text ∧
      CellSource.Holds (some (.array [.text (.plain "x = ".toList),
        .text (.plain "1 # a".toList)])) text :=
    ⟨"x = 1 # a".toList, .whole (Literal.text?_plain _), @CellSource.Holds.pieces
      [.plain "x = ".toList, .plain "1 # a".toList] ["x = ".toList, "1 # a".toList] (by decide)⟩
  have hcut := @RecordEdit.entry StoredCell.fieldNames StoredCell.Change "source".toList
    [(.plain "cell_type".toList, .text (.plain "code".toList))]
    (some (.plain "source".toList, .text (.plain "x = 1 # a".toList)))
    (some (.plain "source".toList,
      .array [.text (.plain "x = ".toList), .text (.plain "1 # a".toList)]))
    (by simp [Literal.text?_plain]) (by simp [Literal.text?_plain])
    (by simp [Literal.text?_plain]) hpieces
  have hunknown := @RecordEdit.unknown fieldNames Change
    [(.plain "cells".toList, .array [.object [
      (.plain "source".toList,
        .array [.text (.plain "x = ".toList), .text (.plain "1 # a".toList)]),
      (.plain "cell_type".toList, .text (.plain "code".toList))]])] none
    (some (.plain "y".toList, .number ⟨false, ['1'], none, some 999⟩)) (fun _ h => nomatch h)
    (by rintro _ ⟨⟩; exact ⟨"y".toList, Literal.text?_plain _, by decide⟩)
  exact .tail (.tail (.single (hcells (.permute (.swap _ _ [])))) (hcells hcut)) hunknown

theorem extract_editedText :
    ofText plainText = .ok { cells := [
      { kind := .code, source := some (.whole "x = 1 # a".toList) }] } ∧
    ∃ notebook', ofText editedText = .ok notebook' ∧
      ∀ (options : Extract.Options) (name? : Option Text),
        extract options name? notebook' = extract options name? { cells := [
          { kind := .code, source := some (.whole "x = 1 # a".toList) }] } := by
  have hplain : ofText plainText = .ok { cells := [
      { kind := .code, source := some (.whole "x = 1 # a".toList) }] } :=
    ofText_eq_ok_iff.mpr ((parse_eq_ok_iff_of_fills plainDoc_fills).mpr rfl)
  exact ⟨hplain, (extract_eq_of_edits hplain).2 plainDoc editedDoc editedText plainDoc_fills
    plainDoc_edits editedDoc_fills⟩

end Notebook

end NotebookExtract
