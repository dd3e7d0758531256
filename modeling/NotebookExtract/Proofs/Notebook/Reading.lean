import NotebookExtract.Notebook.Reader
import NotebookExtract.Proofs.Json.Records
import NotebookExtract.Proofs.Notebook.Schema

/-!
# Reading follows the schema

The reader of documents agrees with the schema on every text. For each record the
fields are given their slots in the draft, and what is left is to compare the
schema with what the slots ask for.
-/

namespace NotebookExtract

open Json

/-! ## Values of a cell -/

namespace NotebookReader

open Reader

/-- Where another entry follows, an object does not end. -/
theorem run?_endEntries_printed {entries : List (Literal × Doc)} {s : Text}
    (h : PrintedEntries false entries s) (rest : Text) :
    endEntries.run? (s ++ rest) = if entries = [] then some ((), rest) else none := by
  cases h with
  | close hb =>
    rw [if_pos rfl]
    exact (isToken_endEntries _ _).mpr ⟨_, hb, by simp⟩
  | next hb =>
    rw [if_neg (by simp)]
    unfold endEntries
    rw [run?_bind, List.append_assoc, List.cons_append, run?_peekToken_cons hb (by decide)]
    rfl

/-- The only entry of an object, whose value has to be `null`. -/
def soleKey : Reader CellKind := do
  advance
  match ← peekToken with
  | some '"' =>
    let name ← string
    colon
    unit
    endEntries
    return CellKind.ofName name
  | some _ => malformed
  | none => cutShort

theorem run?_cellKind (n : Nat) (s : Text) :
    (cellKind n).run? s =
      if (s.dropWhile isSpace).head? = some '"' then
        (CellKind.ofName <$> string).run? (s.dropWhile isSpace)
      else if (s.dropWhile isSpace).head? = some '{' then
        (deeper n fun _ => soleKey).run? (s.dropWhile isSpace)
      else none := by
  unfold cellKind
  rw [run?_bind, run?_peekToken, Option.bind_some]
  generalize s.dropWhile isSpace = t
  split
  · rename_i hhead
    rw [if_pos hhead]
    rfl
  · rename_i hhead
    have hne : t.head? ≠ some '"' := by
      rw [show t.head? = some '{' from hhead]
      decide
    rw [if_neg hne, if_pos hhead]
    rfl
  · simp_all
  · simp_all

/-- An object with two entries names no kind. -/
theorem ofTree?_of_two (n : Nat) (first second : Literal × Doc) (entries : List (Literal × Doc)) :
    CellKind.ofTree? ((Doc.object (first :: second :: entries)).tree (n + 1)) = none := by
  rw [Doc.tree_object, List.mapM_cons, List.mapM_cons]
  cases Doc.field? n first <;> cases Doc.field? n second <;>
    cases entries.mapM (Doc.field? n) <;> rfl

theorem ofTree?_of_one (n : Nat) (key : Literal) (value : Doc) :
    CellKind.ofTree? ((Doc.object [(key, value)]).tree (n + 1)) =
      key.text?.bind fun name => (value.tree n).null?.map fun _ => .ofName name := by
  rw [Doc.tree_object, List.mapM_cons, Doc.field?]
  cases key.text? <;> rfl

theorem run?_soleKey {entries : List (Literal × Doc)} {s : Text}
    (h : PrintedEntries true entries s) (n : Nat) (rest : Text) :
    soleKey.run? ('{' :: (s ++ rest)) =
      (CellKind.ofTree? ((Doc.object entries).tree (n + 1))).map (·, rest) := by
  unfold soleKey
  rw [run?_bind, run?_advance, Option.bind_some, List.drop_one, List.tail_cons, run?_bind]
  cases h with
  | close hb =>
    rw [List.append_assoc, List.singleton_append, run?_peekToken_cons hb (by decide)]
    rfl
  | @first b k b₁ b₂ p s key value entries hb hk hb₁ hb₂ hp hs =>
    have hnull := reads_unit n hb₂ hp (stops_entries hs rest)
    have hend := run?_endEntries_printed hs rest
    simp only [List.append_assoc, List.cons_append]
    rw [run?_peekToken_cons hb (by decide), Option.bind_some]
    simp only [run?_bind, run?_string hk]
    cases entries with
    | nil =>
      -- its end has to follow the value, and it does
      rw [ofTree?_of_one]
      cases key.text? with
      | none => rfl
      | some name =>
        cases hvalue : (value.tree n).null? <;> simp [run?_colon hb₁, hnull, hend, hvalue]
    | cons entry entries =>
      -- a comma stands where the end has to, so the reader refuses as the schema does
      rw [ofTree?_of_two]
      cases key.text? with
      | none => rfl
      | some name =>
        cases hvalue : (value.tree n).null? <;> simp [run?_colon hb₁, hnull, hend, hvalue]

theorem reads_cellKind (n : Nat) : Reads n (cellKind n) CellKind.ofTree? := by
  intro b doc p rest hb hp hrest
  obtain ⟨c, hc, hhead, hdrop⟩ := dropWhile_printed hb hp rest
  rw [run?_cellKind, hdrop, hhead]
  by_cases hquote : c = '"'
  · subst hquote
    obtain ⟨l, rfl⟩ := hc.exists_text
    cases hp with
    | text hl =>
      rw [if_pos rfl, run?_map, List.cons_append, run?_string hl, Doc.tree]
      cases l.text? <;> rfl
  · by_cases hbrace : c = '{'
    · subst hbrace
      obtain ⟨entries, rfl⟩ := hc.exists_object
      cases hp with
      | object h =>
        rw [if_neg (by decide), if_pos rfl]
        cases n with
        | zero => rfl
        | succ n => exact run?_soleKey h n rest
    · -- any other value starts otherwise, and none of them names a kind
      have hmeaning : ∀ t, TreeStartsWith t c → CellKind.ofTree? t = none := by
        intro t ht
        cases ht with
        | text => exact absurd rfl hquote
        | object => exact absurd rfl hbrace
        | _ => rfl
      rw [if_neg fun heq => hquote (Option.some.inj heq),
        if_neg fun heq => hbrace (Option.some.inj heq), hmeaning _ (hc.tree n)]
      rfl

theorem takesHere_soleKey : TakesHere '{' soleKey := by
  intro s kind rest hhead h
  obtain ⟨tail, rfl⟩ := List.head?_eq_some_iff.mp hhead
  unfold soleKey at h
  rw [run?_bind, run?_advance, Option.bind_some, run?_bind, run?_peekToken, Option.bind_some] at h
  split at h
  · simp only [run?_bind, Option.bind_eq_some_iff] at h
    obtain ⟨⟨name, out₁⟩, hname, ⟨⟨⟩, out₂⟩, hcolon, ⟨⟨⟩, out₃⟩, hnull, ⟨⟨⟩, out₄⟩, hend, h⟩ := h
    cases h
    obtain ⟨b, hb, htail⟩ := exists_blank tail
    obtain ⟨l, k, hk, hdrop⟩ := of_run?_string hname
    obtain ⟨b₁, hb₁, rfl⟩ := (isToken_colon _ _).mp hcolon
    obtain ⟨b₂, doc, p, hb₂, hp, rfl⟩ := goesOnAt_unit.takes takesHere_null hnull
    obtain ⟨b₃, hb₃, rfl⟩ := (isToken_endEntries _ _).mp hend
    change tail.dropWhile isSpace = _ at hdrop
    rw [hdrop] at htail
    refine ⟨.object [(l, doc)], _, .object (.first hb hk hb₁ hb₂ hp (.close hb₃)), ?_⟩
    simp [htail]
  · cases h
  · cases h

theorem takes_cellKind (n : Nat) : Takes (cellKind n) := by
  intro s kind rest h
  rw [run?_cellKind] at h
  split at h
  · rename_i hhead
    obtain ⟨doc, p, hp, hdrop⟩ := takesHere_string.map CellKind.ofName hhead h
    exact exists_of_dropWhile hp hdrop
  · split at h
    · rename_i hhead
      obtain ⟨doc, p, hp, hdrop⟩ := TakesHere.deeper (fun _ => takesHere_soleKey) n hhead h
      exact exists_of_dropWhile hp hdrop
    · cases h

theorem texts?_cons (v : Value) (vs : List Value) :
    texts? (v :: vs) = (texts? [v]).bind fun ts => (texts? vs).map (ts ++ ·) := by
  cases v <;> rfl

/-- A free value is a string exactly if its tree is. -/
theorem bind_texts? (t : Tree) : (t.value?.bind fun v => texts? [v]) = t.text?.map ([·]) := by
  cases t with
  | array items =>
    rw [Tree.value?]
    cases Tree.values? items <;> rfl
  | object entries =>
    rw [Tree.value?]
    cases Tree.fields? entries <;> rfl
  | _ => rfl

theorem bind_mapM_texts? (items : List Tree) :
    (items.mapM Tree.value?).bind texts? = items.mapM Tree.text? := by
  induction items with
  | nil => rfl
  | cons item items ih =>
    have hitem := bind_texts? item
    rw [List.mapM_cons, List.mapM_cons, ← ih]
    cases hvalue : item.value? with
    | none =>
      -- a value that cannot be read is no string
      rw [hvalue, Option.bind_none, eq_comm, Option.map_eq_none_iff] at hitem
      rw [hitem]
      rfl
    | some v =>
      rw [hvalue, Option.bind_some] at hitem
      cases items.mapM Tree.value? with
      | none => cases item.text? <;> rfl
      | some vs =>
        show texts? (v :: vs) = _
        rw [texts?_cons, hitem]
        cases item.text? with
        | none => rfl
        | some t => cases hvs : texts? vs <;> simp [hvs]

/-- A free value is a source exactly if its tree is. -/
theorem bind_source? (t : Tree) :
    t.value?.bind source? = Tree.orNull? CellSource.ofTree? t := by
  cases t with
  | array items =>
    rw [Tree.value?, Tree.values?_eq_mapM]
    show _ = ((items.mapM Tree.text?).map CellSource.pieces).map some
    rw [← bind_mapM_texts?]
    cases items.mapM Tree.value? with
    | none => rfl
    | some vs =>
      show (texts? vs).map _ = _
      cases hvs : texts? vs <;> simp [hvs]
  | object entries =>
    rw [Tree.value?]
    cases Tree.fields? entries <;> rfl
  | _ => rfl

theorem run?_cellSource (n : Nat) (s : Text) :
    (cellSource n).run? s =
      ((value n).run? s).bind fun out => (source? out.1).map (·, out.2) := by
  unfold cellSource
  rw [run?_bind]
  cases (value n).run? s with
  | none => rfl
  | some out =>
    rw [Option.bind_some, Option.bind_some]
    cases source? out.1 <;> rfl

theorem reads_cellSource (n : Nat) :
    Reads n (cellSource n) (Tree.orNull? CellSource.ofTree?) := by
  intro b doc p rest hb hp hrest
  -- a source is read as a free value first, and only then looked at
  rw [run?_cellSource, reads_value n hb hp hrest, ← bind_source?]
  cases (doc.tree n).value? <;> rfl

theorem takes_cellSource (n : Nat) : Takes (cellSource n) := by
  intro s source rest h
  rw [run?_cellSource, Option.bind_eq_some_iff] at h
  obtain ⟨⟨v, out⟩, hvalue, h⟩ := h
  rw [Option.map_eq_some_iff] at h
  obtain ⟨source', -, h⟩ := h
  cases h
  exact takes_value n hvalue

/-! ## Records -/

def kernelFields : List (Slot KernelDraft) := [
  .ofReader "display_name".toList (·.displayName) (fun d x => { d with displayName := some x })
    (fun _ => text) Tree.text? (fun _ _ => rfl)
    reads_text (fun _ => takes_text),
  .ofReader "language".toList (·.language) (fun d x => { d with language := some x })
    (fun _ => optional text) (Tree.orNull? Tree.text?) (fun _ _ => rfl)
    (fun n => reads_optional (reads_text n)) (fun _ => takes_optional takes_text),
  .ofReader "name".toList (·.name) (fun d x => { d with name := some x })
    (fun _ => text) Tree.text? (fun _ _ => rfl)
    reads_text (fun _ => takes_text)]

/-- The slots of a kernel. -/
def kernelSlots : kernelShape.Slots where
  slots := kernelFields
  fields_eq := rfl
  apart := by
    simp only [kernelFields, List.pairwise_cons, List.forall_mem_cons, List.not_mem_nil,
      false_implies, implies_true, List.Pairwise.nil, and_true]
    refine ⟨⟨?_, ?_⟩, ?_⟩ <;>
      exact ⟨by decide, fun _ _ => rfl, fun _ _ => rfl⟩
  get_start := by
    simp only [kernelFields, List.forall_mem_cons]
    exact ⟨rfl, rfl, rfl, fun _ hS => nomatch hS⟩
  ext := by
    rintro ⟨⟩ ⟨⟩ h
    simp only [kernelFields, List.forall_mem_cons] at h
    obtain ⟨h₁, h₂, h₃, -⟩ := h
    cases h₁
    cases h₂
    cases h₃
    rfl

theorem reads_kernel (n : Nat) : Reads n (kernelShape.read n) KernelSpec.ofTree? := by
  refine kernelSlots.reads_of_iff KernelSpec.fieldNames rfl ?_ n
  intro t result
  simp only [KernelSpec.ofTree?, Option.bind_eq_bind, Option.bind_eq_some_iff]
  refine exists_congr fun entries => and_congr_right fun _ => ?_
  simp only [RecordShape.Slots.Fits, kernelSlots, kernelFields, List.forall_mem_cons]
  constructor
  · rintro ⟨_, h₁, _, h₂, _, h₃, h⟩
    exact ⟨⟨_, _, _⟩, ⟨h₁, h₂, h₃, fun _ h => nomatch h⟩, h⟩
  · rintro ⟨draft, ⟨h₁, h₂, h₃, -⟩, h⟩
    exact ⟨_, h₁, _, h₂, _, h₃, h⟩

theorem takes_kernel (n : Nat) : Takes (kernelShape.read n) := kernelSlots.takes n

def languageFields : List (Slot LanguageDraft) := [
  .ofReader "name".toList (·.name) (fun d x => { d with name := some x })
    (fun _ => text) Tree.text? (fun _ _ => rfl)
    reads_text (fun _ => takes_text),
  .ofReader "version".toList (·.version) (fun d x => { d with version := some x })
    (fun _ => optional text) (Tree.orNull? Tree.text?) (fun _ _ => rfl)
    (fun n => reads_optional (reads_text n)) (fun _ => takes_optional takes_text)]

/-- The slots of a language. -/
def languageSlots : languageShape.Slots where
  slots := languageFields
  fields_eq := rfl
  apart := by
    simp only [languageFields, List.pairwise_cons, List.forall_mem_cons, List.not_mem_nil,
      false_implies, implies_true, List.Pairwise.nil, and_true]
    exact ⟨by decide, fun _ _ => rfl, fun _ _ => rfl⟩
  get_start := by
    simp only [languageFields, List.forall_mem_cons]
    exact ⟨rfl, rfl, fun _ hS => nomatch hS⟩
  ext := by
    rintro ⟨⟩ ⟨⟩ h
    simp only [languageFields, List.forall_mem_cons] at h
    obtain ⟨h₁, h₂, -⟩ := h
    cases h₁
    cases h₂
    rfl

theorem reads_language (n : Nat) : Reads n (languageShape.read n) LanguageInfo.ofTree? := by
  refine languageSlots.reads_of_iff LanguageInfo.fieldNames rfl ?_ n
  intro t result
  simp only [LanguageInfo.ofTree?, Option.bind_eq_bind, Option.bind_eq_some_iff]
  refine exists_congr fun entries => and_congr_right fun _ => ?_
  simp only [RecordShape.Slots.Fits, languageSlots, languageFields, List.forall_mem_cons]
  constructor
  · rintro ⟨_, h₁, _, h₂, h⟩
    exact ⟨⟨_, _⟩, ⟨h₁, h₂, fun _ h => nomatch h⟩, h⟩
  · rintro ⟨draft, ⟨h₁, h₂, -⟩, h⟩
    exact ⟨_, h₁, _, h₂, h⟩

theorem takes_language (n : Nat) : Takes (languageShape.read n) := languageSlots.takes n

def metadataFields : List (Slot MetadataDraft) := [
  .ofReader "kernelspec".toList (·.kernelSpec) (fun d x => { d with kernelSpec := some x })
    (fun n => optional (kernelShape.read n)) (Tree.orNull? KernelSpec.ofTree?) (fun _ _ => rfl)
    (fun n => reads_optional (reads_kernel n)) (fun n => takes_optional (takes_kernel n)),
  .ofReader "language_info".toList (·.languageInfo) (fun d x => { d with languageInfo := some x })
    (fun n => optional (languageShape.read n)) (Tree.orNull? LanguageInfo.ofTree?) (fun _ _ => rfl)
    (fun n => reads_optional (reads_language n)) (fun n => takes_optional (takes_language n))]

/-- The slots of a document's metadata. -/
def metadataSlots : metadataShape.Slots where
  slots := metadataFields
  fields_eq := rfl
  apart := by
    simp only [metadataFields, List.pairwise_cons, List.forall_mem_cons, List.not_mem_nil,
      false_implies, implies_true, List.Pairwise.nil, and_true]
    exact ⟨by decide, fun _ _ => rfl, fun _ _ => rfl⟩
  get_start := by
    simp only [metadataFields, List.forall_mem_cons]
    exact ⟨rfl, rfl, fun _ hS => nomatch hS⟩
  ext := by
    rintro ⟨⟩ ⟨⟩ h
    simp only [metadataFields, List.forall_mem_cons] at h
    obtain ⟨h₁, h₂, -⟩ := h
    cases h₁
    cases h₂
    rfl

theorem reads_metadata (n : Nat) : Reads n (metadataShape.read n) NotebookMetadata.ofTree? := by
  refine metadataSlots.reads_of_iff NotebookMetadata.fieldNames rfl ?_ n
  intro t result
  simp only [NotebookMetadata.ofTree?, Option.bind_eq_bind, Option.bind_eq_some_iff]
  refine exists_congr fun entries => and_congr_right fun _ => ?_
  simp only [RecordShape.Slots.Fits, metadataSlots, metadataFields, List.forall_mem_cons]
  constructor
  · rintro ⟨_, h₁, _, h₂, h⟩
    exact ⟨⟨_, _⟩, ⟨h₁, h₂, fun _ h => nomatch h⟩, h⟩
  · rintro ⟨draft, ⟨h₁, h₂, -⟩, h⟩
    exact ⟨_, h₁, _, h₂, h⟩

theorem takes_metadata (n : Nat) : Takes (metadataShape.read n) := metadataSlots.takes n

def cellFields : List (Slot CellDraft) := [
  .ofReader "cell_type".toList (·.kind) (fun d x => { d with kind := some x })
    cellKind CellKind.ofTree? (fun _ _ => rfl)
    reads_cellKind takes_cellKind,
  .ofReader "source".toList (·.source) (fun d x => { d with source := some x })
    cellSource (Tree.orNull? CellSource.ofTree?) (fun _ _ => rfl)
    reads_cellSource takes_cellSource,
  .ofReader "metadata".toList (·.metadata) (fun d x => { d with metadata := some x })
    Reader.map Tree.object? (fun _ _ => rfl)
    reads_map takes_map,
  .ofReader "execution_count".toList (·.executionCount)
    (fun d x => { d with executionCount := some x })
    (fun _ => optional (unsigned 64)) (Tree.orNull? (Tree.unsigned? 64)) (fun _ _ => rfl)
    (fun n => reads_optional (reads_unsigned 64 n)) (fun _ => takes_optional (takes_unsigned 64)),
  .ofReader "outputs".toList (·.outputs) (fun d x => { d with outputs := some x })
    (fun n => sequence n value) (Tree.list? Tree.value?) (fun _ _ => rfl)
    (reads_sequence reads_value) (takes_sequence takes_value)]

/-- The slots of a cell. -/
def cellSlots : cellShape.Slots where
  slots := cellFields
  fields_eq := rfl
  apart := by
    simp only [cellFields, List.pairwise_cons, List.forall_mem_cons, List.not_mem_nil,
      false_implies, implies_true, List.Pairwise.nil, and_true]
    refine ⟨⟨?_, ?_, ?_, ?_⟩, ⟨?_, ?_, ?_⟩, ⟨?_, ?_⟩, ?_⟩ <;>
      exact ⟨by decide, fun _ _ => rfl, fun _ _ => rfl⟩
  get_start := by
    simp only [cellFields, List.forall_mem_cons]
    exact ⟨rfl, rfl, rfl, rfl, rfl, fun _ hS => nomatch hS⟩
  ext := by
    rintro ⟨⟩ ⟨⟩ h
    simp only [cellFields, List.forall_mem_cons] at h
    obtain ⟨h₁, h₂, h₃, h₄, h₅, -⟩ := h
    cases h₁
    cases h₂
    cases h₃
    cases h₄
    cases h₅
    rfl

theorem reads_cell (n : Nat) : Reads n (cellShape.read n) StoredCell.ofTree? := by
  refine cellSlots.reads_of_iff StoredCell.fieldNames rfl ?_ n
  intro t result
  simp only [StoredCell.ofTree?, Option.bind_eq_bind, Option.bind_eq_some_iff]
  refine exists_congr fun entries => and_congr_right fun _ => ?_
  simp only [RecordShape.Slots.Fits, cellSlots, cellFields, List.forall_mem_cons]
  constructor
  · rintro ⟨_, h₁, _, h₂, _, h₃, _, h₄, _, h₅, h⟩
    exact ⟨⟨_, _, _, _, _⟩, ⟨h₁, h₂, h₃, h₄, h₅, fun _ h => nomatch h⟩, h⟩
  · rintro ⟨draft, ⟨h₁, h₂, h₃, h₄, h₅, -⟩, h⟩
    exact ⟨_, h₁, _, h₂, _, h₃, _, h₄, _, h₅, h⟩

theorem takes_cell (n : Nat) : Takes (cellShape.read n) := cellSlots.takes n

def notebookFields : List (Slot NotebookDraft) := [
  .ofReader "cells".toList (·.cells) (fun d x => { d with cells := some x })
    (fun n => sequence n cellShape.read) (Tree.list? StoredCell.ofTree?) (fun _ _ => rfl)
    (reads_sequence reads_cell) (takes_sequence takes_cell),
  .ofReader "metadata".toList (·.metadata) (fun d x => { d with metadata := some x })
    metadataShape.read NotebookMetadata.ofTree? (fun _ _ => rfl)
    reads_metadata takes_metadata,
  .ofReader "nbformat".toList (·.formatMajor) (fun d x => { d with formatMajor := some x })
    (fun _ => unsigned 32) (Tree.unsigned? 32) (fun _ _ => rfl)
    (reads_unsigned 32) (fun _ => takes_unsigned 32),
  .ofReader "nbformat_minor".toList (·.formatMinor) (fun d x => { d with formatMinor := some x })
    (fun _ => unsigned 32) (Tree.unsigned? 32) (fun _ _ => rfl)
    (reads_unsigned 32) (fun _ => takes_unsigned 32)]

/-- The slots of a document. -/
def notebookSlots : notebookShape.Slots where
  slots := notebookFields
  fields_eq := rfl
  apart := by
    simp only [notebookFields, List.pairwise_cons, List.forall_mem_cons, List.not_mem_nil,
      false_implies, implies_true, List.Pairwise.nil, and_true]
    refine ⟨⟨?_, ?_, ?_⟩, ⟨?_, ?_⟩, ?_⟩ <;>
      exact ⟨by decide, fun _ _ => rfl, fun _ _ => rfl⟩
  get_start := by
    simp only [notebookFields, List.forall_mem_cons]
    exact ⟨rfl, rfl, rfl, rfl, fun _ hS => nomatch hS⟩
  ext := by
    rintro ⟨⟩ ⟨⟩ h
    simp only [notebookFields, List.forall_mem_cons] at h
    obtain ⟨h₁, h₂, h₃, h₄, -⟩ := h
    cases h₁
    cases h₂
    cases h₃
    cases h₄
    rfl

theorem reads_notebook (n : Nat) : Reads n (notebookShape.read n) Notebook.ofTree? := by
  refine notebookSlots.reads_of_iff Notebook.fieldNames rfl ?_ n
  intro t result
  simp only [Notebook.ofTree?, Option.bind_eq_bind, Option.bind_eq_some_iff]
  refine exists_congr fun entries => and_congr_right fun _ => ?_
  simp only [RecordShape.Slots.Fits, notebookSlots, notebookFields, List.forall_mem_cons]
  constructor
  · rintro ⟨_, h₁, _, h₂, _, h₃, _, h₄, h⟩
    exact ⟨⟨_, _, _, _⟩, ⟨h₁, h₂, h₃, h₄, fun _ h => nomatch h⟩, h⟩
  · rintro ⟨draft, ⟨h₁, h₂, h₃, h₄, -⟩, h⟩
    exact ⟨_, h₁, _, h₂, _, h₃, _, h₄, h⟩

theorem takes_notebook (n : Nat) : Takes (notebookShape.read n) := notebookSlots.takes n

end NotebookReader

/-! ## Documents -/

namespace Notebook

open Reader

variable {doc : Doc} {s : Text} {notebook : Notebook}

theorem parse_eq_ok_iff_run? :
    parse s = .ok notebook ↔ ∃ rest, IsBlank rest ∧
      (NotebookReader.notebookShape.read nestingLimit).run? s = some (notebook, rest) := by
  have hparse : parse s = (NotebookReader.notebookShape.read nestingLimit s).bind fun out =>
      if out.2.all isSpace then .ok out.1 else .error .malformed := rfl
  rw [hparse, run?]
  cases NotebookReader.notebookShape.read nestingLimit s with
  | error fault => simp [Except.bind, Except.toOption]
  | ok out =>
    obtain ⟨x, rest⟩ := out
    simp only [Except.bind, Except.toOption, IsBlank, Option.some.injEq, Prod.mk.injEq]
    constructor
    · intro h
      split at h
      · cases h
        exact ⟨rest, ‹_›, rfl, rfl⟩
      · cases h
    · rintro ⟨_, hrest, rfl, rfl⟩
      rw [if_pos hrest]

/-- A text of the grammar holds the notebook that its tree conforms to, and none if
the tree does not conform. -/
theorem parse_eq_ok_iff_of_fills (h : doc.Fills s) :
    parse s = .ok notebook ↔ ofTree? (doc.tree nestingLimit) = some notebook := by
  obtain ⟨b, p, b', hb, hb', hp, rfl⟩ := h
  have hstops : Stops b' := by simpa using stops_blank hb' stops_nil
  rw [parse_eq_ok_iff_run?, NotebookReader.reads_notebook nestingLimit hb hp hstops]
  constructor
  · rintro ⟨rest, -, h⟩
    obtain ⟨notebook', hnotebook, h⟩ := Option.map_eq_some_iff.mp h
    cases h
    exact hnotebook
  · intro h
    exact ⟨b', hb', by rw [h]; rfl⟩

/-- Every text that holds a notebook is a text of the grammar. -/
theorem exists_fills_of_parse (h : parse s = .ok notebook) : ∃ doc : Doc, doc.Fills s := by
  obtain ⟨rest, hrest, hrun⟩ := parse_eq_ok_iff_run?.mp h
  obtain ⟨b, doc, p, hb, hp, rfl⟩ := NotebookReader.takes_notebook nestingLimit hrun
  exact ⟨doc, b, p, rest, hb, hrest, hp, rfl⟩

end Notebook

end NotebookExtract
