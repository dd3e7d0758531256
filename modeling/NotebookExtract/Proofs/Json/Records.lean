import Mathlib.Data.List.Pairwise
import NotebookExtract.Json.Record
import NotebookExtract.Proofs.Json.Accepted

/-!
# Records

A record is read in one pass into a draft, field by field as they come. What the
pass makes of the entries can be said field by field instead, in no order: a field
that is absent leaves its slot empty, one that stands there once fills it, and one
that is repeated spoils the record.
-/

namespace NotebookExtract.Json

variable {Draft Result : Type}

/-- A field with the place that it has in a draft and with what is wanted of its
value. -/
structure Slot (Draft : Type) where
  field : Field Draft
  Content : Type
  get : Draft → Option Content
  put : Draft → Content → Draft
  meaning : Tree → Option Content
  isSet_eq : ∀ draft, field.isSet draft = (get draft).isSome
  get_put : ∀ draft x, get (put draft x) = some x
  reads : ∀ n draft, Reader.Reads n (field.read n draft) fun t => (meaning t).map (put draft)
  takes : ∀ n draft, Reader.Takes (field.read n draft)

namespace Slot

/-- The slot of a field whose value is read by a reader of its own. -/
def ofReader {Content : Type} (name : Text) (get : Draft → Option Content)
    (put : Draft → Content → Draft) (reader : Nat → Reader Content)
    (meaning : Tree → Option Content) (get_put : ∀ draft x, get (put draft x) = some x)
    (hreads : ∀ n, Reader.Reads n (reader n) meaning) (htakes : ∀ n, Reader.Takes (reader n)) :
    Slot Draft where
  field :=
    { name := name
      isSet := fun draft => (get draft).isSome
      read := fun n draft => do return put draft (← reader n) }
  Content := Content
  get := get
  put := put
  meaning := meaning
  isSet_eq := fun _ => rfl
  get_put := get_put
  reads := by
    intro n draft b doc p rest hb hp hrest
    rw [Reader.run?_bind, hreads n hb hp hrest]
    cases hmeaning : meaning (doc.tree n) <;> simp [hmeaning]
  takes := by
    intro n draft s x rest h
    rw [Reader.run?_bind, Option.bind_eq_some_iff] at h
    obtain ⟨⟨y, out⟩, hy, h⟩ := h
    cases h
    exact htakes n hy

/-- Two slots for different fields that do not touch each other. -/
structure Apart (S T : Slot Draft) : Prop where
  name_ne : S.field.name ≠ T.field.name
  get_put : ∀ draft x, T.get (S.put draft x) = T.get draft
  get_put' : ∀ draft x, S.get (T.put draft x) = S.get draft

theorem Apart.symm {S T : Slot Draft} (h : Apart S T) : Apart T S :=
  ⟨h.name_ne.symm, h.get_put', h.get_put⟩

instance : Std.Symm (@Apart Draft) := ⟨fun _ _ h => h.symm⟩

/-! ## One pass over entries -/

/-- Fills a draft from entries, one after the other. -/
def fill (slots : List (Slot Draft)) : List (Text × Tree) → Draft → Option Draft
  | [], draft => some draft
  | (name, t) :: rest, draft =>
    match slots.find? (·.field.name == name) with
    | none => fill slots rest draft
    | some S =>
      if (S.get draft).isSome then none
      else (S.meaning t).bind fun x => fill slots rest (S.put draft x)

/-- What a slot holds after the entries: what it held already, or what they give. -/
def after (S : Slot Draft) (entries : List (Text × Tree)) (draft : Draft) :
    Option (Option S.Content) :=
  match S.get draft with
  | none => given? entries S.field.name S.meaning
  | some x => if valuesOf entries S.field.name = [] then some (some x) else none

variable {S : Slot Draft} {slots : List (Slot Draft)} {entries : List (Text × Tree)}
  {draft draft' : Draft} {name : Text} {t : Tree}

theorem fill_cons_of_none (h : slots.find? (·.field.name == name) = none) :
    fill slots ((name, t) :: entries) draft = fill slots entries draft := by
  rw [fill, h]

theorem fill_cons_of_some (h : slots.find? (·.field.name == name) = some S) :
    fill slots ((name, t) :: entries) draft =
      if (S.get draft).isSome then none
      else (S.meaning t).bind fun x => fill slots entries (S.put draft x) := by
  rw [fill, h]

theorem after_nil (S : Slot Draft) (draft : Draft) : S.after [] draft = some (S.get draft) := by
  unfold after
  cases S.get draft <;> rfl

theorem after_congr (h : S.get draft = S.get draft') :
    S.after entries draft = S.after entries draft' := by
  rw [after, after, h]

theorem after_cons_ne (h : name ≠ S.field.name) :
    S.after ((name, t) :: entries) draft = S.after entries draft := by
  rw [after, after, given?, given?, valuesOf_cons_ne h]

/-- A slot that is filled already takes no second value. -/
theorem after_cons_of_isSome (h : (S.get draft).isSome = true) :
    S.after ((S.field.name, t) :: entries) draft = none := by
  obtain ⟨x, hx⟩ := Option.isSome_iff_exists.mp h
  simp [after, hx, valuesOf_cons_self]

/-- An empty slot takes the value, and then holds it. -/
theorem after_cons_self (h : S.get draft = none) :
    S.after ((S.field.name, t) :: entries) draft =
      (S.meaning t).bind fun x => S.after entries (S.put draft x) := by
  simp only [after, h, given?, valuesOf_cons_self, S.get_put]
  cases valuesOf entries S.field.name with
  | nil => cases hmeaning : S.meaning t <;> simp [hmeaning]
  | cons => cases S.meaning t <;> rfl

/-- The pass succeeds exactly if every slot gets what the entries give for it. -/
theorem fill_eq_some_iff (hapart : slots.Pairwise Apart)
    (hext : ∀ d d', (∀ S ∈ slots, S.get d = S.get d') → d = d') :
    fill slots entries draft = some draft' ↔
      ∀ S ∈ slots, S.after entries draft = some (S.get draft') := by
  induction entries generalizing draft with
  | nil =>
    simp only [fill, after_nil, Option.some.injEq]
    refine ⟨fun h S _ => by rw [h], hext draft draft'⟩
  | cons entry entries ih =>
    obtain ⟨name, t⟩ := entry
    cases hfind : slots.find? (·.field.name == name) with
    | none =>
      -- an unknown name concerns no slot
      have hne : ∀ S ∈ slots, name ≠ S.field.name := by
        intro S hS heq
        have hnone := List.find?_eq_none.mp hfind S hS
        simp [heq] at hnone
      rw [fill_cons_of_none hfind, ih]
      exact forall₂_congr fun S hS => by rw [after_cons_ne (hne S hS)]
    | some S =>
      have hS : S ∈ slots := List.mem_of_find?_eq_some hfind
      obtain rfl : S.field.name = name := by simpa using List.find?_some hfind
      rw [fill_cons_of_some hfind]
      by_cases hset : (S.get draft).isSome = true
      · rw [if_pos hset]
        refine ⟨fun h => (nomatch h), fun h => ?_⟩
        have hafter := h S hS
        rw [after_cons_of_isSome hset] at hafter
        cases hafter
      · have hempty : S.get draft = none := by simpa using hset
        rw [if_neg hset]
        cases hmeaning : S.meaning t with
        | none =>
          refine ⟨fun h => (nomatch h), fun h => ?_⟩
          have hafter := h S hS
          rw [after_cons_self hempty, hmeaning] at hafter
          cases hafter
        | some x =>
          rw [Option.bind_some, ih]
          refine forall₂_congr fun T hT => ?_
          by_cases hTS : T = S
          · subst hTS
            rw [after_cons_self hempty, hmeaning, Option.bind_some]
          · have hST := hapart.forall hS hT (Ne.symm hTS)
            rw [after_cons_ne hST.name_ne, after_congr (hST.get_put draft x)]

end Slot

/-! ## Records with their slots -/

/-- The slots of a record: one for each of its fields, all empty at the start, and a
draft is nothing but what its slots hold. -/
structure RecordShape.Slots (shape : RecordShape Draft Result) where
  slots : List (Slot Draft)
  fields_eq : shape.fields = slots.map Slot.field
  apart : slots.Pairwise Slot.Apart
  get_start : ∀ S ∈ slots, S.get shape.start = none
  ext : ∀ draft draft', (∀ S ∈ slots, S.get draft = S.get draft') → draft = draft'

namespace RecordShape

open Reader Slot

variable {shape : RecordShape Draft Result} {n : Nat} {s rest : Text} {first : Bool}
  {draft : Draft}

/-- The names of a record's fields, in order. -/
def names (shape : RecordShape Draft Result) : List Text := shape.fields.map Field.name

/-- The draft holds in each slot what the entries give for its field. -/
def Slots.Fits (spec : shape.Slots) (entries : List (Text × Tree)) (draft : Draft) : Prop :=
  ∀ S ∈ spec.slots, given? entries S.field.name S.meaning = some (S.get draft)

theorem Slots.fill_start_eq_some_iff (spec : shape.Slots) {entries : List (Text × Tree)} :
    fill spec.slots entries shape.start = some draft ↔ spec.Fits entries draft := by
  rw [fill_eq_some_iff spec.apart spec.ext]
  exact forall₂_congr fun S hS => by rw [after, spec.get_start S hS]

/-- A field is found by its name. -/
theorem find?_fields (slots : List (Slot Draft)) (key : Text) :
    (slots.map Slot.field).find? (·.name == key) =
      (slots.find? (·.field.name == key)).map Slot.field := by
  rw [List.find?_map]
  rfl

theorem bind_mapM_field?_cons {α : Type} (n : Nat) (literal : Literal) (value : Doc)
    (entries : List (Literal × Doc)) (k : List (Text × Tree) → Option α) :
    (((literal, value) :: entries).mapM (Doc.field? n)).bind k =
      literal.text?.bind fun key => (entries.mapM (Doc.field? n)).bind fun fields =>
        k ((key, value.tree n) :: fields) := by
  rw [List.mapM_cons, Doc.field?]
  cases literal.text? with
  | none => rfl
  | some key => cases entries.mapM (Doc.field? n) <;> rfl

theorem Slots.names_eq (spec : shape.Slots) :
    shape.names = spec.slots.map (·.field.name) := by
  rw [names, spec.fields_eq, List.map_map]
  rfl

/-- No other slot has the name of a slot. -/
theorem find?_of_mem {slots : List (Slot Draft)} (hapart : slots.Pairwise Apart)
    {S : Slot Draft} (hS : S ∈ slots) : slots.find? (·.field.name == S.field.name) = some S := by
  cases hfind : slots.find? (·.field.name == S.field.name) with
  | none =>
    have hnone := List.find?_eq_none.mp hfind S hS
    simp at hnone
  | some T =>
    have hT : T.field.name = S.field.name := by simpa using List.find?_some hfind
    by_cases hne : T = S
    · rw [hne]
    · have hTS := hapart.forall (List.mem_of_find?_eq_some hfind) hS hne
      exact absurd hT hTS.name_ne

/-- The entries of an object, up to its end. -/
theorem run?_readEntries {slots : List (Slot Draft)} {entries : List (Literal × Doc)}
    (h : PrintedEntries first entries s) {fuel : Nat} (hfuel : entries.length < fuel)
    (rest : Text) :
    (readEntries n (slots.map Slot.field) fuel first draft).run? (s ++ rest) =
      ((entries.mapM (Doc.field? n)).bind fun fields => fill slots fields draft).map
        (·, '}' :: rest) := by
  induction entries generalizing first s fuel draft with
  | nil =>
    obtain ⟨fuel, rfl⟩ : ∃ k, fuel = k + 1 := ⟨fuel - 1, by omega⟩
    rw [readEntries, run?_bind, run?_moreEntries_nil h]
    rfl
  | cons entry entries ih =>
    obtain ⟨literal, value⟩ := entry
    rw [List.length_cons] at hfuel
    obtain ⟨fuel, rfl⟩ : ∃ k, fuel = k + 1 := ⟨fuel - 1, by omega⟩
    have hfuel : entries.length < fuel := by omega
    obtain ⟨k, b₁, b₂, p, s', hk, hb₁, hb₂, hp, hs, -, hmore⟩ := run?_moreEntries_entry h
    have hstops := stops_entries hs rest
    rw [readEntries, run?_bind, hmore, bind_mapM_field?_cons]
    simp only [Option.bind_some, ↓reduceIte, run?_bind, run?_string hk, find?_fields]
    cases literal.text? with
    | none => rfl
    | some key =>
      simp only [Option.map_some, Option.bind_some]
      cases hfind : slots.find? (·.field.name == key) with
      | none =>
        -- an unknown entry is passed over
        simp only [Option.map_none, run?_bind, run?_colon hb₁, Option.bind_some,
          run?_skipValue hb₂ hp hstops, ih hs hfuel, fill_cons_of_none hfind]
      | some S =>
        simp only [Option.map_some, S.isSet_eq, fill_cons_of_some hfind]
        by_cases hset : (S.get draft).isSome = true
        · -- refused before its value is read, so the value does not matter
          simp [hset]
        · simp only [hset, Bool.false_eq_true, ↓reduceIte, run?_bind, run?_colon hb₁,
            Option.bind_some, S.reads n draft hb₂ hp hstops]
          cases S.meaning (value.tree n) with
          | none => simp
          | some x =>
            simp only [Option.map_some, Option.bind_some]
            exact ih hs hfuel

/-- The items of an array that has to end where the fields do. -/
def closedItems (n : Nat) (fields : List (Field Draft)) (first : Bool) (draft : Draft) :
    Reader Draft := do
  let draft ← readItems n fields first draft
  endItems
  return draft

theorem run?_closedItems_cons (field : Field Draft) (fields : List (Field Draft)) :
    (closedItems n (field :: fields) first draft).run? s =
      ((moreItems first).run? s).bind fun more =>
        if more.1 then
          ((field.read n draft).run? more.2).bind fun out =>
            (closedItems n fields false out.1).run? out.2
        else (endItems.run? more.2).map fun out => (draft, out.2) := by
  unfold closedItems
  rw [run?_bind, readItems, run?_bind]
  cases (moreItems first).run? s with
  | none => rfl
  | some more =>
    obtain ⟨more, out⟩ := more
    cases more with
    | false =>
      simp only [Option.bind_some, Bool.false_eq_true, ↓reduceIte, run?_pure, run?_bind]
      cases endItems.run? out <;> rfl
    | true =>
      simp only [Option.bind_some, ↓reduceIte, run?_bind]
      cases (field.read n draft).run? out <;> rfl

/-- Where another item follows, an array does not end. -/
theorem run?_endItems_item {item : Doc} {items : List Doc}
    (h : PrintedItems first (item :: items) s) (rest : Text) :
    endItems.run? (s ++ rest) = none := by
  have hne : ∀ {b c tail}, IsBlank b → isSpace c = false → c ≠ ']' →
      endItems.run? (b ++ c :: tail) = none := by
    intro b c tail hb hspace hc
    unfold endItems
    rw [run?_bind, run?_peekToken_cons hb hspace, Option.bind_some]
    split <;> simp_all
  cases h with
  | first hb hp hs =>
    obtain ⟨c, tail, hc, rfl⟩ := exists_start hp
    simpa using hne hb hc.isSpace_eq hc.ne_closing.1
  | next hb hb' hp hs => simpa using hne hb (by decide) (by decide)

/-- The items of an array fill the slots in order, if there are not too many. -/
theorem run?_closedItems {slots todo : List (Slot Draft)} {items : List Doc}
    (hfind : ∀ S ∈ todo, slots.find? (·.field.name == S.field.name) = some S)
    (hapart : todo.Pairwise Apart) (hempty : ∀ S ∈ todo, S.get draft = none)
    (h : PrintedItems first items s) (rest : Text) :
    (closedItems n (todo.map Slot.field) first draft).run? (s ++ rest) =
      if items.length ≤ todo.length then
        (fill slots ((todo.map (·.field.name)).zip (items.map (Doc.tree n))) draft).map (·, rest)
      else none := by
  induction todo generalizing first s items draft with
  | nil =>
    show (endItems >>= fun _ => pure draft : Reader Draft).run? (s ++ rest) = _
    rw [run?_bind]
    cases items with
    | nil =>
      have hend : endItems.run? (s ++ rest) = some ((), rest) := by
        cases h with
        | close hb => exact (isToken_endItems _ _).mpr ⟨_, hb, by simp⟩
      rw [hend]
      rfl
    | cons item items =>
      rw [run?_endItems_item h]
      rfl
  | cons S todo ih =>
    rw [List.map_cons, run?_closedItems_cons]
    cases items with
    | nil =>
      rw [run?_moreItems_nil h]
      simp [run?_endItems, fill]
    | cons item items =>
      obtain ⟨p, s', hp, hs, -, hmore⟩ := run?_moreItems_item h
      have hS := hfind S List.mem_cons_self
      have hread := (S.reads n draft).run?_eq hp (stops_items hs rest)
      rw [List.pairwise_cons] at hapart
      simp only [hmore, Option.bind_some, ↓reduceIte, hread, List.map_cons, List.zip_cons_cons,
        fill_cons_of_some hS, hempty S List.mem_cons_self, Option.isSome_none, Bool.false_eq_true,
        List.length_cons, Nat.add_le_add_iff_right]
      cases S.meaning (item.tree n) with
      | none => simp
      | some x =>
        simp only [Option.map_some, Option.bind_some]
        -- the other slots are as empty as before
        refine ih (fun T hT => hfind T (List.mem_cons_of_mem S hT)) hapart.2 ?_ hs
        intro T hT
        rw [(hapart.1 T hT).get_put]
        exact hempty T (List.mem_cons_of_mem S hT)

/-- The entries of an object, with its end. -/
def closedEntries (n : Nat) (fields : List (Field Draft)) (draft : Draft) : Reader Draft := do
  let draft ← readEntries n fields (← rounds) true draft
  endEntries
  return draft

theorem run?_closedEntries {slots : List (Slot Draft)} {entries : List (Literal × Doc)}
    (h : PrintedEntries true entries s) (rest : Text) :
    (closedEntries n (slots.map Slot.field) draft).run? (s ++ rest) =
      ((entries.mapM (Doc.field? n)).bind fun fields => fill slots fields draft).map (·, rest) := by
  have hlength := length_lt_of_printedEntries h
  unfold closedEntries
  rw [run?_bind, run?_rounds, Option.bind_some, run?_bind,
    run?_readEntries h (by simp; omega) rest]
  cases (entries.mapM (Doc.field? n)).bind fun fields => fill slots fields draft with
  | none => rfl
  | some draft' => simp [run?_endEntries]

/-- Whether a draft is finished before or after its end is read makes no difference
to what is accepted. -/
theorem run?_finish (r : Reader Draft) (close : Reader Unit) (finish : Draft → Option Result)
    (why : Misfit) (s : Text) :
    (r >>= fun draft =>
      match finish draft with
      | some result => close >>= fun _ => pure result
      | none => misfit why).run? s =
      ((r >>= fun draft => close >>= fun _ => pure draft).run? s).bind fun out =>
        (finish out.1).map (·, out.2) := by
  rw [run?_bind, run?_bind]
  cases r.run? s with
  | none => rfl
  | some out =>
    obtain ⟨draft, out⟩ := out
    simp only [Option.bind_some, run?_bind]
    cases hfinish : finish draft with
    | none => cases close.run? out <;> simp [hfinish]
    | some result => cases hclose : close.run? out <;> simp [hfinish, hclose]

/-- A record is read up to its end and then finished. -/
theorem run?_read (shape : RecordShape Draft Result) (n : Nat) (s : Text) :
    (shape.read n).run? s =
      (if (s.dropWhile isSpace).head? = some '[' then
        (deeper n fun k => advance >>= fun _ =>
          closedItems k shape.fields true shape.start).run? (s.dropWhile isSpace)
      else if (s.dropWhile isSpace).head? = some '{' then
        (deeper n fun k => advance >>= fun _ =>
          closedEntries k shape.fields shape.start).run? (s.dropWhile isSpace)
      else none).bind fun out => (shape.finish out.1).map (·, out.2) := by
  unfold read
  rw [run?_bind, run?_peekToken, Option.bind_some]
  split
  · rename_i hhead
    rw [if_pos hhead]
    cases n with
    | zero => rfl
    | succ n =>
      simp only [deeper]
      rw [run?_bind, run?_bind, run?_advance, Option.bind_some, Option.bind_some]
      exact run?_finish _ endItems shape.finish _ _
  · rename_i hhead
    have hne : (s.dropWhile isSpace).head? ≠ some '[' := by
      rw [show (s.dropWhile isSpace).head? = some '{' from hhead]
      decide
    rw [if_neg hne, if_pos hhead]
    cases n with
    | zero => rfl
    | succ n =>
      simp only [deeper]
      rw [run?_bind, run?_bind, run?_advance, Option.bind_some, Option.bind_some]
      unfold closedEntries
      rw [run?_bind, run?_bind, run?_rounds, Option.bind_some, Option.bind_some]
      exact run?_finish _ endEntries shape.finish _ _
  · rename_i harray hobject
    rw [if_neg harray, if_neg hobject, run?_unexpected]
    rfl

/-- A record is read as its entries say, each field by itself. -/
theorem Slots.reads (spec : shape.Slots) (n : Nat) :
    Reads n (shape.read n) fun t => (t.entries? shape.names).bind fun entries =>
      (fill spec.slots entries shape.start).bind shape.finish := by
  intro b doc p rest hb hp hrest
  obtain ⟨c, hc, hhead, hdrop⟩ := dropWhile_printed hb hp rest
  rw [run?_read, hdrop, hhead]
  by_cases harray : c = '['
  · subst harray
    obtain ⟨items, rfl⟩ := hc.exists_array
    cases hp with
    | array h =>
      rw [if_pos rfl]
      cases n with
      | zero => rfl
      | succ n =>
        simp only [deeper, List.cons_append]
        rw [run?_bind, run?_advance, Option.bind_some, List.drop_one, List.tail_cons,
          spec.fields_eq, run?_closedItems (fun S hS => find?_of_mem spec.apart hS) spec.apart
            spec.get_start h, Doc.tree_array, Tree.entries?, List.length_map, spec.names_eq,
          List.length_map]
        split
        · rw [Option.bind_some]
          cases fill spec.slots _ shape.start with
          | none => rfl
          | some draft => rfl
        · rfl
  · by_cases hobject : c = '{'
    · subst hobject
      obtain ⟨entries, rfl⟩ := hc.exists_object
      cases hp with
      | object h =>
        rw [if_neg (by decide), if_pos rfl]
        cases n with
        | zero => rfl
        | succ n =>
          simp only [deeper, List.cons_append]
          rw [run?_bind, run?_advance, Option.bind_some, List.drop_one, List.tail_cons,
            spec.fields_eq, run?_closedEntries h, Doc.tree_object]
          cases entries.mapM (Doc.field? n) with
          | none => rfl
          | some fields =>
            simp only [Option.bind_some, Tree.entries?]
            cases fill spec.slots fields shape.start with
            | none => rfl
            | some draft => rfl
    · rw [if_neg fun heq => harray (Option.some.inj heq),
        if_neg fun heq => hobject (Option.some.inj heq)]
      simp only [(hc.tree n).entries?_eq_none harray hobject, Option.bind_none, Option.map_none]

/-- A record is read as a schema says that asks for one fitting draft. -/
theorem Slots.reads_of_iff (spec : shape.Slots) (names : List Text) (hnames : shape.names = names)
    {ofTree? : Tree → Option Result}
    (h : ∀ t result, ofTree? t = some result ↔ ∃ entries, t.entries? names = some entries ∧
      ∃ draft, spec.Fits entries draft ∧ shape.finish draft = some result) (n : Nat) :
    Reads n (shape.read n) ofTree? := by
  have heq : ofTree? = fun t => (t.entries? shape.names).bind fun entries =>
      (fill spec.slots entries shape.start).bind shape.finish := by
    funext t
    refine Option.ext fun result => ?_
    rw [h, hnames]
    simp only [Option.bind_eq_some_iff, spec.fill_start_eq_some_iff]
  rw [heq]
  exact spec.reads n

/-! ## What is read as a record is a value -/

/-- The items that fill a record, up to the end of the array. -/
theorem of_run?_closedItems {fields : List (Field Draft)} {draft' : Draft}
    (hfields : ∀ field ∈ fields, ∀ n draft, Takes (field.read n draft))
    (h : (closedItems n fields first draft).run? s = some (draft', rest)) :
    ∃ docs t, PrintedItems first docs t ∧ s = t ++ rest := by
  induction fields generalizing first s draft with
  | nil =>
    -- all fields are filled, and the array has to end
    change (endItems >>= fun _ => pure draft : Reader Draft).run? s = _ at h
    rw [run?_bind, Option.bind_eq_some_iff] at h
    obtain ⟨⟨⟨⟩, out⟩, hend, h⟩ := h
    cases h
    obtain ⟨b, hb, rfl⟩ := (isToken_endItems _ _).mp hend
    exact ⟨[], b ++ [']'], .close hb, by simp⟩
  | cons field fields ih =>
    rw [run?_closedItems_cons, Option.bind_eq_some_iff] at h
    obtain ⟨⟨more, out⟩, hmore, h⟩ := h
    cases more with
    | false =>
      simp only [Bool.false_eq_true, ↓reduceIte, Option.map_eq_some_iff] at h
      obtain ⟨⟨⟨⟩, out'⟩, hend, h⟩ := h
      cases h
      exact ⟨[], printedItems_close hmore hend⟩
    | true =>
      simp only [↓reduceIte, Option.bind_eq_some_iff] at h
      obtain ⟨⟨draft₁, out₁⟩, hread, h⟩ := h
      obtain ⟨b, doc, p, hb, hp, rfl⟩ := hfields field List.mem_cons_self n draft hread
      obtain ⟨docs, t, ht, rfl⟩ := ih (fun f hf => hfields f (List.mem_cons_of_mem field hf)) h
      exact ⟨doc :: docs, printedItems_cons hmore hb hp ht⟩

/-- The entries that fill a record, up to the end of the object. -/
theorem of_run?_readEntries {fields : List (Field Draft)} {fuel : Nat} {draft' : Draft} {out : Text}
    (hfields : ∀ field ∈ fields, ∀ n draft, Takes (field.read n draft))
    (h : (readEntries n fields fuel first draft).run? s = some (draft', out))
    (hend : endEntries.run? out = some ((), rest)) :
    ∃ docs t, PrintedEntries first docs t ∧ s = t ++ rest := by
  induction fuel generalizing first s draft with
  | zero => cases h
  | succ fuel ih =>
    rw [readEntries, run?_bind, Option.bind_eq_some_iff] at h
    obtain ⟨⟨more, out₀⟩, hmore, h⟩ := h
    cases more with
    | false =>
      cases h
      exact ⟨[], printedEntries_close hmore hend⟩
    | true =>
      -- a known entry is read into the draft, any other is passed over
      have hentry : ∀ {key : Text} {out₁ out₂ out₃ : Text} {draft₁ : Draft},
          string.run? out₀ = some (key, out₁) → colon.run? out₁ = some ((), out₂) →
          (∃ b doc p, IsBlank b ∧ Printed doc p ∧ out₂ = b ++ (p ++ out₃)) →
          (readEntries n fields fuel false draft₁).run? out₃ = some (draft', out) →
          ∃ docs t, PrintedEntries first docs t ∧ s = t ++ rest := by
        rintro key out₁ out₂ out₃ draft₁ hkey hcolon ⟨b₂, doc, p, hb₂, hp, rfl⟩ hrest
        obtain ⟨l, k, hk, rfl⟩ := of_run?_string hkey
        obtain ⟨b₁, hb₁, rfl⟩ := (isToken_colon _ _).mp hcolon
        obtain ⟨docs, t, ht, rfl⟩ := ih hrest
        exact ⟨(l, doc) :: docs, printedEntries_cons hmore hk hb₁ hb₂ hp ht⟩
      simp only [↓reduceIte, run?_bind, Option.bind_eq_some_iff] at h
      obtain ⟨⟨key, out₁⟩, hkey, h⟩ := h
      split at h
      · rename_i field hfind
        split at h
        · cases h
        · simp only [run?_bind, Option.bind_eq_some_iff] at h
          obtain ⟨⟨⟨⟩, out₂⟩, hcolon, ⟨draft₁, out₃⟩, hread, h⟩ := h
          exact hentry hkey hcolon (hfields field (List.mem_of_find?_eq_some hfind) n draft hread) h
      · simp only [run?_bind, Option.bind_eq_some_iff] at h
        obtain ⟨⟨⟨⟩, out₂⟩, hcolon, ⟨⟨⟩, out₃⟩, hskip, h⟩ := h
        exact hentry hkey hcolon (of_run?_skipValue hskip) h

theorem Slots.takes (spec : shape.Slots) (n : Nat) : Takes (shape.read n) := by
  have hfields : ∀ field ∈ shape.fields, ∀ n draft, Takes (field.read n draft) := by
    intro field hfield
    rw [spec.fields_eq] at hfield
    obtain ⟨S, -, rfl⟩ := List.mem_map.mp hfield
    exact S.takes
  have hitems : ∀ n, TakesHere '[' (advance >>= fun _ =>
      closedItems n shape.fields true shape.start) := by
    intro n s draft rest hhead h
    obtain ⟨tail, rfl⟩ := List.head?_eq_some_iff.mp hhead
    rw [run?_bind, run?_advance, Option.bind_some] at h
    obtain ⟨docs, t, ht, hs⟩ := of_run?_closedItems hfields h
    exact ⟨.array docs, '[' :: t, .array ht, congrArg (List.cons '[') hs⟩
  have hentries : ∀ n, TakesHere '{' (advance >>= fun _ =>
      closedEntries n shape.fields shape.start) := by
    intro n s draft rest hhead h
    obtain ⟨tail, rfl⟩ := List.head?_eq_some_iff.mp hhead
    unfold closedEntries at h
    simp only [run?_bind, run?_advance, run?_rounds, Option.bind_some,
      Option.bind_eq_some_iff] at h
    obtain ⟨⟨draft', out⟩, hread, ⟨⟨⟩, out'⟩, hend, h⟩ := h
    cases h
    obtain ⟨docs, t, ht, hs⟩ := of_run?_readEntries hfields hread hend
    exact ⟨.object docs, '{' :: t, .object ht, congrArg (List.cons '{') hs⟩
  intro s x rest h
  rw [run?_read, Option.bind_eq_some_iff] at h
  obtain ⟨⟨draft, out⟩, h, hfinish⟩ := h
  rw [Option.map_eq_some_iff] at hfinish
  obtain ⟨y, -, hy⟩ := hfinish
  cases hy
  split at h
  · rename_i hhead
    obtain ⟨doc, p, hp, hdrop⟩ := TakesHere.deeper hitems n hhead h
    exact exists_of_dropWhile hp hdrop
  · split at h
    · rename_i hhead
      obtain ⟨doc, p, hp, hdrop⟩ := TakesHere.deeper hentries n hhead h
      exact exists_of_dropWhile hp hdrop
    · cases h

end RecordShape

end NotebookExtract.Json
