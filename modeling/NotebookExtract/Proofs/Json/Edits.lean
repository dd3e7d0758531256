import Mathlib.Data.List.Nodup
import NotebookExtract.Proofs.Json.Trees
import NotebookExtract.Proofs.Lists

/-!
# Edits of a record

An edit changes one thing about a record of a document: the order of its entries, an
entry that nobody asks for, or one of its fields. The edited record is still a record,
and what it gives for its fields is what it gave before, but for the field that has
changed.
-/

namespace NotebookExtract.Json

variable {α β : Type}

/-! ## Edits of a record -/

/-- A key that names none of the fields. -/
def IsUnknown (names : List Text) (key : Literal) : Prop :=
  ∃ name, key.text? = some name ∧ name ∉ names

/-- One change of a record with these fields, where `Change` says which changes of a
field are meant: from what the field was before, which is nothing if it was absent, to
what it is after. -/
inductive RecordEdit (names : List Text) (Change : Text → Option Doc → Option Doc → Prop) :
    Doc → Doc → Prop where
  /-- The entries of an object stand in another order. -/
  | permute {entries entries' : List (Literal × Doc)} (h : entries.Perm entries') :
      RecordEdit names Change (.object entries) (.object entries')
  /-- An unknown entry comes, goes, or is exchanged. Its value is any value. It stands
  first, and a `permute` takes it to any other place. -/
  | unknown {entries : List (Literal × Doc)} {before after : Option (Literal × Doc)}
      (hbefore : ∀ entry ∈ before, IsUnknown names entry.1)
      (hafter : ∀ entry ∈ after, IsUnknown names entry.1) :
      RecordEdit names Change (.object (before.toList ++ entries))
        (.object (after.toList ++ entries))
  /-- A field of an object changes, comes or goes. It stands first, as above. -/
  | entry {name : Text} {entries : List (Literal × Doc)} {before after : Option (Literal × Doc)}
      (hbefore : ∀ entry ∈ before, entry.1.text? = some name)
      (hafter : ∀ entry ∈ after, entry.1.text? = some name)
      (hothers : ∀ entry ∈ entries, entry.1.text? ≠ some name)
      (h : Change name (before.map Prod.snd) (after.map Prod.snd)) :
      RecordEdit names Change (.object (before.toList ++ entries))
        (.object (after.toList ++ entries))
  /-- A field of an array changes. -/
  | item {name : Text} {front back : List Doc} {before after : Doc}
      (hname : names[front.length]? = some name) (h : Change name (some before) (some after)) :
      RecordEdit names Change (.array (front ++ before :: back)) (.array (front ++ after :: back))
  /-- The last field of an array changes, comes or goes. -/
  | last {name : Text} {front : List Doc} {before after : Option Doc}
      (hname : names[front.length]? = some name) (h : Change name before after) :
      RecordEdit names Change (.array (front ++ before.toList)) (.array (front ++ after.toList))

/-! ## The fields of an edited record -/

/-- The fields of an object, if all its keys can be read. -/
theorem entries?_object {n : Nat} {names : List Text} {entries : List (Literal × Doc)}
    {fields : List (Text × Tree)} :
    ((Doc.object entries).tree (n + 1)).entries? names = some fields ↔
      (∀ entry ∈ entries, entry.1.text?.isSome = true) ∧
        fields = entries.filterMap (Doc.field? n) := by
  have hsome : ∀ entry : Literal × Doc,
      (Doc.field? n entry).isSome = entry.1.text?.isSome := fun entry => by simp [Doc.field?]
  have hmapM := @Lists.mapM_eq_some_iff _ _ (Doc.field? n) entries fields
  simp only [hsome] at hmapM
  rw [← hmapM, Doc.tree_object]
  cases entries.mapM (Doc.field? n) with
  | none => simp [Tree.entries?]
  | some fields => simp [Tree.entries?]

/-- The values that an object has for a name. -/
theorem valuesOf_filterMap (n : Nat) (entries : List (Literal × Doc)) (name : Text) :
    valuesOf (entries.filterMap (Doc.field? n)) name =
      (entries.filter fun entry => entry.1.text? == some name).map fun entry => entry.2.tree n := by
  induction entries with
  | nil => rfl
  | cons entry entries ih =>
    obtain ⟨key, value⟩ := entry
    cases hkey : key.text? with
    | none => simp [Doc.field?, hkey, ih]
    | some k =>
      rw [List.filterMap_cons_some (by rw [Doc.field?, hkey]; rfl), List.filter_cons]
      by_cases hk : k = name
      · subst hk
        simp [valuesOf_cons_self, hkey, ih]
      · simp [valuesOf_cons_ne hk, hkey, hk, ih]

/-- The fields of an array, if it has not too many items. -/
theorem entries?_array {n : Nat} {names : List Text} {items : List Doc}
    {fields : List (Text × Tree)} :
    ((Doc.array items).tree (n + 1)).entries? names = some fields ↔
      items.length ≤ names.length ∧ fields = names.zip (items.map (Doc.tree n)) := by
  rw [Doc.tree_array, Tree.entries?, List.length_map]
  by_cases hlength : items.length ≤ names.length
  · simp [hlength, eq_comm]
  · simp [hlength]

/-- The value that an array has for a name. -/
theorem valuesOf_zip {names : List Text} (hnodup : names.Nodup) {i : Nat} {name : Text}
    (hi : names[i]? = some name) (items : List Tree) :
    valuesOf (names.zip items) name = items[i]?.toList := by
  induction names generalizing i items with
  | nil => cases hi
  | cons first names ih =>
    obtain ⟨hfirst, hnodup⟩ := List.nodup_cons.mp hnodup
    cases items with
    | nil => simp [valuesOf]
    | cons item items =>
      rw [List.zip_cons_cons]
      cases i with
      | zero =>
        obtain rfl : first = name := by simpa using hi
        have hnone : valuesOf (names.zip items) first = [] := by
          rw [valuesOf, List.map_eq_nil_iff, List.filter_eq_nil_iff]
          intro entry hentry heq
          have hmem := (List.of_mem_zip hentry).1
          rw [beq_iff_eq.mp heq] at hmem
          exact hfirst hmem
        rw [valuesOf_cons_self, hnone]
        rfl
      | succ i =>
        rw [List.getElem?_cons_succ] at hi
        have hne : first ≠ name := by
          rintro rfl
          exact hfirst (List.mem_of_getElem? hi)
        rw [valuesOf_cons_ne hne, ih hnodup hi, List.getElem?_cons_succ]

/-- What an edit leaves of a field: the values that it had, in some order, or what a
change has made of them. -/
def KeptOrChanged (n : Nat) (Change : Text → Option Doc → Option Doc → Prop)
    (fields fields' : List (Text × Tree)) (name : Text) : Prop :=
  (valuesOf fields name).Perm (valuesOf fields' name) ∨
    ∃ before after, Change name before after ∧
      valuesOf fields name = (before.map (Doc.tree n)).toList ∧
      valuesOf fields' name = (after.map (Doc.tree n)).toList

section Entries

variable {name : Text} {slot : Option (Literal × Doc)}

theorem filter_toList_of_ne (h : ∀ entry ∈ slot, entry.1.text? ≠ some name) :
    (slot.toList.filter fun entry => entry.1.text? == some name) = [] := by
  cases slot with
  | none => rfl
  | some entry => simpa using h entry rfl

theorem filter_toList_of_eq (h : ∀ entry ∈ slot, entry.1.text? = some name) :
    (slot.toList.filter fun entry => entry.1.text? == some name) = slot.toList := by
  cases slot with
  | none => rfl
  | some entry => simpa using h entry rfl

end Entries

section Edits

variable {names : List Text} {Change : Text → Option Doc → Option Doc → Prop} {n : Nat}

/-- An unknown entry is not seen by any field. -/
theorem keptOrChanged_unknown {entries : List (Literal × Doc)}
    {before after : Option (Literal × Doc)} (hbefore : ∀ entry ∈ before, IsUnknown names entry.1)
    (hafter : ∀ entry ∈ after, IsUnknown names entry.1) {name : Text} (hname : name ∈ names) :
    KeptOrChanged n Change ((before.toList ++ entries).filterMap (Doc.field? n))
      ((after.toList ++ entries).filterMap (Doc.field? n)) name := by
  have hne : ∀ {key : Literal}, IsUnknown names key → key.text? ≠ some name := by
    rintro key ⟨k, hkey, hk⟩ heq
    obtain rfl : k = name := Option.some.inj (hkey.symm.trans heq)
    exact hk hname
  left
  rw [valuesOf_filterMap, valuesOf_filterMap, List.filter_append, List.filter_append,
    filter_toList_of_ne fun entry hentry => hne (hbefore entry hentry),
    filter_toList_of_ne fun entry hentry => hne (hafter entry hentry)]

/-- A change of one field is not seen by the others. -/
theorem keptOrChanged_entry {name : Text} {entries : List (Literal × Doc)}
    {before after : Option (Literal × Doc)}
    (hbefore : ∀ entry ∈ before, entry.1.text? = some name)
    (hafter : ∀ entry ∈ after, entry.1.text? = some name)
    (hothers : ∀ entry ∈ entries, entry.1.text? ≠ some name)
    (h : Change name (before.map Prod.snd) (after.map Prod.snd)) (other : Text) :
    KeptOrChanged n Change ((before.toList ++ entries).filterMap (Doc.field? n))
      ((after.toList ++ entries).filterMap (Doc.field? n)) other := by
  have hvalues : ∀ slot : Option (Literal × Doc), (∀ entry ∈ slot, entry.1.text? = some name) →
      valuesOf ((slot.toList ++ entries).filterMap (Doc.field? n)) name =
        ((slot.map Prod.snd).map (Doc.tree n)).toList := by
    intro slot hentry
    have hnone : entries.filter (fun entry => entry.1.text? == some name) = [] := by
      simpa [List.filter_eq_nil_iff] using hothers
    rw [valuesOf_filterMap, List.filter_append, filter_toList_of_eq hentry, hnone]
    cases slot <;> rfl
  by_cases hother : other = name
  · -- the field stands in no other place, so the change is all that is seen of it
    subst hother
    exact .inr ⟨_, _, h, hvalues before hbefore, hvalues after hafter⟩
  · have hne : ∀ {key : Literal}, key.text? = some name → key.text? ≠ some other := by
      intro key hkey heq
      exact hother (Option.some.inj (heq.symm.trans hkey))
    left
    rw [valuesOf_filterMap, valuesOf_filterMap, List.filter_append, List.filter_append,
      filter_toList_of_ne fun entry hentry => hne (hbefore entry hentry),
      filter_toList_of_ne fun entry hentry => hne (hafter entry hentry)]

theorem getElem?_append_of_ne {front back back' : List α} (h : ∀ k, back[k + 1]? = back'[k + 1]?)
    {j : Nat} (hj : j ≠ front.length) : (front ++ back)[j]? = (front ++ back')[j]? := by
  rw [List.getElem?_append, List.getElem?_append]
  split
  · rfl
  · obtain ⟨k, hk⟩ : ∃ k, j - front.length = k + 1 := ⟨j - front.length - 1, by omega⟩
    rw [hk, h]

theorem getElem?_length_append (front : List α) (last : Option α) :
    (front ++ last.toList)[front.length]? = last := by
  cases last <;> simp

/-- A change of one item is not seen by the fields that stand elsewhere. -/
theorem keptOrChanged_zip (hnodup : names.Nodup) {name : Text} {i : Nat} {items items' : List Doc}
    (hname : names[i]? = some name) (hitems : ∀ j, j ≠ i → items[j]? = items'[j]?)
    (h : Change name items[i]? items'[i]?) {other : Text} (hother : other ∈ names) :
    KeptOrChanged n Change (names.zip (items.map (Doc.tree n)))
      (names.zip (items'.map (Doc.tree n))) other := by
  -- fields are told apart by their places, since no name stands twice
  obtain ⟨j, hj⟩ := List.mem_iff_getElem?.mp hother
  by_cases hji : j = i
  · subst hji
    obtain rfl : name = other := Option.some.inj (hname.symm.trans hj)
    refine .inr ⟨_, _, h, ?_, ?_⟩ <;> rw [valuesOf_zip hnodup hname, List.getElem?_map]
  · left
    rw [valuesOf_zip hnodup hj, valuesOf_zip hnodup hj, List.getElem?_map, List.getElem?_map,
      hitems j hji]

/-- A record stands in brackets, so it needs an allowance. -/
theorem RecordEdit.allowance_pos {doc doc' : Doc} {fields : List (Text × Tree)}
    (h : RecordEdit names Change doc doc') (hfields : (doc.tree n).entries? names = some fields) :
    0 < n := by
  cases n with
  | zero => cases h <;> cases hfields
  | succ n => omega

theorem RecordEdit.tree_ne_null {doc doc' : Doc} (h : RecordEdit names Change doc doc') (n : Nat) :
    doc.tree n ≠ .null ∧ doc'.tree n ≠ .null := by
  have harray : ∀ items, (Doc.array items).tree n ≠ .null := by
    intro items
    cases n <;> simp [Doc.tree]
  have hobject : ∀ entries, (Doc.object entries).tree n ≠ .null := by
    intro entries
    cases n with
    | zero => simp [Doc.tree]
    | succ n =>
      rw [Doc.tree_object]
      split <;> simp
  cases h with
  | permute => exact ⟨hobject _, hobject _⟩
  | unknown => exact ⟨hobject _, hobject _⟩
  | entry => exact ⟨hobject _, hobject _⟩
  | item => exact ⟨harray _, harray _⟩
  | last => exact ⟨harray _, harray _⟩

/-- An edited record is a record, and its fields are as they were or have changed. -/
theorem RecordEdit.exists_entries? {doc doc' : Doc} {fields : List (Text × Tree)}
    (h : RecordEdit names Change doc doc') (hnodup : names.Nodup)
    (hfields : (doc.tree n).entries? names = some fields) :
    ∃ fields', (doc'.tree n).entries? names = some fields' ∧
      ∀ name ∈ names, KeptOrChanged (n - 1) Change fields fields' name := by
  obtain ⟨n, rfl⟩ : ∃ k, n = k + 1 := ⟨n - 1, by have := h.allowance_pos hfields; omega⟩
  cases h with
  | permute h =>
    obtain ⟨hkeys, rfl⟩ := entries?_object.mp hfields
    refine ⟨_, entries?_object.mpr ⟨fun entry hentry => hkeys entry (h.mem_iff.mpr hentry), rfl⟩,
      fun name _ => .inl ?_⟩
    rw [valuesOf_filterMap, valuesOf_filterMap]
    exact (h.filter _).map _
  | @unknown entries before after hbefore hafter =>
    obtain ⟨hkeys, rfl⟩ := entries?_object.mp hfields
    refine ⟨_, entries?_object.mpr ⟨?_, rfl⟩, fun name => keptOrChanged_unknown hbefore hafter⟩
    -- the key of the new entry can be read as well
    intro entry hentry
    rcases List.mem_append.mp hentry with hentry | hentry
    · obtain ⟨name, hname, -⟩ := hafter entry (Option.mem_toList.mp hentry)
      rw [hname]
      rfl
    · exact hkeys entry (List.mem_append_right _ hentry)
  | @entry name entries before after hbefore hafter hothers h =>
    obtain ⟨hkeys, rfl⟩ := entries?_object.mp hfields
    refine ⟨_, entries?_object.mpr ⟨?_, rfl⟩,
      fun name _ => keptOrChanged_entry hbefore hafter hothers h name⟩
    intro entry hentry
    rcases List.mem_append.mp hentry with hentry | hentry
    · rw [hafter entry (Option.mem_toList.mp hentry)]
      rfl
    · exact hkeys entry (List.mem_append_right _ hentry)
  | @item name front back before after hname h =>
    obtain ⟨hlength, rfl⟩ := entries?_array.mp hfields
    refine ⟨_, entries?_array.mpr ⟨by simpa using hlength, rfl⟩,
      fun name => keptOrChanged_zip hnodup hname ?_ ?_⟩
    · refine fun j hj => getElem?_append_of_ne (fun k => ?_) hj
      rw [List.getElem?_cons_succ, List.getElem?_cons_succ]
    · simpa using h
  | @last name front before after hname h =>
    obtain ⟨hlength, rfl⟩ := entries?_array.mp hfields
    -- the last item stands for a field, so there are not too many items after the change
    have hfront : front.length < names.length := (List.getElem?_eq_some_iff.mp hname).1
    refine ⟨_, entries?_array.mpr ⟨?_, rfl⟩,
      fun name => keptOrChanged_zip hnodup hname ?_ ?_⟩
    · cases after <;> simp <;> omega
    · refine fun j hj => getElem?_append_of_ne (fun k => ?_) hj
      cases before <;> cases after <;> rfl
    · rw [getElem?_length_append, getElem?_length_append]
      exact h

/-! ## What an edited record gives -/

/-- What a field gives: nothing if it is absent, what is wanted of its value else. -/
def Tree.absentOr? (read : Tree → Option α) : Option Tree → Option (Option α)
  | none => some none
  | some tree => (read tree).map some

theorem given?_of_toList {fields : List (Text × Tree)} {name : Text} {tree? : Option Tree}
    (h : valuesOf fields name = tree?.toList) (read : Tree → Option α) :
    given? fields name read = Tree.absentOr? read tree? := by
  unfold given?
  rw [h]
  cases tree? <;> rfl

/-- The order of the entries does not matter to what they give. -/
theorem given?_of_perm {fields fields' : List (Text × Tree)} {name : Text}
    (h : (valuesOf fields name).Perm (valuesOf fields' name)) (read : Tree → Option α) :
    given? fields name read = given? fields' name read := by
  unfold given?
  match hfields : valuesOf fields name, hfields' : valuesOf fields' name with
  | [], trees' =>
    rw [hfields, hfields'] at h
    rw [h.nil_eq]
  | [tree], trees' =>
    rw [hfields, hfields'] at h
    rw [← List.singleton_perm.mp h]
  | _ :: _ :: _, [] =>
    rw [hfields, hfields'] at h
    cases h.length_eq
  | _ :: _ :: _, [_] =>
    rw [hfields, hfields'] at h
    cases h.length_eq
  | _ :: _ :: _, _ :: _ :: _ => rfl

/-- What an edited record gives for a field that had been accepted: the same, or what
the change has made of it. -/
theorem KeptOrChanged.exists_given? {fields fields' : List (Text × Tree)} {name : Text}
    (h : KeptOrChanged n Change fields fields' name) {read : Tree → Option α} {x : Option α}
    (hx : given? fields name read = some x) (P : Option α → Prop) (hkept : P x)
    (hchange : ∀ before after, Change name before after →
      Tree.absentOr? read (before.map (Doc.tree n)) = some x →
      ∃ y, Tree.absentOr? read (after.map (Doc.tree n)) = some y ∧ P y) :
    ∃ y, given? fields' name read = some y ∧ P y := by
  rcases h with hperm | ⟨before, after, hname, hbefore, hafter⟩
  · exact ⟨x, by rw [← given?_of_perm hperm, hx], hkept⟩
  · rw [given?_of_toList hbefore] at hx
    rw [given?_of_toList hafter]
    exact hchange before after hname hx

/-- A field that no change concerns gives what it gave. -/
theorem KeptOrChanged.given?_eq {fields fields' : List (Text × Tree)} {name : Text}
    (h : KeptOrChanged n Change fields fields' name)
    (hno : ∀ before after, ¬ Change name before after) (read : Tree → Option α) :
    given? fields' name read = given? fields name read := by
  rcases h with hperm | ⟨before, after, hname, -⟩
  · exact (given?_of_perm hperm read).symm
  · exact absurd hname (hno before after)

end Edits

end NotebookExtract.Json
