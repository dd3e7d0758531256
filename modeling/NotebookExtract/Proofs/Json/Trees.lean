import Mathlib.Algebra.Group.Int.Defs
import NotebookExtract.Proofs.Json.Grammar

/-!
# What is wanted of a tree

What the readers of a document ask of a value, said of its tree: that it is a
string, a number of so many bits, a list of such things, or any value at all. A
record is a list of entries in which a field may be given once.
-/

namespace NotebookExtract.Association

variable {κ α : Type} [BEq κ] [LawfulBEq κ]

/-- Each key in the place where it stands first, with the value that it has last. -/
def lastValues : List (κ × α) → List (κ × α)
  | [] => []
  | (key, value) :: rest =>
    (key, (rest.reverse.lookup key).getD value) ::
      (lastValues rest).filter fun entry => entry.1 != key

/-- A key that is there already keeps its place, and only the others come after it. -/
theorem foldl_put_cons (key : κ) (value : α) (acc pairs : List (κ × α)) :
    pairs.foldl (fun entries pair => put entries pair.1 pair.2) ((key, value) :: acc) =
      (key, (pairs.reverse.lookup key).getD value) ::
        (pairs.filter fun pair => pair.1 != key).foldl
          (fun entries pair => put entries pair.1 pair.2) acc := by
  induction pairs generalizing value acc with
  | nil => rfl
  | cons pair pairs ih =>
    obtain ⟨k, v⟩ := pair
    by_cases hk : key = k
    · subst hk
      have hput : put ((key, value) :: acc) key v = (key, v) :: acc := by simp [put]
      rw [List.foldl_cons, hput, ih]
      cases hlookup : pairs.reverse.lookup key <;>
        simp [List.lookup_append, hlookup]
    · have hput : put ((key, value) :: acc) k v = (key, value) :: put acc k v := by simp [put, hk]
      have hne : (key == k) = false := by simpa using hk
      rw [List.foldl_cons, hput, ih]
      simp [List.lookup_append, List.lookup_cons, hne, Ne.symm hk]

theorem filter_put (key k : κ) (v : α) (entries : List (κ × α)) :
    (put entries k v).filter (fun entry => entry.1 != key) =
      if k == key then entries.filter (fun entry => entry.1 != key)
      else put (entries.filter fun entry => entry.1 != key) k v := by
  induction entries with
  | nil => by_cases hk : k = key <;> simp [put, hk]
  | cons entry entries ih =>
    obtain ⟨k', v'⟩ := entry
    by_cases hk' : k' = k
    · subst hk'
      by_cases hk : k' = key <;> simp [put, hk]
    · by_cases hk : k = key <;> by_cases hkey : k' = key <;> simp_all [put]

/-- Taking a key out of the pairs takes it out of the list. -/
theorem foldl_put_filter (key : κ) (acc pairs : List (κ × α)) :
    (pairs.filter fun pair => pair.1 != key).foldl (fun entries pair => put entries pair.1 pair.2)
        (acc.filter fun entry => entry.1 != key) =
      (pairs.foldl (fun entries pair => put entries pair.1 pair.2) acc).filter
        fun entry => entry.1 != key := by
  induction pairs generalizing acc with
  | nil => rfl
  | cons pair pairs ih =>
    obtain ⟨k, v⟩ := pair
    rw [List.foldl_cons, ← ih, filter_put]
    by_cases hk : k = key <;> simp [hk]

theorem ofList_eq_lastValues (pairs : List (κ × α)) : ofList pairs = lastValues pairs := by
  induction pairs with
  | nil => rfl
  | cons pair pairs ih =>
    obtain ⟨key, value⟩ := pair
    rw [lastValues, ← ih]
    have hcons := foldl_put_cons key value [] pairs
    have hfilter := foldl_put_filter key [] pairs
    rw [List.filter_nil] at hfilter
    rw [hfilter] at hcons
    exact hcons

end NotebookExtract.Association

namespace NotebookExtract.Json

namespace Tree

variable {α : Type}

/-! ## Values of one shape -/

/-- A string. -/
def text? : Tree → Option Text
  | .text t => some t
  | _ => none

/-- The value `null`. -/
def null? : Tree → Option Unit
  | .null => some ()
  | _ => none

/-- An unsigned integer of so many bits. -/
def unsigned? (bits : Nat) : Tree → Option Nat
  | .number (.int n) => if 0 ≤ n ∧ n < 2 ^ bits then some n.toNat else none
  | _ => none

/-- `null` for nothing, or a value. -/
def orNull? (read : Tree → Option α) : Tree → Option (Option α)
  | .null => some none
  | tree => (read tree).map some

/-- An array whose items are all read alike. -/
def list? (read : Tree → Option α) : Tree → Option (List α)
  | .array items => items.mapM read
  | _ => none

/-! ## Free values -/

mutual

/-- Any value that can be read. -/
def value? : Tree → Option Value
  | .null => some .null
  | .bool b => some (.bool b)
  | .number n => some (.number n)
  | .text t => some (.text t)
  | .array items => (values? items).map .array
  | .object entries => (fields? entries).map fun fields => .object (Association.lastValues fields)
  | .unreadable => none

/-- The values of an array. -/
def values? : List Tree → Option (List Value)
  | [] => some []
  | item :: rest => (value? item).bind fun v => (values? rest).map (v :: ·)

/-- The entries of an object. -/
def fields? : List (Text × Tree) → Option (List (Text × Value))
  | [] => some []
  | (key, item) :: rest => (value? item).bind fun v => (fields? rest).map ((key, v) :: ·)

end

/-- An object with free values. Of a repeated key the last value stays. -/
def object? : Tree → Option Object
  | .object entries => (fields? entries).map Association.lastValues
  | _ => none

theorem values?_eq_mapM (items : List Tree) : values? items = items.mapM value? := by
  induction items with
  | nil => rfl
  | cons item rest ih =>
    rw [values?, ih, List.mapM_cons]
    cases value? item <;> cases rest.mapM value? <;> rfl

theorem fields?_eq_mapM (entries : List (Text × Tree)) :
    fields? entries = entries.mapM fun entry => (value? entry.2).map (entry.1, ·) := by
  induction entries with
  | nil => rfl
  | cons entry rest ih =>
    obtain ⟨key, item⟩ := entry
    rw [fields?, ih, List.mapM_cons]
    cases value? item <;>
      cases rest.mapM fun entry : Text × Tree => (value? entry.2).map (entry.1, ·) <;> rfl

/-! ## Records -/

/-- The entries of a record with the given field names: those of an object, or the
items of an array that has no more items than the record has fields. -/
def entries? (names : List Text) : Tree → Option (List (Text × Tree))
  | .object entries => some entries
  | .array items => if items.length ≤ names.length then some (names.zip items) else none
  | _ => none

end Tree

/-- The values that entries have for a name. -/
def valuesOf (entries : List (Text × Tree)) (name : Text) : List Tree :=
  (entries.filter fun entry => entry.1 == name).map Prod.snd

theorem valuesOf_cons_self (name : Text) (t : Tree) (entries : List (Text × Tree)) :
    valuesOf ((name, t) :: entries) name = t :: valuesOf entries name := by
  simp [valuesOf]

theorem valuesOf_cons_ne {name other : Text} (h : name ≠ other) (t : Tree)
    (entries : List (Text × Tree)) :
    valuesOf ((name, t) :: entries) other = valuesOf entries other := by
  simp [valuesOf, h]

/-- What the entries give for a field: nothing if the field is absent, what is
wanted of its value if it stands there once. A field that is repeated is refused. -/
def given? {α : Type} (entries : List (Text × Tree)) (name : Text) (read : Tree → Option α) :
    Option (Option α) :=
  match valuesOf entries name with
  | [] => some none
  | [tree] => (read tree).map some
  | _ => none

end NotebookExtract.Json
