/-!
# Association lists

Keys with values, in the order in which the keys came. Giving a key that is there
a new value keeps its place, so every key stands once in a list that is built by
`put` and `erase` alone, and looking a key up finds what it was given last.
-/

namespace NotebookExtract.Association

variable {κ α : Type} [BEq κ]

/-- Gives a key its value: in place if the key is there, else at the end. -/
def put : List (κ × α) → κ → α → List (κ × α)
  | [], key, value => [(key, value)]
  | (k, v) :: rest, key, value =>
    if k == key then (k, value) :: rest else (k, v) :: put rest key value

/-- Takes a key out. -/
def erase (entries : List (κ × α)) (key : κ) : List (κ × α) :=
  entries.filter fun entry => entry.1 != key

/-- The list that pairs make one after the other. -/
def ofList (pairs : List (κ × α)) : List (κ × α) :=
  pairs.foldl (fun entries (key, value) => put entries key value) []

/-- A key has the value that it was given last, and the other keys keep theirs. -/
theorem lookup_put [LawfulBEq κ] (entries : List (κ × α)) (key k : κ) (value : α) :
    (put entries key value).lookup k =
      if k == key then some value else entries.lookup k := by
  induction entries with
  | nil => by_cases h : k == key <;> simp [put, List.lookup_cons, h]
  | cons entry rest ih =>
    obtain ⟨k', v'⟩ := entry
    by_cases hk : k' == key
    · have hk' : k' = key := eq_of_beq hk
      subst hk'
      by_cases h : k == k' <;> simp [put, List.lookup_cons, h]
    · have hput : put ((k', v') :: rest) key value = (k', v') :: put rest key value := by
        simp [put, hk]
      rw [hput]
      by_cases h : k == k'
      · have hne : (k == key) = false := by
          rw [eq_of_beq h]
          simpa using hk
        simp [List.lookup_cons, h, hne]
      · simp [List.lookup_cons, h, ih]

end NotebookExtract.Association
