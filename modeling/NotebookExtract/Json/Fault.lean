import NotebookExtract.Decimal.Binary64
import NotebookExtract.Text.Lines

/-!
# Faults of a document

A document is read once from left to right, and the first fault met is the
answer. There are three kinds: the text ends inside a value, the text is no
JSON, or a well-formed value does not fit what the reader expects there.
-/

namespace NotebookExtract.Json

/-- A number of a document: an integer of 64 bits, signed or not, or a double. -/
inductive Number where
  | int (n : Int)
  | real (x : Binary64)
deriving DecidableEq, Repr

/-- What stands where something else was expected. -/
inductive Found where
  | null
  | bool (b : Bool)
  | number (n : Number)
  | text (t : Text)
  | sequence
  | map
deriving DecidableEq, Repr

/-- What was expected. -/
inductive Wanted where
  /-- A record, read from an object or from an array of its fields. -/
  | record (name : Text)
  | sequence
  | map
  | text
  /-- An unsigned integer of so many bits. -/
  | unsigned (bits : Nat)
  /-- The value `null`. -/
  | unit
deriving DecidableEq, Repr

/-- Why a well-formed value does not fit. -/
inductive Misfit where
  | wrongType (found : Found) (wanted : Wanted)
  | outOfRange (n : Int) (wanted : Wanted)
  | repeatedField (name : Text)
  | missingField (name : Text)
  /-- An array that ends before the record's required first field. -/
  | tooShort (record : Text) (fields : Nat)
  /-- A value of none of the shapes that are allowed for it. -/
  | noAlternative (name : Text)
deriving DecidableEq, Repr

/-- Why a document cannot be read. -/
inductive Fault where
  /-- The text ends inside a value. -/
  | cutShort
  /-- The text is no JSON. -/
  | malformed
  /-- A value does not fit. -/
  | misfit (why : Misfit)
deriving DecidableEq, Repr

end NotebookExtract.Json
