import NotebookExtract.Json.Skip

/-!
# Records

A record has a name and fields. It is read from an object, in which the fields
stand in any order and unknown ones are skipped, or from an array of its fields
in order, which may end early. A field may stand in an object only once. At most
one field is required, and that is the first.
-/

namespace NotebookExtract.Json

/-- A field of a record that is being filled in. -/
structure Field (Draft : Type) where
  name : Text
  /-- Whether the draft has the field already. -/
  isSet : Draft → Bool
  /-- Reads the field's value into the draft. -/
  read : Nat → Draft → Reader Draft

/-- How a record is read. -/
structure RecordShape (Draft Result : Type) where
  name : Text
  fields : List (Field Draft)
  /-- The draft before any field is read. -/
  start : Draft
  /-- The record of a draft, unless the required field is missing. -/
  finish : Draft → Option Result

namespace RecordShape

variable {Draft Result : Type}

/-- The name of the field that has to be there if any has to. -/
def firstField (shape : RecordShape Draft Result) : Text :=
  match shape.fields with
  | [] => []
  | field :: _ => field.name

/-- The fields of an array in order, up to the end of either. -/
def readItems (allowance : Nat) : List (Field Draft) → Bool → Draft → Reader Draft
  | [], _, draft => pure draft
  | field :: rest, first, draft => do
    if ← Reader.moreItems first then
      readItems allowance rest false (← field.read allowance draft)
    else
      return draft

/-- The entries of an object, up to its end. A repeated field is refused at its
key, before its value. -/
def readEntries (allowance : Nat) (fields : List (Field Draft)) :
    Nat → Bool → Draft → Reader Draft
  | 0, _, _ => Reader.malformed
  | fuel + 1, first, draft => do
    if ← Reader.moreEntries first then
      let key ← Reader.string
      match fields.find? (·.name == key) with
      | some field =>
        if field.isSet draft then
          Reader.misfit (.repeatedField field.name)
        else
          Reader.colon
          readEntries allowance fields fuel false (← field.read allowance draft)
      | none =>
        Reader.colon
        Reader.skipValue
        readEntries allowance fields fuel false draft
    else
      return draft

/-- A record, from an object or from an array. -/
def read (shape : RecordShape Draft Result) (allowance : Nat) : Reader Result := do
  match ← Reader.peekToken with
  | some '[' => Reader.deeper allowance fun n => do
    Reader.advance
    match shape.finish (← readItems n shape.fields true shape.start) with
    | some result =>
      Reader.endItems
      return result
    | none => Reader.misfit (.tooShort shape.name shape.fields.length)
  | some '{' => Reader.deeper allowance fun n => do
    Reader.advance
    match shape.finish (← readEntries n shape.fields (← Reader.rounds) true shape.start) with
    | some result =>
      Reader.endEntries
      return result
    | none => Reader.misfit (.missingField shape.firstField)
  | _ => Reader.unexpected (.record shape.name)

end RecordShape

end NotebookExtract.Json
