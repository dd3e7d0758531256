import NotebookExtract.Text.Digits
import NotebookExtract.Toml.Reader

/-!
# Dates of TOML

A day of the calendar, a time of day, or both, and with both the distance from
universal time. They are checked and then kept as they are written. A string may
spell a date in the same way.
-/

namespace NotebookExtract.Toml.Reader

/-- So many digits, whose value lies between the bounds. -/
def digitsWithin (n low high : Nat) : Reader Nat := do
  let value := Text.ofDigits 10 (← exactly n Char.isDigit)
  if low ≤ value ∧ value ≤ high then return value else failure

/-- How many days a month has. -/
def monthLength (year month : Nat) : Nat :=
  if month = 2 then
    if year % 4 = 0 ∧ (year % 100 ≠ 0 ∨ year % 400 = 0) then 29 else 28
  else if month = 4 ∨ month = 6 ∨ month = 9 ∨ month = 11 then 30
  else 31

/-- A day of the calendar. -/
def date : Reader Unit := do
  let year ← digitsWithin 4 0 9999
  word ['-']
  let month ← digitsWithin 2 1 12
  word ['-']
  let _ ← digitsWithin 2 1 (monthLength year month)

/-- A time of day; a minute may have a leap second. -/
def time : Reader Unit := do
  let _ ← digitsWithin 2 0 23
  word [':']
  let _ ← digitsWithin 2 0 59
  word [':']
  let _ ← digitsWithin 2 0 60
  match ← get with
  | '.' :: c :: _ =>
    if c.isDigit then
      advance
      let _ ← takeRun Char.isDigit
  | _ => pure ()

/-- The distance from universal time, if it is given. -/
def offset : Reader Unit := do
  match ← peek with
  | some 'Z' | some 'z' => advance
  | some '+' | some '-' =>
    advance
    let _ ← digitsWithin 2 0 23
    word [':']
    let _ ← digitsWithin 2 0 59
  | _ => pure ()

/-- Whether the text starts like a time of day. -/
def startsTime (s : Text) : Bool :=
  match s with
  | a :: b :: ':' :: _ => a.isDigit && b.isDigit && Text.ofDigits 10 [a, b] ≤ 23
  | _ => false

/-- Whether the text starts like a day of the calendar. -/
def startsDate (s : Text) : Bool :=
  (s.take 4).all Char.isDigit && (s.drop 4).head? == some '-'

/-- A day, and a time after it if one follows. -/
def dateTime : Reader Unit := do
  date
  match ← get with
  | c :: rest =>
    if (c = 'T' ∨ c = 't' ∨ c = ' ') ∧ startsTime rest = true then
      advance
      time
      offset
  | [] => pure ()

/-- A reader that yields what it has passed over. -/
def spelled (reader : Reader Unit) : Reader Text := fun s =>
  match reader s with
  | none => none
  | some ((), rest) => some (s.take (s.length - rest.length), rest)

/-- A date or a time as it is written, if one starts here. -/
def date? : Reader (Option Text) := do
  let s ← get
  if startsDate s then
    return some (← spelled dateTime)
  else if startsTime s then
    return some (← spelled time)
  else
    return none

/-- Whether a text is a date or a time and nothing more. -/
def isDate (s : Text) : Bool :=
  match date? s with
  | some (some _, []) => true
  | _ => false

end NotebookExtract.Toml.Reader
