import NotebookExtract.Text.Lines

/-!
# Searching a text
-/

namespace NotebookExtract.Text

/-- Whether a text holds another one somewhere, in one piece. -/
def contains (text piece : Text) : Bool :=
  match text with
  | [] => piece.isEmpty
  | _ :: rest => piece.isPrefixOf text || contains rest piece

/-- A text contains exactly its infixes. -/
theorem contains_iff {text piece : Text} : contains text piece = true ↔ piece <:+: text := by
  induction text with
  | nil => simp [contains]
  | cons c rest ih => simp [contains, ih, List.infix_cons_iff]

/-- How many bytes a text has in UTF-8. -/
def utf8Length (text : Text) : Nat :=
  text.foldl (fun n c => n + c.utf8Size) 0

end NotebookExtract.Text
