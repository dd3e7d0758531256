import NotebookExtract.Json.Wording
import NotebookExtract.Notebook.Reader
import NotebookExtract.Text.Utf8

/-!
# Loading a notebook

A notebook comes as the bytes of a file or of a stream. Loading fails when
there is nothing to read, when the bytes are no text, and when the text is no
notebook.
-/

namespace NotebookExtract

/-- Why a file or a stream cannot be read or written. -/
inductive FileFailure where
  /-- Nothing is there. -/
  | notFound
  /-- It is not allowed. -/
  | denied
  /-- A path goes on behind something that is no folder. -/
  | notAFolder
  /-- What is there is a folder. -/
  | isAFolder
  /-- There is no room. -/
  | noSpace
  /-- A path or a name on it is too long. -/
  | nameTooLong
  /-- A path leads through too many links. -/
  | tooManyLinks
  /-- The bytes are not UTF-8. -/
  | notText
deriving DecidableEq, Repr

/-- Why there is no notebook. -/
inductive LoadFailure where
  | unreadable (why : FileFailure)
  | invalid (fault : Json.Fault)
deriving DecidableEq, Repr

namespace FileFailure

/-- A failure, in words. -/
def describe : FileFailure → Text
  | .notFound => "No such file or directory (os error 2)".toList
  | .denied => "Permission denied (os error 13)".toList
  | .notAFolder => "Not a directory (os error 20)".toList
  | .isAFolder => "Is a directory (os error 21)".toList
  | .noSpace => "No space left on device (os error 28)".toList
  | .nameTooLong => "File name too long (os error 36)".toList
  | .tooManyLinks => "Too many levels of symbolic links (os error 40)".toList
  | .notText => "stream did not contain valid UTF-8".toList

end FileFailure

namespace LoadFailure

/-- What went wrong, in general. -/
def headline : LoadFailure → Text
  | .unreadable _ => "failed to read notebook".toList
  | .invalid _ => "invalid notebook JSON".toList

/-- What went wrong, in particular, where there are words for it. -/
def detail? : LoadFailure → Option Text
  | .unreadable why => some why.describe
  | .invalid (.misfit why) => some why.describe
  | .invalid _ => none

/-- A load failure, in words. -/
def message (failure : LoadFailure) : Text :=
  match failure.detail? with
  | none => failure.headline
  | some detail => failure.headline ++ ": ".toList ++ detail

end LoadFailure

namespace Notebook

/-- The notebook that a text holds. -/
def ofText (document : Text) : Except LoadFailure Notebook :=
  match parse document with
  | .ok notebook => .ok notebook
  | .error fault => .error (.invalid fault)

/-- The notebook that some bytes hold, if there are any to be had. -/
def ofBytes (bytes : Except FileFailure Bytes) : Except LoadFailure Notebook :=
  match bytes with
  | .error why => .error (.unreadable why)
  | .ok bytes =>
    match Text.ofUtf8? bytes with
    | none => .error (.unreadable .notText)
    | some document => ofText document

end Notebook

end NotebookExtract
