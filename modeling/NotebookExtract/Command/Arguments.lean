import NotebookExtract.Artifact.Render
import NotebookExtract.Text.Utf8

/-!
# Command-line arguments

Arguments are strings of bytes and are read from left to right. An option has a long name after two
dashes and some have a letter after one; letters may stand together, and the
first that wants a value takes the rest. A value may be attached to its option or
be the next argument, which then must not look like an option itself. After two
dashes alone every argument is an input. Asking for help or for the version
stops the reading, and so does the first mistake; only what concerns the
arguments as a whole is looked at in the end. Names are texts; a path is whatever
bytes an argument has.
-/

namespace NotebookExtract.Command

/-- Options that are on or off. -/
inductive Switch where
  | stdout
  | codeOnly
  | keepComments
  | keepLineComments
  | keepDocstrings
deriving DecidableEq, Repr

/-- Options that take a value. -/
inductive Setting where
  | output
  | format
  | config
deriving DecidableEq, Repr

/-- What an option's name stands for. -/
inductive OptionName where
  | switch (s : Switch)
  | setting (s : Setting)
  | verbose
  | help
  | version
deriving DecidableEq, Repr

/-- Why the reading of arguments stops without a request. -/
inductive Stop where
  | usage
  | help
  | version
deriving DecidableEq, Repr

/-- The long names. -/
def longNames : List (Text × OptionName) := [
  ("output".toList, .setting .output),
  ("stdout".toList, .switch .stdout),
  ("format".toList, .setting .format),
  ("code-only".toList, .switch .codeOnly),
  ("keep-comments".toList, .switch .keepComments),
  ("keep-line-comments".toList, .switch .keepLineComments),
  ("keep-docstrings".toList, .switch .keepDocstrings),
  ("config".toList, .setting .config),
  ("verbose".toList, .verbose),
  ("help".toList, .help),
  ("version".toList, .version)]

/-- The letters. -/
def letters : List (UInt8 × OptionName) := [
  ('o'.toUInt8, .setting .output),
  ('f'.toUInt8, .setting .format),
  ('c'.toUInt8, .setting .config),
  ('v'.toUInt8, .verbose),
  ('h'.toUInt8, .help),
  ('V'.toUInt8, .version)]

/-- A dash, in front of every option. -/
def dash : UInt8 := '-'.toUInt8

/-- An equals sign, between an option and its value. -/
def equalsSign : UInt8 := '='.toUInt8

/-- What the arguments have said so far. -/
structure Draft where
  input : Option Bytes := none
  output : Option Bytes := none
  format : Option ArtifactFormat := none
  config : Option Bytes := none
  switches : List Switch := []
  verbosity : Nat := 0
deriving DecidableEq, Repr

namespace Draft

/-- Turns a switch on, once. -/
def turnOn (draft : Draft) (s : Switch) : Except Stop Draft :=
  if s ∈ draft.switches then .error .usage
  else .ok { draft with switches := s :: draft.switches }

/-- A path that an argument gives: once, and not empty. -/
def path (old : Option Bytes) (value : Bytes) : Except Stop Bytes :=
  if old.isSome || value.isEmpty then .error .usage else .ok value

/-- Gives an option its value, once. -/
def assign (draft : Draft) (s : Setting) (value : Bytes) : Except Stop Draft :=
  match s with
  | .output => do return { draft with output := some (← path draft.output value) }
  | .config => do return { draft with config := some (← path draft.config value) }
  | .format =>
    match draft.format, (Text.ofUtf8? value).bind ArtifactFormat.ofName? with
    | none, some format => .ok { draft with format := some format }
    | _, _ => .error .usage

/-- Takes an input, once. -/
def takeInput (draft : Draft) (value : Bytes) : Except Stop Draft := do
  return { draft with input := some (← path draft.input value) }

/-- Letters that stand together, and the option that waits for its value when
they end. -/
def readLetters (draft : Draft) : Bytes → Except Stop (Draft × Option Setting)
  | [] => .ok (draft, none)
  | letter :: rest =>
    match letters.lookup letter with
    | none => .error .usage
    | some .help => .error .help
    | some .version => .error .version
    | some .verbose => readLetters { draft with verbosity := draft.verbosity + 1 } rest
    | some (.switch s) => do readLetters (← draft.turnOn s) rest
    | some (.setting s) =>
      match rest with
      | [] => .ok (draft, some s)
      | byte :: value => do
        return (← draft.assign s (if byte = equalsSign then value else byte :: value), none)

/-- A long name with a value attached to it, if any, and the option that waits
for its value. -/
def readLong (draft : Draft) (name : Bytes) (value? : Option Bytes) :
    Except Stop (Draft × Option Setting) :=
  match (Text.ofUtf8? name).bind (longNames.lookup ·), value? with
  | some (.setting s), some value => do return (← draft.assign s value, none)
  | some (.setting s), none => .ok (draft, some s)
  | some .help, none => .error .help
  | some .version, none => .error .version
  | some .verbose, none => .ok ({ draft with verbosity := draft.verbosity + 1 }, none)
  | some (.switch s), none => do return (← draft.turnOn s, none)
  | _, _ => .error .usage

/-- A long option, after its two dashes; an equals sign attaches a value. -/
def readLongArgument (draft : Draft) (arg : Bytes) : Except Stop (Draft × Option Setting) :=
  match arg.dropWhile (· != equalsSign) with
  | [] => draft.readLong arg none
  | _ :: value => draft.readLong (arg.takeWhile (· != equalsSign)) (some value)

/-- Whether an argument can be a value or an input: it has no dash in front, or
is a dash alone. -/
def isPlain (arg : Bytes) : Bool :=
  arg.head? != some dash || arg == [dash]

/-- Inputs only. -/
def readInputs (draft : Draft) : List Bytes → Except Stop Draft
  | [] => .ok draft
  | arg :: rest => do readInputs (← draft.takeInput arg) rest

/-- One argument, and the option that waits for its value after it. -/
def readArgument (draft : Draft) (arg : Bytes) : Except Stop (Draft × Option Setting) :=
  if isPlain arg then do
    return (← draft.takeInput arg, none)
  else if [dash, dash].isPrefixOf arg then
    draft.readLongArgument (arg.drop 2)
  else
    draft.readLetters (arg.drop 1)

/-- All arguments. -/
def readAll (draft : Draft) : List Bytes → Except Stop Draft
  | [] => .ok draft
  | arg :: rest =>
    if arg = [dash, dash] then
      draft.readInputs rest
    else
      match draft.readArgument arg, rest with
      | .error stop, _ => .error stop
      | .ok (draft, none), rest => draft.readAll rest
      | .ok (_, some _), [] => .error .usage
      | .ok (draft, some s), value :: rest =>
        if isPlain value then
          match draft.assign s value with
          | .error stop => .error stop
          | .ok draft => draft.readAll rest
        else
          .error .usage

end Draft

/-- What a run is asked to do. -/
structure Request where
  /-- The notebook's path; a dash stands for standard input. -/
  input : Bytes
  output : Option Bytes
  stdout : Bool
  format : Option ArtifactFormat
  codeOnly : Bool
  keepComments : Bool
  keepLineComments : Bool
  keepDocstrings : Bool
  config : Option Bytes
  verbosity : Nat
deriving DecidableEq, Repr

/-- The request of a draft: it has an input, and asks for nothing that excludes
something else. -/
def Draft.toRequest? (draft : Draft) : Option Request := do
  let has (s : Switch) : Bool := draft.switches.contains s
  let request : Request := {
    input := ← draft.input
    output := draft.output
    stdout := has .stdout
    format := draft.format
    codeOnly := has .codeOnly
    keepComments := has .keepComments
    keepLineComments := has .keepLineComments
    keepDocstrings := has .keepDocstrings
    config := draft.config
    verbosity := draft.verbosity }
  if request.output.isSome && request.stdout then none
  else if request.keepComments && (request.keepLineComments || request.keepDocstrings) then none
  else some request

/-- The request that arguments spell. -/
def Request.ofArguments (args : List Bytes) : Except Stop Request := do
  match (← Draft.readAll {} args).toRequest? with
  | some request => return request
  | none => throw .usage

end NotebookExtract.Command
