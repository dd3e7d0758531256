import NotebookExtract.Association
import NotebookExtract.Notebook.Load

/-!
# Disks

What a run reaches through paths: folders, files, links and streams, each under its
location, the names that lead to it from the root. A path starts at the root or in the
working folder and is followed piece by piece. Every name but the last has to lead to a
folder, a link is replaced by the path it holds, and two dots lead to the folder above,
which of the root is the root itself. A path may lead to a place where nothing is yet,
and a file can be written there.
-/

namespace NotebookExtract

/-- The names that lead to a place from the root. -/
abbrev Location := List Bytes

/-- A device, a pipe or a terminal. -/
structure Stream where
  /-- What a reader gets from it. -/
  gives : Except FileFailure Bytes
  /-- Why it takes nothing, if it does not. -/
  refuses : Option FileFailure := none
  /-- Whether what it takes shows on standard output. -/
  isOutput : Bool := false

/-- What can stand at a location. -/
inductive Entry where
  | folder
  | file (content : Bytes)
  | link (target : Bytes)
  | stream (stream : Stream)

/-- What there is below the root. -/
structure Disk where
  /-- The working folder. -/
  home : Location := []
  entries : List (Location × Entry) := []
  /-- What may not be read, or of a folder not looked into. -/
  locked : List Location := []
  /-- What may not be written, or of a folder not added to. -/
  frozen : List Location := []

namespace Disk

/-! ## Paths -/

/-- What divides the pieces of a path. -/
def slash : UInt8 := '/'.toUInt8

/-- The pieces of a path between its slashes. -/
def pieces (path : Bytes) : List Bytes := path.splitOn slash

/-- A piece that leads nowhere else. -/
def isIdle (piece : Bytes) : Bool := piece.isEmpty || piece == ['.'.toUInt8]

/-- The name of the folder above. -/
def up : Bytes := ['.'.toUInt8, '.'.toUInt8]

/-- Whether a path starts at the root. -/
def isAbsolute (path : Bytes) : Bool := path.head? == some slash

/-- The names on a path. -/
def names (path : Bytes) : List Bytes := (pieces path).filter (!isIdle ·)

/-- Where a path starts that is found in a folder. -/
def start (here : Location) (path : Bytes) : Location :=
  if isAbsolute path then [] else here

/-- The most bytes that a name may have. -/
def maxNameBytes : Nat := 255

/-- The most bytes that a path may have. -/
def maxPathBytes : Nat := 4095

/-- The most links that a path may lead through. -/
def maxLinks : Nat := 40

/-! ## Following a path -/

/-- What stands at a location. The working folder and the folders above it are
there. -/
def get? (disk : Disk) (location : Location) : Option Entry :=
  if location.isPrefixOf disk.home then some .folder else disk.entries.lookup location

/-- Follows pieces from a folder up to the first link, from where `again` goes on. -/
def followWith (disk : Disk) (again : Location → List Bytes → Except FileFailure Location) :
    Location → List Bytes → Except FileFailure Location
  | here, [] => .ok here
  | here, piece :: rest =>
    if isIdle piece then
      followWith disk again here rest
    else if disk.locked.contains here then
      .error .denied
    else if piece = up then
      followWith disk again here.dropLast rest
    else if maxNameBytes < piece.length then
      .error .nameTooLong
    else
      match disk.get? (here ++ [piece]) with
      | some .folder => followWith disk again (here ++ [piece]) rest
      | some (.link target) => again (start here target) (pieces target ++ rest)
      | some (.file _) | some (.stream _) =>
        if rest.isEmpty then .ok (here ++ [piece]) else .error .notAFolder
      | none => if rest.isEmpty then .ok (here ++ [piece]) else .error .notFound

/-- Follows pieces from a folder through so many links at most. -/
def follow (disk : Disk) : Nat → Location → List Bytes → Except FileFailure Location
  | 0 => disk.followWith fun _ _ => .error .tooManyLinks
  | links + 1 => disk.followWith (disk.follow links)

/-- The location that a path leads to. -/
def locate (disk : Disk) (path : Bytes) : Except FileFailure Location :=
  if maxPathBytes < path.length then .error .nameTooLong
  else disk.follow maxLinks (start disk.home path) (pieces path)

/-- The path of the working folder. -/
def homePath (disk : Disk) : Bytes := slash :: [slash].intercalate disk.home

/-! ## Reading and writing -/

/-- Whether a path leads to a file. -/
def isFile (disk : Disk) (path : Bytes) : Bool :=
  match disk.locate path with
  | .error _ => false
  | .ok location =>
    match disk.get? location with
    | some (.file _) => true
    | _ => false

/-- The bytes that are found at a location. -/
def readAt (disk : Disk) (location : Location) : Except FileFailure Bytes :=
  if disk.locked.contains location then
    .error .denied
  else
    match disk.get? location with
    | some (.file content) => .ok content
    | some (.stream stream) => stream.gives
    | some .folder => .error .isAFolder
    | some (.link _) | none => .error .notFound

/-- The bytes that a path leads to. -/
def read (disk : Disk) (path : Bytes) : Except FileFailure Bytes :=
  (disk.locate path).bind disk.readAt

/-- Where written bytes go. -/
inductive Sink where
  | file (location : Location)
  | stream (stream : Stream)

/-- Where bytes go that are written at a location: to a stream that takes them, or to a
file, which may be new in its folder. -/
def sinkAt (disk : Disk) (location : Location) : Except FileFailure Sink :=
  match disk.get? location with
  | some .folder => .error .isAFolder
  | some (.stream stream) =>
    match stream.refuses with
    | some why => .error why
    | none => .ok (.stream stream)
  | some (.file _) =>
    if disk.frozen.contains location then .error .denied else .ok (.file location)
  | some (.link _) | none =>
    if disk.frozen.contains location.dropLast then .error .denied else .ok (.file location)

/-- Where bytes go that are written to a path. -/
def sink (disk : Disk) (path : Bytes) : Except FileFailure Sink :=
  (disk.locate path).bind disk.sinkAt

/-- The disk with a file at a location. -/
def put (disk : Disk) (location : Location) (content : Bytes) : Disk :=
  { disk with entries := Association.put disk.entries location (.file content) }

/-- A file that is put somewhere else than a folder is there, and nothing else
changes. -/
theorem get?_put {disk : Disk} {location : Location}
    (h : location.isPrefixOf disk.home = false) (content : Bytes) (other : Location) :
    (disk.put location content).get? other =
      if other = location then some (.file content) else disk.get? other := by
  have hlookup := Association.lookup_put disk.entries location other (.file content)
  by_cases heq : other = location
  · subst heq
    simp [get?, put, h, hlookup]
  · simp [get?, put, hlookup, heq]

end Disk

end NotebookExtract
