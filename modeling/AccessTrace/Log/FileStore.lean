import AccessTrace.Log.Sink
import AccessTrace.Text.Blank

/-!
Directories and files by path, and files opened for writing. A path is followed component by
component from the root or from the working directory; `.` stays and `..` goes up, and both a path
and a name in it have a greatest length. Each open file has a position of its own and holds back
up to `holdBack` bytes, so two openings of one file write over each other.
-/

namespace AccessTrace

/-- The components of a path from the root on. -/
abbrev Path := List String

/-- What a file does with the bytes that are put into it. -/
inductive FileKind where
  /-- Keeps them in the contents of this number. -/
  | regular (number : Nat)
  /-- Takes them and keeps nothing. -/
  | null
  /-- Has no room for any. -/
  | full
deriving DecidableEq, Repr

/-- A file opened for writing. -/
structure OpenFile where
  kind : FileKind
  position : Nat
  /-- Bytes that were written and not yet put into the file. -/
  held : List UInt8
deriving DecidableEq

structure FileStore where
  workingDirectory : Path
  directories : List Path
  /-- The files that have a name. -/
  files : List (Path × FileKind)
  contents : Array (List UInt8)
  openFiles : Array OpenFile

namespace FileStore

/-- How many bytes an open file holds back at most. -/
def holdBack : Nat := 8192

/-- The greatest length of a path in bytes. -/
def pathLimit : Nat := 4095

/-- The greatest length of a name in bytes. -/
def nameLimit : Nat := 255

/-- The directory of the devices. -/
def deviceDirectory : Path := ["dev"]

/-- The files that are there from the start, by what they do when they are written to. The standard
streams are among them, and are never opened as files. -/
def devices : List (Path × FileKind) :=
  [("null", .null), ("zero", .null), ("random", .null), ("urandom", .null), ("full", .full),
    ("stdout", .null), ("stderr", .null)].map fun (name, kind) => (deviceDirectory ++ [name], kind)

/-- A store with the given directories and nothing in them. -/
def ofDirectories (workingDirectory : Path) (directories : List Path) : FileStore :=
  ⟨workingDirectory, deviceDirectory :: directories, devices, #[], #[]⟩

def isDirectoryAt (s : FileStore) (p : Path) : Bool :=
  p.isEmpty || s.directories.contains p

/-- The contents of the file of this name. -/
def contentsAt? (s : FileStore) (p : Path) : Option (List UInt8) :=
  match s.files.lookup p with
  | some (.regular number) => s.contents[number]?
  | some _ => some []
  | none => none

/-- Follows components through directories. -/
def walk (s : FileStore) (current : Path) : List String → Except IoFailure Path
  | [] => .ok current
  | "." :: rest => walk s current rest
  | ".." :: rest => walk s current.dropLast rest
  | name :: rest =>
    let next := current ++ [name]
    if nameLimit < name.utf8ByteSize then .error .nameTooLong
    else if s.isDirectoryAt next then walk s next rest
    else if (s.files.lookup next).isSome then .error .notDirectory
    else .error .notFound

/-- A path and all directories on the way to it. -/
def ancestors (p : Path) : List Path :=
  (List.range (p.length + 1)).map p.take

/-- The components of a written path. -/
def componentsOf (path : String) : List String :=
  ((Text.pieces '/' path.toList).filter fun name => !name.isEmpty).map String.ofList

/-- The components of a path that is neither empty nor too long. -/
def components? (path : String) : Except IoFailure (List String) :=
  if path.isEmpty then .error .notFound
  else if pathLimit < path.utf8ByteSize then .error .nameTooLong
  else .ok (componentsOf path)

def startsWithSlash (path : String) : Bool :=
  path.toList.head? == some '/'

def endsInSlash (path : String) : Bool :=
  path.toList.getLast? == some '/'

/-- Where a written path starts from. -/
def origin (s : FileStore) (path : String) : Path :=
  if startsWithSlash path then [] else s.workingDirectory

/-- The directory that a path leads to. -/
def directory? (s : FileStore) (path : String) : Except IoFailure Path := do
  s.walk (s.origin path) (← components? path)

def isDirectory (s : FileStore) (path : String) : Bool :=
  match s.directory? path with
  | .ok _ => true
  | .error _ => false

/-- What a path leads to without its last component: that component, and the directory that it is
looked up in. A path that ends in `.`, in `..` or in no component at all names a directory. -/
def split? (s : FileStore) (path : String) : Except IoFailure (Path × String) := do
  let components ← components? path
  match components.getLast? with
  | none => throw .isDirectory
  | some name =>
    let parent ← s.walk (s.origin path) components.dropLast
    if name = "." ∨ name = ".." then throw .isDirectory
    return (parent, name)

/-- The name that a file to be created will have. -/
def newFile? (s : FileStore) (path : String) : Except IoFailure Path := do
  let (parent, name) ← s.split? path
  if endsInSlash path ∨ s.isDirectoryAt (parent ++ [name]) then throw .isDirectory
  if nameLimit < name.utf8ByteSize then throw .nameTooLong
  return parent ++ [name]

/-- Opens a file and gives the number of the open file. -/
def openFile (s : FileStore) (kind : FileKind) : Nat × FileStore :=
  (s.openFiles.size, { s with openFiles := s.openFiles.push ⟨kind, 0, []⟩ })

/-- Takes the contents out of a file. -/
def truncate (s : FileStore) : FileKind → FileStore
  | .regular number => { s with contents := s.contents.setIfInBounds number [] }
  | _ => s

/-- Adds a file without contents. -/
def addFile (s : FileStore) (name : Path) : FileKind × FileStore :=
  let kind := .regular s.contents.size
  (kind, { s with files := s.files ++ [(name, kind)], contents := s.contents.push [] })

/-- Creates a file, or empties the one of that name, and opens it; gives the number of the open
file. -/
def create (path : String) : EStateM IoFailure FileStore Nat := do
  let s ← get
  match s.newFile? path with
  | .error e => throw e
  | .ok name =>
    let (number, s) :=
      match s.files.lookup name with
      | some kind => (s.truncate kind).openFile kind
      | none =>
        let (kind, s) := s.addFile name
        s.openFile kind
    set s
    return number

/-- The contents of a file. -/
def read (s : FileStore) (path : String) : Except IoFailure (List UInt8) := do
  if s.isDirectory path then throw .isDirectory
  let (parent, name) ← s.split? path
  if nameLimit < name.utf8ByteSize then throw .nameTooLong
  match s.contentsAt? (parent ++ [name]) with
  | none => throw .notFound
  | some bytes => if endsInSlash path then throw .notDirectory else return bytes

/-- Contents after bytes were put at a position; a gap before them is filled with zeros. -/
def overlay (contents : List UInt8) (position : Nat) (bytes : List UInt8) : List UInt8 :=
  contents.take position ++ List.replicate (position - contents.length) 0 ++ bytes ++
    contents.drop (position + bytes.length)

/-- Puts bytes into the file at the position of an open file, which moves behind them. No bytes
leave the file as it is, even if the position is behind its end. -/
def put (s : FileStore) (number : Nat) (bytes : List UInt8) : Except IoFailure FileStore :=
  match s.openFiles[number]? with
  | none => .ok s
  | some o =>
    if bytes.isEmpty then .ok s
    else
      match o.kind with
      | .regular file =>
        .ok { s with
          contents := s.contents.modify file fun contents => overlay contents o.position bytes
          openFiles := s.openFiles.setIfInBounds number
            { o with position := o.position + bytes.length } }
      | .null => .ok s
      | .full => .error .noSpace

def held (s : FileStore) (number : Nat) : List UInt8 :=
  (s.openFiles[number]?.map (·.held)).getD []

def setHeld (s : FileStore) (number : Nat) (held : List UInt8) : FileStore :=
  { s with openFiles := s.openFiles.modify number fun o => { o with held } }

/-- Puts the held bytes into the file; if it does not take them they stay held. -/
def putHeld (s : FileStore) (number : Nat) : Except IoFailure FileStore :=
  return (← s.put number (s.held number)).setHeld number []

/-- Writes to an open file. Bytes that there is room for are held back; otherwise those held are
put first, and a write as long as all the room goes past it. -/
def write (s : FileStore) (number : Nat) (bytes : List UInt8) : Except IoFailure FileStore := do
  let room := holdBack - (s.held number).length
  let s ← if room < bytes.length then s.putHeld number else pure s
  if holdBack ≤ bytes.length then s.put number bytes
  else return s.setHeld number (s.held number ++ bytes)

/-- Replaces the store by the answer of an all-or-nothing operation. -/
def step (operation : FileStore → Except IoFailure FileStore) : EStateM IoFailure FileStore Unit :=
  fun s =>
    match operation s with
    | .ok s => .ok () s
    | .error e => .error e s

/-- The writer of an open file. -/
def writer (number : Nat) : Writer FileStore where
  write bytes := step (·.write number bytes)
  flush := step (·.putHeld number)
  abandon s := (s.putHeld number).toOption.getD s

/-- Removes a directory with all that is in it, and tells whether there was one; open files stay
open. -/
def removeDirectory (s : FileStore) (p : Path) : Bool × FileStore :=
  (s.isDirectoryAt p,
    { s with
      directories := s.directories.filter fun d => !p.isPrefixOf d
      files := s.files.filter fun f => !p.isPrefixOf f.1 })

end FileStore

end AccessTrace
