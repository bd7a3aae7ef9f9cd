import ApiDocs.SourcePath
import ApiDocs.Table

/-!
# Files

What the program asks of files: what stands at a path, the content of a file, and to write one.
Programs that use files are written for any monad with these questions. A `FileStore` answers them
from memory, so what such a program does can be followed without touching a disk.

## Main definitions

* `FileError`: why a file cannot be used.
* `MonadFiles`: a monad in which files can be read and written.
* `FileStore`: a tree of files in memory, with a working directory.
-/

namespace ApiDocs

/-- The kinds of failure that are told apart. -/
inductive FileErrorKind where
  | notFound
  | denied
  | alreadyThere
  | notDirectory
  | isDirectory
  | notText
  | other
  deriving DecidableEq, Repr, Inhabited

/-- Why a file cannot be used: the kind of failure, and what is said about it. -/
structure FileError where
  kind : FileErrorKind
  message : String
  deriving DecidableEq, Repr, Inhabited

namespace FileError

/-- There is nothing at the path. -/
def notFound : FileError := ⟨.notFound, "No such file or directory (os error 2)"⟩

/-- The file may not be used. -/
def denied : FileError := ⟨.denied, "Permission denied (os error 13)"⟩

/-- There is something at the path already. -/
def alreadyThere : FileError := ⟨.alreadyThere, "File exists (os error 17)"⟩

/-- A file stands where a directory is needed. -/
def notDirectory : FileError := ⟨.notDirectory, "Not a directory (os error 20)"⟩

/-- A directory stands where a file is needed. -/
def isDirectory : FileError := ⟨.isDirectory, "Is a directory (os error 21)"⟩

/-- The content of the file is no text. -/
def notText : FileError := ⟨.notText, "stream did not contain valid UTF-8"⟩

end FileError

/-- A monad in which files can be read and written. -/
class MonadFiles (m : Type → Type) where
  isFile : String → m Bool
  isDirectory : String → m Bool
  read : String → m (Except FileError String)
  write : (path content : String) → m (Except FileError Unit)
  /-- Make a directory and those that it lies in, unless they are there. -/
  makeDirectories : String → m (Except FileError Unit)
  /-- The absolute path of the directory that relative paths start in. -/
  workingDirectory : m String

/-- Is there anything at the path? -/
def MonadFiles.pathExists {m : Type → Type} [Monad m] [MonadFiles m] (path : String) : m Bool := do
  if ← isFile path then return true else isDirectory path

/-- A place in a tree of files: the names on the way from the root. -/
abbrev Place := List (List Char)

/-- A tree of files. A directory is there when something lies in it, or when it was made. -/
structure FileStore where
  /-- The absolute path of the working directory. -/
  root : String
  files : Table Place String := .empty
  directories : List Place := []
  deriving Repr

namespace FileStore

/-- What stands at a place in a store. -/
inductive Entry where
  | file (content : String)
  | directory
  deriving DecidableEq, Repr

/-- The place of an absolute path. -/
def placeOf (path : String) : Place := (SourcePath.fold path.toList).segments.reverse

/-- The place of the working directory. -/
def home (s : FileStore) : Place := placeOf s.root

/-- What stands at a place. -/
def nodeAt? (s : FileStore) (place : Place) : Option Entry :=
  match s.files.get? place with
  | some content => some (.file content)
  | none =>
    if (s.home :: s.directories ++ s.files.keys).any (place.isPrefixOf ·) then some .directory
    else none

/-- Walk along components from a place, which is given from the inside out. Only directories can
be walked through, and the root is its own parent. -/
def walk (s : FileStore) : Place → List SourcePath.Component → Except FileError Place
  | inner, [] => .ok inner
  | inner, c :: rest =>
    match s.nodeAt? inner.reverse with
    | none => .error .notFound
    | some (.file _) => .error .notDirectory
    | some .directory =>
      match c with
      | .name segment => s.walk (segment :: inner) rest
      | .parent => s.walk inner.tail rest
      | _ => s.walk inner rest

/-- The place that a path leads to. -/
def locate (s : FileStore) (path : String) : Except FileError Place :=
  if path.isEmpty then .error .notFound
  else
    let start := if SourcePath.isAbsolute path.toList then [] else s.home.reverse
    (s.walk start (SourcePath.components path.toList)).map List.reverse

/-- Does a path name a directory by the way it ends? -/
def endsInSlash (path : String) : Bool :=
  match path.toList.reverse with
  | '/' :: _ => true
  | '.' :: '/' :: _ => true
  | _ => false

/-- What a path leads to. -/
def find (s : FileStore) (path : String) : Except FileError Entry := do
  match s.nodeAt? (← s.locate path) with
  | some (.file content) =>
    if endsInSlash path then throw .notDirectory else return .file content
  | some .directory => return .directory
  | none => throw .notFound

/-- The content of a file. -/
def read (s : FileStore) (path : String) : Except FileError String := do
  match ← s.find path with
  | .file content => return content
  | .directory => throw .isDirectory

/-- Is there a file at the path? -/
def isFile (s : FileStore) (path : String) : Bool :=
  match s.find path with
  | .ok (.file _) => true
  | _ => false

/-- Is there a directory at the path? -/
def isDirectory (s : FileStore) (path : String) : Bool :=
  match s.find path with
  | .ok .directory => true
  | _ => false

/-- Put a file into the store, in the working directory and with all directories that it needs. -/
def put (s : FileStore) (path content : String) : FileStore :=
  let place := placeOf (String.ofList (SourcePath.join s.root.toList path.toList))
  { s with files := s.files.insert place content }

/-- Write a file in a directory that is there. -/
def write (s : FileStore) (path content : String) : Except FileError FileStore := do
  let place ← s.locate path
  match s.nodeAt? place.dropLast, s.nodeAt? place with
  | _, some .directory => throw .isDirectory
  | some .directory, _ =>
    if endsInSlash path then throw .isDirectory
    else return { s with files := s.files.insert place content }
  | some (.file _), _ => throw .notDirectory
  | none, _ => throw .notFound

/-- Make a directory in one that is there, unless it is there itself. -/
def makeDirectory (s : FileStore) (place : Place) : Except FileError FileStore :=
  match s.nodeAt? place with
  | some .directory => .ok s
  | some (.file _) => .error .alreadyThere
  | none => .ok { s with directories := s.directories ++ [place] }

/-- Make the directories along a path, from the outside in. -/
def makeAlong (s : FileStore) : Place → List SourcePath.Component → Except FileError FileStore
  | _, [] => .ok s
  | inner, c :: rest => do
    let inner :=
      match c with
      | .name segment => segment :: inner
      | .parent => inner.tail
      | _ => inner
    (← s.makeDirectory inner.reverse).makeAlong inner rest

/-- Make a directory and those that it lies in. -/
def makeDirectories (s : FileStore) (path : String) : Except FileError FileStore :=
  let start := if SourcePath.isAbsolute path.toList then [] else s.home.reverse
  s.makeAlong start (SourcePath.components path.toList)

/-- The files in the working directory and below, by their paths from there. -/
def listing (s : FileStore) : List (String × String) :=
  s.files.entries.filterMap fun (place, content) =>
    (s.home.isPrefixOf? place).map fun inner =>
      (String.ofList ((['/'] : List Char).intercalate inner), content)

end FileStore

/-- Run a step that may change a store. -/
def FileStore.attempt (step : FileStore → Except FileError FileStore) :
    StateM FileStore (Except FileError Unit) := do
  match step (← get) with
  | .ok s => set s; return .ok ()
  | .error e => return .error e

instance : MonadFiles (StateM FileStore) where
  isFile path := do return (← get).isFile path
  isDirectory path := do return (← get).isDirectory path
  read path := do return (← get).read path
  write path content := FileStore.attempt (·.write path content)
  makeDirectories path := FileStore.attempt (·.makeDirectories path)
  workingDirectory := do return (← get).root

end ApiDocs
