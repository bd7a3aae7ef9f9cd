import ApiDocs.Text.Blank

/-!
# Source paths

Paths are texts with `/` between their segments. Two paths are compared by their *components*: the
root, a dot that starts a relative path, `..`, and names. Repeated slashes and other dots do not
count. `normalize` brings a path into the one form that the modules of a program are known by, and
`join` and `strip?` build and take apart paths without touching the text of their remainders.

## Main definitions

* `SourcePath.Component`, `SourcePath.components`: what a path consists of.
* `SourcePath.normalize`: the normal form, with `.` and `..` folded.
* `SourcePath.join`, `SourcePath.strip?`: joining, relative remainder.
* `SourcePath.parent`, `SourcePath.directory`: the directory, of a normal form and of any path.
* `SourcePath.replaceExtension`: the path of the emitted file.
-/

namespace ApiDocs.SourcePath

/-- A component of a path. -/
inductive Component where
  | root
  | current
  | parent
  | name (segment : List Char)
  deriving DecidableEq, Repr

/-- The component that a segment behind the first position stands for, if any. -/
def Component.ofSegment? (segment : List Char) : Option Component :=
  match segment with
  | [] => none
  | ['.'] => none
  | ['.', '.'] => some .parent
  | _ => some (.name segment)

/-- Is the path absolute? -/
def isAbsolute (path : List Char) : Bool := path.head? == some '/'

/-- Does the path start with a dot of its own? -/
def startsWithDot (path : List Char) : Bool :=
  match path with
  | ['.'] => true
  | '.' :: '/' :: _ => true
  | _ => false

/-- The component at the very start of a path, if it has one of those that occur only there. -/
def leading (path : List Char) : List Component :=
  if isAbsolute path then [.root] else if startsWithDot path then [.current] else []

/-- The components of a path. -/
def components (path : List Char) : List Component :=
  leading path ++ (Text.splitOn '/' path).filterMap Component.ofSegment?

/-! ## Normal form -/

/-- Segments of a path and whether it is absolute; the last segment comes first. -/
structure Folded where
  absolute : Bool
  segments : List (List Char)
  deriving DecidableEq, Repr

/-- Fold one component. A parent takes back a name; without a name to take back it stays in a
relative path and is lost at the root. -/
def Folded.step (f : Folded) : Component → Folded
  | .root => { f with absolute := true }
  | .current => f
  | .parent =>
    match f.segments with
    | last :: rest =>
      if last = ['.', '.'] then
        if f.absolute then f else { f with segments := ['.', '.'] :: f.segments }
      else { f with segments := rest }
    | [] => if f.absolute then f else { f with segments := [['.', '.']] }
  | .name segment => { f with segments := segment :: f.segments }

/-- All components of a path folded. -/
def fold (path : List Char) : Folded := (components path).foldl Folded.step ⟨false, []⟩

/-- The text of a folded path. -/
def Folded.text (f : Folded) : List Char :=
  let joined := (['/'] : List Char).intercalate f.segments.reverse
  if f.absolute then '/' :: joined else joined

/-- **The normal form of a path:** no dots, no empty segments, `..` only in front of a relative
path. -/
def normalize (path : String) : String := String.ofList (fold path.toList).text

/-! ## Joining and taking apart -/

/-- The path `relative` seen from the directory `base`. An absolute path stays as it is; an empty
one leaves a slash behind the directory. -/
def join (base relative : List Char) : List Char :=
  if isAbsolute relative then relative
  else
    match base.getLast? with
    | none => relative
    | some '/' => base ++ relative
    | some _ => base ++ '/' :: relative

/-- Does a segment stand for nothing? -/
def isVoid (segment : List Char) : Bool := segment == [] || segment == ['.']

/-- Remove the segments at the end that stand for nothing. -/
def dropVoidEnd (path : List Char) : List Char :=
  let segments := (Text.splitOn '/' path).reverse.dropWhile isVoid
  (['/'] : List Char).intercalate segments.reverse

/-- Remove the segments at both ends that stand for nothing. -/
def dropVoidEnds (path : List Char) : List Char :=
  let segments := ((Text.splitOn '/' path).dropWhile isVoid).reverse.dropWhile isVoid
  (['/'] : List Char).intercalate segments.reverse

/-- The first segment of a body with a meaning, as a component, and the text behind it. -/
def nextInBody (body : List Char) : Option (Component × List Char) :=
  let segments := (Text.splitOn '/' body).dropWhile isVoid
  match segments with
  | [] => none
  | s :: rest => (Component.ofSegment? s).map fun c => (c, (['/'] : List Char).intercalate rest)

/-- Take the given components off a body. -/
def stripBody : List Component → List Char → Option (List Char)
  | [], body => some (dropVoidEnds body)
  | c :: cs, body =>
    match nextInBody body with
    | some (d, rest) => if c = d then stripBody cs rest else none
    | none => none

/-- The text of `path` behind its first component, which is the root or a leading dot. -/
def behindLeading (path : List Char) : List Char := path.drop 1

/-- The rest of `path` behind the directory `base`, if `path` lies under it. The two are compared
by components, and the text of the rest is kept. -/
def strip? (base path : List Char) : Option (List Char) :=
  match components base with
  | [] =>
    if isAbsolute path || startsWithDot path then
      some (path.take 1 ++ dropVoidEnd (behindLeading path))
    else some (dropVoidEnd path)
  | cs =>
    match leading path with
    | [c] => if cs.head? = some c then stripBody cs.tail (behindLeading path) else none
    | _ => stripBody cs path

/-- The directory of a path in normal form; the root and the empty path are in none. -/
def parent (path : List Char) : List Char :=
  if path = ['/'] then []
  else
    match (Text.splitOn '/' path).dropLast with
    | [[]] => ['/']
    | kept => (['/'] : List Char).intercalate kept

/-- The path without its last segment that counts; empty if nothing is left. -/
def directory (path : List Char) : List Char :=
  let segments := ((Text.splitOn '/' path).reverse.dropWhile isVoid).drop 1
  let kept := (['/'] : List Char).intercalate segments.reverse
  if kept.isEmpty && isAbsolute path then ['/'] else kept

/-! ## Emitted files -/

/-- The text of a path behind its last slash. -/
def fileName (path : List Char) : List Char := (path.reverse.takeWhile (· ≠ '/')).reverse

/-- The extension of a path: what stands behind the last dot of its file name. A dot at the start of
the file name starts no extension. -/
def extension (path : List Char) : List Char :=
  let name := fileName path
  if name.tail.contains '.' then (name.reverse.takeWhile (· ≠ '.')).reverse else []

/-- The extensions of sources, longer ones before those they end in. -/
def sourceExtensions : List String := [".d.ts", ".tsx", ".ts", ".mts", ".cts", ".jsx"]

/-- The path without the extension of a source. -/
def stem (path : List Char) : List Char :=
  match sourceExtensions.findSome? fun e => Text.stripEnd? e.toList path with
  | some rest => rest
  | none => path

/-- The path with the extension of a source replaced. The dot before the extension may be given
or left out. -/
def replaceExtension (path extension : String) : String :=
  String.ofList (stem path.toList ++ '.' :: extension.toList.dropWhile (· = '.'))

end ApiDocs.SourcePath
