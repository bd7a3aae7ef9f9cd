import ApiDocs.Binding.Declarations
import ApiDocs.Binding.Link
import ApiDocs.TypeScript.Parser.Grammar

/-!
# Binding sources

A binder collects sources and binds them into one symbol graph. Each source is known by the normal
form of its path, and no two by the same.

## Main definitions

* `BindError`: why sources are refused.
* `Binder`: sources, and where their emitted files go.
* `SourceParser`: how sources are read.
* `Binder.addSource`: add a source.
* `Binder.bind`: the symbol graph of all sources.
-/

namespace ApiDocs

open TypeScript (SourceTree Dialect)

/-- Why sources are refused. -/
inductive BindError where
  | unreadable (path cause : String)
  | unparsable (path : String) (complaints : List String)
  | duplicate (path : String)
  deriving DecidableEq, Repr, Inhabited

/-- The text of an error. -/
def BindError.message : BindError → String
  | unreadable path cause => "failed to read source '" ++ path ++ "': " ++ cause
  | unparsable path complaints =>
    "failed to parse source '" ++ path ++ "': " ++ "; ".intercalate complaints
  | duplicate path => "source '" ++ path ++ "' was added twice"

/-- Sources by their paths, and where their emitted files go. -/
structure Binder where
  sources : List (String × String) := []
  layout : Option OutputLayout := none
  deriving DecidableEq, Repr, Inhabited

/-- A parser: of the source at a path with a text, its tree and what the names in it mean, or what is
wrong with it. -/
abbrev SourceParser := String → String → Except (List String) (SourceTree × Scoping)

/-- The parser of sources as they are written. -/
def SourceParser.standard : SourceParser := fun path text =>
  match SourceTree.parse (Dialect.ofPath path) text with
  | .ok tree => .ok (tree, .lexical)
  | .error e => .error [e.message]

/-- A source with its tree and what the names in it mean. -/
structure ParsedSource where
  path : String
  text : String
  tree : SourceTree
  scoping : Scoping
  deriving Inhabited

/-- Parse a source. -/
def ParsedSource.parse (parser : SourceParser) (path text : String) :
    Except BindError ParsedSource :=
  match parser path text with
  | .ok (tree, scoping) => .ok { path, text, tree, scoping }
  | .error complaints => .error (.unparsable path complaints)

/-- The draft of parsed sources, in order. -/
def GraphDraft.ofSources (sources : List ParsedSource) : GraphDraft :=
  sources.zipIdx.foldl
    (fun d (s, file) => ((addSource file s.path s.text s.tree s.scoping).run d).2) .start

/-- The symbol graph of parsed sources. -/
def SymbolGraph.ofSources (sources : List ParsedSource) (layout : Option OutputLayout) :
    SymbolGraph :=
  let d := GraphDraft.ofSources sources
  let builder :=
    match layout with
    | some l => d.builder.setLayout l
    | none => d.builder
  { d with builder }.link

namespace Binder

/-- Add a source under the normal form of its path. -/
def addSource (b : Binder) (path text : String) : Except BindError Binder :=
  let path := SourcePath.normalize path
  if b.sources.any (·.1 == path) then .error (.duplicate path)
  else .ok { b with sources := b.sources ++ [(path, text)] }

/-- Set where emitted files go. -/
def withLayout (b : Binder) (layout : OutputLayout) : Binder := { b with layout := some layout }

/-- The symbol graph of all sources, as a parser reads them. The first source that does not parse is
refused. -/
def bindWith (parser : SourceParser) (b : Binder) : Except BindError SymbolGraph := do
  let parsed ← b.sources.mapM fun (path, text) => ParsedSource.parse parser path text
  return SymbolGraph.ofSources parsed b.layout

/-- **The symbol graph of all sources.** -/
def bind (b : Binder) : Except BindError SymbolGraph := b.bindWith .standard

end Binder

end ApiDocs
