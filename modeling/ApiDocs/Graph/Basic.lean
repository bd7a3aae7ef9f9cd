import ApiDocs.FlagSet
import ApiDocs.Number.Layout
import ApiDocs.SourcePath
import ApiDocs.Table

/-!
# Symbol graphs

A symbol graph is what is known of a program once its names and types are resolved: the source
files, the symbols they declare, and the types and signatures of those symbols. The parts refer to
one another by their position, so cycles (a class with a member of its own type, modules that
re-export each other) are as plain as anything else. The first file is the library that every
program has.

## Main definitions

* `SymbolId`, `TypeId`, `SignatureId`: positions.
* `Declaration`, `Symbol`, `TypeNode`, `Signature`, `SourceFile`: the parts.
* `OutputLayout`: where emitted files go.
* `SymbolGraph`: the graph.
* `SymbolGraph.outputPath`: the path of the file emitted for a source.
-/

namespace ApiDocs

/-- The position of a symbol in its graph. -/
structure SymbolId where
  index : Nat
  deriving DecidableEq, Repr, Inhabited, Hashable

/-- The position of a type in its graph. -/
structure TypeId where
  index : Nat
  deriving DecidableEq, Repr, Inhabited, Hashable

/-- The position of a signature in its graph. -/
structure SignatureId where
  index : Nat
  deriving DecidableEq, Repr, Inhabited, Hashable

/-- The lines of a source that something stands on, counted from one. -/
structure SourcePos where
  sourcePath : String
  firstLine : Nat
  lastLine : Nat
  deriving DecidableEq, Repr, Inhabited

/-- The value of a literal. -/
inductive Literal where
  | number (x : Binary64)
  | text (s : String)
  deriving DecidableEq, Repr, Inhabited

/-- A literal as it would be written in a source. -/
def Literal.display : Literal → String
  | .number x => x.text .plain
  | .text s => Text.quoted s

/-- What a declaration declares. -/
inductive DeclarationKind where
  | functionDecl
  | classDecl
  | interfaceDecl
  | enumDecl
  | enumMember
  | variableDecl
  | parameter
  | property
  | method
  | constructorDecl
  | accessor
  | indexSignature
  | typeAlias
  | typeParameter
  | moduleDecl
  | importDecl
  | exportSpecifier
  | other
  deriving DecidableEq, Repr, Inhabited

/-- Does a declaration of this kind declare a value? The first one that does is the value
declaration of its symbol. -/
def DeclarationKind.isValue : DeclarationKind → Bool
  | .interfaceDecl | .typeAlias | .typeParameter | .importDecl | .exportSpecifier
  | .indexSignature | .other => false
  | _ => true

/-- The key and value types of an index signature. -/
structure IndexTypes where
  key : Option TypeId
  value : Option TypeId
  deriving DecidableEq, Repr, Inhabited

/-- One declaration of a symbol. -/
structure Declaration where
  kind : DeclarationKind
  pos : SourcePos
  modifiers : ModifierFlags := .none
  /-- The symbols named in `extends` and `implements` clauses, in order. -/
  heritage : List SymbolId := []
  /-- Only index signatures have these. -/
  index : Option IndexTypes := none
  deriving DecidableEq, Repr, Inhabited

/-- Is the declaration marked private? -/
def Declaration.isPrivate (d : Declaration) : Bool := d.modifiers.has ModifierFlags.privateBit

/-- A declared name. -/
structure Symbol where
  name : String
  flags : SymbolFlags
  exports : Table String SymbolId := .empty
  members : Table String SymbolId := .empty
  declarations : List Declaration := []
  /-- A position in `declarations`. -/
  valueDeclaration : Option Nat := none
  typeId : Option TypeId := none
  aliasOf : Option SymbolId := none
  doc : String := ""
  deriving DecidableEq, Repr, Inhabited

/-- Is the symbol another name for a symbol? -/
def Symbol.isAlias (s : Symbol) : Bool := s.flags.has SymbolFlags.aliasBit

/-- The facts about a type. -/
structure TypeNode where
  flags : TypeFlags
  objectFlags : ObjectFlags := .none
  /-- The declaring symbol; of an instantiation, that of its target. -/
  symbol : Option SymbolId := none
  /-- The name of the instantiated declaration, for instantiations. -/
  targetName : Option String := none
  typeArguments : List TypeId := []
  /-- The members of a union or intersection. -/
  constituents : List TypeId := []
  literal : Option Literal := none
  isThisType : Bool := false
  display : String
  callSignatures : List SignatureId := []
  constructSignatures : List SignatureId := []
  deriving DecidableEq, Repr, Inhabited

/-- Is the type a union or an intersection? -/
def TypeNode.isCompound (t : TypeNode) : Bool :=
  t.flags.meets (TypeFlags.unionBit ∪ TypeFlags.intersectionBit)

/-- One way to call or construct a value. -/
structure Signature where
  parameters : List SymbolId
  returnType : TypeId
  pos : Option SourcePos := none
  doc : String := ""
  deriving DecidableEq, Repr, Inhabited

/-- A source file; a file that is a module has a symbol, whose exports are its own. -/
structure SourceFile where
  path : String
  symbol : Option SymbolId := none
  deriving DecidableEq, Repr, Inhabited

/-- Sources under `rootDir` are emitted under `outDir`. -/
structure OutputLayout where
  rootDir : String
  outDir : String
  deriving DecidableEq, Repr, Inhabited

/-- The path emitted for a source; a source outside the root keeps its directory. -/
def OutputLayout.map (layout : OutputLayout) (source extension : String) : String :=
  let emitted := SourcePath.replaceExtension source extension
  match SourcePath.strip? layout.rootDir.toList emitted.toList with
  | some relative => String.ofList (SourcePath.join layout.outDir.toList relative)
  | none => emitted

/-- The resolved symbols of one program. -/
structure SymbolGraph where
  files : List SourceFile := []
  symbols : Array Symbol := #[]
  types : Array TypeNode := #[]
  signatures : Array Signature := #[]
  layout : Option OutputLayout := none
  deriving DecidableEq, Repr, Inhabited

namespace SymbolGraph

/-- The path of the library, which is always the first file. -/
def libraryPath : String := "lib.d.ts"

/-- The symbol at a position. -/
def symbol? (g : SymbolGraph) (id : SymbolId) : Option Symbol := g.symbols[id.index]?

/-- The type at a position. -/
def type? (g : SymbolGraph) (id : TypeId) : Option TypeNode := g.types[id.index]?

/-- The signature at a position. -/
def signature? (g : SymbolGraph) (id : SignatureId) : Option Signature := g.signatures[id.index]?

/-- The first symbol called `name`. -/
def findSymbol (g : SymbolGraph) (name : String) : Option SymbolId :=
  (g.symbols.findIdx? (·.name == name)).map SymbolId.mk

/-- The path of the file emitted for a source. -/
def outputPath (g : SymbolGraph) (source extension : String) : String :=
  match g.layout with
  | some layout => layout.map source extension
  | none => SourcePath.replaceExtension source extension

end SymbolGraph

end ApiDocs
